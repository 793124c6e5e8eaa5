import HttpBackground.TimerLoop
import Mathlib.Data.Finset.Card

/-!
# One tick with arbitrary callbacks

The loop of `timerMsgProc` walks the map from one key to the next greater one, and
whatever the callbacks do to the entries before and behind it, the iterator's own
entry stays. So a tick over finitely many addresses comes to its end, and what it
leaves in the map is what the callbacks and its own erasures have made of it.
-/
namespace HttpBackground

/-- What a callback does to the map. -/
inductive Effect
  | subscribe (o : ℕ)
  | unsubscribe (o : ℕ)
  deriving DecidableEq, Repr

namespace Effect

/-- The object whose entry it is about. -/
def object : Effect → ℕ
  | .subscribe o | .unsubscribe o => o

def apply (m : Subscribers) : Effect → Subscribers
  | .subscribe o => m.subscribe o
  | .unsubscribe o => m.erase o

/-- Whether an object is in the map after the effect, given whether it was before. -/
def present (o : ℕ) (before : Bool) : Effect → Bool
  | .subscribe j => if j = o then true else before
  | .unsubscribe j => if j = o then false else before

end Effect

/-- What a callback may do: change the map, or call the timer procedure again. -/
inductive CallbackAct
  | effect (e : Effect)
  | timer

namespace CallbackAct

def effect? : CallbackAct → Option Effect
  | .effect e => some e
  | .timer => none

end CallbackAct

/-- A notification of the tick: the object, what its callback did to the map and
what `notify` returned. -/
structure Notification where
  object : ℕ
  effects : List Effect
  ret : NextTimer
  deriving DecidableEq, Repr

/-- The same for a notification, with the erasure that follows a `kTimerStop`. -/
def Notification.present (o : ℕ) (before : Bool) (n : Notification) : Bool :=
  if n.object = o ∧ n.ret = .kTimerStop then false else n.effects.foldl (Effect.present o) before

/-- The callbacks: what each object does and returns, given the notifications before. -/
abbrev Callbacks := List Notification → ℕ → List CallbackAct × NextTimer

/-- They leave the object they are called on alone and subscribe none outside `A`. -/
def Callbacks.Admissible (A : Finset ℕ) (cb : Callbacks) : Prop :=
  ∀ log o, ∀ e ∈ (cb log o).1.filterMap CallbackAct.effect?,
    e.object ≠ o ∧ ∀ j, e = .subscribe j → j ∈ A

/-- The same callbacks, except that they do not call the timer procedure. -/
def Callbacks.withoutTimer (cb : Callbacks) : Callbacks := fun log o =>
  ((cb log o).1.filter fun a => a.effect?.isSome, (cb log o).2)

namespace Component

variable {s s' : Component}

def perform (s : Component) : CallbackAct → Component
  | .effect (.subscribe o) => s.subscribe o
  | .effect (.unsubscribe o) => s.unsubscribe o
  | .timer => s.timerMsgProc

/-- The loop is in its call of `notify` on an object. -/
def calling? (s : Component) : Option (ℕ × List Frame) :=
  match s.stack with
  | .notifyComplete o :: rest => some (o, rest)
  | _ => none

/-- Run the tick in progress to its end, statement by statement, with each call of
`notify` answered by the callbacks. -/
def drive (cb : Callbacks) : ℕ → Component → List Notification →
    Option (Component × List Notification)
  | 0, _, _ => none
  | fuel + 1, s, log =>
    if s.fault then none
    else if s.timerProcessing then
      match s.calling? with
      | some (o, rest) =>
        drive cb fuel (((cb log o).1.foldl perform s).setStack (returned (cb log o).2 rest))
          (log ++ [⟨o, (cb log o).1.filterMap CallbackAct.effect?, (cb log o).2⟩])
      | none => s.mainStep.bind fun s' => drive cb fuel s' log
    else some (s, log)

section perform

/-- A nested call of the timer procedure returns at once. -/
theorem perform_timer (h : s.timerProcessing = true) : s.perform .timer = s := if_pos h

theorem perform_fields (h : s.timerProcessing = true) (a : CallbackAct) :
    (s.perform a).subscribers = a.effect?.elim s.subscribers (Effect.apply s.subscribers) ∧
      (s.perform a).stack = s.stack ∧ (s.perform a).timerProcessing = true ∧
      (s.perform a).fault = s.fault := by
  cases a with
  | effect e =>
    cases e with
    | subscribe o =>
      show (s.subscribe o).subscribers = _ ∧ (s.subscribe o).stack = _ ∧
        (s.subscribe o).timerProcessing = true ∧ (s.subscribe o).fault = _
      rw [subscribe_fields]
      exact ⟨rfl, rfl, h, rfl⟩
    | unsubscribe o =>
      show (s.unsubscribe o).subscribers = _ ∧ (s.unsubscribe o).stack = _ ∧
        (s.unsubscribe o).timerProcessing = true ∧ (s.unsubscribe o).fault = _
      rw [unsubscribe_fields]
      exact ⟨rfl, rfl, h, rfl⟩
  | timer =>
    rw [perform_timer h]
    exact ⟨rfl, rfl, h, rfl⟩

/-- A callback changes nothing but the map, and that by its effects alone. -/
theorem foldl_perform_fields (acts : List CallbackAct) (h : s.timerProcessing = true) :
    (acts.foldl perform s).subscribers =
        (acts.filterMap CallbackAct.effect?).foldl Effect.apply s.subscribers ∧
      (acts.foldl perform s).stack = s.stack ∧
      (acts.foldl perform s).timerProcessing = true ∧
      (acts.foldl perform s).fault = s.fault := by
  induction acts generalizing s with
  | nil => exact ⟨rfl, rfl, h, rfl⟩
  | cons a acts ih =>
    obtain ⟨hsub, hstack, hbusy, hfault⟩ := perform_fields h a
    obtain ⟨hsub', hstack', hbusy', hfault'⟩ := ih hbusy
    refine ⟨?_, hstack'.trans hstack, hbusy', hfault'.trans hfault⟩
    rw [List.foldl_cons, hsub', hsub]
    cases a <;> rfl

theorem foldl_perform_filter (acts : List CallbackAct) (h : s.timerProcessing = true) :
    (acts.filter fun a => a.effect?.isSome).foldl perform s = acts.foldl perform s := by
  induction acts generalizing s with
  | nil => rfl
  | cons a acts ih =>
    have hbusy := (perform_fields h a).2.2.1
    cases a with
    | effect e => exact ih hbusy
    | timer =>
      rw [List.foldl_cons, perform_timer h]
      exact ih h

end perform

/-- The nested calls of the timer procedure change nothing. -/
theorem drive_withoutTimer (cb : Callbacks) (fuel : ℕ) (s : Component)
    (log : List Notification) : drive cb.withoutTimer fuel s log = drive cb fuel s log := by
  induction fuel generalizing s log with
  | zero => rfl
  | succ fuel ih =>
    rw [drive, drive]
    by_cases hf : s.fault = true
    · rw [if_pos hf, if_pos hf]
    rw [if_neg hf, if_neg hf]
    by_cases hb : s.timerProcessing = true
    · rw [if_pos hb, if_pos hb]
      cases hcall : s.calling? with
      | none => exact congrArg (Option.bind s.mainStep) (funext fun s' => ih s' log)
      | some p =>
        obtain ⟨o, rest⟩ := p
        have hacts : (cb.withoutTimer log o).1.filterMap CallbackAct.effect? =
            (cb log o).1.filterMap CallbackAct.effect? := by
          show ((cb log o).1.filter _).filterMap _ = _
          rw [List.filterMap_filter]
          refine List.filterMap_congr fun a _ => ?_
          cases a <;> rfl
        show drive cb.withoutTimer fuel _ _ = drive cb fuel _ _
        rw [ih, hacts]
        show drive cb fuel ((((cb log o).1.filter _).foldl perform s).setStack _) _ = _
        rw [foldl_perform_filter _ hb]
        rfl
    · rw [if_neg hb, if_neg hb]

end Component

namespace Subscribers

variable {m : Subscribers} {it : Iter} {A : Finset ℕ}

/-- Every entry is to be polled; between two ticks no entry is anything else. -/
def Polling (m : Subscribers) : Prop := ∀ o e, m.find? o = some e → e.next = .kTimerContinue

/-- Its keys are in `A`. -/
def Within (A : Finset ℕ) (m : Subscribers) : Prop := ∀ o, (m.find? o).isSome → o ∈ A

theorem polling_subscribe (h : m.Polling) (o : ℕ) : (m.subscribe o).Polling := by
  intro j e he
  rw [find?_subscribe] at he
  by_cases hj : j = o
  · rw [if_pos hj, Option.some.injEq] at he
    rw [← he]
  · rw [if_neg hj] at he
    exact h j e he

theorem polling_erase (h : m.Polling) (o : ℕ) : (m.erase o).Polling :=
  fun j e he => h j e (find?_of_erase he).2

theorem within_subscribe (h : m.Within A) {o : ℕ} (ho : o ∈ A) : (m.subscribe o).Within A := by
  intro j hj
  rw [find?_subscribe] at hj
  by_cases hjo : j = o
  · rwa [hjo]
  · rw [if_neg hjo] at hj
    exact h j hj

theorem within_erase (h : m.Within A) (o : ℕ) : (m.erase o).Within A :=
  fun j hj => h j (isSome_of_erase hj).2

theorem isSome_apply (m : Subscribers) (e : Effect) (o : ℕ) :
    ((e.apply m).find? o).isSome = e.present o (m.find? o).isSome := by
  cases e with
  | subscribe j =>
    show ((m.subscribe j).find? o).isSome = _
    rw [find?_subscribe]
    by_cases ho : o = j
    · rw [if_pos ho, Effect.present, if_pos ho.symm]
      rfl
    · rw [if_neg ho, Effect.present, if_neg (Ne.symm ho)]
  | unsubscribe j =>
    show ((m.erase j).find? o).isSome = _
    rw [find?_erase]
    by_cases ho : o = j
    · rw [if_pos ho, Effect.present, if_pos ho.symm]
      rfl
    · rw [if_neg ho, Effect.present, if_neg (Ne.symm ho)]

theorem isSome_foldl_apply (m : Subscribers) (effects : List Effect) (o : ℕ) :
    ((effects.foldl Effect.apply m).find? o).isSome =
      effects.foldl (Effect.present o) (m.find? o).isSome := by
  induction effects generalizing m with
  | nil => rfl
  | cons e effects ih => rw [List.foldl_cons, List.foldl_cons, ih, isSome_apply]

/-- What the effects of one callback keep, if they spare the entry under the iterator. -/
structure Walkable (A : Finset ℕ) (it : Iter) (m : Subscribers) : Prop where
  held : m.holds it = true
  polling : m.Polling
  within : m.Within A

theorem Walkable.apply (h : m.Walkable A it) {e : Effect} (hne : e.object ≠ it.key)
    (hA : ∀ j, e = .subscribe j → j ∈ A) : (e.apply m).Walkable A it := by
  cases e with
  | subscribe o =>
    exact ⟨holds_subscribe o h.held, polling_subscribe h.polling o,
      within_subscribe h.within (hA o rfl)⟩
  | unsubscribe o =>
    exact ⟨holds_erase (Ne.symm hne) h.held, polling_erase h.polling o, within_erase h.within o⟩

theorem Walkable.foldl_apply (h : m.Walkable A it) {effects : List Effect}
    (heffects : ∀ e ∈ effects, e.object ≠ it.key ∧ ∀ j, e = .subscribe j → j ∈ A) :
    (effects.foldl Effect.apply m).Walkable A it := by
  induction effects generalizing m with
  | nil => exact h
  | cons e effects ih =>
    obtain ⟨hne, hA⟩ := heffects e List.mem_cons_self
    exact ih (h.apply hne hA) fun e' he' => heffects e' (List.mem_cons_of_mem _ he')

/-- The map after the loop has written the answer of `notify` and acted upon it. -/
def settle (m : Subscribers) (it : Iter) : NextTimer → Subscribers
  | .kTimerContinue => m.setNext it .kTimerContinue
  | .kTimerStop => (m.setNext it .kTimerStop).erase it.key

theorem find?_settle_of_ne (m : Subscribers) (ret : NextTimer) {o : ℕ} (ho : o ≠ it.key) :
    (m.settle it ret).find? o = m.find? o := by
  cases ret with
  | kTimerContinue => rw [settle, find?_setNext, if_neg ho]
  | kTimerStop => rw [settle, find?_erase, if_neg ho, find?_setNext, if_neg ho]

theorem find?_settle_self (m : Subscribers) (it : Iter) (ret : NextTimer) :
    (m.settle it ret).find? it.key =
      if ret = .kTimerStop then none else some ⟨it.node, .kTimerContinue⟩ := by
  cases ret with
  | kTimerContinue => rw [settle, find?_setNext, if_pos rfl, if_neg (by decide)]
  | kTimerStop => rw [settle, find?_erase, if_pos rfl, if_pos rfl]

theorem isSome_of_holds (h : m.holds it = true) : (m.find? it.key).isSome := by
  obtain ⟨e, he, -⟩ := holds_iff.mp h
  rw [he]
  rfl

/-- The loop takes the entry out after a `kTimerStop` and leaves every other alone. -/
theorem isSome_settle (h : m.holds it = true) (ret : NextTimer) (o : ℕ) :
    ((m.settle it ret).find? o).isSome =
      if it.key = o ∧ ret = .kTimerStop then false else (m.find? o).isSome := by
  by_cases ho : o = it.key
  · rw [ho, find?_settle_self]
    by_cases hret : ret = .kTimerStop
    · rw [if_pos hret, if_pos ⟨rfl, hret⟩]
      rfl
    · rw [if_neg hret, if_neg fun hc => hret hc.2, isSome_of_holds h]
      rfl
  · rw [find?_settle_of_ne m ret ho, if_neg fun hc => ho hc.1.symm]

/-- The iterator the loop goes on with. -/
theorem holds_settle {it' : Iter} {ret : NextTimer}
    (h : (m.setNext it ret).after it.key = some it') :
    (m.settle it ret).holds it' = true ∧ it.key < it'.key := by
  obtain ⟨hheld, hlt⟩ := holds_after h
  refine ⟨?_, hlt⟩
  cases ret with
  | kTimerContinue => exact hheld
  | kTimerStop => exact holds_erase hlt.ne' hheld

theorem Walkable.settle_polling (h : m.Walkable A it) (ret : NextTimer) :
    (m.settle it ret).Polling := by
  intro o e he
  by_cases ho : o = it.key
  · rw [ho, find?_settle_self] at he
    split at he
    · cases he
    · cases he
      rfl
  · rw [find?_settle_of_ne m ret ho] at he
    exact h.polling o e he

theorem Walkable.settle_within (h : m.Walkable A it) (ret : NextTimer) :
    (m.settle it ret).Within A := by
  intro o ho
  by_cases hk : o = it.key
  · rw [hk]
    exact h.within it.key (isSome_of_holds h.held)
  · rw [find?_settle_of_ne m ret hk] at ho
    exact h.within o ho

/-- Only an effect that unsubscribes an object takes it out of the map. -/
theorem isSome_foldl_of_notMem (effects : List Effect) {o : ℕ} (h : (m.find? o).isSome)
    (hnot : .unsubscribe o ∉ effects) : ((effects.foldl Effect.apply m).find? o).isSome := by
  induction effects generalizing m with
  | nil => exact h
  | cons e effects ih =>
    rw [List.mem_cons, not_or] at hnot
    refine ih ?_ hnot.2
    rw [isSome_apply, h]
    cases e with
    | subscribe j => simp [Effect.present]
    | unsubscribe j =>
      have hj : j ≠ o := fun hj => hnot.1 (hj ▸ rfl)
      rw [Effect.present, if_neg hj]

/-- How many addresses of `A` the loop may still come to. -/
def ahead (A : Finset ℕ) : Option Iter → ℕ
  | none => 0
  | some it => (A.filter fun o => it.key ≤ o).card

theorem ahead_lt {it : Iter} (hit : it.key ∈ A) {cursor : Option Iter}
    (hlt : ∀ it', cursor = some it' → it.key < it'.key) : ahead A cursor < ahead A (some it) := by
  have hmem : it.key ∈ A.filter fun o => it.key ≤ o := Finset.mem_filter.mpr ⟨hit, Nat.le_refl _⟩
  cases cursor with
  | none => exact Finset.card_pos.mpr ⟨_, hmem⟩
  | some it' =>
    have hless := hlt it' rfl
    refine Finset.card_lt_card (Finset.ssubset_iff_subset_ne.mpr ⟨fun o ho => ?_, fun heq => ?_⟩)
    · obtain ⟨hA, hle⟩ := Finset.mem_filter.mp ho
      exact Finset.mem_filter.mpr ⟨hA, by omega⟩
    · have hback := (Finset.mem_filter.mp (heq ▸ hmem)).2
      omega

end Subscribers

namespace Component

variable {A : Finset ℕ} {cb : Callbacks} {s s' : Component}

/-- A statement of the loop outside its call of `notify`. -/
theorem drive_main {fuel : ℕ} {log : List Notification} (hsound : s.fault = false)
    (hbusy : s.timerProcessing = true) (hcall : s.calling? = none)
    (h : s.mainStep = some s') : drive cb (fuel + 1) s log = drive cb fuel s' log := by
  rw [drive, hsound, hbusy, hcall, h]
  rfl

section body

variable {it : Iter} {base : List Frame}

theorem mainStep_loop (hs : s.stack = .loop (some it) :: base)
    (hheld : s.subscribers.holds it = true) (hpolling : s.subscribers.Polling) :
    s.mainStep = some (s.setStack (.notifyComplete it.key :: .awaiting it :: base)) := by
  obtain ⟨e, he, -⟩ := Subscribers.holds_iff.mp hheld
  have hnext : (s.subscribers.find? it.key).map Entry.next = some .kTimerContinue := by
    rw [he, Option.map_some, hpolling it.key e he]
  unfold mainStep
  rw [hs]
  show (if s.subscribers.holds it = true then _ else _) = _
  rw [if_pos hheld, if_pos hnext]

theorem mainStep_notified {ret : NextTimer} (hs : s.stack = .notified it ret :: base)
    (hheld : s.subscribers.holds it = true) :
    s.mainStep =
      some ((s.setSubscribers (s.subscribers.setNext it ret)).setStack (.test it :: base)) := by
  unfold mainStep
  rw [hs]
  exact if_pos hheld

/-- The test of what has just been assigned. -/
theorem mainStep_test {m : Subscribers} {ret : NextTimer} (hs : s.stack = .test it :: base)
    (hm : s.subscribers = m.setNext it ret) :
    s.mainStep =
      some ((s.setSubscribers (m.settle it ret)).setStack
        (.loop ((m.setNext it ret).after it.key) :: base)) := by
  have hheld : (m.setNext it ret).holds it = true := Subscribers.holds_setNext ret
  have hnext : ((m.setNext it ret).find? it.key).map Entry.next = some ret := by
    rw [Subscribers.find?_setNext, if_pos rfl]
    rfl
  unfold mainStep
  rw [hs, hm]
  show (if (m.setNext it ret).holds it = true then _ else _) = _
  rw [if_pos hheld, hnext]
  cases ret with
  | kTimerContinue =>
    have hsame : s.setSubscribers (m.setNext it .kTimerContinue) = s := by
      unfold setSubscribers
      rw [← hm]
    rw [if_neg (by decide), Subscribers.settle, hsame]
  | kTimerStop => rw [if_pos rfl, Subscribers.settle]

/-- The loop at an entry runs through its body and comes to the next entry, past
everything the callback did to the map on the way. -/
theorem drive_body (fuel : ℕ) (log : List Notification) (hcb : cb.Admissible A)
    (hstack : s.stack = .loop (some it) :: base) (hbusy : s.timerProcessing = true)
    (hsound : s.fault = false) (hwalk : s.subscribers.Walkable A it) :
    ∃ s' n m, drive cb (fuel + 4) s log = drive cb fuel s' (log ++ [n]) ∧ n.object = it.key ∧
      m = n.effects.foldl Effect.apply s.subscribers ∧ m.Walkable A it ∧
      s'.subscribers = m.settle it n.ret ∧
      s'.stack = .loop ((m.setNext it n.ret).after it.key) :: base ∧
      s'.timerProcessing = true ∧ s'.fault = false := by
  obtain ⟨acts, ret, hacts⟩ : ∃ acts ret, cb log it.key = (acts, ret) := ⟨_, _, rfl⟩
  have heffects := hcb log it.key
  rw [hacts] at heffects
  have hafter := hwalk.foldl_apply heffects
  let s₁ := s.setStack (.notifyComplete it.key :: .awaiting it :: base)
  obtain ⟨hsub, -, hbusy₂, hsound₂⟩ := foldl_perform_fields (s := s₁) acts hbusy
  let s₂ := (acts.foldl perform s₁).setStack (.notified it ret :: base)
  have hheld : s₂.subscribers.holds it = true := by
    show (acts.foldl perform s₁).subscribers.holds it = true
    rw [hsub]
    exact hafter.held
  let s₃ := (s₂.setSubscribers (s₂.subscribers.setNext it ret)).setStack (.test it :: base)
  let n : Notification := ⟨it.key, acts.filterMap CallbackAct.effect?, ret⟩
  have hsound₁ : s₁.fault = false := hsound
  have hbusy₁ : s₁.timerProcessing = true := hbusy
  let s₄ := (s₃.setSubscribers (s₂.subscribers.settle it ret)).setStack
    (.loop ((s₂.subscribers.setNext it ret).after it.key) :: base)
  refine ⟨s₄, n, s₂.subscribers, ?_, rfl, hsub, hsub ▸ hafter, rfl, rfl,
    hbusy₂, hsound₂.trans hsound⟩
  calc drive cb (fuel + 4) s log
      = drive cb (fuel + 3) s₁ log :=
        drive_main hsound hbusy (by rw [calling?, hstack])
          (mainStep_loop hstack hwalk.held hwalk.polling)
    _ = drive cb (fuel + 2) s₂ (log ++ [n]) := by
        rw [drive, hsound₁, hbusy₁]
        show drive cb (fuel + 2) (((cb log it.key).1.foldl perform s₁).setStack
          (.notified it (cb log it.key).2 :: base)) (log ++ [_]) = _
        rw [hacts]
    _ = drive cb (fuel + 1) s₃ (log ++ [n]) :=
        drive_main (hsound₂.trans hsound) hbusy₂ rfl (mainStep_notified rfl hheld)
    _ = drive cb fuel s₄ (log ++ [n]) :=
        drive_main (hsound₂.trans hsound) hbusy₂ rfl (mainStep_test rfl rfl)

end body

section reachable

/-- An entry to be erased is the one that the loop tests next. -/
def StopTested (s : Component) : Prop :=
  ∀ o e, s.subscribers.find? o = some e →
    e.next = .kTimerContinue ∨ ∃ it rest, s.stack = .test it :: rest ∧ it.key = o

theorem StopTested.polling (h : s.StopTested) (hs : ∀ it rest, s.stack ≠ .test it :: rest) :
    s.subscribers.Polling := by
  intro o e he
  obtain hnext | ⟨it, rest, htest, -⟩ := h o e he
  · exact hnext
  · exact absurd htest (hs it rest)

theorem StopTested.of_polling (h : s.subscribers.Polling) : s.StopTested :=
  fun o e he => .inl (h o e he)

theorem StopTested.of_idle (h : s.StopTested) (hi : s.idle = true) : s.subscribers.Polling := by
  refine h.polling fun it rest hs => ?_
  rw [idle, hs] at hi
  cases hi

theorem mainStep_stopTested (h : MainSteps s s') (ht : s.StopTested) : s'.StopTested := by
  cases h with
  | assign it ret rest hs hit =>
    have hpolling : s.subscribers.Polling := ht.polling (by simp [hs])
    intro o e he
    replace he : (s.subscribers.setNext it ret).find? o = some e := he
    rw [Subscribers.find?_setNext] at he
    by_cases ho : o = it.key
    · exact .inr ⟨it, rest, rfl, ho.symm⟩
    · rw [if_neg ho] at he
      exact .inl (hpolling o e he)
  | testStop it rest hs hit hn =>
    apply StopTested.of_polling
    intro o e he
    obtain ⟨ho, he⟩ := Subscribers.find?_of_erase he
    obtain hnext | ⟨it', rest', hs', hkey⟩ := ht o e he
    · exact hnext
    · rw [hs] at hs'
      cases hs'
      exact absurd hkey.symm ho
  | testContinue it rest hs hit hn =>
    apply StopTested.of_polling
    intro o e he
    replace he : s.subscribers.find? o = some e := he
    obtain hnext | ⟨it', rest', hs', hkey⟩ := ht o e he
    · exact hnext
    · rw [hs] at hs'
      cases hs'
      rw [hkey, he] at hn
      cases hnext : e.next with
      | kTimerContinue => rfl
      | kTimerStop => exact absurd (congrArg some hnext) hn
  | loopEnd rest hs | loopNotify it rest hs | loopSkip it rest hs | isComplete o w rest hs
  | notComplete o w rest hs | completed o w rest hs | canceled o w rest hs
  | pending o w rest hs => exact .of_polling (ht.polling (by simp [hs]))
  | fault => exact ht

theorem step_stopTested {a : Act} (h : step s a = some s') (ht : s.StopTested) :
    s'.StopTested := by
  cases (step_cases h).2 with
  | destroy o hi ho =>
    rw [destruct_fields]
    exact .of_polling (Subscribers.polling_erase (ht.of_idle hi) o)
  | methodInitialize o rowVal params hi ho hrow =>
    rw [makeWorker_fields]
    exact .of_polling (ht.of_idle hi)
  | methodStart o w hi ho =>
    rw [subscribe_fields]
    exact .of_polling (Subscribers.polling_subscribe (ht.of_idle hi) o)
  | main s' h => exact mainStep_stopTested (mainStep_cases h) ht
  | handlerReturn s' h =>
    obtain ⟨o, cb, rest, hs, ⟨-, rfl⟩ | ⟨-, rfl⟩⟩ := handlerReturn_cases h
    · exact .of_polling (ht.polling (by simp [hs]))
    · exact .of_polling (ht.polling (by simp [hs]))
  | construct o hi | failed a o name text hi | methodRun o w result hi | methodCancel o w hi
  | nested hi | tick hi => exact .of_polling (ht.of_idle hi)
  | thread => exact ht

/-- When Omnis is in control, and so when a tick begins, every entry is to be polled. -/
theorem polling_of_idle {tr : List (Component × Act)} (run : Transition.Run step loaded tr s)
    (hi : s.idle = true) : s.subscribers.Polling := by
  have ht : s.StopTested :=
    run.stateHolds StopTested (fun o e he => by cases he)
      fun _ _ _ ht h => step_stopTested h ht
  exact ht.of_idle hi

end reachable

/-- The tick at its loop test, over what it has done since the map was `m₀`. -/
structure AtLoop (A : Finset ℕ) (m₀ : Subscribers) (base : List Frame) (s : Component)
    (log : List Notification) (cursor : Option Iter) : Prop where
  stack : s.stack = .loop cursor :: base
  busy : s.timerProcessing = true
  sound : s.fault = false
  held : ∀ it, cursor = some it → s.subscribers.holds it = true
  polling : s.subscribers.Polling
  within : s.subscribers.Within A
  ascending : (log.map Notification.object).Pairwise (· < ·)
  passed : ∀ n ∈ log, ∀ it, cursor = some it → n.object < it.key
  present : ∀ o, (s.subscribers.find? o).isSome =
    log.foldl (Notification.present o) (m₀.find? o).isSome
  due : ∀ o, (m₀.find? o).isSome → (∀ n ∈ log, n.object < o → .unsubscribe o ∉ n.effects) →
    o ∈ log.map Notification.object ∨
      (s.subscribers.find? o).isSome ∧ ∃ it, cursor = some it ∧ it.key ≤ o

namespace AtLoop

variable {m₀ : Subscribers} {base : List Frame} {log : List Notification}

/-- The tick begins at the first entry. -/
theorem begin (hbusy : s.timerProcessing = false) (hsound : s.fault = false)
    (hpolling : s.subscribers.Polling) (hA : s.subscribers.Within A) :
    AtLoop A s.subscribers s.stack s.timerMsgProc [] s.subscribers.first := by
  have hs : s.timerMsgProc =
      { s with timerProcessing := true, stack := .loop s.subscribers.first :: s.stack } :=
    if_neg (by rw [hbusy]; decide)
  rw [hs]
  refine ⟨rfl, rfl, hsound, fun it hit => Subscribers.holds_first hit, hpolling, hA,
    List.Pairwise.nil, fun n hn => (by cases hn), fun o => rfl, fun o ho _ => .inr ⟨ho, ?_⟩⟩
  obtain ⟨e, he⟩ := Option.isSome_iff_exists.mp ho
  exact Subscribers.first_le he

/-- The body of the loop keeps the account, and its iterator only moves forward. -/
theorem pass {it : Iter} (h : AtLoop A m₀ base s log (some it)) (hcb : cb.Admissible A)
    (fuel : ℕ) :
    ∃ s' n cursor, drive cb (fuel + 4) s log = drive cb fuel s' (log ++ [n]) ∧
      AtLoop A m₀ base s' (log ++ [n]) cursor ∧
      ∀ it', cursor = some it' → it.key < it'.key := by
  obtain ⟨s', n, m, hdrive, hobj, hm, hwalk, hsub, hstack, hbusy, hsound⟩ :=
    drive_body fuel log hcb h.stack h.busy h.sound ⟨h.held it rfl, h.polling, h.within⟩
  have hforward : ∀ it', (m.setNext it n.ret).after it.key = some it' → it.key < it'.key :=
    fun it' hit' => (Subscribers.holds_settle hit').2
  refine ⟨s', n, _, hdrive, ⟨hstack, hbusy, hsound, fun it' hit' => ?_,
    hsub ▸ hwalk.settle_polling n.ret, hsub ▸ hwalk.settle_within n.ret, ?_,
    fun n' hn' it' hit' => ?_, fun o => ?_, fun o ho hnot => ?_⟩, hforward⟩
  · rw [hsub]
    exact (Subscribers.holds_settle hit').1
  · rw [List.map_append, List.pairwise_append]
    refine ⟨h.ascending, List.pairwise_singleton _ _, fun a ha b hb => ?_⟩
    obtain ⟨n', hn', rfl⟩ := List.mem_map.mp ha
    rw [List.map_singleton, List.mem_singleton] at hb
    rw [hb, hobj]
    exact h.passed n' hn' it rfl
  · have hlt := hforward it' hit'
    obtain hn' | hn' := List.mem_append.mp hn'
    · exact (h.passed n' hn' it rfl).trans hlt
    · rwa [List.mem_singleton.mp hn', hobj]
  · rw [List.foldl_append, List.foldl_cons, List.foldl_nil, Notification.present, hobj, hsub,
      Subscribers.isSome_settle hwalk.held, hm, Subscribers.isSome_foldl_apply, h.present o]
  · have hlog : ∀ n' ∈ log, n'.object < o → .unsubscribe o ∉ n'.effects :=
      fun n' hn' => hnot n' (List.mem_append_left _ hn')
    rw [List.map_append, List.mem_append]
    obtain hdone | ⟨hsome, it', hit', hle⟩ := h.due o ho hlog
    · exact .inl (.inl hdone)
    cases hit'
    by_cases heq : o = it.key
    · refine .inl (.inr ?_)
      rw [List.map_singleton, List.mem_singleton, hobj, heq]
    · -- still ahead: the callback just run has spared it
      have hlt : it.key < o := by omega
      have hspared := hnot n (List.mem_append_right _ (List.mem_singleton_self n)) (hobj ▸ hlt)
      have hstays : (m.find? o).isSome := by
        rw [hm]
        exact Subscribers.isSome_foldl_of_notMem n.effects hsome hspared
      obtain ⟨e, he⟩ := Option.isSome_iff_exists.mp hstays
      have hset : (m.setNext it n.ret).find? o = some e := by
        rw [Subscribers.find?_setNext, if_neg heq, he]
      refine .inr ⟨?_, Subscribers.after_le hset hlt⟩
      rwa [hsub, Subscribers.find?_settle_of_ne m n.ret heq]

/-- The loop gives the map back once its iterator has come to the end. -/
theorem finish (h : AtLoop A m₀ base s log none) (fuel : ℕ) :
    drive cb (fuel + 2) s log =
      some ({ s with timerProcessing := false, stack := base }, log) := by
  have hend : s.mainStep = some { s with timerProcessing := false, stack := base } := by
    unfold mainStep
    rw [h.stack]
  rw [drive_main h.sound h.busy (by rw [calling?, h.stack]) hend, drive]
  exact (if_neg (by rw [h.sound]; decide)).trans (if_neg Bool.false_ne_true)

/-- The loop is at an address of the set. -/
theorem mem {it : Iter} (h : AtLoop A m₀ base s log (some it)) : it.key ∈ A :=
  h.within it.key (Subscribers.isSome_of_holds (h.held it rfl))

/-- The iterator only moves forward, so the loop comes to its end. -/
theorem run {cursor : Option Iter} (h : AtLoop A m₀ base s log cursor) (hcb : cb.Admissible A)
    {k : ℕ} (hk : Subscribers.ahead A cursor ≤ k) :
    ∃ s' log', drive cb (4 * k + 2) s log =
        some ({ s' with timerProcessing := false, stack := base }, log') ∧
      AtLoop A m₀ base s' log' none := by
  induction k generalizing s log cursor with
  | zero =>
    cases cursor with
    | none => exact ⟨s, log, h.finish 0, h⟩
    | some it =>
      have hnone : ∀ it', (none : Option Iter) = some it' → it.key < it'.key :=
        fun it' hit' => by cases hit'
      have := Subscribers.ahead_lt h.mem hnone
      omega
  | succ k ih =>
    cases cursor with
    | none => exact ⟨s, log, h.finish _, h⟩
    | some it =>
      obtain ⟨s₁, n, cursor, hdrive, hloop, hlt⟩ := h.pass hcb (4 * k + 2)
      have hless := Subscribers.ahead_lt h.mem hlt
      obtain ⟨s', log', hrun, hend⟩ := ih hloop (by omega)
      exact ⟨s', log', hdrive.trans hrun, hend⟩

end AtLoop

/-- One tick over a finite set of addresses, whatever the callbacks subscribe and
unsubscribe: it comes to its end, notifies in the order of the addresses, leaves
out nobody who was there and was not unsubscribed first, and leaves the map as the
callbacks and its own erasures have made it. Nested timer messages do nothing. No
entry is anything but to be polled when a tick begins, by `polling_of_idle`. -/
theorem tick_exact (s : Component) (A : Finset ℕ) (cb : Callbacks)
    (hbusy : s.timerProcessing = false) (hsound : s.fault = false)
    (hpolling : s.subscribers.Polling) (hA : s.subscribers.Within A) (hcb : cb.Admissible A) :
    ∃ s' log, drive cb (4 * A.card + 2) s.timerMsgProc [] = some (s', log) ∧
      drive cb.withoutTimer (4 * A.card + 2) s.timerMsgProc [] = some (s', log) ∧
      s'.stack = s.stack ∧ s'.timerProcessing = false ∧ s'.fault = false ∧
      (log.map Notification.object).Pairwise (· < ·) ∧
      (∀ o, (s.subscribers.find? o).isSome →
        (∀ n ∈ log, n.object < o → .unsubscribe o ∉ n.effects) →
          (log.map Notification.object).count o = 1) ∧
      ∀ o, (s'.subscribers.find? o).isSome =
        log.foldl (Notification.present o) (s.subscribers.find? o).isSome := by
  have hbegin := AtLoop.begin hbusy hsound hpolling hA
  have hfew : Subscribers.ahead A s.subscribers.first ≤ A.card := by
    cases s.subscribers.first with
    | none => exact Nat.zero_le _
    | some it => exact Finset.card_filter_le _ _
  obtain ⟨s', log, hrun, hend⟩ := hbegin.run hcb hfew
  refine ⟨_, log, hrun, (drive_withoutTimer cb _ _ _).trans hrun, rfl, rfl, hend.sound,
    hend.ascending, fun o ho hnot => ?_, hend.present⟩
  have hnodup : (log.map Notification.object).Nodup := hend.ascending.imp fun h => h.ne
  obtain hmem | ⟨-, it, hit, -⟩ := hend.due o ho hnot
  · exact List.count_eq_one_of_mem hnodup hmem
  · cases hit

/-- The second object subscribes the first again, calls the timer and takes the
third out of the map; every other is done. -/
def resubscribing : Callbacks := fun _ o =>
  if o = 2 then
    ([.effect (.subscribe 1), .timer, .effect (.unsubscribe 3)], .kTimerContinue)
  else ([], .kTimerStop)

/-- Of three objects the first is erased and subscribed again, the second is polled
and the third never comes to its turn. -/
theorem tick_exact_resubscribed :
    ∃ s' log, drive resubscribing 14 (((loaded.subscribe 1).subscribe 2).subscribe 3).timerMsgProc
        [] = some (s', log) ∧
      log.map Notification.object = [1, 2] ∧ (log.map Notification.object).count 2 = 1 ∧
      (s'.subscribers.find? 1).isSome = true ∧ (s'.subscribers.find? 3).isSome = false := by
  have hpolling : (((Subscribers.empty.subscribe 1).subscribe 2).subscribe 3).Polling :=
    Subscribers.polling_subscribe (Subscribers.polling_subscribe
      (Subscribers.polling_subscribe (fun o e he => by cases he) 1) 2) 3
  have hwithin : (((Subscribers.empty.subscribe 1).subscribe 2).subscribe 3).Within {1, 2, 3} :=
    Subscribers.within_subscribe (Subscribers.within_subscribe (Subscribers.within_subscribe
      (fun o ho => by cases ho) (by decide)) (by decide)) (by decide)
  have hcb : resubscribing.Admissible {1, 2, 3} := by
    intro log o e he
    unfold resubscribing at he
    by_cases ho : o = 2
    · rw [if_pos ho] at he
      have he : e = .subscribe 1 ∨ e = .unsubscribe 3 := by
        simpa [CallbackAct.effect?, eq_comm] using he
      obtain rfl | rfl := he
      · exact ⟨by rw [ho]; decide, fun j hj => by cases hj; decide⟩
      · exact ⟨by rw [ho]; decide, fun j hj => by cases hj⟩
    · rw [if_neg ho] at he
      cases he
  obtain ⟨s', log, hrun, -, -, -, -, -, hcount, hpresent⟩ :=
    tick_exact (((loaded.subscribe 1).subscribe 2).subscribe 3) {1, 2, 3} resubscribing
      rfl rfl hpolling hwithin hcb
  have hlog : log = [⟨1, [], .kTimerStop⟩,
      ⟨2, [.subscribe 1, .unsubscribe 3], .kTimerContinue⟩] := by
    have h : drive resubscribing 14
      (((loaded.subscribe 1).subscribe 2).subscribe 3).timerMsgProc [] = some (_, _) := rfl
    exact (Prod.mk.inj (Option.some.inj (hrun.symm.trans h))).2
  refine ⟨s', log, hrun, ?_, hcount 2 rfl ?_, ?_, ?_⟩
  · rw [hlog]
    rfl
  · rw [hlog]
    decide
  · rw [hpresent, hlog]
    rfl
  · rw [hpresent, hlog]
    rfl

end Component

end HttpBackground
