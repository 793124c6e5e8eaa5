import HttpBackground.ComponentSteps

/-!
# The timer procedure and the entries it touches

The loop of `timerMsgProc` keeps one iterator across its call of `notify`, and
Omnis code run from there may change the map. At most one loop is under way,
since a nested call of the procedure returns at once, so nothing but the
destruction of an object can take an entry away from under the iterator.
-/
namespace HttpBackground

namespace Frame

/-- The frame belongs to a call of `timerMsgProc`. -/
def ofTick : Frame → Bool
  | .loop _ | .awaiting _ | .notified _ _ | .test _ => true
  | _ => false

/-- The frame waits for one above it to return. -/
def waits : Frame → Bool
  | .awaiting _ | .handler _ _ => true
  | _ => false

/-- The iterator the frame keeps, if it is not `end()`. -/
def iter? : Frame → Option Iter
  | .loop it => it
  | .awaiting it | .notified it _ | .test it => some it
  | _ => none

/-- The frame is the loop's call of `notify` on the object. -/
def notifies (o : ℕ) : Frame → Bool
  | .awaiting it => it.key == o
  | _ => false

end Frame

namespace Subscribers

variable {m : Subscribers} {it : Iter}

theorem holds_subscribe (o : ℕ) (h : m.holds it = true) : (m.subscribe o).holds it = true := by
  obtain ⟨e, he, hnode⟩ := holds_iff.mp h
  rw [holds_iff]
  by_cases ho : it.key = o
  · subst ho
    exact ⟨⟨e.node, .kTimerContinue⟩, by rw [find?_subscribe, if_pos rfl, he]; rfl, hnode⟩
  · exact ⟨e, by rw [find?_subscribe, if_neg ho, he], hnode⟩

theorem holds_erase {o : ℕ} (ho : it.key ≠ o) (h : m.holds it = true) :
    (m.erase o).holds it = true := by
  obtain ⟨e, he, hnode⟩ := holds_iff.mp h
  exact holds_iff.mpr ⟨e, by rw [find?_erase, if_neg ho, he], hnode⟩

theorem holds_setNext (ret : NextTimer) : (m.setNext it ret).holds it = true := by
  rw [holds_iff]
  exact ⟨⟨it.node, ret⟩, by rw [find?_setNext, if_pos rfl], rfl⟩

end Subscribers

/-- Only the innermost call is at work, at most one of them is a loop, and the
entry under its iterator is in the map. -/
structure Walk (m : Subscribers) (busy : Bool) (stack : List Frame) : Prop where
  waits : ∀ f ∈ stack.tail, f.waits = true
  single : stack.countP Frame.ofTick = busy.toNat
  held : ∀ f ∈ stack, ∀ it, f.iter? = some it → m.holds it = true

namespace Walk

variable {m m' : Subscribers} {busy : Bool} {f g : Frame} {stack rest : List Frame}

theorem nil (m : Subscribers) : Walk m false [] where
  waits f hf := by cases hf
  single := rfl
  held f hf := by cases hf

theorem tail_waits (h : Walk m busy (f :: rest)) : ∀ g ∈ rest, g.waits = true := h.waits

/-- A call that keeps no iterator is entered. -/
theorem push (h : Walk m busy stack) (hw : ∀ f ∈ stack, f.waits = true)
    (hg : g.ofTick = false) (hi : g.iter? = none) : Walk m busy (g :: stack) where
  waits := hw
  single := by
    rw [List.countP_cons, h.single, hg]
    rfl
  held f hf it hit := by
    obtain rfl | hf := List.mem_cons.mp hf
    · rw [hi] at hit
      cases hit
    · exact h.held f hf it hit

/-- The innermost call goes on, with the iterator it has. -/
theorem replace (h : Walk m busy (f :: rest)) (hg : g.ofTick = f.ofTick)
    (hi : g.iter? = f.iter?) : Walk m busy (g :: rest) where
  waits := h.waits
  single := by
    have := h.single
    rwa [List.countP_cons, ← hg, ← List.countP_cons] at this
  held g' hg' it hit := by
    obtain rfl | hg' := List.mem_cons.mp hg'
    · exact h.held f List.mem_cons_self it (hi ▸ hit)
    · exact h.held g' (List.mem_cons_of_mem _ hg') it hit

/-- A call that is not a loop returns. -/
theorem pop (h : Walk m busy (f :: rest)) (hf : f.ofTick = false) : Walk m busy rest where
  waits g hg := h.tail_waits g (List.mem_of_mem_tail hg)
  single := by
    have := h.single
    rwa [List.countP_cons, hf] at this
  held g hg := h.held g (List.mem_cons_of_mem _ hg)

theorem returned (h : Walk m busy (f :: rest)) (hf : f.ofTick = false) (ret : NextTimer) :
    Walk m busy (Component.returned ret rest) := by
  have hrest := h.pop hf
  unfold Component.returned
  split
  · exact hrest.replace rfl rfl
  · exact hrest

/-- A loop at work is the only one. -/
theorem alone (h : Walk m busy (f :: rest)) (hf : f.ofTick = true) :
    rest.countP Frame.ofTick = 0 ∧ busy = true := by
  have hcount := h.single
  rw [List.countP_cons, if_pos hf] at hcount
  cases busy with
  | false => simp at hcount
  | true =>
    have : rest.countP Frame.ofTick + 1 = 1 := hcount
    exact ⟨by omega, rfl⟩

theorem rest_iter (h : Walk m busy (f :: rest)) (hf : f.ofTick = true) :
    ∀ g ∈ rest, g.iter? = none := by
  intro g hg
  have hno := List.countP_eq_zero.mp (h.alone hf).1 g hg
  cases g with
  | loop | awaiting | notified | test => exact absurd rfl hno
  | notifyComplete | notifyResult | notifyCancelled | handler => rfl

/-- The loop at work moves on: the map and its own iterator may change. -/
theorem move (h : Walk m busy (f :: rest)) (hf : f.ofTick = true) (hg : g.ofTick = true)
    (hi : ∀ it, g.iter? = some it → m'.holds it = true) : Walk m' busy (g :: rest) where
  waits := h.waits
  single := by
    have := h.single
    rw [List.countP_cons, if_pos hf] at this
    rwa [List.countP_cons, if_pos hg]
  held g' hg' it hit := by
    obtain rfl | hg' := List.mem_cons.mp hg'
    · exact hi it hit
    · rw [h.rest_iter hf g' hg'] at hit
      cases hit

/-- The map changes and keeps every entry under an iterator. -/
theorem keep (h : Walk m busy stack)
    (hm : ∀ f ∈ stack, ∀ it, f.iter? = some it → m.holds it = true → m'.holds it = true) :
    Walk m' busy stack where
  waits := h.waits
  single := h.single
  held f hf it hit := hm f hf it hit (h.held f hf it hit)

end Walk

namespace Component

variable {s s' : Component}

/-- The loop has called `notify` on the object and it has not returned. -/
def notifying (s : Component) (o : ℕ) : Bool := s.stack.any (Frame.notifies o)

/-- No object is destroyed from inside its own `notify`. -/
def SparesNotified (s : Component) : Act → Prop
  | .destroy o => s.notifying o = false
  | _ => True

/-- The entry the loop is about to read, to assign to, to erase or to advance from. -/
def touched (s : Component) : Option Iter :=
  match s.stack with
  | .loop it :: _ => it
  | .notified it _ :: _ | .test it :: _ => some it
  | _ => none

theorem Walk.idle_waits {m : Subscribers} {busy : Bool} (h : Walk m busy s.stack)
    (hi : s.idle = true) : ∀ f ∈ s.stack, f.waits = true := by
  unfold idle at hi
  split at hi
  · next hs =>
    rw [hs]
    intro f hf
    cases hf
  · next o cb rest hs =>
    rw [hs] at h ⊢
    intro f hf
    obtain rfl | hf := List.mem_cons.mp hf
    · rfl
    · exact h.tail_waits f hf
  · cases hi

theorem mainStep_walk (h : MainSteps s s') (hw : Walk s.subscribers s.timerProcessing s.stack) :
    Walk s'.subscribers s'.timerProcessing s'.stack := by
  cases h with
  | loopEnd rest hs =>
    rw [hs] at hw
    refine ⟨fun g hg => hw.tail_waits g (List.mem_of_mem_tail hg), ?_, fun g hg it hit => ?_⟩
    · exact (hw.alone rfl).1
    · rw [hw.rest_iter rfl g hg] at hit
      cases hit
  | loopNotify it rest hs hit hn =>
    rw [hs] at hw
    have hawait : Walk s.subscribers s.timerProcessing (.awaiting it :: rest) := hw.replace rfl rfl
    refine hawait.push (fun f hf => ?_) rfl rfl
    obtain rfl | hf := List.mem_cons.mp hf
    · rfl
    · exact hw.tail_waits f hf
  | loopSkip it rest hs hit =>
    rw [hs] at hw
    exact hw.replace rfl rfl
  | assign it ret rest hs hit =>
    rw [hs] at hw
    refine hw.move rfl rfl fun it' hit' => ?_
    cases hit'
    exact Subscribers.holds_setNext ret
  | testStop it rest hs hit hn =>
    rw [hs] at hw
    refine hw.move rfl rfl fun it' hit' => ?_
    obtain ⟨hheld, hlt⟩ := Subscribers.holds_after hit'
    exact Subscribers.holds_erase (by omega) hheld
  | testContinue it rest hs hit =>
    rw [hs] at hw
    exact hw.move rfl rfl fun it' hit' => (Subscribers.holds_after hit').1
  | isComplete o w rest hs | notComplete o w rest hs | completed o w rest hs
  | canceled o w rest hs =>
    rw [hs] at hw
    exact hw.replace rfl rfl
  | pending o w rest hs =>
    rw [hs] at hw
    exact hw.returned rfl .kTimerContinue
  | fault => exact hw

theorem step_walk {a : Act} (h : step s a = some s') (hok : s.SparesNotified a)
    (hw : Walk s.subscribers s.timerProcessing s.stack) :
    Walk s'.subscribers s'.timerProcessing s'.stack := by
  cases (step_cases h).2 with
  | destroy o hi ho =>
    rw [destruct_fields]
    refine hw.keep fun f hf it hit => Subscribers.holds_erase ?_
    -- what waits below Omnis code with an iterator is a call of `notify`
    have hwait := Walk.idle_waits hw hi f hf
    have hspare : s.stack.any (Frame.notifies o) = false := hok
    have := List.any_eq_false.mp hspare f hf
    cases f with
    | awaiting it' =>
      cases hit
      simpa [Frame.notifies] using this
    | handler => cases hit
    | loop | notified | test | notifyComplete | notifyResult | notifyCancelled => cases hwait
  | methodInitialize o rowVal params hi ho hrow =>
    rw [makeWorker_fields]
    exact hw
  | failed a o name text hi hr => exact hw.push (Walk.idle_waits hw hi) rfl rfl
  | methodRun o w result hi ho => exact hw.push (Walk.idle_waits hw hi) rfl rfl
  | methodStart o w hi ho =>
    rw [subscribe_fields]
    exact hw.keep fun f hf it hit => Subscribers.holds_subscribe o
  | tick hi ht =>
    rw [ht] at hw
    refine ⟨Walk.idle_waits hw hi, ?_, fun f hf it hit => ?_⟩
    · show (Frame.loop s.subscribers.first :: s.stack).countP Frame.ofTick = 1
      rw [List.countP_cons, hw.single]
      rfl
    · obtain rfl | hf := List.mem_cons.mp hf
      · exact Subscribers.holds_first hit
      · exact hw.held f hf it hit
  | main s' h => exact mainStep_walk (mainStep_cases h) hw
  | handlerReturn s' h =>
    obtain ⟨o, cb, rest, hs, ⟨-, rfl⟩ | ⟨-, rfl⟩⟩ := handlerReturn_cases h
    · rw [hs] at hw
      exact hw.pop rfl
    · rw [hs] at hw
      exact hw.returned rfl .kTimerStop
  | construct | methodCancel | nested | thread => exact hw

/-- Whatever the map is when Omnis is in control, and whatever the Omnis code does
that the loop's calls of `notify` run: as long as it spares the object being
notified, the loop finds every entry it touches. -/
theorem loop_touches_held (s₀ s : Component) (tr : List (Component × Act))
    (hstack : s₀.stack = []) (hbusy : s₀.timerProcessing = false)
    (run : Transition.Run step s₀ tr s) (hok : Transition.Always SparesNotified tr) :
    ∀ it, s.touched = some it → s.subscribers.holds it = true := by
  have hw : Walk s.subscribers s.timerProcessing s.stack := by
    refine run.stateInvariant SparesNotified
      (fun s => Walk s.subscribers s.timerProcessing s.stack) ?_
      (fun _ _ _ hw ha h => step_walk h ha hw) hok
    rw [hstack, hbusy]
    exact Walk.nil _
  intro it hit
  unfold touched at hit
  split at hit
  · next it' rest hs => exact hw.held (.loop it') (hs ▸ List.mem_cons_self) it hit
  · next it' ret rest hs => exact hw.held (.notified it' ret) (hs ▸ List.mem_cons_self) it hit
  · next it' rest hs => exact hw.held (.test it') (hs ▸ List.mem_cons_self) it hit
  · cases hit

instance (s : Component) : (a : Act) → Decidable (s.SparesNotified a)
  | .destroy o => inferInstanceAs (Decidable (s.notifying o = false))
  | .construct _ | .methodInitialize _ _ | .methodRun _ _ | .methodStart _ | .methodCancel _
  | .timer | .main | .handlerReturn | .thread _ _ _ => isTrue trivial

/-- Two objects are subscribed; the first one's handler destroys the second. -/
theorem loop_touches_held_other :
    ∃ tr s it, Transition.replay step loaded [] (setUp 1 ++ setUp 2 ++
        [.methodStart 1, .methodStart 2] ++ prologue 0 0 ++ epilogue 0 0 [] ++
        [.timer, .main, .main, .main, .destroy 2, .handlerReturn]) = some (tr, s) ∧
      s.touched = some it ∧ ∀ it, s.touched = some it → s.subscribers.holds it = true := by
  have h : Transition.replay step loaded [] (setUp 1 ++ setUp 2 ++
    [.methodStart 1, .methodStart 2] ++ prologue 0 0 ++ epilogue 0 0 [] ++
    [.timer, .main, .main, .main, .destroy 2, .handlerReturn]) = some (_, _) := rfl
  exact ⟨_, _, _, h, rfl,
    loop_touches_held _ _ _ rfl rfl (Transition.replay_run .start h) (by decide)⟩

/-- The handler of `$completed` destroys its own object: the loop then assigns to
the entry that `unsubscribe` has erased. -/
theorem notified_entry_erased :
    ¬ ∀ (s₀ s : Component) (tr : List (Component × Act)), s₀.stack = [] →
      s₀.timerProcessing = false → Transition.Run step s₀ tr s →
        ∀ it, s.touched = some it → s.subscribers.holds it = true := by
  intro hall
  have h : Transition.replay step loaded [] (setUp 1 ++ [.methodStart 1] ++ prologue 0 0 ++
    epilogue 0 0 [] ++ [.timer, .main, .main, .main, .destroy 1, .handlerReturn]) =
      some (_, _) := rfl
  have hheld := hall _ _ _ rfl rfl (Transition.replay_run .start h) _ rfl
  revert hheld
  decide

end Component

end HttpBackground
