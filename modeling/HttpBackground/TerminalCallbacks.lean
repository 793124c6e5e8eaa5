import HttpBackground.DueObject
import HttpBackground.Notification
import HttpBackground.TimerLife

/-!
# Callbacks and the requests they answer

A call of `notify` makes one callback at most, and after it the loop erases the
entry that led to it. So what a `$start` or a `$run` brings about can be counted:
the entry of an object stands for one callback to come, a call of `notify` under
way for another, and the entry the loop is asking about for none.
-/
namespace HttpBackground

namespace Frame

/-- The loop has asked the object and is to write its answer into the entry. -/
def asks (o : ℕ) : Frame → Bool
  | .awaiting it | .notified it _ => it.key == o
  | _ => false

/-- The answer is that the object stays subscribed. -/
def goesOn (o : ℕ) : Frame → Bool
  | .notified it .kTimerContinue => it.key == o
  | _ => false

end Frame

namespace Component

variable {s s' : Component} {o : ℕ}

/-- How many `$start` and `$run` calls have been made on the object after a step,
given how many before; the object begins with none. -/
def requestsAfter (a : Act) (o before : ℕ) : ℕ :=
  match a with
  | .construct o' => if o' = o then 0 else before
  | .methodRun o' _ | .methodStart o' => if o' = o then before + 1 else before
  | _ => before

def requests (o : ℕ) : List (Component × Act) → ℕ
  | [] => 0
  | (_, a) :: tr => requestsAfter a o (requests o tr)

/-- The same for the `$completed` and `$canceled` it has received. -/
def terminalsAfter (s : Component) (a : Act) (o before : ℕ) : ℕ :=
  match a with
  | .construct o' => if o' = o then 0 else before
  | _ => if (s.delivers a).map Prod.fst = some o then before + 1 else before

def terminals (o : ℕ) : List (Component × Act) → ℕ
  | [] => 0
  | (s, a) :: tr => s.terminalsAfter a o (terminals o tr)

/-- The calls of `notify` on the object that have not called back. -/
def notifyCount (s : Component) (o : ℕ) : ℕ :=
  s.stack.countP fun f => decide (f.notifyOf = some o)

/-- The object's entry is to bring about a call of `notify`. -/
def Polls (s : Component) (o : ℕ) : Prop :=
  s.stack.any (Frame.goesOn o) = true ∨ s.Continues o ∧ s.stack.any (Frame.asks o) = false

/-- The callbacks made and those to come are covered by the requests. -/
structure Accounted (s : Component) (o made asked : ℕ) : Prop where
  calls : made + s.notifyCount o ≤ asked
  polled : s.Polls o → made + s.notifyCount o + 1 ≤ asked

namespace Accounted

variable {made asked : ℕ} {f g : Frame} {rest : List Frame}

/-- Nothing more is to come than before. -/
theorem mono (h : s.Accounted o made asked) (hn : s'.notifyCount o ≤ s.notifyCount o)
    (hp : s'.Polls o → s.Polls o) : s'.Accounted o made asked where
  calls := by
    have := h.calls
    omega
  polled hp' := by
    have := h.polled (hp hp')
    omega

/-- The calls in progress stay as they are. -/
theorem keep (h : s.Accounted o made asked) (hs : s'.stack = s.stack)
    (hc : s'.Continues o → s.Continues o) : s'.Accounted o made asked := by
  refine h.mono (Nat.le_of_eq (congrArg _ hs)) ?_
  unfold Polls
  rw [hs]
  exact Or.imp_right (And.imp_left hc)

/-- A call other than `notify` is entered. -/
theorem push (h : s.Accounted o made asked) (hs : s'.stack = g :: s.stack)
    (hn : g.notifyOf ≠ some o) (hg : g.goesOn o = false) (hc : s'.Continues o → s.Continues o) :
    s'.Accounted o made asked := by
  have hcount : s'.notifyCount o = s.notifyCount o := by
    rw [notifyCount, notifyCount, hs, List.countP_cons_of_neg (by simpa using hn)]
  refine h.mono (Nat.le_of_eq hcount) ?_
  unfold Polls
  rw [hs, List.any_cons, List.any_cons, hg, Bool.false_or]
  exact Or.imp_right fun hp => ⟨hc hp.1, (Bool.or_eq_false_iff.mp hp.2).2⟩

/-- The innermost call goes on. -/
theorem replace (h : s.Accounted o made asked) (hs : s.stack = f :: rest)
    (hs' : s'.stack = g :: rest) (hn : g.notifyOf = f.notifyOf)
    (hg : g.goesOn o = f.goesOn o) (ha : g.asks o = f.asks o)
    (hc : s'.Continues o → s.Continues o) : s'.Accounted o made asked := by
  have hcount : s'.notifyCount o = s.notifyCount o := by
    rw [notifyCount, notifyCount, hs, hs', List.countP_cons, List.countP_cons, hn]
  refine h.mono (Nat.le_of_eq hcount) ?_
  unfold Polls
  rw [hs, hs']
  simp only [List.any_cons, hg, ha]
  exact Or.imp_right (And.imp_left hc)

/-- A call that is not the loop's returns. -/
theorem pop (h : s.Accounted o made asked) (hs : s.stack = f :: rest) (hs' : s'.stack = rest)
    (ha : f.asks o = false) (hc : s'.Continues o → s.Continues o) :
    s'.Accounted o made asked := by
  refine h.mono ?_ ?_
  · rw [notifyCount, notifyCount, hs, hs', List.countP_cons]
    exact Nat.le_add_right _ _
  · unfold Polls
    rw [hs, hs', List.any_cons, List.any_cons, ha, Bool.false_or]
    exact Or.imp (fun hg => by rw [hg, Bool.or_true]) (And.imp_left hc)

/-- A request is made: it covers whatever comes of it. -/
theorem request (h : s.Accounted o made asked) (hn : s'.notifyCount o ≤ s.notifyCount o) :
    s'.Accounted o made (asked + 1) := by
  have := h.calls
  exact ⟨by omega, fun _ => by omega⟩

end Accounted

/-- The innermost `notify` is the one the loop below it waits for. -/
def Paired (s : Component) : Prop :=
  ∀ f it rest, s.stack = f :: .awaiting it :: rest → f.notifyOf = none ∨ f.notifyOf = some it.key

theorem paired_of_top {f : Frame} {rest : List Frame} (hs : s.stack = f :: rest)
    (hf : f.notifyOf = none) : s.Paired := by
  intro f' it rest' hs'
  rw [hs] at hs'
  cases hs'
  exact .inl hf

theorem paired_of_waits {stack : List Frame} (hs : s.stack = stack)
    (hw : ∀ f ∈ stack, f.waits = true) : s.Paired := by
  intro f it rest hs'
  have hwait := hw f (by rw [← hs, hs']; exact List.mem_cons_self)
  cases f <;> first | exact .inl rfl | cases hwait

theorem paired_of_returned {ret : NextTimer} {rest : List Frame} (hs : s.stack = returned ret rest)
    (hw : ∀ f ∈ rest, f.waits = true) : s.Paired := by
  unfold returned at hs
  split at hs
  · exact paired_of_top hs rfl
  · exact paired_of_waits hs hw

theorem mainStep_paired (h : MainSteps s s')
    (hw : Walk s.subscribers s.timerProcessing s.stack) (hp : s.Paired) : s'.Paired := by
  have hnotify : ∀ f g rest, s.stack = f :: rest → s'.stack = g :: rest →
      g.notifyOf = f.notifyOf → s'.Paired := by
    intro f g rest hs hs' hn f' it rest' h'
    rw [hs'] at h'
    cases h'
    rw [hn]
    exact hp f it rest' hs
  cases h with
  | loopEnd rest hs =>
    rw [hs] at hw
    exact paired_of_waits rfl hw.tail_waits
  | loopNotify it rest hs hit hn =>
    intro f it' rest' hs'
    cases hs'
    exact .inr rfl
  | isComplete o w rest hs | notComplete o w rest hs => exact hnotify _ _ rest hs rfl rfl
  | pending o w rest hs =>
    rw [hs] at hw
    exact paired_of_returned rfl hw.tail_waits
  | loopSkip | assign | testStop | testContinue | completed | canceled =>
    exact paired_of_top rfl rfl
  | fault => exact hp

theorem step_paired {a : Act} (h : step s a = some s')
    (hw : Walk s.subscribers s.timerProcessing s.stack) (hp : s.Paired) : s'.Paired := by
  cases (step_cases h).2 with
  | destroy o hi ho =>
    rw [destruct_fields]
    exact hp
  | methodInitialize o rowVal params hi ho hrow =>
    rw [makeWorker_fields]
    exact hp
  | methodRun o w result hi ho =>
    intro f it rest hs
    -- Omnis code is not called by the loop but by `notify`
    have hidle := hi
    replace hs : Frame.notifyComplete o :: s.stack = f :: .awaiting it :: rest := hs
    rw [List.cons.injEq] at hs
    simp [idle, hs.2] at hidle
  | methodStart o w hi ho =>
    have hstack : (s.subscribe o).stack = s.stack := by rw [subscribe_fields]
    intro f it rest hs
    exact hp f it rest (hstack ▸ hs)
  | main s' h => exact mainStep_paired (mainStep_cases h) hw hp
  | handlerReturn s' h =>
    obtain ⟨o, cb, rest, hs, ⟨-, rfl⟩ | ⟨-, rfl⟩⟩ := handlerReturn_cases h
    · rw [hs] at hw
      exact paired_of_waits rfl hw.tail_waits
    · rw [hs] at hw
      exact paired_of_returned rfl hw.tail_waits
  | failed | tick => exact paired_of_top rfl rfl
  | construct | methodCancel | nested | thread => exact hp

theorem continues_of_erase {k : ℕ}
    (h : ((s.subscribers.erase k).find? o).map Entry.next = some .kTimerContinue) :
    s.Continues o := by
  obtain ⟨e, he, hnext⟩ := Option.map_eq_some_iff.mp h
  rw [Continues, (Subscribers.find?_of_erase he).2, Option.map_some, hnext]

/-- In a step that is no callback to the object, the count stays as it is. -/
theorem terminalsAfter_main {n : ℕ} (h : s.delivers .main = none) :
    s.terminalsAfter .main o n = n := by
  show (if (s.delivers .main).map Prod.fst = some o then n + 1 else n) = n
  rw [h]
  rfl

/-- `notify` calls back. -/
theorem Accounted.callback {made asked o' : ℕ} {cb : Callback} {f : Frame} {rest : List Frame}
    (h : s.Accounted o made asked) (hs : s.stack = f :: rest) (hf : f.notifyOf = some o')
    (hd : s.delivers .main = some (o', cb)) (hsub : s'.subscribers = s.subscribers)
    (hs' : s'.stack = .handler o' cb :: rest) :
    s'.Accounted o (s.terminalsAfter .main o made) asked := by
  have hmade : s.terminalsAfter .main o made = if o' = o then made + 1 else made := by
    show (if (s.delivers .main).map Prod.fst = some o then made + 1 else made) = _
    rw [hd]
    simp
  have hcount : s.notifyCount o = s'.notifyCount o + if o' = o then 1 else 0 := by
    rw [notifyCount, notifyCount, hs, hs', List.countP_cons, List.countP_cons, hf]
    simp [Frame.notifyOf]
  have hpolls : s'.Polls o → s.Polls o := by
    unfold Polls Continues
    rw [hs, hs', hsub]
    cases f <;> simp [Frame.notifyOf, Frame.goesOn, Frame.asks] at hf ⊢
  have hcalls := h.calls
  constructor
  · rw [hmade]
    split_ifs at hcount ⊢ <;> omega
  · intro hp
    have := h.polled (hpolls hp)
    rw [hmade]
    split_ifs at hcount ⊢ <;> omega

/-- `notify` returns without a callback, and the entry is as good as it was. -/
theorem Accounted.returned_continue {made asked o' : ℕ} {f : Frame} {rest : List Frame}
    (h : s.Accounted o made asked) (hp : s.Paired) (hs : s.stack = f :: rest)
    (hf : f.notifyOf = some o') (hsub : s'.subscribers = s.subscribers)
    (hs' : s'.stack = returned .kTimerContinue rest) : s'.Accounted o made asked := by
  have hask : f.asks o = false := by
    cases f <;> first | rfl | cases hf
  have hpop : (s.setStack rest).Accounted o made asked :=
    h.pop hs rfl hask fun hc => hc
  unfold returned at hs'
  split at hs'
  · next it rest =>
    by_cases hk : it.key = o
    · -- the call that is over goes back to standing for its entry
      have hcalls := h.calls
      have hpair := hp f it rest hs
      have hcount : s.notifyCount o = s'.notifyCount o + 1 := by
        have hfo : f.notifyOf = some o := by
          rw [← hk]
          exact hpair.resolve_left (by simp [hf])
        rw [notifyCount, notifyCount, hs, hs', List.countP_cons_of_pos (by simpa using hfo),
          List.countP_cons_of_neg (by simp [Frame.notifyOf]),
          List.countP_cons_of_neg (by simp [Frame.notifyOf])]
      exact ⟨by omega, fun _ => by omega⟩
    · have hne : (it.key == o) = false := by simpa using hk
      exact hpop.replace rfl hs' rfl hne rfl fun hc => (by rwa [Continues, hsub] at hc)
  · exact hpop.keep hs' fun hc => (by rwa [Continues, hsub] at hc)

theorem mainStep_accounted {made asked : ℕ} (h : MainSteps s s')
    (hw : Walk s.subscribers s.timerProcessing s.stack) (hp : s.Paired)
    (ha : s.Accounted o made asked) :
    s'.Accounted o (s.terminalsAfter .main o made) asked := by
  -- the loop at work is the only frame that keeps an iterator
  have hclear : ∀ f rest, s.stack = f :: rest → f.ofTick = true →
      rest.any (Frame.goesOn o) = false ∧ rest.any (Frame.asks o) = false := by
    intro f rest hs hf
    rw [hs] at hw
    have hiter := hw.rest_iter hf
    constructor
    all_goals
      refine List.any_eq_false.mpr fun g hg => ?_
      have := hiter g hg
      cases g <;> simp [Frame.iter?, Frame.goesOn, Frame.asks] at this ⊢
  cases h with
  | loopEnd rest hs =>
    rw [terminalsAfter_main (by simp [delivers, hs])]
    exact ha.pop hs rfl rfl fun hc => hc
  | loopNotify it rest hs hit hn =>
    rw [terminalsAfter_main (by simp [delivers, hs])]
    have hcount : (s.setStack (.notifyComplete it.key :: .awaiting it :: rest)).notifyCount o =
        s.notifyCount o + if it.key = o then 1 else 0 := by
      simp [notifyCount, setStack, hs, List.countP_cons, Frame.notifyOf]
    obtain ⟨hgoes, hasks⟩ := hclear _ rest hs rfl
    by_cases hk : it.key = o
    · subst hk
      rw [if_pos rfl] at hcount
      have hpolls : s.Polls it.key := .inr ⟨hn, by simp [hs, Frame.asks, hasks]⟩
      have := ha.polled hpolls
      refine ⟨by omega, fun hp' => ?_⟩
      simp [Polls, setStack, Frame.goesOn, Frame.asks, hgoes] at hp'
    · rw [if_neg hk] at hcount
      refine ha.mono (Nat.le_of_eq hcount) ?_
      unfold Polls
      simp [setStack, hs, Frame.goesOn, Frame.asks, hk, Continues]
  | loopSkip it rest hs hit hn =>
    rw [terminalsAfter_main (by simp [delivers, hs])]
    exact ha.replace hs rfl rfl rfl rfl fun hc => hc
  | assign it ret rest hs hit =>
    rw [terminalsAfter_main (by simp [delivers, hs])]
    obtain ⟨hgoes, hasks⟩ := hclear _ rest hs rfl
    refine ha.mono ?_ fun hp' => ?_
    · simp [notifyCount, setStack, hs, Frame.notifyOf]
    · have hc : ((s.subscribers.setNext it ret).find? o).map Entry.next = some .kTimerContinue := by
        simpa [Polls, setStack, Frame.goesOn, hgoes, Continues, setSubscribers, hasks,
          Frame.asks] using hp'
      rw [Subscribers.find?_setNext] at hc
      by_cases hk : o = it.key
      · rw [if_pos hk] at hc
        cases hc
        exact .inl (by simp [hs, Frame.goesOn, hk])
      · rw [if_neg hk] at hc
        exact .inr ⟨hc, by simp [hs, Frame.asks, hasks, Ne.symm hk]⟩
  | testStop it rest hs hit hn =>
    rw [terminalsAfter_main (by simp [delivers, hs])]
    exact ha.replace hs rfl rfl rfl rfl continues_of_erase
  | testContinue it rest hs hit hn =>
    rw [terminalsAfter_main (by simp [delivers, hs])]
    exact ha.replace hs rfl rfl rfl rfl fun hc => hc
  | isComplete o' w rest hs | notComplete o' w rest hs =>
    rw [terminalsAfter_main (by simp [delivers, hs])]
    exact ha.replace hs rfl rfl rfl rfl fun hc => hc
  | completed o' w rest hs hw' =>
    exact ha.callback hs rfl (by simp [delivers, hs, hw']) rfl rfl
  | canceled o' w rest hs hw' hx =>
    exact ha.callback hs rfl (by simp [delivers, hs, hw', hx]) rfl rfl
  | pending o' w rest hs hw' hx =>
    rw [terminalsAfter_main (by simp [delivers, hs, hw', hx])]
    exact ha.returned_continue hp hs rfl rfl rfl
  | fault hd =>
    rw [terminalsAfter_main hd]
    exact ha.keep rfl fun hc => hc

/-- No `notify` is under way while Omnis code runs. -/
theorem notifyCount_of_idle (hw : Walk s.subscribers s.timerProcessing s.stack)
    (hi : s.idle = true) (o : ℕ) : s.notifyCount o = 0 := by
  refine List.countP_eq_zero.mpr fun f hf => ?_
  have := Walk.idle_waits hw hi f hf
  cases f <;> simp [Frame.waits, Frame.notifyOf] at this ⊢

/-- An object comes to life with nothing to come. -/
theorem accounted_construct (hw : Walk s.subscribers s.timerProcessing s.stack) (ht : s.Timed)
    (hi : s.idle = true) (ho : s.objects o = none) : (s.construct o).Accounted o 0 0 := by
  have hcount : (s.construct o).notifyCount o = 0 := notifyCount_of_idle hw hi o
  refine ⟨Nat.le_of_eq (by rw [hcount]), ?_⟩
  rintro (hgoes | ⟨hc, -⟩)
  · obtain ⟨f, hf, hg⟩ := List.any_eq_true.mp hgoes
    have := Walk.idle_waits hw hi f hf
    cases f <;> simp [Frame.waits, Frame.goesOn] at this hg
  · obtain ⟨e, he, -⟩ := Option.map_eq_some_iff.mp hc
    have := ht.live o (by rw [show s.subscribers.find? o = some e from he]; rfl)
    rw [ho] at this
    cases this

theorem step_accounted {a : Act} {made asked : ℕ} (h : step s a = some s')
    (hw : Walk s.subscribers s.timerProcessing s.stack) (ht : s.Timed) (hp : s.Paired)
    (ha : s.Accounted o made asked) :
    s'.Accounted o (s.terminalsAfter a o made) (requestsAfter a o asked) := by
  cases (step_cases h).2 with
  | construct o' hi ho =>
    by_cases hoo : o' = o
    · subst hoo
      simp only [terminalsAfter, requestsAfter, if_true]
      exact accounted_construct hw ht hi ho
    · simp only [terminalsAfter, requestsAfter, if_neg hoo]
      exact ha.keep rfl fun hc => hc
  | destroy o' hi ho =>
    rw [destruct_fields]
    exact ha.keep rfl continues_of_erase
  | failed a o' name text hi hr =>
    have hpush : (s.setStack (.handler o' (.error name text) :: s.stack)).Accounted o made asked :=
      ha.push rfl (by simp [Frame.notifyOf]) rfl fun hc => hc
    have hmore : asked ≤ requestsAfter a o asked ∧ s.terminalsAfter a o made = made := by
      cases a with
      | methodRun o'' r | methodStart o'' =>
        refine ⟨?_, rfl⟩
        simp only [requestsAfter]
        split_ifs <;> omega
      | methodInitialize | methodCancel => exact ⟨Nat.le_refl _, rfl⟩
      | construct | destroy | timer | main | handlerReturn | thread => exact hr.elim
    rw [hmore.2]
    exact ⟨hpush.calls.trans hmore.1, fun hp' => (hpush.polled hp').trans hmore.1⟩
  | methodInitialize o' rowVal params hi ho hrow =>
    rw [makeWorker_fields]
    exact ha.keep rfl fun hc => hc
  | methodRun o' w result hi ho =>
    show Accounted _ o made (if o' = o then asked + 1 else asked)
    by_cases hoo : o' = o
    · -- the request covers the call of `notify` it makes
      subst hoo
      rw [if_pos rfl]
      have hcount : ((s.modifyWorker w (Worker.run · result)).setStack
          (.notifyComplete o' :: s.stack)).notifyCount o' = s.notifyCount o' + 1 :=
        List.countP_cons_of_pos (by simp [Frame.notifyOf])
      have hcalls := ha.calls
      refine ⟨by omega, fun hp' => ?_⟩
      have hpolls : s.Polls o' := by
        simpa [Polls, setStack, Frame.goesOn, Frame.asks, modifyWorker, Continues] using hp'
      have := ha.polled hpolls
      omega
    · rw [if_neg hoo]
      exact ha.push rfl (by simpa [Frame.notifyOf] using hoo) rfl fun hc => hc
  | methodStart o' w hi ho =>
    show Accounted _ o made (if o' = o then asked + 1 else asked)
    have hsub : (s.subscribe o').subscribers = s.subscribers.subscribe o' := by
      rw [subscribe_fields]
    have hstack : (s.subscribe o').stack = s.stack := by rw [subscribe_fields]
    by_cases hoo : o' = o
    · rw [if_pos hoo]
      exact ha.request (Nat.le_of_eq (congrArg _ hstack))
    · rw [if_neg hoo]
      refine ha.keep hstack fun hc => ?_
      replace hc : ((s.subscribe o').subscribers.find? o).map Entry.next =
        some .kTimerContinue := hc
      rwa [hsub, Subscribers.find?_subscribe, if_neg (Ne.symm hoo)] at hc
  | tick hi hbusy => exact ha.push rfl (by simp [Frame.notifyOf]) rfl fun hc => hc
  | main s' h => exact mainStep_accounted (mainStep_cases h) hw hp ha
  | handlerReturn s' h =>
    obtain ⟨o', cb, rest, hs, ⟨-, rfl⟩ | ⟨-, rfl⟩⟩ := handlerReturn_cases h
    · exact ha.pop hs rfl rfl fun hc => hc
    · have hpop : (s.setStack rest).Accounted o made asked := ha.pop hs rfl rfl fun hc => hc
      show (s.setStack (returned .kTimerStop rest)).Accounted o made asked
      unfold returned
      split
      · exact hpop.replace rfl rfl rfl rfl rfl fun hc => hc
      · exact hpop
  | methodCancel | nested | thread => exact ha.keep rfl fun hc => hc

theorem paired_run {tr : List (Component × Act)} (run : Transition.Run step loaded tr s)
    (hok : Transition.Always SparesNotified tr) : s.Paired :=
  run.invariant SparesNotified (fun _ => Paired) (fun f it rest hs => by cases hs)
    (fun _ _ _ _ run hok hp _ h => step_paired h (walk_run run hok) hp) hok

/-- As long as no object is destroyed from inside its own `notify`, an object never
gets more `$completed` and `$canceled` than `$start` and `$run` were called on it. -/
theorem terminals_le_requests (tr : List (Component × Act)) (s : Component)
    (run : Transition.Run step loaded tr s) (hok : Transition.Always SparesNotified tr) (o : ℕ) :
    terminals o tr ≤ requests o tr := by
  have hacc : s.Accounted o (terminals o tr) (requests o tr) := by
    refine run.invariant SparesNotified
      (fun tr s => s.Accounted o (terminals o tr) (requests o tr)) ?_
      (fun tr s a s' run hok hinv _ h => ?_) hok
    · refine ⟨Nat.le_refl _, ?_⟩
      rintro (hgoes | ⟨hc, -⟩)
      · cases hgoes
      · cases hc
    · exact step_accounted h (walk_run run hok) (timed_run run) (paired_run run hok) hinv
  exact (Nat.le_add_right _ _).trans hacc.calls

/-- The handler of `$completed` calls `$run` on its own object, which is complete:
two requests and two callbacks. -/
theorem terminals_le_requests_handler :
    ∃ tr s, Transition.replay step loaded [] (setUp 1 ++ [.methodStart 1] ++ prologue 0 0 ++
        epilogue 0 0 [] ++ [.timer, .main, .main, .main, .methodRun 1 [], .main, .main,
          .handlerReturn, .handlerReturn, .main, .main, .main]) = some (tr, s) ∧
      terminals 1 tr = 2 ∧ terminals 1 tr ≤ requests 1 tr := by
  have h : Transition.replay step loaded [] (setUp 1 ++ [.methodStart 1] ++ prologue 0 0 ++
    epilogue 0 0 [] ++ [.timer, .main, .main, .main, .methodRun 1 [], .main, .main,
      .handlerReturn, .handlerReturn, .main, .main, .main]) = some (_, _) := rfl
  exact ⟨_, _, h, rfl, terminals_le_requests _ _ (Transition.replay_run .start h) (by decide) 1⟩

end Component

end HttpBackground
