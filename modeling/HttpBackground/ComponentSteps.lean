import HttpBackground.NVObjHTTPWorker
import HttpBackground.Transition

/-!
# What one step of the component does

`step_cases` and `mainStep_cases` list what can happen, once for all invariants,
and the lemmas after them what each operation leaves alone.
-/
namespace HttpBackground

namespace Component

variable {s s' : Component}

/-- The method fails: a bad first parameter, or no worker yet. -/
def refuses (s : Component) : Act → Prop
  | .methodInitialize _ rowVal => rowVal.bind getParamsFromRow = none
  | .methodRun o _ | .methodStart o | .methodCancel o => s.workerOf o = none
  | _ => False

/-- The cases of `step`. -/
inductive Steps (s : Component) : Act → Component → Prop
  | construct (o : ℕ) : s.idle = true → s.objects o = none →
      Steps s (.construct o) (s.construct o)
  | destroy (o : ℕ) : s.idle = true → (s.objects o).isSome = true →
      Steps s (.destroy o) (s.destruct o)
  | failed (a : Act) (o : ℕ) (name text : StdString) : s.idle = true → s.refuses a →
      s.callsBack a = some (o, .error name text) →
      Steps s a (s.setStack (.handler o (.error name text) :: s.stack))
  | methodInitialize (o : ℕ) (rowVal : Option FldVal) (params : ParamMap) : s.idle = true →
      (s.objects o).isSome = true → rowVal.bind getParamsFromRow = some params →
      Steps s (.methodInitialize o rowVal) (s.makeWorker o params)
  | methodRun (o w : ℕ) (result : ParamMap) : s.idle = true → s.workerOf o = some w →
      Steps s (.methodRun o result)
        ((s.modifyWorker w (Worker.run · result)).setStack (.notifyComplete o :: s.stack))
  | methodStart (o w : ℕ) : s.idle = true → s.workerOf o = some w →
      Steps s (.methodStart o) ((s.subscribe o).modifyWorker w Worker.start)
  | methodCancel (o w : ℕ) : s.idle = true → s.workerOf o = some w →
      Steps s (.methodCancel o) (s.modifyWorker w Worker.cancel)
  | nested : s.idle = true → s.timerProcessing = true → Steps s .timer s
  | tick : s.idle = true → s.timerProcessing = false →
      Steps s .timer
        { s with timerProcessing := true, stack := .loop s.subscribers.first :: s.stack }
  | main (s' : Component) : s.mainStep = some s' → Steps s .main s'
  | handlerReturn (s' : Component) : s.handlerReturn = some s' →
      Steps s .handlerReturn s'
  | thread (w i : ℕ) (b : ThreadAct) (W W' : Worker) : s.workers[w]? = some W →
      W.step (.thread i b) = some W' →
      Steps s (.thread w i b) { s with workers := s.workers.set w W', fault := W'.fault }

theorem omnis_eq_some {b : Bool} {t : Component} (h : s.omnis b t = some s') :
    s.idle = true ∧ b = true ∧ s' = t := by
  unfold omnis at h
  by_cases hc : (s.idle && b) = true
  · rw [if_pos hc, Option.some.injEq] at h
    simp only [Bool.and_eq_true] at hc
    exact ⟨hc.1, hc.2, h.symm⟩
  · rw [if_neg hc] at h
    cases h

theorem step_cases {a : Act} (h : step s a = some s') : s.fault = false ∧ Steps s a s' := by
  unfold step at h
  by_cases hf : s.fault = true
  · rw [if_pos hf] at h
    cases h
  rw [if_neg hf] at h
  refine ⟨by simpa using hf, ?_⟩
  cases a with
  | construct o =>
    obtain ⟨hi, ho, rfl⟩ := omnis_eq_some h
    exact .construct o hi (Option.isNone_iff_eq_none.mp ho)
  | destroy o =>
    obtain ⟨hi, ho, rfl⟩ := omnis_eq_some h
    exact .destroy o hi ho
  | methodInitialize o rowVal =>
    obtain ⟨hi, ho, rfl⟩ := omnis_eq_some h
    unfold methodInitialize
    cases hrow : rowVal.bind getParamsFromRow with
    | none => exact .failed _ o _ _ hi hrow (by simp [callsBack, methodInitialize, hrow, errorOf])
    | some params => exact .methodInitialize o rowVal params hi ho hrow
  | methodRun o result =>
    obtain ⟨hi, ho, rfl⟩ := omnis_eq_some h
    unfold methodRun
    cases hw : s.workerOf o with
    | none => exact .failed _ o _ _ hi hw (by simp [callsBack, methodRun, hw, errorOf])
    | some w => exact .methodRun o w result hi hw
  | methodStart o =>
    obtain ⟨hi, ho, rfl⟩ := omnis_eq_some h
    unfold methodStart
    cases hw : s.workerOf o with
    | none => exact .failed _ o _ _ hi hw (by simp [callsBack, methodStart, hw, errorOf])
    | some w => exact .methodStart o w hi hw
  | methodCancel o =>
    obtain ⟨hi, ho, rfl⟩ := omnis_eq_some h
    unfold methodCancel
    cases hw : s.workerOf o with
    | none => exact .failed _ o _ _ hi hw (by simp [callsBack, methodCancel, hw, errorOf])
    | some w => exact .methodCancel o w hi hw
  | timer =>
    obtain ⟨hi, -, rfl⟩ := omnis_eq_some h
    unfold timerMsgProc
    by_cases ht : s.timerProcessing = true
    · rw [if_pos ht]
      exact .nested hi ht
    · rw [if_neg ht]
      exact .tick hi (by simpa using ht)
  | main => exact .main _ h
  | handlerReturn => exact .handlerReturn _ h
  | thread w i b =>
    obtain ⟨W, hW, h⟩ := Option.bind_eq_some_iff.mp h
    obtain ⟨W', hW', rfl⟩ := Option.map_eq_some_iff.mp h
    exact .thread w i b W W' hW hW'

/-- `$run` and `$start` on an object that has a worker. -/
theorem step_methodRun {o w : ℕ} {result : ParamMap} (ho : s.workerOf o = some w)
    (h : step s (.methodRun o result) = some s') : s.idle = true ∧
      s' = (s.modifyWorker w (Worker.run · result)).setStack (.notifyComplete o :: s.stack) := by
  cases (step_cases h).2 with
  | failed a o' name text hi hr =>
    have hr : s.workerOf o = none := hr
    rw [ho] at hr
    cases hr
  | methodRun o w' result hi ho' =>
    rw [ho, Option.some.injEq] at ho'
    exact ⟨hi, by rw [ho']⟩

theorem step_methodStart {o w : ℕ} (ho : s.workerOf o = some w)
    (h : step s (.methodStart o) = some s') :
    s.idle = true ∧ s' = (s.subscribe o).modifyWorker w Worker.start := by
  cases (step_cases h).2 with
  | failed a o' name text hi hr =>
    have hr : s.workerOf o = none := hr
    rw [ho] at hr
    cases hr
  | methodStart o w' hi ho' =>
    rw [ho, Option.some.injEq] at ho'
    exact ⟨hi, by rw [ho']⟩

/-- The cases of `mainStep`. -/
inductive MainSteps (s : Component) : Component → Prop
  | loopEnd (rest : List Frame) : s.stack = .loop none :: rest →
      MainSteps s { s with timerProcessing := false, stack := rest }
  | loopNotify (it : Iter) (rest : List Frame) : s.stack = .loop (some it) :: rest →
      s.subscribers.holds it = true →
      (s.subscribers.find? it.key).map Entry.next = some .kTimerContinue →
      MainSteps s (s.setStack (.notifyComplete it.key :: .awaiting it :: rest))
  | loopSkip (it : Iter) (rest : List Frame) : s.stack = .loop (some it) :: rest →
      s.subscribers.holds it = true →
      (s.subscribers.find? it.key).map Entry.next ≠ some .kTimerContinue →
      MainSteps s (s.setStack (.test it :: rest))
  | assign (it : Iter) (ret : NextTimer) (rest : List Frame) :
      s.stack = .notified it ret :: rest → s.subscribers.holds it = true →
      MainSteps s ((s.setSubscribers (s.subscribers.setNext it ret)).setStack (.test it :: rest))
  | testStop (it : Iter) (rest : List Frame) : s.stack = .test it :: rest →
      s.subscribers.holds it = true →
      (s.subscribers.find? it.key).map Entry.next = some .kTimerStop →
      MainSteps s ((s.setSubscribers (s.subscribers.erase it.key)).setStack
        (.loop (s.subscribers.after it.key) :: rest))
  | testContinue (it : Iter) (rest : List Frame) : s.stack = .test it :: rest →
      s.subscribers.holds it = true →
      (s.subscribers.find? it.key).map Entry.next ≠ some .kTimerStop →
      MainSteps s (s.setStack (.loop (s.subscribers.after it.key) :: rest))
  | isComplete (o : ℕ) (w : Worker) (rest : List Frame) : s.stack = .notifyComplete o :: rest →
      s.worker? o = some w → w.complete = true →
      MainSteps s (s.setStack (.notifyResult o :: rest))
  | notComplete (o : ℕ) (w : Worker) (rest : List Frame) : s.stack = .notifyComplete o :: rest →
      s.worker? o = some w → w.complete = false →
      MainSteps s (s.setStack (.notifyCancelled o :: rest))
  | completed (o : ℕ) (w : Worker) (rest : List Frame) : s.stack = .notifyResult o :: rest →
      s.worker? o = some w →
      MainSteps s (s.setStack (.handler o (.completed (readResult w.result)) :: rest))
  | canceled (o : ℕ) (w : Worker) (rest : List Frame) : s.stack = .notifyCancelled o :: rest →
      s.worker? o = some w → w.cancelled = true →
      MainSteps s (s.setStack (.handler o .canceled :: rest))
  | pending (o : ℕ) (w : Worker) (rest : List Frame) : s.stack = .notifyCancelled o :: rest →
      s.worker? o = some w → w.cancelled = false →
      MainSteps s (s.setStack (returned .kTimerContinue rest))
  | fault : s.delivers .main = none → MainSteps s s.faulted

theorem mainStep_cases (h : s.mainStep = some s') : MainSteps s s' := by
  unfold mainStep at h
  split at h
  case h_1 rest hs =>
    cases h
    exact .loopEnd rest hs
  case h_2 it rest hs =>
    by_cases hit : s.subscribers.holds it = true
    · rw [if_pos hit] at h
      split at h
      · next hn =>
        cases h
        exact .loopNotify it rest hs hit hn
      · next hn =>
        cases h
        exact .loopSkip it rest hs hit hn
    · rw [if_neg hit] at h
      cases h
      exact .fault (by simp [delivers, hs])
  case h_3 it ret rest hs =>
    by_cases hit : s.subscribers.holds it = true
    · rw [if_pos hit] at h
      cases h
      exact .assign it ret rest hs hit
    · rw [if_neg hit] at h
      cases h
      exact .fault (by simp [delivers, hs])
  case h_4 it rest hs =>
    by_cases hit : s.subscribers.holds it = true
    · rw [if_pos hit] at h
      split at h
      · next hn =>
        cases h
        exact .testStop it rest hs hit hn
      · next hn =>
        cases h
        exact .testContinue it rest hs hit hn
    · rw [if_neg hit] at h
      cases h
      exact .fault (by simp [delivers, hs])
  case h_5 o rest hs =>
    cases hw : s.worker? o with
    | none =>
      rw [hw] at h
      cases h
      exact .fault (by simp [delivers, hs])
    | some w =>
      rw [hw] at h
      by_cases hc : w.complete = true
      · simp only [hc, if_true, Option.some.injEq] at h
        exact h ▸ .isComplete o w rest hs hw hc
      · have hc : w.complete = false := by simpa using hc
        simp only [hc, Bool.false_eq_true, if_false, Option.some.injEq] at h
        exact h ▸ .notComplete o w rest hs hw hc
  case h_6 o rest hs =>
    cases hw : s.worker? o with
    | none =>
      rw [hw] at h
      cases h
      exact .fault (by simp [delivers, hs, hw])
    | some w =>
      rw [hw] at h
      cases h
      exact .completed o w rest hs hw
  case h_7 o rest hs =>
    cases hw : s.worker? o with
    | none =>
      rw [hw] at h
      cases h
      exact .fault (by simp [delivers, hs, hw])
    | some w =>
      rw [hw] at h
      by_cases hc : w.cancelled = true
      · simp only [hc, if_true, Option.some.injEq] at h
        exact h ▸ .canceled o w rest hs hw hc
      · have hc : w.cancelled = false := by simpa using hc
        simp only [hc, Bool.false_eq_true, if_false, Option.some.injEq] at h
        exact h ▸ .pending o w rest hs hw hc
  all_goals cases h

/-- The two ways out of Omnis code. -/
theorem handlerReturn_cases (h : s.handlerReturn = some s') :
    ∃ o cb rest, s.stack = .handler o cb :: rest ∧
      ((∃ name text, cb = .error name text) ∧ s' = s.setStack rest ∨
        (∀ name text, cb ≠ .error name text) ∧ s' = s.setStack (returned .kTimerStop rest)) := by
  unfold handlerReturn at h
  split at h
  case h_1 o name text rest hs =>
    cases h
    exact ⟨o, _, rest, hs, .inl ⟨⟨name, text, rfl⟩, rfl⟩⟩
  case h_2 o cb rest hne hs =>
    cases h
    exact ⟨o, cb, rest, hs, .inr ⟨fun name text hcb => hne name text hcb, rfl⟩⟩
  case h_3 => cases h

section fields

variable (s : Component) (o w : ℕ) (f : Worker → Worker)

/-- Setting the timer leaves everything else alone. -/
theorem setTimer_fields : s.setTimer =
    { s with timerID := s.setTimer.timerID, osTimers := s.setTimer.osTimers
             nextTimerID := s.setTimer.nextTimerID } := by
  unfold setTimer
  split <;> rfl

theorem subscribe_fields : s.subscribe o =
    { s with subscribers := s.subscribers.subscribe o, timerID := (s.subscribe o).timerID
             osTimers := (s.subscribe o).osTimers
             nextTimerID := (s.subscribe o).nextTimerID } := by
  unfold subscribe
  rw [setTimer_fields]
  rfl

theorem unsubscribe_fields : s.unsubscribe o =
    { s with subscribers := s.subscribers.erase o, timerID := (s.unsubscribe o).timerID
             osTimers := (s.unsubscribe o).osTimers } := by
  unfold unsubscribe
  split <;> rfl

theorem dropWorker_fields :
    s.dropWorker o = { s with workers := (s.dropWorker o).workers } := by
  unfold dropWorker
  split <;> rfl

theorem modifyWorker_getElem? (j : ℕ) :
    (s.modifyWorker w f).workers[j]? = if j = w then s.workers[j]?.map f else s.workers[j]? := by
  unfold modifyWorker
  rw [List.getElem?_modify]
  by_cases hj : j = w
  · simp [hj]
  · simp [hj, Ne.symm hj]

theorem dropWorker_getElem? (j : ℕ) : (s.dropWorker o).workers[j]? =
    if s.workerOf o = some j then s.workers[j]?.map Worker.drop else s.workers[j]? := by
  unfold dropWorker
  cases hw : s.workerOf o with
  | none => simp
  | some w =>
    show (s.modifyWorker w Worker.drop).workers[j]? = _
    rw [modifyWorker_getElem?]
    by_cases hj : j = w
    · simp [hj]
    · simp [hj, Ne.symm hj]

theorem dropWorker_length : (s.dropWorker o).workers.length = s.workers.length := by
  unfold dropWorker
  split
  · rfl
  · exact List.length_modify _ _ _

theorem destruct_workers : (s.destruct o).workers = (s.dropWorker o).workers := by
  have hobj : (s.unsubscribe o).workerOf o = s.workerOf o := by
    unfold workerOf
    rw [unsubscribe_fields]
  have hworkers : (s.unsubscribe o).workers = s.workers := by rw [unsubscribe_fields]
  show ((s.unsubscribe o).dropWorker o).workers = _
  unfold dropWorker
  rw [hobj]
  cases s.workerOf o with
  | none => exact hworkers
  | some w => exact congrArg (fun l => l.modify w Worker.drop) hworkers

theorem destruct_fields : s.destruct o =
    { s with objects := Function.update s.objects o none, workers := (s.dropWorker o).workers
             subscribers := s.subscribers.erase o, timerID := (s.unsubscribe o).timerID
             osTimers := (s.unsubscribe o).osTimers } := by
  rw [← destruct_workers]
  unfold destruct setObject
  rw [dropWorker_fields, unsubscribe_fields]

theorem makeWorker_fields (params : ParamMap) : s.makeWorker o params =
    { s with objects := Function.update s.objects o (some ⟨some s.workers.length⟩)
             workers := (s.dropWorker o).workers ++ [(Worker.new params).init] } := by
  unfold makeWorker setObject
  rw [dropWorker_fields]

end fields

end Component

end HttpBackground
