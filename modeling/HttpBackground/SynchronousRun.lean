import HttpBackground.ComponentSteps
import HttpBackground.WorkerThreads

/-!
# `$run` against `$start`

`$run` calls the delegate and then `notify` on the main thread, `$start` leaves
both to a thread and the timer. `notify` asks for `complete`, which only the
thread sets, so that `$run` calls nothing back.
-/
namespace HttpBackground

namespace Component

variable {s s' : Component} {o : ℕ} {result : ParamMap}

/-- The step puts Omnis code on top of the calls that were in progress before it. -/
def Enters (s s' : Component) (o : ℕ) (cb : Callback) : Prop :=
  (∃ rest, s'.stack = .handler o cb :: rest) ∧ ¬ s'.stack <:+ s.stack

theorem not_enters_of_suffix {cb : Callback} (h : s'.stack <:+ s.stack) : ¬ Enters s s' o cb :=
  fun he => he.2 h

theorem not_enters_of_stack {cb : Callback} (h : s'.stack = s.stack) : ¬ Enters s s' o cb :=
  not_enters_of_suffix (h ▸ List.suffix_refl _)

theorem not_enters_of_top {cb : Callback} {f : Frame} {rest : List Frame}
    (h : s'.stack = f :: rest) (hf : ∀ o cb, f ≠ .handler o cb) : ¬ Enters s s' o cb := by
  rintro ⟨⟨rest', hs⟩, -⟩
  rw [h] at hs
  cases hs
  exact hf o cb rfl

theorem not_enters_of_returned {cb : Callback} {ret : NextTimer} {f : Frame} {rest : List Frame}
    (hs : s.stack = f :: rest) (h : s'.stack = returned ret rest) : ¬ Enters s s' o cb := by
  unfold returned at h
  split at h
  · exact not_enters_of_top h (by simp)
  · exact not_enters_of_suffix (by rw [hs, h]; exact List.suffix_cons f rest)

theorem enters_iff {cb cb' : Callback} {o' : ℕ} {rest : List Frame}
    (h : s'.stack = .handler o' cb' :: rest) (hnew : ¬ s'.stack <:+ s.stack) :
    Enters s s' o cb ↔ o' = o ∧ cb' = cb := by
  constructor
  · rintro ⟨⟨rest', hs'⟩, -⟩
    rw [h] at hs'
    cases hs'
    exact ⟨rfl, rfl⟩
  · rintro ⟨rfl, rfl⟩
    exact ⟨⟨rest, h⟩, hnew⟩

theorem silent_iff {calls : Option (ℕ × Callback)} {cb : Callback} (hcalls : calls = none)
    (henters : ¬ Enters s s' o cb) : calls = some (o, cb) ↔ Enters s s' o cb := by
  rw [hcalls]
  exact iff_of_false (by simp) henters

theorem mainStep_callsBack_iff {cb : Callback} (h : MainSteps s s') :
    s.delivers .main = some (o, cb) ↔ Enters s s' o cb := by
  -- the call takes the place of the frame that made it
  have hnew : ∀ f g rest, s.stack = f :: rest → s'.stack = g :: rest → g ≠ f →
      ¬ s'.stack <:+ s.stack := by
    intro f g rest hs hs' hne hsuf
    rw [hs, hs'] at hsuf
    have := hsuf.eq_of_length rfl
    cases this
    exact hne rfl
  cases h with
  | loopEnd rest hs =>
    refine silent_iff (by simp [delivers, hs]) (not_enters_of_suffix ?_)
    rw [hs]
    exact List.suffix_cons _ rest
  | loopNotify it rest hs | loopSkip it rest hs | assign it ret rest hs | testStop it rest hs
  | testContinue it rest hs | isComplete o' W rest hs | notComplete o' W rest hs =>
    exact silent_iff (by simp [delivers, hs]) (not_enters_of_top rfl (by simp))
  | completed o' W rest hs hW =>
    have hcalls : s.delivers .main = some (o', .completed (readResult W.result)) := by
      simp [delivers, hs, hW]
    rw [hcalls, enters_iff rfl (hnew _ _ rest hs rfl (by simp)), Option.some.injEq, Prod.mk.injEq]
  | canceled o' W rest hs hW hc =>
    have hcalls : s.delivers .main = some (o', .canceled) := by simp [delivers, hs, hW, hc]
    rw [hcalls, enters_iff rfl (hnew _ _ rest hs rfl (by simp)), Option.some.injEq, Prod.mk.injEq]
  | pending o' W rest hs hW hc =>
    exact silent_iff (by simp [delivers, hs, hW, hc]) (not_enters_of_returned hs rfl)
  | fault hd => exact silent_iff hd (not_enters_of_stack rfl)

/-- A step calls Omnis code exactly when it enters it. -/
theorem callsBack_iff {a : Act} {cb : Callback} (h : step s a = some s') :
    s.callsBack a = some (o, cb) ↔ Enters s s' o cb := by
  cases (step_cases h).2 with
  | failed a o' name text hi hr hcalls =>
    have hnew : ¬ (.handler o' (.error name text) :: s.stack) <:+ s.stack := by
      intro hsuf
      have := hsuf.length_le
      rw [List.length_cons] at this
      omega
    rw [hcalls, enters_iff rfl hnew, Option.some.injEq, Prod.mk.injEq]
  | construct | nested | thread => exact silent_iff rfl (not_enters_of_stack rfl)
  | destroy o' =>
    have hstack : (s.destruct o').stack = s.stack := by rw [destruct_fields]
    exact silent_iff rfl (not_enters_of_stack hstack)
  | methodInitialize o' rowVal params hi ho hrow =>
    have hstack : (s.makeWorker o' params).stack = s.stack := by rw [makeWorker_fields]
    exact silent_iff (by simp [callsBack, methodInitialize, hrow, errorOf]) (not_enters_of_stack hstack)
  | methodRun o' w r hi ho =>
    exact silent_iff (by simp [callsBack, methodRun, ho, errorOf]) (not_enters_of_top rfl (by simp))
  | methodStart o' w hi ho =>
    have hstack : (s.subscribe o').stack = s.stack := by rw [subscribe_fields]
    exact silent_iff (by simp [callsBack, methodStart, ho, errorOf]) (not_enters_of_stack hstack)
  | methodCancel o' w hi ho =>
    exact silent_iff (by simp [callsBack, methodCancel, ho, errorOf]) (not_enters_of_stack rfl)
  | tick => exact silent_iff rfl (not_enters_of_top rfl (by simp))
  | handlerReturn s' h =>
    obtain ⟨o', cb', rest, hs, ⟨-, rfl⟩ | ⟨-, rfl⟩⟩ := handlerReturn_cases h
    · refine silent_iff rfl (not_enters_of_suffix ?_)
      rw [hs]
      exact List.suffix_cons _ rest
    · exact silent_iff rfl (not_enters_of_returned hs rfl)
  | main s' h => exact mainStep_callsBack_iff (mainStep_cases h)

/-- What a step calls on one object. -/
def callsOn (s : Component) (a : Act) (o : ℕ) : List Callback :=
  match s.callsBack a with
  | none => []
  | some (o', cb) => if o' = o then [cb] else []

/-- The calls made on an object in a run, in their order. -/
def callbacksTo (o : ℕ) : List (Component × Act) → List Callback
  | [] => []
  | (s, a) :: tr => callbacksTo o tr ++ s.callsOn a o

theorem callbacksTo_append (o : ℕ) (later earlier : List (Component × Act)) :
    callbacksTo o (later ++ earlier) = callbacksTo o earlier ++ callbacksTo o later := by
  induction later with
  | nil => exact (List.append_nil _).symm
  | cons p later ih =>
    show callbacksTo o (later ++ earlier) ++ p.1.callsOn p.2 o = _
    rw [ih, List.append_assoc]
    rfl

/-- Omnis neither makes nor destroys the object nor calls it. -/
def Act.spares (o : ℕ) : Act → Bool
  | .construct o' | .destroy o' | .methodInitialize o' _ | .methodRun o' _ | .methodStart o'
  | .methodCancel o' => o' != o
  | .timer | .main | .handlerReturn | .thread _ _ _ => true

/-- A call of `$run` on the object up to its return, when the delegate returns `result`. -/
inductive Synchronous (s : Component) (o : ℕ) (result : ParamMap) :
    List (Component × Act) → Component → Prop
  | call {x s' tr} : step s (.methodRun o result) = some x → Transition.Run step x tr s' →
      Transition.Always (fun t _ => s.stack.length < t.stack.length) tr → s'.stack = s.stack →
      Synchronous s o result (tr ++ [(s, .methodRun o result)]) s'

/-- The object's thread has ended, and the delegate has returned `result` to it. -/
def Finished (s : Component) (o : ℕ) (result : ParamMap) : Prop :=
  ∃ W, s.worker? o = some W ∧ W.pcAt 0 = some .done ∧ W.resultAt 0 = some result

/-- A call of `$start` on the object, the run of its thread to the end and then one
tick, whatever else there is in between. -/
inductive Background (s : Component) (o : ℕ) (result : ParamMap) :
    List (Component × Act) → Component → Prop
  | call {x y z s' before tick} : step s (.methodStart o) = some x →
      Transition.Run step x before y →
      Transition.Always (fun _ a => a ≠ .timer ∧ a.spares o = true) before →
      y.stack = [] → y.Finished o result → step y .timer = some z →
      Transition.Run step z tick s' →
      Transition.Always (fun t a => t.timerProcessing = true ∧ a.spares o = true) tick →
      s'.stack = [] →
      Background s o result (tick ++ (y, .timer) :: (before ++ [(s, .methodStart o)])) s'

/-- `$run` calls back what `$start` would: `$completed` once, with the result. -/
def RunAgrees (s : Component) (o : ℕ) (result : ParamMap) : Prop :=
  ∀ tr s', Synchronous s o result tr s' →
    callbacksTo o tr = [.completed (readResult result)] ∧
      ∀ tr' s'', Background s o result tr' s'' → callbacksTo o tr = callbacksTo o tr'

/-- The object has a worker that nothing has happened to but the delegate's run. -/
def Fresh (s : Component) (o : ℕ) : Prop :=
  ∃ w W, s.workerOf o = some w ∧ s.workers[w]? = some W ∧ W.complete = false ∧
    W.cancelled = false ∧ W.threads = []

/-- `$initialize` with a row it accepts leaves the object with a new worker. -/
theorem step_initialize {s₀ : Component} {row : FldVal} {params : ParamMap}
    (hrow : getParamsFromRow row = some params)
    (h : step s₀ (.methodInitialize o (some row)) = some s) :
    s.fault = false ∧ s.idle = true ∧ (s.objects o).isSome = true ∧ s.stack = s₀.stack ∧
      s.workerOf o = some s₀.workers.length ∧
      s.workers[s₀.workers.length]? = some (Worker.new params).init := by
  obtain ⟨hf, hstep⟩ := step_cases h
  cases hstep with
  | failed a o name text hi hr =>
    have hr : getParamsFromRow row = none := hr
    rw [hrow] at hr
    cases hr
  | methodInitialize o rowVal params' hi ho hrow' =>
    have hparams : params = params' := by
      rw [Option.bind_some, hrow, Option.some.injEq] at hrow'
      exact hrow'
    subst hparams
    rw [makeWorker_fields]
    refine ⟨hf, hi, by simp, rfl, by simp [workerOf], ?_⟩
    show ((s₀.dropWorker o).workers ++ [(Worker.new params).init])[s₀.workers.length]? = _
    rw [← dropWorker_length s₀ o, List.getElem?_concat_length]

/-- While a call of `$run` on a fresh worker is in progress: `notify` asks its two
questions and gets no for an answer. -/
structure Asking (o : ℕ) (base : List Frame) (s : Component) : Prop where
  fresh : s.Fresh o
  stack : s.stack = .notifyComplete o :: base ∨ s.stack = .notifyCancelled o :: base ∨
    s.stack = base

theorem returned_of_idle (hi : s.idle = true) (ret : NextTimer) :
    returned ret s.stack = s.stack := by
  unfold idle at hi
  split at hi
  · next hs =>
    rw [hs]
    rfl
  · next hs =>
    rw [hs]
    rfl
  · cases hi

theorem Fresh.worker? (h : s.Fresh o) :
    ∃ W, s.worker? o = some W ∧ W.complete = false ∧ W.cancelled = false := by
  obtain ⟨w, W, ho, hW, hc, hx, -⟩ := h
  exact ⟨W, by rw [Component.worker?, ho, Option.bind_some, hW], hc, hx⟩

theorem fresh_methodRun (hs : s.Fresh o) (h : step s (.methodRun o result) = some s') :
    s'.Fresh o ∧ s'.fault = s.fault ∧ s'.stack = .notifyComplete o :: s.stack := by
  obtain ⟨w, W, ho, hW, hc, hx, ht⟩ := hs
  obtain ⟨-, rfl⟩ := step_methodRun ho h
  refine ⟨⟨w, W.run result, ho, ?_, hc, hx, ht⟩, rfl, rfl⟩
  show (s.modifyWorker w (Worker.run · result)).workers[w]? = _
  rw [modifyWorker_getElem?, if_pos rfl, hW]
  rfl

/-- No thread step is one of a fresh worker. -/
theorem fresh_thread (hs : s.Fresh o) {w i : ℕ} {b : ThreadAct} {W W' : Worker}
    (hW : s.workers[w]? = some W) (hstep : W.step (.thread i b) = some W') :
    Fresh { s with workers := s.workers.set w W', fault := W'.fault } o := by
  obtain ⟨w', V, ho, hV, hc, hx, ht⟩ := hs
  refine ⟨w', V, ho, ?_, hc, hx, ht⟩
  have hne : w ≠ w' := by
    rintro rfl
    rw [hW, Option.some.injEq] at hV
    obtain ⟨t, hi, -⟩ := Worker.step_thread hstep
    rw [hV, ht] at hi
    cases hi
  show (s.workers.set w W')[w']? = some V
  rwa [List.getElem?_set_ne hne]

/-- A fresh worker is not complete. -/
theorem fresh_complete {base : List Frame} (hs : s.Fresh o)
    (hstack : s.stack = .notifyComplete o :: base) :
    s.mainStep = some (s.setStack (.notifyCancelled o :: base)) := by
  obtain ⟨W, hW, hc, -⟩ := hs.worker?
  simp [mainStep, hstack, hW, hc]

/-- Nor is it cancelled. -/
theorem fresh_cancelled {base : List Frame} (hs : s.Fresh o)
    (hstack : s.stack = .notifyCancelled o :: base) (hbase : ∀ ret, returned ret base = base) :
    s.mainStep = some (s.setStack base) ∧ s.delivers .main = none := by
  obtain ⟨W, hW, -, hx⟩ := hs.worker?
  simp [mainStep, delivers, hstack, hW, hx, hbase]

theorem asking_step {a : Act} {base : List Frame} (h : step s a = some s')
    (hbase : ∀ ret, returned ret base = base) (hopen : base.length < s.stack.length)
    (hs : s.Asking o base) : s'.Asking o base ∧ s.callsOn a o = [] := by
  have htop : s.stack = .notifyComplete o :: base ∨ s.stack = .notifyCancelled o :: base := by
    obtain hs | hs | hs := hs.stack
    · exact .inl hs
    · exact .inr hs
    · rw [hs] at hopen
      omega
  have hbusy : s.idle = false := by
    obtain hs | hs := htop <;> simp [idle, hs]
  cases (step_cases h).2 with
  | main s' h =>
    obtain hs' | hs' := htop
    · rw [fresh_complete hs.fresh hs', Option.some.injEq] at h
      have hcalls : s.callsBack .main = none := by simp [callsBack, delivers, hs']
      rw [← h]
      exact ⟨⟨hs.fresh, .inr (.inl rfl)⟩, by simp [callsOn, hcalls]⟩
    · obtain ⟨hmain, hnone⟩ := fresh_cancelled hs.fresh hs' hbase
      rw [hmain, Option.some.injEq] at h
      have hcalls : s.callsBack .main = none := hnone
      rw [← h]
      exact ⟨⟨hs.fresh, .inr (.inr rfl)⟩, by simp [callsOn, hcalls]⟩
  | handlerReturn s' h =>
    obtain ⟨o', cb, rest, hs', -⟩ := handlerReturn_cases h
    obtain hs | hs := htop <;> rw [hs] at hs' <;> cases hs'
  | thread w i b W₁ W' hW₁ hstep =>
    exact ⟨⟨fresh_thread hs.fresh hW₁ hstep, hs.stack⟩, rfl⟩
  | construct o hi | destroy o hi | failed a o name text hi | methodInitialize o rowVal params hi
  | methodRun o w r hi | methodStart o w hi | methodCancel o w hi | nested hi | tick hi =>
    rw [hbusy] at hi
    cases hi

/-- On a fresh worker `$run` calls nothing back. -/
theorem synchronous_silent {tr : List (Component × Act)} (hs : s.Fresh o)
    (h : Synchronous s o result tr s') : callbacksTo o tr = [] := by
  obtain ⟨hrun, run, hopen, -⟩ := h
  obtain ⟨hfresh, -, hstack⟩ := fresh_methodRun hs hrun
  obtain ⟨w, W, ho, -⟩ := hs
  have hi : s.idle = true := (step_methodRun ho hrun).1
  have hstart : callbacksTo o [(s, .methodRun o result)] = [] := by
    simp [callbacksTo, callsOn, callsBack, methodRun, ho, errorOf]
  have hinv := run.invariant (fun t _ => s.stack.length < t.stack.length)
    (fun tr t => t.Asking o s.stack ∧ callbacksTo o tr = []) ⟨⟨hfresh, .inl hstack⟩, rfl⟩
    (fun tr t a t' _ _ hI hopen h => by
      obtain ⟨hask, hcalls⟩ := asking_step h (returned_of_idle hi) hopen hI.1
      exact ⟨hask, by rw [callbacksTo, hI.2, hcalls, List.nil_append]⟩) hopen
  rw [callbacksTo_append, hstart, hinv.2, List.nil_append]

/-- The call returns after the two questions. -/
theorem synchronous_exists (hf : s.fault = false) (hi : s.idle = true)
    (ho : (s.objects o).isSome = true) (hs : s.Fresh o) (result : ParamMap) :
    ∃ tr s', Synchronous s o result tr s' := by
  obtain ⟨x, hrun⟩ : ∃ x, step s (.methodRun o result) = some x := by
    obtain ⟨w, W, how, -⟩ := hs
    simp [step, hf, omnis, hi, ho]
  obtain ⟨hfresh, hxf, hstack⟩ := fresh_methodRun hs hrun
  rw [hf] at hxf
  have hmain : step x .main = some (x.setStack (.notifyCancelled o :: s.stack)) := by
    simp only [step, hxf, Bool.false_eq_true, if_false]
    exact fresh_complete hfresh hstack
  have hmain' : step (x.setStack (.notifyCancelled o :: s.stack)) .main =
      some (x.setStack s.stack) := by
    have hasked : (x.setStack (.notifyCancelled o :: s.stack)).Fresh o := hfresh
    have hxf' : (x.setStack (.notifyCancelled o :: s.stack)).fault = false := hxf
    simp only [step, hxf', Bool.false_eq_true, if_false]
    exact (fresh_cancelled hasked rfl (returned_of_idle hi)).1
  refine ⟨_, _, .call hrun ((Transition.Run.start.next hmain).next hmain') ?_ rfl⟩
  intro p hp
  obtain rfl | hp := List.mem_cons.mp hp
  · exact Nat.lt_succ_self _
  · rw [List.mem_singleton.mp hp]
    show s.stack.length < x.stack.length
    rw [hstack]
    exact Nat.lt_succ_self _

/-- A new object with any request, any result of the delegate: `$run` never calls
back what `$start` does. -/
theorem run_never_agrees {s₀ : Component} {row : FldVal} {params : ParamMap}
    (hrow : getParamsFromRow row = some params)
    (h : step s₀ (.methodInitialize o (some row)) = some s) (result : ParamMap) :
    ¬ RunAgrees s o result := by
  intro hall
  obtain ⟨hf, hi, ho, -, how, hW⟩ := step_initialize hrow h
  have hs : s.Fresh o := ⟨_, _, how, hW, rfl, rfl, rfl⟩
  obtain ⟨tr, s', hsync⟩ := synchronous_exists hf hi ho hs result
  obtain ⟨hone, -⟩ := hall tr s' hsync
  rw [synchronous_silent hs hsync] at hone
  cases hone

/-- One object with a URL. -/
theorem run_never_agrees_url :
    ∃ s, step (loaded.construct 1) (.methodInitialize 1 (some urlRow)) = some s ∧
      ¬ RunAgrees s 1 [] := by
  have hrow : getParamsFromRow urlRow = some _ := rfl
  have h : step (loaded.construct 1) (.methodInitialize 1 (some urlRow)) = some _ := rfl
  exact ⟨_, h, run_never_agrees hrow h []⟩

/-- A run of `$run` on it that returns without a callback. -/
theorem run_calls_nothing :
    ¬ ∀ (s₀ s : Component) (o : ℕ) (row : FldVal) (params result : ParamMap),
      getParamsFromRow row = some params →
        step s₀ (.methodInitialize o (some row)) = some s → RunAgrees s o result := by
  intro hall
  have hrow : getParamsFromRow urlRow = some _ := rfl
  have hagrees := hall (loaded.construct 1) _ 1 urlRow _ [] hrow rfl
  obtain ⟨hone, -⟩ := hagrees _ _ (.call (show step _ (.methodRun 1 []) = some _ from rfl)
    (Transition.replay_run .start
      (show Transition.replay step _ [] [.main, .main] = some (_, _) from rfl)) (by decide) rfl)
  cases hone

end Component

end HttpBackground
