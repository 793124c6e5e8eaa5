import HttpBackground.ComponentSteps
import HttpBackground.WorkerThreads

/-!
# The workers of a component

An object owns its worker alone, so a worker sees its own owner's calls and the
steps of its own threads and nothing else. `worker_run` draws the conclusion: the
workers of a component's run have gone through runs of their own, and what holds
in all of these holds of every worker in the component.
-/
namespace HttpBackground

namespace Component

variable {s s' : Component}

/-- What a step of the component is for worker `w`. -/
def acts (s : Component) (a : Act) (w : ℕ) : Option Worker.Act :=
  match a with
  | .methodInitialize o rowVal =>
    if s.workerOf o = some w ∧ (rowVal.bind getParamsFromRow).isSome then some .drop else none
  | .destroy o => if s.workerOf o = some w then some .drop else none
  | .methodRun o result => if s.workerOf o = some w then some (.run result) else none
  | .methodStart o => if s.workerOf o = some w then some .start else none
  | .methodCancel o => if s.workerOf o = some w then some .cancel else none
  | .thread w' i b => if w' = w then some (.thread i b) else none
  | .construct _ | .timer | .main | .handlerReturn => none

/-- Every object with a worker owns it alone, and no worker has met with a fault
as long as the component has not. -/
structure Owned (s : Component) : Prop where
  owned : ∀ o w, s.workerOf o = some w → ∃ W, s.workers[w]? = some W ∧ W.owned = true
  unshared : ∀ o o' w, s.workerOf o = some w → s.workerOf o' = some w → o = o'
  sound : s.fault = false → ∀ (w : ℕ) (W : Worker), s.workers[w]? = some W → W.fault = false

theorem acts_of_refuses {a : Act} (h : s.refuses a) (w : ℕ) : s.acts a w = none := by
  cases a with
  | methodInitialize o rowVal =>
    have h : rowVal.bind getParamsFromRow = none := h
    simp [acts, h]
  | methodRun o | methodStart o | methodCancel o =>
    have h : s.workerOf o = none := h
    simp [acts, h]
  | construct | destroy | timer | main | handlerReturn | thread => exact h.elim

theorem mainStep_workers (h : s.mainStep = some s') : s'.workers = s.workers := by
  cases mainStep_cases h <;> rfl

theorem handlerReturn_workers (h : s.handlerReturn = some s') : s'.workers = s.workers := by
  obtain ⟨o, cb, rest, -, ⟨-, rfl⟩ | ⟨-, rfl⟩⟩ := handlerReturn_cases h <;> rfl

/-- A worker's owner is in charge of it, so the call has an effect. -/
theorem Owned.step_worker (hs : s.Owned) (hf : s.fault = false) {o w : ℕ} {W : Worker}
    (ho : s.workerOf o = some w) (hW : s.workers[w]? = some W) :
    W.step .start = some W.start ∧ W.step .cancel = some W.cancel ∧
      (∀ r, W.step (.run r) = some (W.run r)) ∧ W.step .drop = some W.drop := by
  have hfault : W.fault = false := hs.sound hf w W hW
  obtain ⟨W', hW', howned⟩ := hs.owned o w ho
  rw [hW, Option.some.injEq] at hW'
  subst hW'
  simp [Worker.step, hfault, howned]

/-- A worker is as before, or after a step of its own. -/
def Follows (s : Component) (a : Act) (w : ℕ) (W' : Worker) : Prop :=
  ∃ W, s.workers[w]? = some W ∧
    (s.acts a w = none ∧ W' = W ∨ ∃ b, s.acts a w = some b ∧ W.step b = some W')

theorem Follows.same {a : Act} {w : ℕ} {W' : Worker} (hact : s.acts a w = none)
    (hW' : s.workers[w]? = some W') : s.Follows a w W' := ⟨W', hW', .inl ⟨hact, rfl⟩⟩

/-- What an object does to its worker is a step of that worker alone. -/
theorem Follows.owner {a : Act} {o w : ℕ} {W' : Worker} {b : Worker.Act} {f : Worker → Worker}
    (hact : s.acts a w = if s.workerOf o = some w then some b else none)
    (hstep : ∀ W, s.workerOf o = some w → s.workers[w]? = some W → W.step b = some (f W))
    (hW' : (if s.workerOf o = some w then s.workers[w]?.map f else s.workers[w]?) = some W') :
    s.Follows a w W' := by
  by_cases hw : s.workerOf o = some w
  · rw [if_pos hw] at hact hW'
    obtain ⟨W, hW, rfl⟩ := Option.map_eq_some_iff.mp hW'
    exact ⟨W, hW, .inr ⟨b, hact, hstep W hw hW⟩⟩
  · rw [if_neg hw] at hact hW'
    exact .same hact hW'

theorem if_owner {α : Type*} {o w w' : ℕ} (ho : s.workerOf o = some w') (x y : α) :
    (if w = w' then x else y) = if s.workerOf o = some w then x else y := by
  apply if_congr _ rfl rfl
  rw [ho, Option.some.injEq, eq_comm]

/-- A worker after a step of the component: as before, or after a step of its
own, or new. -/
theorem worker_step (hs : s.Owned) {a : Act} (h : step s a = some s') {w : ℕ} {W' : Worker}
    (hW' : s'.workers[w]? = some W') :
    s.Follows a w W' ∨ w = s.workers.length ∧ ∃ o rowVal params, a = .methodInitialize o rowVal ∧
      rowVal.bind getParamsFromRow = some params ∧ W' = (Worker.new params).init := by
  obtain ⟨hf, h⟩ := step_cases h
  cases h with
  | construct o => exact .inl (.same rfl hW')
  | destroy o hi ho =>
    rw [destruct_workers, dropWorker_getElem?] at hW'
    exact .inl (.owner rfl (fun W hw hW => (hs.step_worker hf hw hW).2.2.2) hW')
  | failed a o name text hi hr => exact .inl (.same (acts_of_refuses hr w) hW')
  | methodInitialize o rowVal params hi ho hrow =>
    rw [makeWorker_fields] at hW'
    replace hW' : ((s.dropWorker o).workers ++ [(Worker.new params).init])[w]? = some W' := hW'
    by_cases hlt : w < s.workers.length
    · rw [List.getElem?_append_left (by rwa [dropWorker_length]), dropWorker_getElem?] at hW'
      have hact : s.acts (.methodInitialize o rowVal) w =
          if s.workerOf o = some w then some .drop else none := by
        simp [acts, hrow]
      exact .inl (.owner hact (fun W hw hW => (hs.step_worker hf hw hW).2.2.2) hW')
    · have hlen := dropWorker_length s o
      rw [List.getElem?_append_right (by omega), List.getElem?_singleton] at hW'
      by_cases hz : w - (s.dropWorker o).workers.length = 0
      · rw [if_pos hz, Option.some.injEq] at hW'
        exact .inr ⟨by omega, o, rowVal, params, rfl, hrow, hW'.symm⟩
      · rw [if_neg hz] at hW'
        cases hW'
  | methodRun o w' result hi ho =>
    replace hW' : (s.modifyWorker w' (Worker.run · result)).workers[w]? = some W' := hW'
    rw [modifyWorker_getElem?, if_owner ho] at hW'
    exact .inl (.owner rfl (fun W hw hW => (hs.step_worker hf hw hW).2.2.1 result) hW')
  | methodStart o w' hi ho =>
    rw [modifyWorker_getElem?, subscribe_fields, if_owner ho] at hW'
    exact .inl (.owner rfl (fun W hw hW => (hs.step_worker hf hw hW).1) hW')
  | methodCancel o w' hi ho =>
    rw [modifyWorker_getElem?, if_owner ho] at hW'
    exact .inl (.owner rfl (fun W hw hW => (hs.step_worker hf hw hW).2.1) hW')
  | nested | tick => exact .inl (.same rfl hW')
  | main s' h =>
    rw [mainStep_workers h] at hW'
    exact .inl (.same rfl hW')
  | handlerReturn s' h =>
    rw [handlerReturn_workers h] at hW'
    exact .inl (.same rfl hW')
  | thread w' i b W W₁ hW hstep =>
    replace hW' : (s.workers.set w' W₁)[w]? = some W' := hW'
    by_cases hw : w' = w
    · subst hw
      have hlt : w' < s.workers.length := (List.getElem?_eq_some_iff.mp hW).1
      rw [List.getElem?_set_self hlt, Option.some.injEq] at hW'
      subst hW'
      exact .inl ⟨W, hW, .inr ⟨_, if_pos rfl, hstep⟩⟩
    · rw [List.getElem?_set_ne hw] at hW'
      exact .inl (.same (if_neg hw) hW')

theorem setObject_workerOf (s : Component) (o : ℕ) (obj : Option NVObjHTTPWorker) (o' : ℕ) :
    (s.setObject o obj).workerOf o' =
      if o' = o then obj.bind NVObjHTTPWorker.worker else s.workerOf o' := by
  unfold workerOf setObject
  by_cases ho : o' = o
  · simp [ho]
  · simp [ho, Function.update_of_ne]

theorem mainStep_objects (h : s.mainStep = some s') : s'.objects = s.objects := by
  cases mainStep_cases h <;> rfl

theorem handlerReturn_objects (h : s.handlerReturn = some s') : s'.objects = s.objects := by
  obtain ⟨o, cb, rest, -, ⟨-, rfl⟩ | ⟨-, rfl⟩⟩ := handlerReturn_cases h <;> rfl

/-- Which worker an object points to after a step. -/
def workerOfAfter (s : Component) (a : Act) (o' : ℕ) : Option ℕ :=
  match a with
  | .construct o | .destroy o => if o' = o then none else s.workerOf o'
  | .methodInitialize o rowVal =>
    if o' = o ∧ (rowVal.bind getParamsFromRow).isSome then some s.workers.length
    else s.workerOf o'
  | .methodRun _ _ | .methodStart _ | .methodCancel _ | .timer | .main | .handlerReturn
  | .thread _ _ _ => s.workerOf o'

theorem step_workerOf {a : Act} (h : step s a = some s') (o' : ℕ) :
    s'.workerOf o' = s.workerOfAfter a o' := by
  cases (step_cases h).2 with
  | construct o => exact setObject_workerOf s o _ o'
  | destroy o =>
    have hobj : (s.destruct o).workerOf o' = (s.setObject o none).workerOf o' := by
      unfold workerOf
      rw [destruct_fields]
      rfl
    rw [hobj]
    exact setObject_workerOf s o none o'
  | methodInitialize o rowVal params hi ho hrow =>
    have hobj : (s.makeWorker o params).workerOf o' =
        (s.setObject o (some ⟨some s.workers.length⟩)).workerOf o' := by
      unfold workerOf
      rw [makeWorker_fields]
      rfl
    rw [hobj, setObject_workerOf]
    simp [workerOfAfter, hrow]
  | failed a o name text hi hr =>
    have hsame : (s.setStack (.handler o (.error name text) :: s.stack)).workerOf o' =
        s.workerOf o' := rfl
    cases a with
    | methodInitialize o rowVal =>
      have hr : rowVal.bind getParamsFromRow = none := hr
      simp [workerOfAfter, hsame, hr]
    | methodRun | methodStart | methodCancel => exact hsame
    | construct | destroy | timer | main | handlerReturn | thread => exact hr.elim
  | methodStart o w hi ho =>
    have hobj : (s.subscribe o).objects = s.objects := by rw [subscribe_fields]
    exact congrArg (fun f => (f o').bind NVObjHTTPWorker.worker) hobj
  | main s' h =>
    exact congrArg (fun f => (f o').bind NVObjHTTPWorker.worker) (mainStep_objects h)
  | handlerReturn s' h =>
    exact congrArg (fun f => (f o').bind NVObjHTTPWorker.worker) (handlerReturn_objects h)
  | methodRun | methodCancel | nested | tick | thread => rfl

theorem length_le_step {a : Act} (h : step s a = some s') :
    s.workers.length ≤ s'.workers.length := by
  cases (step_cases h).2 with
  | destroy o =>
    rw [destruct_workers, dropWorker_length]
  | methodInitialize o rowVal params =>
    rw [makeWorker_fields]
    show s.workers.length ≤ ((s.dropWorker o).workers ++ [(Worker.new params).init]).length
    rw [List.length_append, dropWorker_length]
    exact Nat.le_add_right _ _
  | methodRun o w result =>
    show s.workers.length ≤ (s.workers.modify w _).length
    rw [List.length_modify]
  | methodStart o w =>
    show s.workers.length ≤ ((s.subscribe o).workers.modify w _).length
    rw [List.length_modify, subscribe_fields]
  | methodCancel o w =>
    show s.workers.length ≤ (s.workers.modify w _).length
    rw [List.length_modify]
  | main s' h => rw [mainStep_workers h]
  | handlerReturn s' h => rw [handlerReturn_workers h]
  | thread w i b W W' =>
    show s.workers.length ≤ (s.workers.set w W').length
    rw [List.length_set]
  | construct | failed | nested | tick => exact Nat.le_refl _

/-- `worker_step` from the state before. -/
theorem worker_after (hs : s.Owned) {a : Act} (h : step s a = some s') {w : ℕ} {W : Worker}
    (hW : s.workers[w]? = some W) :
    ∃ W', s'.workers[w]? = some W' ∧
      (s.acts a w = none ∧ W' = W ∨ ∃ b, s.acts a w = some b ∧ W.step b = some W') := by
  have hlt : w < s.workers.length := (List.getElem?_eq_some_iff.mp hW).1
  have hlt' : w < s'.workers.length := Nat.lt_of_lt_of_le hlt (length_le_step h)
  have hW' := List.getElem?_eq_getElem hlt'
  refine ⟨_, hW', ?_⟩
  obtain ⟨W₁, hW₁, hcase⟩ | ⟨hw, -⟩ := worker_step hs h hW'
  · rw [hW, Option.some.injEq] at hW₁
    rwa [hW₁]
  · omega

/-- Where what happens to a worker comes from. -/
theorem acts_cases {a : Act} {w : ℕ} {b : Worker.Act} (h : s.acts a w = some b) :
    (∃ o, s.workerOf o = some w ∧
      (a = .methodStart o ∧ b = .start ∨ a = .methodCancel o ∧ b = .cancel ∨
        (∃ r, a = .methodRun o r ∧ b = .run r) ∨
        ((∃ rowVal, a = .methodInitialize o rowVal ∧
          (rowVal.bind getParamsFromRow).isSome = true) ∨ a = .destroy o) ∧ b = .drop)) ∨
      ∃ i c, a = .thread w i c ∧ b = .thread i c := by
  cases a with
  | methodInitialize o rowVal =>
    by_cases hc : s.workerOf o = some w ∧ (rowVal.bind getParamsFromRow).isSome
    · simp only [acts, hc, and_self, if_true, Option.some.injEq] at h
      exact .inl ⟨o, hc.1, .inr (.inr (.inr ⟨.inl ⟨rowVal, rfl, hc.2⟩, h.symm⟩))⟩
    · simp [acts, hc] at h
  | destroy o =>
    by_cases hc : s.workerOf o = some w
    · simp only [acts, hc, if_true, Option.some.injEq] at h
      exact .inl ⟨o, hc, .inr (.inr (.inr ⟨.inr rfl, h.symm⟩))⟩
    · simp [acts, hc] at h
  | methodRun o r =>
    by_cases hc : s.workerOf o = some w
    · simp only [acts, hc, if_true, Option.some.injEq] at h
      exact .inl ⟨o, hc, .inr (.inr (.inl ⟨r, rfl, h.symm⟩))⟩
    · simp [acts, hc] at h
  | methodStart o =>
    by_cases hc : s.workerOf o = some w
    · simp only [acts, hc, if_true, Option.some.injEq] at h
      exact .inl ⟨o, hc, .inl ⟨rfl, h.symm⟩⟩
    · simp [acts, hc] at h
  | methodCancel o =>
    by_cases hc : s.workerOf o = some w
    · simp only [acts, hc, if_true, Option.some.injEq] at h
      exact .inl ⟨o, hc, .inr (.inl ⟨rfl, h.symm⟩)⟩
    · simp [acts, hc] at h
  | thread w' i c =>
    by_cases hc : w' = w
    · simp only [acts, hc, if_true, Option.some.injEq] at h
      exact .inr ⟨i, c, by rw [hc], h.symm⟩
    · simp [acts, hc] at h
  | construct | timer | main | handlerReturn => cases h

theorem acts_eq_drop {a : Act} {w : ℕ} (h : s.acts a w = some .drop) :
    ∃ o, s.workerOf o = some w ∧ ((∃ rowVal, a = .methodInitialize o rowVal ∧
      (rowVal.bind getParamsFromRow).isSome = true) ∨ a = .destroy o) := by
  obtain ⟨o, ho, ⟨-, hb⟩ | ⟨-, hb⟩ | ⟨r, -, hb⟩ | ⟨ha, -⟩⟩ | ⟨i, c, -, hb⟩ := acts_cases h
  · cases hb
  · cases hb
  · cases hb
  · exact ⟨o, ho, ha⟩
  · cases hb

theorem acts_eq_thread {a : Act} {w i : ℕ} {c : ThreadAct}
    (h : s.acts a w = some (.thread i c)) : a = .thread w i c := by
  obtain ⟨o, -, ⟨-, hb⟩ | ⟨-, hb⟩ | ⟨r, -, hb⟩ | ⟨-, hb⟩⟩ | ⟨i', c', ha, hb⟩ := acts_cases h
  · cases hb
  · cases hb
  · cases hb
  · cases hb
  · cases hb
    exact ha

/-- An object that points to a worker after a step did so before, unless the
worker is new. -/
theorem workerOf_before {a : Act} (h : step s a = some s') {o w : ℕ}
    (ho : s'.workerOf o = some w) : s.workerOf o = some w ∨
      w = s.workers.length ∧ ∃ rowVal, a = .methodInitialize o rowVal := by
  rw [step_workerOf h] at ho
  unfold workerOfAfter at ho
  cases a with
  | construct o' | destroy o' =>
    by_cases hc : o = o'
    · simp [hc] at ho
    · exact .inl (by simpa [hc] using ho)
  | methodInitialize o' rowVal =>
    by_cases hc : o = o' ∧ (rowVal.bind getParamsFromRow).isSome
    · simp only [hc, and_self, if_true, Option.some.injEq] at ho
      exact .inr ⟨ho.symm, rowVal, by rw [hc.1]⟩
    · exact .inl (by simpa only [hc, if_false] using ho)
  | methodRun | methodStart | methodCancel | timer | main | handlerReturn | thread =>
    exact .inl ho

/-- An object that keeps its worker keeps it alive. -/
theorem owned_after (hs : s.Owned) {a : Act} (h : step s a = some s') {o w : ℕ}
    (ho : s.workerOf o = some w) (ho' : s'.workerOf o = some w) :
    ∃ W', s'.workers[w]? = some W' ∧ W'.owned = true := by
  obtain ⟨W, hW, howned⟩ := hs.owned o w ho
  have hlt : w < s.workers.length := (List.getElem?_eq_some_iff.mp hW).1
  obtain ⟨W', hW', ⟨-, rfl⟩ | ⟨b, hb, hstep⟩⟩ := worker_after hs h hW
  · exact ⟨W', hW', howned⟩
  · refine ⟨W', hW', ?_⟩
    have hne : b ≠ .drop := by
      rintro rfl
      obtain ⟨o₁, ho₁, ⟨rowVal, rfl, hrow⟩ | rfl⟩ := acts_eq_drop hb
      all_goals
        obtain rfl := hs.unshared o o₁ w ho ho₁
        rw [step_workerOf h, workerOfAfter] at ho'
      · simp only [hrow, and_self, if_true, Option.some.injEq] at ho'
        omega
      · simp at ho'
    rw [Worker.owned_of_step hstep hne]
    exact howned

theorem owned_step (hs : s.Owned) {a : Act} (h : step s a = some s') : s'.Owned := by
  have hlt : ∀ o w, s.workerOf o = some w → w < s.workers.length := by
    intro o w ho
    obtain ⟨W, hW, -⟩ := hs.owned o w ho
    exact (List.getElem?_eq_some_iff.mp hW).1
  constructor
  · intro o w ho'
    obtain ho | ⟨rfl, rowVal, rfl⟩ := workerOf_before h ho'
    · exact owned_after hs h ho ho'
    · have hlast : (s'.workers[s.workers.length]?).isSome := by
        cases (step_cases h).2 with
        | failed a o₁ name text hi hr =>
          have : s.workerOf o = some s.workers.length := ho'
          exact absurd (hlt _ _ this) (by omega)
        | methodInitialize o rowVal params =>
          rw [makeWorker_fields]
          simp [dropWorker_length]
      obtain ⟨W', hW'⟩ := Option.isSome_iff_exists.mp hlast
      obtain ⟨W, hW, -⟩ | ⟨-, o₁, r₁, params, -, -, rfl⟩ := worker_step hs h hW'
      · have := (List.getElem?_eq_some_iff.mp hW).1
        omega
      · exact ⟨_, hW', rfl⟩
  · intro o o' w ho ho'
    obtain h₁ | ⟨hw, r, ha⟩ := workerOf_before h ho
    · obtain h₂ | ⟨hw', r', ha'⟩ := workerOf_before h ho'
      · exact hs.unshared o o' w h₁ h₂
      · have := hlt o w h₁
        omega
    · obtain h₂ | ⟨hw', r', ha'⟩ := workerOf_before h ho'
      · have := hlt o' w h₂
        omega
      · rw [ha] at ha'
        cases ha'
        rfl
  · intro hf' w W' hW'
    obtain ⟨hf, hsteps⟩ := step_cases h
    obtain ⟨W, hW, ⟨-, rfl⟩ | ⟨b, hb, hstep⟩⟩ | ⟨-, o, r, params, -, -, rfl⟩ := worker_step hs h hW'
    · exact hs.sound hf w W' hW
    · by_cases ht : ∃ i c, b = .thread i c
      · -- the component records the fault of the worker that takes the step
        obtain ⟨i, c, rfl⟩ := ht
        obtain rfl := acts_eq_thread hb
        cases hsteps with
        | failed a o name text hi hr => exact hr.elim
        | thread w i c W₁ W₂ hW₁ hstep₁ =>
          have hlt := (List.getElem?_eq_some_iff.mp hW₁).1
          replace hW' : (s.workers.set w W₂)[w]? = some W' := hW'
          rw [List.getElem?_set_self hlt, Option.some.injEq] at hW'
          subst hW'
          exact hf'
      · rw [Worker.fault_of_step hstep fun i c hbt => ht ⟨i, c, hbt⟩]
        exact hs.sound hf w W hW
    · rfl

theorem owned_loaded : loaded.Owned where
  owned o w h := by cases h
  unshared o o' w h := by cases h
  sound _ w W hW := by cases hW

theorem owned_run {tr : List (Component × Act)} (run : Transition.Run step loaded tr s) :
    s.Owned :=
  run.stateHolds Owned owned_loaded fun _ _ _ hs h => owned_step hs h

/-- Each worker of a component has gone through a run of its own, whose steps meet
what the steps of the component guarantee for them. -/
theorem worker_run (okW : Worker → Worker.Act → Prop) (ok : Component → Act → Prop)
    (compat : ∀ s a w W b, ok s a → s.workers[w]? = some W → s.acts a w = some b → okW W b)
    {tr : List (Component × Act)} (run : Transition.Run step loaded tr s)
    (hok : Transition.Always ok tr) {w : ℕ} {W : Worker} (hW : s.workers[w]? = some W) :
    ∃ params trW, Transition.Run Worker.step (Worker.new params).init trW W ∧
      Transition.Always okW trW := by
  induction run generalizing w W with
  | start => cases hW
  | @next tr s a s' run hstep ih =>
    obtain ⟨W₁, hW₁, hcase⟩ | ⟨-, o, rowVal, params, -, -, rfl⟩ :=
      worker_step (owned_run run) hstep hW
    · obtain ⟨params, trW, hrun, hokW⟩ := ih hok.tail hW₁
      obtain ⟨-, rfl⟩ | ⟨b, hb, hb'⟩ := hcase
      · exact ⟨params, trW, hrun, hokW⟩
      · refine ⟨params, (W₁, b) :: trW, hrun.next hb', ?_⟩
        intro p hp
        obtain rfl | hp := List.mem_cons.mp hp
        · exact compat s a w W₁ b hok.head hW₁ hb
        · exact hokW p hp
    · exact ⟨params, [], .start, fun p hp => by cases hp⟩

end Component

end HttpBackground
