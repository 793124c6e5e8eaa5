import HttpBackground.Notification

/-!
# The workers an object has had

`$initialize` puts a new worker in the place of the object's former one, whose
threads may still be running and hold on to it. They have nothing to write to
but their own worker, and the delegate they call is the one made with it, so what
a worker's result came from can be told from that worker alone.
-/
namespace HttpBackground

/-- The thread has its copy of the parameters and is on its way into the delegate,
or inside. -/
def Pc.copied : Pc → Bool
  | .resetPtr | .unlock | .enter | .inRun => true
  | _ => false

theorem Pc.copied_of_next {p p' : Pc} (h : p' ∈ p.next) (hc : p'.copied = true) :
    p = .copyParams ∨ p.copied = true := by
  cases p <;> simp [next] at h <;> grind [copied]

namespace Worker

variable {w w' : Worker} {i : ℕ} {t : WorkerThread}

/-- What thread `i` has been given to run the delegate on. -/
def paramsAt (w : Worker) (i : ℕ) : Option ParamMap := w.threads[i]?.map WorkerThread.params

theorem setThread_paramsAt (hi : i < w.threads.length) (j : ℕ) :
    (w.setThread i t).paramsAt j = if j = i then some t.params else w.paramsAt j := by
  unfold paramsAt
  rw [setThread_getElem? hi]
  split <;> rfl

theorem cancel_paramsAt (w : Worker) (j : ℕ) : w.cancel.paramsAt j = w.paramsAt j := by
  show w.interrupt.threads[j]?.map _ = _
  rw [interrupt_getElem?, Option.map_map]
  rfl

theorem released_paramsAt (w : Worker) (j : ℕ) : w.released.paramsAt j = w.paramsAt j := by
  unfold released
  split
  · exact cancel_paramsAt w j
  · rfl

theorem start_paramsAt {j : ℕ} {p : ParamMap} (h : w.paramsAt j = some p) :
    w.start.paramsAt j = some p := by
  unfold start
  split
  · exact h
  · obtain ⟨t, ht, rfl⟩ := Option.map_eq_some_iff.mp h
    have hlt := (List.getElem?_eq_some_iff.mp ht).1
    show ((w.threads ++ [({} : WorkerThread)])[j]?).map _ = _
    rw [List.getElem?_append_left hlt, ht]
    rfl

theorem released_params (w : Worker) : w.released.params = w.params := by
  unfold released
  split <;> rfl

theorem start_params (w : Worker) : w.start.params = w.params := by
  unfold start
  split <;> rfl

/-- `operator()` copies the parameters once. -/
theorem advance_params (ht : w.threads[i]? = some t) (h : w.advance i t = some w') :
    w'.params = w.params ∧ ∀ j, w'.paramsAt j =
      if j = i then some (if t.pc = .copyParams then w.params else t.params)
      else w.paramsAt j := by
  have hi := (List.getElem?_eq_some_iff.mp ht).1
  unfold advance at h
  cases hpc : t.pc with
  | inRun | done | interrupted =>
    rw [hpc] at h
    cases h
  | lockMutex =>
    rw [hpc] at h
    by_cases hm : w.workMutex.isSome = true
    · simp [hm] at h
    · simp only [hm, Bool.false_eq_true, if_false, Option.some.injEq] at h
      subst h
      exact ⟨rfl, setThread_paramsAt hi⟩
  | relock =>
    rw [hpc] at h
    by_cases hc : 0 < w.useCount
    all_goals
      simp only [hc, if_true, if_false, Option.some.injEq] at h
      subst h
      exact ⟨rfl, setThread_paramsAt hi⟩
  | resetPtr | release | releaseEarly =>
    rw [hpc] at h
    cases h
    exact ⟨released_params _, fun j => (released_paramsAt _ j).trans (setThread_paramsAt hi j)⟩
  | lockWeak | testRunning | setRunning | copyParams | unlock | enter | setResult
  | readCancelled | setComplete | clearRunning | unlockEarly =>
    rw [hpc] at h
    cases h
    exact ⟨rfl, setThread_paramsAt hi⟩

/-- So does a step of the thread, if the worker is there. -/
theorem threadStep_params {a : ThreadAct} (ht : w.threads[i]? = some t)
    (h : w.threadStep i t a = some w') :
    w' = { w with fault := true } ∨ w'.params = w.params ∧ ∀ j, w'.paramsAt j =
      if j = i then some (if t.pc = .copyParams then w.params else t.params)
      else w.paramsAt j := by
  have hi := (List.getElem?_eq_some_iff.mp ht).1
  unfold threadStep at h
  cases a with
  | next =>
    by_cases hf : t.pc.usesWorker && !w.available t
    · rw [if_pos hf, Option.some.injEq] at h
      exact .inl h.symm
    · rw [if_neg hf] at h
      exact .inr (advance_params ht h)
  | returns result =>
    by_cases hpc : t.pc = .inRun
    · simp only [hpc, if_true, Option.some.injEq] at h
      subst h
      refine .inr ⟨rfl, fun j => ?_⟩
      rw [setThread_paramsAt hi, hpc]
      rfl
    · simp [hpc] at h
  | interrupted =>
    by_cases hpc : t.pc = .inRun ∧ t.interruptRequested = true
    · simp only [hpc, and_self, if_true, Option.some.injEq] at h
      subst h
      refine .inr ⟨rfl, fun j => ?_⟩
      rw [setThread_paramsAt hi, hpc.1]
      rfl
    · rw [if_neg hpc] at h
      cases h

theorem params_of_step {b : Act} (h : step w b = some w') : w'.params = w.params := by
  obtain ⟨-, ⟨-, -, rfl⟩ | ⟨-, -, rfl⟩ | ⟨r, -, -, rfl⟩ | ⟨-, -, rfl⟩ | ⟨i, c, t, -, ht, hs⟩⟩ :=
    step_cases h
  · exact start_params w
  · rfl
  · rfl
  · exact released_params _
  · obtain rfl | ⟨hp, -⟩ := threadStep_params ht hs
    · rfl
    · exact hp

/-- The delegate's result, where the step is one it returns in. -/
def Act.returned? : Act → Option ParamMap
  | .run r | .thread _ (.returns r) => some r
  | _ => none

/-- The delegate is left with its result or by an interruption. -/
theorem threadStep_inRun {a : ThreadAct} (ht : w.threads[i]? = some t) (hpc : t.pc = .inRun)
    (h : w.threadStep i t a = some w') :
    (∃ r, a = .returns r ∧ w'.resultAt i = some r) ∨ w'.resultAt i = w.resultAt i := by
  have hi := (List.getElem?_eq_some_iff.mp ht).1
  unfold threadStep at h
  cases a with
  | next => simp [hpc, Pc.usesWorker, advance] at h
  | returns r =>
    simp only [hpc, if_true, Option.some.injEq] at h
    subst h
    exact .inl ⟨r, rfl, by rw [setThread_resultAt hi, if_pos rfl]⟩
  | interrupted =>
    by_cases hr : t.interruptRequested = true
    · simp only [hpc, hr, and_self, if_true, Option.some.injEq] at h
      subst h
      refine .inr ?_
      rw [setThread_resultAt hi, if_pos rfl, resultAt, ht]
      rfl
    · simp [hpc, hr] at h

/-- The delegate only returns to a thread that is inside. -/
theorem inRun_of_returns {r : ParamMap} (h : step w (.thread i (.returns r)) = some w') :
    w.pcAt i = some .inRun := by
  obtain ⟨t, ht, hts⟩ := step_thread h
  have hpc : t.pc = .inRun := by
    by_contra hne
    simp [threadStep, hne] at hts
  simp [pcAt, ht, hpc]

/-- The delegate runs on the worker's parameters, and what it has returned, to a
thread or to the worker, meets `R`. -/
structure Sourced (w : Worker) (R : ParamMap → Prop) : Prop where
  copied : ∀ i p, w.pcAt i = some p → p.copied = true → w.paramsAt i = some w.params
  returned : ∀ i r, w.resultAt i = some r → R r
  handed : ∀ i p, w.pcAt i = some p → p = .relock ∨ p = .setResult → (w.resultAt i).isSome
  written : ∀ i p, w.pcAt i = some p → p = .readCancelled ∨ p = .setComplete → R w.result
  complete : w.complete = true → R w.result

namespace Sourced

variable {R R' : ParamMap → Prop}

theorem mono (h : w.Sourced R) (hR : ∀ r, R r → R' r) : w.Sourced R' where
  copied := h.copied
  returned i r hr := hR r (h.returned i r hr)
  handed := h.handed
  written i p hp hc := hR _ (h.written i p hp hc)
  complete hc := hR _ (h.complete hc)

theorem of_same (h : w.Sourced R) (hs : SameButCancel w w') (hp : w'.params = w.params)
    (hpa : ∀ j, w'.paramsAt j = w.paramsAt j) : w'.Sourced R where
  copied i p hpc hc := by
    rw [hs.pcAt] at hpc
    rw [hpa, hp]
    exact h.copied i p hpc hc
  returned i r hr := h.returned i r (hs.resultAt i ▸ hr)
  handed i p hpc hc := by
    rw [hs.pcAt] at hpc
    rw [hs.resultAt]
    exact h.handed i p hpc hc
  written i p hpc hc := by
    rw [hs.pcAt] at hpc
    rw [hs.result]
    exact h.written i p hpc hc
  complete hc := by
    rw [hs.complete] at hc
    rw [hs.result]
    exact h.complete hc

theorem start (h : w.Sourced R) : w.start.Sourced R := by
  by_cases hr : w.running = true
  · rwa [start_of_running hr]
  · have hr : w.running = false := by simpa using hr
    have hold : ∀ i p, w.start.pcAt i = some p → p ≠ .lockWeak → w.pcAt i = some p := by
      intro i p hp hne
      rw [start_pcAt hr] at hp
      by_cases hi : i = w.threads.length
      · rw [if_pos hi] at hp
        exact absurd (Option.some.inj hp).symm hne
      · rwa [if_neg hi] at hp
    constructor
    · intro i p hp hc
      rw [start_params]
      exact start_paramsAt (h.copied i p (hold i p hp (by rintro rfl; cases hc)) hc)
    · intro i r hres
      exact h.returned i r (w.start_resultAt i ▸ hres)
    · intro i p hp hc
      rw [start_resultAt]
      exact h.handed i p (hold i p hp (by rintro rfl; simp at hc)) hc
    · intro i p hp hc
      rw [start_fields]
      exact h.written i p (hold i p hp (by rintro rfl; simp at hc)) hc
    · intro hc
      rw [start_fields] at hc ⊢
      exact h.complete hc

/-- `setResult` writes what the thread has got from the delegate. -/
theorem moved (h : w.Sourced R) {p p' : Pc} (hm : Moved w i p p' w') (hp : w.pcAt i = some p)
    (hparams : w'.params = w.params)
    (hpa : ∀ j, w'.paramsAt j = if j = i ∧ p = .copyParams then some w.params else w.paramsAt j)
    (hres : ∀ j r, w'.resultAt j = some r → R r) : w'.Sourced R := by
  have hpc : ∀ j q, w'.pcAt j = some q → j = i ∧ q = p' ∨ j ≠ i ∧ w.pcAt j = some q := by
    intro j q hq
    rw [hm.pcAt] at hq
    by_cases hj : j = i
    · rw [if_pos hj] at hq
      exact .inl ⟨hj, (Option.some.inj hq).symm⟩
    · rw [if_neg hj] at hq
      exact .inr ⟨hj, hq⟩
  have hresult : R w.result → R w'.result := by
    intro hR
    rw [hm.result]
    split
    · next hset =>
      have hsome := h.handed i p hp (.inr hset)
      obtain ⟨r, hr⟩ := Option.isSome_iff_exists.mp hsome
      rw [hr]
      exact h.returned i r hr
    · exact hR
  constructor
  · intro j q hq hc
    rw [hpa, hparams]
    obtain ⟨rfl, rfl⟩ | ⟨hj, hq⟩ := hpc j q hq
    · obtain rfl | hc' := Pc.copied_of_next hm.next hc
      · simp
      · have hne : p ≠ .copyParams := by
          rintro rfl
          cases hc'
        rw [if_neg fun hand => hne hand.2]
        exact h.copied j p hp hc'
    · rw [if_neg fun hand => hj hand.1]
      exact h.copied j q hq hc
  · exact hres
  · intro j q hq hc
    obtain ⟨rfl, rfl⟩ | ⟨hj, hq⟩ := hpc j q hq
    · have hnext := hm.next
      obtain rfl | rfl := hc
      · have hin : p = .inRun := by
          cases p <;> simp [Pc.next] at hnext ⊢
        exact hm.returned hin rfl
      · have hin : p = .relock := by
          cases p <;> simp [Pc.next] at hnext ⊢
        obtain hsame | ⟨-, hp'⟩ := hm.resultAt j
        · rw [hsame]
          exact h.handed j p hp (.inl hin)
        · rw [hin] at hp'
          cases hp'
    · obtain hsame | ⟨hji, -⟩ := hm.resultAt j
      · rw [hsame]
        exact h.handed j q hq hc
      · exact absurd hji hj
  · intro j q hq hc
    obtain ⟨rfl, rfl⟩ | ⟨hj, hq⟩ := hpc j q hq
    · have hnext := hm.next
      obtain rfl | rfl := hc
      · have hin : p = .setResult := by
          cases p <;> simp [Pc.next] at hnext ⊢
        obtain ⟨r, hr⟩ := Option.isSome_iff_exists.mp (h.handed j p hp (.inr hin))
        rw [hm.result, if_pos hin, hr]
        exact h.returned j r hr
      · have hin : p = .readCancelled := by
          cases p <;> simp [Pc.next] at hnext ⊢
        exact hresult (h.written j p hp (.inl hin))
    · exact hresult (h.written j q hq hc)
  · intro hc
    rw [hm.complete] at hc
    split at hc
    · next hset => exact hresult (h.written i p hp (.inr hset))
    · exact hresult (h.complete hc)

theorem step (h : w.Sourced R) {b : Act} (hs : Worker.step w b = some w')
    (hR : ∀ r, b.returned? = some r → R r) : w'.Sourced R := by
  obtain ⟨-, ⟨-, -, rfl⟩ | ⟨-, -, rfl⟩ | ⟨r, rfl, -, rfl⟩ | ⟨-, -, rfl⟩ | ⟨i, c, t, rfl, ht, hts⟩⟩ :=
    step_cases hs
  · exact h.start
  · exact h.of_same (cancel_same w) rfl (cancel_paramsAt w)
  · exact ⟨h.copied, h.returned, h.handed, fun _ _ _ _ => hR r rfl, fun _ => hR r rfl⟩
  · have hdrop : Sourced { w with owned := false } R :=
      ⟨h.copied, h.returned, h.handed, h.written, h.complete⟩
    exact hdrop.of_same (released_same _) (released_params _) (released_paramsAt _)
  · have hsame : Sourced { w with fault := true } R :=
      ⟨h.copied, h.returned, h.handed, h.written, h.complete⟩
    obtain ⟨-, -, rfl⟩ | ⟨-, p', hm⟩ := threadStep_cases ht hts
    · exact hsame
    have hp : w.pcAt i = some t.pc := by simp [pcAt, ht]
    obtain rfl | ⟨hparams, hpa⟩ := threadStep_params ht hts
    · exact hsame
    refine h.moved hm hp hparams (fun j => ?_) fun j r hr => ?_
    · have hself : w.paramsAt i = some t.params := by simp [paramsAt, ht]
      rw [hpa]
      by_cases hj : j = i
      · by_cases hcopy : t.pc = .copyParams <;> simp [hj, hcopy, hself]
      · simp [hj]
    · obtain hsame | ⟨rfl, hin⟩ := hm.resultAt j
      · exact h.returned j r (hsame ▸ hr)
      · obtain ⟨r', rfl, hr'⟩ | hsame := threadStep_inRun ht hin hts
        · rw [hr', Option.some.injEq] at hr
          exact hR r (hr ▸ rfl)
        · exact h.returned j r (hsame ▸ hr)

end Sourced

theorem sourced_init (params : ParamMap) (R : ParamMap → Prop) :
    (new params).init.Sourced R where
  copied i p hp := by cases hp
  returned i r hr := by cases hr
  handed i p hp := by cases hp
  written i p hp := by cases hp
  complete hc := by cases hc

end Worker

namespace Component

variable {s s' : Component}

/-- The number of the worker that the object's last successful `$initialize` has
made and the parameters it was given, after a step, given the same before. -/
def initializedAfter (s : Component) (a : Act) (o : ℕ) (before : Option (ℕ × ParamMap)) :
    Option (ℕ × ParamMap) :=
  match a with
  | .construct o' | .destroy o' => if o' = o then none else before
  | .methodInitialize o' rowVal =>
    match rowVal.bind getParamsFromRow with
    | some params => if o' = o then some (s.workers.length, params) else before
    | none => before
  | _ => before

def lastInitialize (o : ℕ) : List (Component × Act) → Option (ℕ × ParamMap)
  | [] => none
  | (s, a) :: tr => s.initializedAfter a o (lastInitialize o tr)

/-- In this step the delegate of worker `w`, which was run on `params`, returns `r`. -/
def DelegateReturns (w : ℕ) (params r : ParamMap) (s : Component) : Act → Prop
  | .thread w' i (.returns r') =>
    w' = w ∧ r' = r ∧ ∃ W, s.workers[w]? = some W ∧ W.paramsAt i = some params
  | .methodRun o r' =>
    s.workerOf o = some w ∧ r' = r ∧ ∃ W, s.workers[w]? = some W ∧ W.params = params
  | _ => False

/-- It has done so in the run. -/
def HasReturned (tr : List (Component × Act)) (w : ℕ) (params r : ParamMap) : Prop :=
  ∃ p ∈ tr, DelegateReturns w params r p.1 p.2

/-- What a step brings to a worker it brings from the worker's own delegate. -/
theorem delegateReturns_of_acts {a : Act} {w : ℕ} {W : Worker} {b : Worker.Act} {r : ParamMap}
    {R : ParamMap → Prop} (h : step s a = some s') (hW : s.workers[w]? = some W)
    (hsrc : W.Sourced R) (hb : s.acts a w = some b) (hr : b.returned? = some r) :
    DelegateReturns w W.params r s a := by
  obtain ⟨o, ho, ⟨rfl, rfl⟩ | ⟨rfl, rfl⟩ | ⟨r', rfl, rfl⟩ | ⟨-, rfl⟩⟩ | ⟨i, c, rfl, rfl⟩ :=
    acts_cases hb
  · cases hr
  · cases hr
  · cases hr
    exact ⟨ho, rfl, W, hW, rfl⟩
  · cases hr
  · cases c with
    | next => cases hr
    | interrupted => cases hr
    | returns r' =>
      cases hr
      refine ⟨rfl, rfl, W, hW, ?_⟩
      cases (step_cases h).2 with
      | failed _ _ _ _ _ hrefuses => exact hrefuses.elim
      | thread w i _ W₁ W' hW₁ hstep =>
        rw [hW, Option.some.injEq] at hW₁
        subst hW₁
        exact hsrc.copied i .inRun (Worker.inRun_of_returns hstep) rfl

/-- Every worker's result comes from its own delegate, run on its own parameters. -/
theorem sourced_run {tr : List (Component × Act)} (run : Transition.Run step loaded tr s) :
    ∀ (w : ℕ) (W : Worker), s.workers[w]? = some W → W.Sourced (HasReturned tr w W.params) := by
  refine run.holds
    (fun tr s => ∀ (w : ℕ) (W : Worker), s.workers[w]? = some W →
      W.Sourced (HasReturned tr w W.params)) (fun w W h => by cases h)
    fun tr s a s' run ih h => ?_
  have hmore : ∀ w params r, HasReturned tr w params r →
      HasReturned ((s, a) :: tr) w params r := by
    rintro w params r ⟨p, hp, hret⟩
    exact ⟨p, List.mem_cons_of_mem _ hp, hret⟩
  intro w W' hW'
  obtain ⟨W, hW, ⟨-, rfl⟩ | ⟨b, hb, hstep⟩⟩ | ⟨-, o, rowVal, params, -, -, rfl⟩ :=
    worker_step (owned_run run) h hW'
  · exact (ih w W' hW).mono (hmore w W'.params)
  · have hsrc := ih w W hW
    rw [Worker.params_of_step hstep]
    refine (hsrc.mono (hmore w W.params)).step hstep fun r hr => ?_
    exact ⟨(s, a), List.mem_cons_self, delegateReturns_of_acts h hW hsrc hb hr⟩
  · exact Worker.sourced_init params _

/-- An object's worker is the one its last `$initialize` has made. -/
theorem initialized_run {tr : List (Component × Act)} (run : Transition.Run step loaded tr s) :
    ∀ o w, s.workerOf o = some w →
      ∃ W, s.workers[w]? = some W ∧ lastInitialize o tr = some (w, W.params) := by
  refine run.holds
    (fun tr s => ∀ o w, s.workerOf o = some w →
      ∃ W, s.workers[w]? = some W ∧ lastInitialize o tr = some (w, W.params))
    (fun o w h => by cases h) fun tr s a s' run ih h => ?_
  have hs := owned_run run
  have hkeep : ∀ o w, s.workerOf o = some w →
      s.initializedAfter a o (lastInitialize o tr) = lastInitialize o tr →
      ∃ W', s'.workers[w]? = some W' ∧
        s.initializedAfter a o (lastInitialize o tr) = some (w, W'.params) := by
    intro o w ho hsame
    obtain ⟨W, hW, hlast⟩ := ih o w ho
    obtain ⟨W', hW', hcase⟩ := worker_after hs h hW
    refine ⟨W', hW', ?_⟩
    rw [hsame, hlast]
    obtain ⟨-, rfl⟩ | ⟨b, -, hstep⟩ := hcase
    · rfl
    · rw [Worker.params_of_step hstep]
  intro o w ho'
  show ∃ W, s'.workers[w]? = some W ∧
    s.initializedAfter a o (lastInitialize o tr) = some (w, W.params)
  have ho := ho'
  rw [step_workerOf h] at ho
  cases a with
  | construct o₁ | destroy o₁ =>
    by_cases hoo : o₁ = o
    · simp [workerOfAfter, hoo] at ho
    · simp only [workerOfAfter, if_neg (Ne.symm hoo)] at ho
      exact hkeep o w ho (if_neg hoo)
  | methodInitialize o₁ rowVal =>
    cases hrow : rowVal.bind getParamsFromRow with
    | none =>
      simp only [workerOfAfter, hrow, Option.isSome_none, Bool.false_eq_true, and_false,
        if_false] at ho
      exact hkeep o w ho (by simp [initializedAfter, hrow])
    | some params =>
      by_cases hoo : o₁ = o
      · subst hoo
        simp only [workerOfAfter, hrow, Option.isSome_some, and_self, if_true,
          Option.some.injEq] at ho
        subst ho
        have hnew : s'.workers[s.workers.length]? = some (Worker.new params).init := by
          cases (step_cases h).2 with
          | failed _ _ _ _ _ hr =>
            have hr : rowVal.bind getParamsFromRow = none := hr
            rw [hrow] at hr
            cases hr
          | methodInitialize _ _ params' _ _ hrow' =>
            rw [hrow, Option.some.injEq] at hrow'
            rw [makeWorker_fields, ← hrow']
            simp [dropWorker_length]
        exact ⟨_, hnew, by simp [initializedAfter, hrow]; rfl⟩
      · simp only [workerOfAfter, hrow, if_neg fun hc : o = o₁ ∧ _ => hoo hc.1.symm] at ho
        exact hkeep o w ho (by simp [initializedAfter, hrow, hoo])
  | methodRun | methodStart | methodCancel | timer | main | handlerReturn | thread =>
    exact hkeep o w ho rfl

/-- A thread of one worker leaves every object that has another, or none, as it is. -/
theorem thread_step_other {w i : ℕ} {b : ThreadAct} {o : ℕ}
    (h : step s (.thread w i b) = some s') (ho : s.workerOf o ≠ some w) :
    s'.workerOf o = s.workerOf o ∧ s'.worker? o = s.worker? o := by
  cases (step_cases h).2 with
  | failed _ _ _ _ _ hr => exact hr.elim
  | thread _ _ _ W W' hW hstep =>
    refine ⟨rfl, ?_⟩
    show (s.workerOf o).bind (fun w' => (s.workers.set w W')[w']?) = _
    cases hw : s.workerOf o with
    | none => simp [worker?, hw]
    | some w' =>
      have hne : w ≠ w' := by
        rintro rfl
        exact ho hw
      simp [worker?, hw, List.getElem?_set_ne hne]

end Component

end HttpBackground
