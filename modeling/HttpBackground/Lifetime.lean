import HttpBackground.Ownership

/-!
# Whether the worker is there when a thread uses it

A thread gives its pointer up inside the locked scope and takes it back after
the delegate's run. In the first half it lives on the owner's pointer: at the
lock, whose result is not tested, and at the unlock, after `ptr.reset()`. In the
second half it has its own.
-/
namespace HttpBackground

/-- The locked scope of `operator()` has not been left. -/
def Pc.inScope : Pc → Bool
  | .lockWeak | .lockMutex | .testRunning | .setRunning | .copyParams | .resetPtr
  | .unlock => true
  | _ => false

namespace Worker

variable {w w' : Worker}

/-- No thread is between its creation and the end of the locked scope. -/
def outOfScope (w : Worker) : Bool := w.threads.all fun t => !t.pc.inScope

/-- The owner's pointer lasts through the locked scope, and a thread's own pointer
through the other statements that use the worker. -/
structure Lifetime (w : Worker) : Prop where
  owner : ∀ i p, w.pcAt i = some p → p.inScope = true → w.owned = true
  holder : ∀ i p, w.pcAt i = some p → (p.holdsPtr = true ∨ p = .lockMutex) → w.ptrAt i = true

/-- The owner lets go only when no thread is in the locked scope or before it. -/
def DropsOutOfScope (w : Worker) (a : Act) : Prop := a = .drop → w.outOfScope = true

theorem inScope_of_outOfScope (h : w.outOfScope = true) {i : ℕ} {p : Pc}
    (hp : w.pcAt i = some p) : p.inScope = false := by
  obtain ⟨t, ht, rfl⟩ := Option.map_eq_some_iff.mp hp
  have hall := List.all_eq_true.mp h t (List.mem_of_getElem? ht)
  simpa using hall

theorem SameButCancel.lifetime (h : SameButCancel w w') (hw : w.Lifetime) : w'.Lifetime where
  owner i p hp hs := by
    rw [h.pcAt] at hp
    rw [h.owned]
    exact hw.owner i p hp hs
  holder i p hp hh := by
    rw [h.pcAt] at hp
    rw [h.ptrAt]
    exact hw.holder i p hp hh

theorem lifetime_start (howned : w.owned = true) (hw : w.Lifetime) : w.start.Lifetime := by
  constructor
  · intro i p hp hs
    rw [start_fields]
    exact howned
  · intro i p hp hh
    rw [start_ptrAt]
    by_cases hr : w.running = true
    · rw [start_of_running hr] at hp
      exact hw.holder i p hp hh
    · rw [start_pcAt (by simpa using hr)] at hp
      by_cases hi : i = w.threads.length
      · rw [if_pos hi, Option.some.injEq] at hp
        subst hp
        simp [Pc.holdsPtr] at hh
      · rw [if_neg hi] at hp
        exact hw.holder i p hp hh

theorem Moved.lifetime {i : ℕ} {p p' : Pc} (h : Moved w i p p' w') (hp : w.pcAt i = some p)
    (hw : w.Lifetime) : w'.Lifetime := by
  constructor
  · intro j q hq hs
    rw [h.owned]
    rw [h.pcAt] at hq
    by_cases hj : j = i
    · rw [if_pos hj, Option.some.injEq] at hq
      subst hq
      have hscope : p.inScope = true := by
        have hn := h.next
        cases p <;> simp [Pc.next] at hn <;> grind [Pc.inScope]
      exact hw.owner i p hp hscope
    · rw [if_neg hj] at hq
      exact hw.owner j q hq hs
  · intro j q hq hh
    rw [h.ptrAt]
    rw [h.pcAt] at hq
    by_cases hj : j = i
    · rw [if_pos hj, Option.some.injEq] at hq
      subst hq hj
      have hn := h.next
      have hr := h.relocked
      have hheld := hw.holder j p hp
      have hpos : w.owned = true → 0 < w.useCount := fun ho => (useCount_pos_iff w).mpr (.inl ho)
      have howner := hw.owner j p hp
      cases p <;> simp [Pc.next] at hn <;> grind [Pc.inScope, Pc.holdsPtr]
    · rw [if_neg hj] at hq
      rw [if_pos hj]
      exact hw.holder j q hq hh

theorem lifetime_step {a : Act} (h : step w a = some w') (hok : w.DropsOutOfScope a)
    (hw : w.Lifetime) : w'.Lifetime := by
  obtain ⟨-, ⟨-, ho, rfl⟩ | ⟨-, -, rfl⟩ | ⟨r, -, -, rfl⟩ | ⟨rfl, -, rfl⟩ | ⟨i, b, t, -, ht, hs⟩⟩ :=
    step_cases h
  · exact lifetime_start ho hw
  · exact (cancel_same w).lifetime hw
  · exact ⟨hw.owner, hw.holder⟩
  · apply (released_same _).lifetime
    refine ⟨fun i p hp hs => ?_, hw.holder⟩
    have := inScope_of_outOfScope (hok rfl) (show w.pcAt i = some p from hp)
    rw [hs] at this
    cases this
  · have hp : w.pcAt i = some t.pc := by simp [pcAt, ht]
    obtain ⟨-, -, rfl⟩ | ⟨-, p', hm⟩ := threadStep_cases ht hs
    · exact ⟨hw.owner, hw.holder⟩
    · exact hm.lifetime hp hw

theorem lifetime_init (params : ParamMap) : (new params).init.Lifetime where
  owner i p hp := by cases hp
  holder i p hp := by cases hp

theorem lifetime_run {params : ParamMap} {tr : List (Worker × Act)}
    (run : Transition.Run step (new params).init tr w)
    (hok : Transition.Always DropsOutOfScope tr) : w.Lifetime :=
  run.stateInvariant DropsOutOfScope Lifetime (lifetime_init params)
    (fun _ _ _ hw ha h => lifetime_step h ha hw) hok

/-- A statement that uses the worker finds it: the pointer is not empty, unless it
is the unlock, and the reference count is not zero. -/
def UsesLive (w : Worker) : Prop :=
  ∀ i p, w.pcAt i = some p → p.usesWorker = true →
    (p ≠ .unlock → w.ptrAt i = true) ∧ 0 < w.useCount

theorem Lifetime.usesLive (hw : w.Lifetime) : w.UsesLive := by
  intro i p hp hu
  rw [useCount_pos_iff]
  by_cases hun : p = .unlock
  · subst hun
    exact ⟨fun hne => absurd rfl hne, .inl (hw.owner i _ hp rfl)⟩
  · have hh : p.holdsPtr = true ∨ p = .lockMutex := by
      cases p <;> simp [Pc.usesWorker] at hu <;> simp [Pc.holdsPtr] at hun ⊢
    have hptr := hw.holder i p hp hh
    exact ⟨fun _ => hptr, .inr ⟨i, hptr⟩⟩

end Worker

namespace Component

variable {s : Component}

/-- `$initialize` and the destruction of an object come only when no thread of the
worker they drop is in its locked scope or before it. -/
def DropsOutOfScope (s : Component) : Act → Prop
  | .methodInitialize o rowVal =>
    (rowVal.bind getParamsFromRow).isSome = true →
      (s.worker? o).all Worker.outOfScope = true
  | .destroy o => (s.worker? o).all Worker.outOfScope = true
  | _ => True

instance (s : Component) : (a : Act) → Decidable (s.DropsOutOfScope a)
  | .methodInitialize _ _ => inferInstanceAs (Decidable (_ → _))
  | .destroy _ => inferInstanceAs (Decidable (_ = true))
  | .construct _ | .methodRun _ _ | .methodStart _ | .methodCancel _ | .timer | .main
  | .handlerReturn | .thread _ _ _ => isTrue trivial

theorem DropsOutOfScope.worker {a : Act} (h : s.DropsOutOfScope a) {w : ℕ} {W : Worker}
    (hW : s.workers[w]? = some W) {b : Worker.Act} (hb : s.acts a w = some b) :
    W.DropsOutOfScope b := by
  rintro rfl
  obtain ⟨o, ho, ⟨rowVal, rfl, hrow⟩ | rfl⟩ := acts_eq_drop hb
  all_goals
    have hwo : s.worker? o = some W := by simp [worker?, ho, hW]
  · have := h hrow
    rwa [hwo] at this
  · have : (s.worker? o).all Worker.outOfScope = true := h
    rwa [hwo] at this

/-- As long as no worker is dropped under a thread that is still in its locked
scope, no thread of any worker uses a worker that is gone. -/
theorem threads_use_live (tr : List (Component × Act)) (s : Component)
    (run : Transition.Run step loaded tr s) (hok : Transition.Always DropsOutOfScope tr) :
    ∀ (w : ℕ) (W : Worker), s.workers[w]? = some W → W.UsesLive := by
  intro w W hW
  obtain ⟨params, trW, hrun, hokW⟩ := worker_run Worker.DropsOutOfScope DropsOutOfScope
    (fun _ _ _ _ _ h hW hb => h.worker hW hb) run hok hW
  exact (Worker.lifetime_run hrun hokW).usesLive

/-- The object is destroyed while its thread is inside the delegate. -/
theorem threads_use_live_destroyed :
    ∃ tr s, Transition.replay step loaded []
        (setUp 1 ++ [.methodStart 1] ++ prologue 0 0 ++ [.destroy 1]) = some (tr, s) ∧
      s.workers.map Worker.useCount = [0] ∧
      ∀ (w : ℕ) (W : Worker), s.workers[w]? = some W → W.UsesLive := by
  have h : Transition.replay step loaded []
    (setUp 1 ++ [.methodStart 1] ++ prologue 0 0 ++ [.destroy 1]) = some (_, _) := rfl
  exact ⟨_, _, h, rfl, threads_use_live _ _ (Transition.replay_run .start h) (by decide)⟩

/-- The call is none of `$run` and `$cancel`, and no tick is under way. -/
def Act.lifecycle : Act → Bool
  | .construct _ | .destroy _ | .methodInitialize _ _ | .methodStart _ | .thread _ _ _ => true
  | _ => false

/-- A second `$initialize` right after `$start`: the thread finds the worker gone
and locks a mutex through an empty pointer. -/
theorem thread_uses_dropped :
    ¬ ∀ (tr : List (Component × Act)) (s : Component), Transition.Run step loaded tr s →
      Transition.Always (fun _ a => a.lifecycle = true) tr →
        ∀ (w : ℕ) (W : Worker), s.workers[w]? = some W → W.UsesLive := by
  intro hall
  have h : Transition.replay step loaded []
    (setUp 1 ++ [.methodStart 1, .methodInitialize 1 (some urlRow), .thread 0 0 .next]) =
      some (_, _) := rfl
  have hlive := hall _ _ (Transition.replay_run .start h) (by decide) 0 _ rfl 0 .lockMutex rfl rfl
  exact absurd (hlive.1 (by decide)) (by decide)

end Component

end HttpBackground
