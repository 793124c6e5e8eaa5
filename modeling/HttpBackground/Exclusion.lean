import HttpBackground.Transition
import HttpBackground.WorkerThreads

/-!
# Who may be inside the delegate

`start` tests `running` without a lock, so any number of threads may stand at
the beginning of `operator()`. That only one of them gets into the delegate
rests on the test under `_workMutex` alone, and the invariant ties the mutex, the
flag and the places of the threads together.
-/
namespace HttpBackground

namespace Pc

variable {p p' : Pc}

theorem locked_of_next (h : p' ∈ p.next) (hl : p'.locked = true) :
    p = .lockMutex ∨ p.locked = true ∧ p ≠ .unlock ∧ p ≠ .unlockEarly := by
  cases p <;> simp [next] at h <;> grind [locked]

theorem critical_of_next (h : p' ∈ p.next) (hc : p'.critical = true) :
    p = .setRunning ∨ p.critical = true ∧ p ≠ .clearRunning := by
  cases p <;> simp [next] at h <;> grind [critical]

end Pc

namespace Worker

variable {w w' : Worker}

/-- The holder of the mutex is the one thread inside the locked scope, `running`
is set by the one thread past the test, and clear while a thread is about to set it. -/
structure Exclusion (w : Worker) : Prop where
  locked : ∀ i p, w.pcAt i = some p → p.locked = true → w.workMutex = some i
  running : ∀ i p, w.pcAt i = some p → p.critical = true → w.running = true
  tested : ∀ i, w.pcAt i = some .setRunning → w.running = false
  unique : ∀ i j p q, w.pcAt i = some p → w.pcAt j = some q →
    p.critical = true → q.critical = true → i = j

theorem SameButCancel.exclusion (h : SameButCancel w w') (hw : w.Exclusion) : w'.Exclusion where
  locked i p hp := by
    rw [h.pcAt] at hp
    rw [h.workMutex]
    exact hw.locked i p hp
  running i p hp := by
    rw [h.pcAt] at hp
    rw [h.running]
    exact hw.running i p hp
  tested i hp := by
    rw [h.pcAt] at hp
    rw [h.running]
    exact hw.tested i hp
  unique i j p q hp hq := by
    rw [h.pcAt] at hp hq
    exact hw.unique i j p q hp hq

theorem exclusion_start (hw : w.Exclusion) : w.start.Exclusion := by
  by_cases hr : w.running = true
  · rwa [start_of_running hr]
  · have hr : w.running = false := by simpa using hr
    have hnew : ∀ i p, w.start.pcAt i = some p → p ≠ .lockWeak → w.pcAt i = some p := by
      intro i p hp hne
      rw [start_pcAt hr] at hp
      by_cases hi : i = w.threads.length
      · rw [if_pos hi] at hp
        exact absurd (Option.some.inj hp).symm hne
      · rwa [if_neg hi] at hp
    constructor
    · intro i p hp hl
      rw [start_fields]
      exact hw.locked i p (hnew i p hp (by rintro rfl; cases hl)) hl
    · intro i p hp hc
      rw [start_fields]
      exact hw.running i p (hnew i p hp (by rintro rfl; cases hc)) hc
    · intro i hp
      rw [start_fields]
      exact hr
    · intro i j p q hp hq hcp hcq
      exact hw.unique i j p q (hnew i p hp (by rintro rfl; cases hcp))
        (hnew j q hq (by rintro rfl; cases hcq)) hcp hcq

theorem Moved.exclusion {i : ℕ} {p p' : Pc} (h : Moved w i p p' w') (hp : w.pcAt i = some p)
    (hw : w.Exclusion) : w'.Exclusion := by
  have hother : ∀ j q, j ≠ i → w'.pcAt j = some q → w.pcAt j = some q := by
    intro j q hj hq
    rwa [h.pcAt, if_neg hj] at hq
  have hself : ∀ q, w'.pcAt i = some q → q = p' := by
    intro q hq
    rw [h.pcAt, if_pos rfl] at hq
    exact (Option.some.inj hq).symm
  constructor
  · intro j q hq hql
    rw [h.workMutex]
    by_cases hj : j = i
    · subst hj
      obtain rfl := hself q hq
      rcases Pc.locked_of_next h.next hql with rfl | ⟨hpl, hne, hne'⟩
      · rfl
      · have := hw.locked j p hp hpl
        grind
    · -- a thread that moves the mutex holds it or finds it free
      have := hw.locked j q (hother j q hj hq) hql
      have := h.blocked
      have := hw.locked i p hp
      grind [Pc.locked]
  · intro j q hq hqc
    rw [h.running]
    by_cases hj : j = i
    · subst hj
      obtain rfl := hself q hq
      rcases Pc.critical_of_next h.next hqc with rfl | ⟨hpc, hne⟩
      · rfl
      · rw [if_neg hne, hw.running j p hp hpc]
        simp
    · have hrun := hw.running j q (hother j q hj hq) hqc
      have hne : p ≠ .clearRunning := by
        rintro rfl
        exact hj (hw.unique j i q _ (hother j q hj hq) hp hqc rfl)
      rw [if_neg hne, hrun]
      simp
  · intro j hq
    by_cases hj : j = i
    · subst hj
      obtain rfl := hself _ hq
      have hpt : p = .testRunning := by
        have := h.next
        cases p <;> simp [Pc.next] at this
        rfl
      subst hpt
      have := h.tested rfl
      have := h.running
      grind
    · -- the mutex keeps a second thread from the assignment
      have hlock := hw.locked j _ (hother j _ hj hq) rfl
      have hfalse := hw.tested j (hother j _ hj hq)
      have hne : p ≠ .setRunning := by
        rintro rfl
        have := hw.locked i _ hp rfl
        exact hj (Option.some.inj (hlock.symm.trans this))
      rw [h.running, if_neg hne, hfalse]
      simp
  · -- of two threads past the test, at most one has moved
    have hmoved : ∀ j q, j ≠ i → w'.pcAt j = some q → q.critical = true →
        p'.critical = true → False := by
      intro j q hj hq hqc hpc'
      have hq := hother j q hj hq
      rcases Pc.critical_of_next h.next hpc' with rfl | ⟨hpc, -⟩
      · have hfalse := hw.tested i hp
        rw [hw.running j q hq hqc] at hfalse
        cases hfalse
      · exact hj (hw.unique j i q p hq hp hqc hpc)
    intro j k q q' hq hq' hqc hqc'
    by_cases hj : j = i
    · by_cases hk : k = i
      · rw [hj, hk]
      · subst hj
        exact (hmoved k q' hk hq' hqc' (hself q hq ▸ hqc)).elim
    · by_cases hk : k = i
      · subst hk
        exact (hmoved j q hj hq hqc (hself q' hq' ▸ hqc')).elim
      · exact hw.unique j k q q' (hother j q hj hq) (hother k q' hk hq') hqc hqc'

theorem exclusion_step {a : Act} (h : step w a = some w') (hw : w.Exclusion) : w'.Exclusion := by
  obtain ⟨-, ⟨-, -, rfl⟩ | ⟨-, -, rfl⟩ | ⟨r, -, -, rfl⟩ | ⟨-, -, rfl⟩ | ⟨i, b, t, -, ht, hs⟩⟩ :=
    step_cases h
  · exact exclusion_start hw
  · exact (cancel_same w).exclusion hw
  · exact ⟨hw.locked, hw.running, hw.tested, hw.unique⟩
  · have hdrop : Exclusion { w with owned := false } :=
      ⟨hw.locked, hw.running, hw.tested, hw.unique⟩
    exact (released_same _).exclusion hdrop
  · have hp : w.pcAt i = some t.pc := by simp [pcAt, ht]
    obtain ⟨-, -, rfl⟩ | ⟨-, p', hm⟩ := threadStep_cases ht hs
    · exact ⟨hw.locked, hw.running, hw.tested, hw.unique⟩
    · exact hm.exclusion hp hw

theorem exclusion_init (params : ParamMap) : (new params).init.Exclusion := by
  have hnone : ∀ i, (new params).init.pcAt i = none := fun i => rfl
  constructor <;> simp [hnone]

theorem exclusion_run {params : ParamMap} {tr : List (Worker × Act)}
    (run : Transition.Run step (new params).init tr w) : w.Exclusion :=
  run.stateHolds Exclusion (exclusion_init params) fun _ _ _ hw h => exclusion_step h hw

/-- At most one thread of a worker is inside the delegate, and `running` is set
while one is, whatever the owner and the other threads have done. -/
theorem inRun_exclusive (params : ParamMap) (tr : List (Worker × Act)) (w : Worker)
    (run : Transition.Run step (new params).init tr w) :
    (∀ i j, w.pcAt i = some .inRun → w.pcAt j = some .inRun → i = j) ∧
      ∀ i, w.pcAt i = some .inRun → w.running = true := by
  have hw := exclusion_run run
  refine ⟨fun i j hi hj => ?_, fun i hi => ?_⟩
  · exact hw.unique i j _ _ hi hj rfl rfl
  · exact hw.running i _ hi rfl

/-- Two threads are started; the first is inside the delegate. -/
theorem inRun_exclusive_twoStarts :
    ∃ tr w, Transition.replay step (new []).init []
        (.start :: .start :: List.replicate 8 (.thread 0 .next)) = some (tr, w) ∧
      w.pcAt 0 = some .inRun ∧ w.pcAt 1 = some .lockWeak ∧
      (∀ i j, w.pcAt i = some .inRun → w.pcAt j = some .inRun → i = j) ∧
        ∀ i, w.pcAt i = some .inRun → w.running = true := by
  have h : Transition.replay step (new []).init []
    (.start :: .start :: List.replicate 8 (.thread 0 .next)) = some (_, _) := rfl
  exact ⟨_, _, h, rfl, rfl, inRun_exclusive [] _ _ (Transition.replay_run .start h)⟩

end Worker

end HttpBackground
