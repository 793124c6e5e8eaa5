import HttpBackground.Exclusion
import HttpBackground.Notification

/-!
# When `running` is clear

`operator()` sets `running` before it calls the delegate and clears it with its
last access to the worker. An interruption leaves by neither of these ways, and a
tick may come between `setComplete(true)` and `setRunning(false)`, so whether the
flag is clear is a question of where the threads are.
-/
namespace HttpBackground

/-- A critical thread stays so until it clears `running` or finds the worker gone. -/
theorem Pc.critical_next {p p' : Pc} (h : p' ∈ p.next) (hc : p.critical = true) :
    p = .clearRunning ∨ p = .relock ∧ p' = .done ∨ p'.critical = true := by
  cases p <;> simp [next] at h <;> grind [critical]

namespace Worker

variable {w w' : Worker}

/-- No thread is between its `setRunning(true)` and its `setRunning(false)`, or was
interrupted there. -/
def Vacant (w : Worker) : Prop := ∀ i p, w.pcAt i = some p → p.critical = false

/-- `running` is set for a thread that has not cleared it, while there is a worker. -/
def RunningHeld (w : Worker) : Prop :=
  w.running = true → w.useCount = 0 ∨ ∃ i p, w.pcAt i = some p ∧ p.critical = true

/-- Nothing brings back a worker that is gone. -/
theorem useCount_zero_of_step {a : Act} (h : step w a = some w') (hz : w.useCount = 0) :
    w'.useCount = 0 := by
  have hnot : ¬ 0 < w.useCount := by omega
  rw [useCount_pos_iff] at hnot
  have howned : w.owned = false := by
    by_contra ho
    exact hnot (.inl (by simpa using ho))
  have hptr : ∀ j, w.ptrAt j = false := by
    intro j
    by_contra hp
    exact hnot (.inr ⟨j, by simpa using hp⟩)
  suffices hdead : ¬ 0 < w'.useCount by omega
  rw [useCount_pos_iff]
  obtain ⟨-, ⟨-, ho, -⟩ | ⟨-, ho, -⟩ | ⟨r, -, ho, -⟩ | ⟨-, ho, -⟩ | ⟨i, b, t, -, ht, hs⟩⟩ :=
    step_cases h
  on_goal 5 =>
    obtain ⟨-, -, rfl⟩ | ⟨-, p', hm⟩ := threadStep_cases ht hs
    · exact hnot
    · rintro (ho | ⟨j, hj⟩)
      · rw [hm.owned, howned] at ho
        cases ho
      · rw [hm.ptrAt] at hj
        simp [hptr, hz] at hj
  all_goals
    rw [howned] at ho
    cases ho

theorem SameButCancel.runningHeld (h : SameButCancel w w')
    (hw : w.running = true → ∃ i p, w.pcAt i = some p ∧ p.critical = true) : w'.RunningHeld := by
  intro hr
  obtain ⟨i, p, hp, hc⟩ := hw (h.running ▸ hr)
  exact .inr ⟨i, p, (h.pcAt i).trans hp, hc⟩

/-- A worker with an owner is there. -/
theorem RunningHeld.critical (hw : w.RunningHeld) (ho : w.owned = true) (hr : w.running = true) :
    ∃ i p, w.pcAt i = some p ∧ p.critical = true := by
  have hpos : 0 < w.useCount := (useCount_pos_iff w).mpr (.inl ho)
  exact (hw hr).resolve_left (by omega)

theorem Moved.runningHeld {i : ℕ} {p p' : Pc} (h : Moved w i p p' w') (hp : w.pcAt i = some p)
    (hdead : w.useCount = 0 → w'.useCount = 0) (hw : w.RunningHeld) : w'.RunningHeld := by
  have hself : w'.pcAt i = some p' := by rw [h.pcAt, if_pos rfl]
  intro hr
  rw [h.running] at hr
  by_cases hset : p = .setRunning
  · have hnext := h.next
    simp only [hset, Pc.next, List.mem_singleton] at hnext
    exact .inr ⟨i, p', hself, hnext ▸ rfl⟩
  by_cases hclear : p = .clearRunning
  · simp [hclear] at hr
  rw [if_neg hset, if_neg hclear] at hr
  obtain hz | ⟨j, q, hq, hc⟩ := hw hr
  · exact .inl (hdead hz)
  by_cases hj : j = i
  · subst hj
    obtain rfl : p = q := Option.some.inj (hp.symm.trans hq)
    obtain hclear' | ⟨hrel, hdone⟩ | hc' := Pc.critical_next h.next hc
    · exact absurd hclear' hclear
    · -- the thread found the worker gone
      have hne : p' ≠ .setResult := by simp [hdone]
      have hgone : ¬ 0 < w.useCount := fun hpos => hne ((h.relocked hrel).mpr hpos)
      exact .inl (hdead (by omega))
    · exact .inr ⟨j, p', hself, hc'⟩
  · exact .inr ⟨j, q, by rw [h.pcAt, if_neg hj, hq], hc⟩

theorem runningHeld_step {a : Act} (h : step w a = some w') (hw : w.RunningHeld) :
    w'.RunningHeld := by
  have hdead := useCount_zero_of_step h
  obtain ⟨-, ⟨-, ho, rfl⟩ | ⟨-, ho, rfl⟩ | ⟨r, -, -, rfl⟩ | ⟨-, ho, rfl⟩ | ⟨i, b, t, -, ht, hs⟩⟩ :=
    step_cases h
  · intro hr
    rw [start_fields] at hr
    have hsame : w.start = w := start_of_running hr
    rw [hsame]
    exact hw hr
  · exact (cancel_same w).runningHeld (hw.critical ho)
  · exact hw
  · exact (released_same { w with owned := false }).runningHeld (hw.critical ho)
  · have hp : w.pcAt i = some t.pc := by simp [pcAt, ht]
    obtain ⟨-, -, rfl⟩ | ⟨-, p', hm⟩ := threadStep_cases ht hs
    · exact hw
    · exact hm.runningHeld hp hdead hw

theorem runningHeld_run {params : ParamMap} {tr : List (Worker × Act)}
    (run : Transition.Run step (new params).init tr w) : w.RunningHeld :=
  run.stateHolds RunningHeld (fun h => by cases h) fun _ _ _ hw h => runningHeld_step h hw

/-- In a worker that is there, `running` says where its threads are. -/
theorem running_eq_false_iff (hex : w.Exclusion) (hw : w.RunningHeld) (halive : 0 < w.useCount) :
    w.running = false ↔ w.Vacant := by
  constructor
  · intro hr i p hp
    by_contra hc
    have := hex.running i p hp (by simpa using hc)
    rw [hr] at this
    cases this
  · intro hv
    by_contra hr
    obtain hz | ⟨i, p, hp, hc⟩ := hw (by simpa using hr)
    · omega
    · rw [hv i p hp] at hc
      cases hc

/-- `start` launches a thread exactly where it finds `running` clear. -/
theorem start_launches_iff (w : Worker) :
    w.start.threads.length = w.threads.length + 1 ↔ w.running = false := by
  constructor
  · intro hlen
    by_contra hr
    rw [start_of_running (by simpa using hr)] at hlen
    omega
  · exact start_length

/-- After a thread has ended and while the worker is there, `running` is clear and
`start` launches again, exactly if the thread has returned from `operator()`, was
not interrupted out of the delegate, and no other thread is or was in its place. -/
theorem ended_restartable_iff (params : ParamMap) (tr : List (Worker × Act)) (w : Worker)
    (run : Transition.Run step (new params).init tr w) (halive : 0 < w.useCount) (i : ℕ) (p : Pc)
    (hp : w.pcAt i = some p) (hend : p.finished = true) :
    w.running = false ∧ w.start.threads.length = w.threads.length + 1 ↔
      p = .done ∧ ∀ j q, j ≠ i → w.pcAt j = some q → q.critical = false := by
  have hvacant := running_eq_false_iff (exclusion_run run) (runningHeld_run run) halive
  rw [start_launches_iff, and_self, hvacant]
  constructor
  · intro hv
    refine ⟨?_, fun j q _ hq => hv j q hq⟩
    have := hv i p hp
    cases p <;> simp [Pc.critical, Pc.finished] at this hend ⊢
  · rintro ⟨rfl, hother⟩ j q hq
    by_cases hj : j = i
    · subst hj
      obtain rfl := Option.some.inj (hp.symm.trans hq)
      rfl
    · exact hother j q hj hq

/-- The delegate has returned. -/
theorem ended_restartable_iff_returned :
    ∃ tr w, Transition.replay step (new []).init [] (.start :: List.replicate 8 (.thread 0 .next) ++
        .thread 0 (.returns []) :: List.replicate 6 (.thread 0 .next)) = some (tr, w) ∧
      w.running = false ∧ w.start.threads.length = w.threads.length + 1 := by
  have h : Transition.replay step (new []).init [] (.start :: List.replicate 8 (.thread 0 .next) ++
    .thread 0 (.returns []) :: List.replicate 6 (.thread 0 .next)) = some (_, _) := rfl
  exact ⟨_, _, h, (ended_restartable_iff [] _ _ (Transition.replay_run .start h) (by decide) 0
    .done rfl rfl).mpr ⟨rfl, fun j q hj hq => absurd (Nat.lt_one_iff.mp (pcAt_lt hq)) hj⟩⟩

/-- Thread `i` has executed its `setRunning(true)`. -/
def HasSetRunning (tr : List (Worker × Act)) (i : ℕ) : Prop :=
  ∃ p ∈ tr, p.2 = .thread i .next ∧ p.1.pcAt i = some .setRunning

/-- A cancel interrupts the thread inside the delegate: `running` stays set. -/
theorem interrupted_not_restartable :
    ¬ ∀ (params : ParamMap) (tr : List (Worker × Act)) (w : Worker) (i : ℕ) (p : Pc),
      Transition.Run step (new params).init tr w → HasSetRunning tr i → w.pcAt i = some p →
        p.finished = true → 0 < w.useCount →
          w.running = false ∧ w.start.threads.length = w.threads.length + 1 := by
  intro hall
  have h : Transition.replay step (new []).init [] (.start :: List.replicate 8 (.thread 0 .next) ++
    [.cancel, .thread 0 .interrupted]) = some (_, _) := rfl
  have hset := hall [] _ _ 0 .interrupted (Transition.replay_run .start h)
    ⟨_, List.mem_cons_of_mem _ (List.mem_cons_of_mem _ (List.mem_cons_of_mem _
      (List.mem_cons_of_mem _ (List.mem_cons_of_mem _ (List.mem_cons_of_mem _
        List.mem_cons_self))))), rfl, rfl⟩ rfl rfl (by decide)
  revert hset
  decide

end Worker

namespace Component

variable {s s' : Component}

/-- The worker an object points to is there, and its flag tells where its threads are. -/
theorem vacant_iff {tr : List (Component × Act)} (run : Transition.Run step loaded tr s) {o : ℕ}
    {W : Worker} (hW : s.worker? o = some W) : W.running = false ↔ W.Vacant := by
  obtain ⟨w, ho, hw⟩ := worker?_eq_some.mp hW
  obtain ⟨W', hW', howned⟩ := (owned_run run).owned o w ho
  rw [hw, Option.some.injEq] at hW'
  subst hW'
  obtain ⟨params, trW, hrun, -⟩ := worker_run (fun _ _ => True) (fun _ _ => True)
    (fun _ _ _ _ _ _ _ _ => trivial) run (fun _ _ => trivial) hw
  exact Worker.running_eq_false_iff (Worker.exclusion_run hrun) (Worker.runningHeld_run hrun)
    ((Worker.useCount_pos_iff W).mpr (.inl howned))

/-- At a `$completed`, `running` of the worker is clear exactly if no thread has yet to
clear it, and a `$start` made by the handler launches a thread exactly if none has
at that moment. -/
theorem completed_over_iff (tr : List (Component × Act)) (s : Component)
    (run : Transition.Run step loaded tr s) (o : ℕ) (W : Worker) (hW : s.worker? o = some W) :
    (∀ a row, s.delivers a = some (o, .completed row) → (W.running = false ↔ W.Vacant)) ∧
      ∀ row rest s' W', s.stack = .handler o (.completed row) :: rest →
        step s (.methodStart o) = some s' → s'.worker? o = some W' →
          (W'.threads.length = W.threads.length + 1 ↔ W.Vacant) := by
  have hv := vacant_iff run hW
  refine ⟨fun a row hd => hv, fun row rest s' W' hs h hW' => ?_⟩
  obtain ⟨w, ho, hw⟩ := worker?_eq_some.mp hW
  obtain ⟨-, rfl⟩ := step_methodStart ho h
  have hobj : ((s.subscribe o).modifyWorker w Worker.start).workerOf o = some w := by
    have hfields : (s.subscribe o).objects = s.objects := by rw [subscribe_fields]
    exact (congrArg (fun f => (f o).bind NVObjHTTPWorker.worker) hfields).trans ho
  have hstart : ((s.subscribe o).modifyWorker w Worker.start).workers[w]? = some W.start := by
    rw [modifyWorker_getElem?, if_pos rfl, subscribe_fields]
    show s.workers[w]?.map Worker.start = _
    rw [hw]
    rfl
  have hnew : W' = W.start := by
    obtain ⟨w', ho', hw'⟩ := worker?_eq_some.mp hW'
    rw [hobj, Option.some.injEq] at ho'
    rw [← ho', hstart, Option.some.injEq] at hw'
    exact hw'.symm
  rw [hnew, Worker.start_launches_iff]
  exact hv

/-- The thread has cleared the flag by the time of the tick. -/
theorem completed_over_iff_cleared :
    ∃ tr s W row, Transition.replay step loaded [] (setUp 1 ++ [.methodStart 1] ++ prologue 0 0 ++
        epilogue 0 0 [] ++ [.timer, .main, .main]) = some (tr, s) ∧
      s.delivers .main = some (1, .completed row) ∧ s.worker? 1 = some W ∧ W.Vacant := by
  have h : Transition.replay step loaded [] (setUp 1 ++ [.methodStart 1] ++ prologue 0 0 ++
    epilogue 0 0 [] ++ [.timer, .main, .main]) = some (_, _) := rfl
  exact ⟨_, _, _, _, h, rfl, rfl, ((completed_over_iff _ _ (Transition.replay_run .start h) 1 _
    rfl).1 .main _ rfl).mp rfl⟩

/-- The tick comes between `setComplete(true)` and `setRunning(false)`. -/
theorem completed_while_running :
    ¬ ∀ (tr : List (Component × Act)) (s : Component), Transition.Run step loaded tr s →
      Transition.Always SparesNotified tr → ∀ a o row, s.delivers a = some (o, .completed row) →
        ∀ W, s.worker? o = some W → W.running = false := by
  intro hall
  have h : Transition.replay step loaded [] (setUp 1 ++ [.methodStart 1] ++ prologue 0 0 ++
    (epilogue 0 0 []).take 5 ++ [.timer, .main, .main]) = some (_, _) := rfl
  have hrun := hall _ _ (Transition.replay_run .start h) (by decide) .main 1 _ rfl _ rfl
  revert hrun
  decide

end Component

end HttpBackground
