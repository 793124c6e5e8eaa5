import HttpBackground.Executions
import HttpBackground.Notification

/-!
# What a cancellation decides

`cancel` sets a flag that no thread tests and requests an interruption that is
only taken inside the delegate. It decides the outcome where every thread that
could still get past the test is held off by one inside the delegate, and that
one leaves by the interruption.
-/
namespace HttpBackground

namespace Pc

/-- The thread is inside the delegate, or on its way out without a result. -/
def decided : Pc → Bool
  | .inRun | .interrupted | .done | .unlockEarly | .releaseEarly => true
  | _ => false

/-- The thread has not passed the test of `running`. -/
def untested : Pc → Bool
  | .lockWeak | .lockMutex | .testRunning => true
  | _ => false

end Pc

namespace Worker

variable {w w' : Worker}

/-- No thread can get into the delegate any more, or past it with a result, as long
as those inside it leave by an interruption. -/
def threadsDecided (w : Worker) : Bool :=
  w.threads.all fun t => t.pc.decided || (t.pc.untested && w.running)

/-- `cancel` comes when the threads are decided, a run that is cancelled ends by the
interruption, and `$start` begins no other on the cancelled worker. -/
def CancelsDecisively (w : Worker) : Act → Prop
  | .cancel => w.complete = false → w.threadsDecided = true
  | .start => w.cancelled = true → w.complete = false → w.running = true
  | .thread _ (.returns _) => w.cancelled = true → w.complete = true
  | _ => True

/-- The worker is cancelled for good. -/
structure Decisive (w : Worker) : Prop where
  cancelled : w.cancelled = true
  incomplete : w.complete = false
  threads : ∀ i p, w.pcAt i = some p → p.decided = true ∨ p.untested = true ∧ w.running = true

theorem decided_of_threadsDecided (h : w.threadsDecided = true) {i : ℕ} {p : Pc}
    (hp : w.pcAt i = some p) : p.decided = true ∨ p.untested = true ∧ w.running = true := by
  obtain ⟨t, ht, rfl⟩ := Option.map_eq_some_iff.mp hp
  have hall := List.all_eq_true.mp h t (List.mem_of_getElem? ht)
  simpa using hall

theorem decisive_cancel (hc : w.complete = false) (hok : w.CancelsDecisively .cancel) :
    w.cancel.Decisive where
  cancelled := rfl
  incomplete := hc
  threads i p hp := by
    rw [(cancel_same w).pcAt] at hp
    exact decided_of_threadsDecided (hok hc) hp

theorem SameButCancel.decisive (h : SameButCancel w w') (hc : w'.cancelled = true)
    (hw : w.Decisive) : w'.Decisive where
  cancelled := hc
  incomplete := h.complete.trans hw.incomplete
  threads i p hp := by
    rw [h.pcAt] at hp
    rw [h.running]
    exact hw.threads i p hp

/-- The delegate's run is followed by the rest only when it returns. -/
theorem returns_of_relock {i : ℕ} {t : WorkerThread} {a : ThreadAct}
    (ht : w.threads[i]? = some t) (h : w.threadStep i t a = some w') (hpc : t.pc = .inRun)
    (hp : w'.pcAt i = some .relock) : ∃ r, a = .returns r := by
  have hi : i < w.threads.length := (List.getElem?_eq_some_iff.mp ht).1
  unfold threadStep at h
  cases a with
  | next => simp [hpc, Pc.usesWorker, advance] at h
  | returns r => exact ⟨r, rfl⟩
  | interrupted =>
    by_cases hc : t.pc = .inRun ∧ t.interruptRequested = true
    · rw [if_pos hc, Option.some.injEq] at h
      rw [← h, setThread_pcAt hi, if_pos rfl] at hp
      cases hp
    · rw [if_neg hc] at h
      cases h

theorem Moved.decisive {i : ℕ} {p p' : Pc} (h : Moved w i p p' w') (hp : w.pcAt i = some p)
    (hret : p = .inRun → p' ≠ .relock) (hw : w.Decisive) : w'.Decisive := by
  have hplace := hw.threads i p hp
  have hn := h.next
  have htest := h.tested
  have hne : p ≠ .setRunning ∧ p ≠ .clearRunning ∧ p ≠ .setComplete := by
    refine ⟨?_, ?_, ?_⟩ <;> rintro rfl <;> simp [Pc.decided, Pc.untested] at hplace
  have hrun : w'.running = w.running := by
    rw [h.running, if_neg hne.1, if_neg hne.2.1]
  constructor
  · exact h.still_cancelled hw.cancelled
  · rw [h.complete, if_neg hne.2.2]
    exact hw.incomplete
  · intro j q hq
    rw [h.pcAt] at hq
    rw [hrun]
    by_cases hj : j = i
    · rw [if_pos hj, Option.some.injEq] at hq
      subst hq
      cases p <;> simp [Pc.next] at hn <;> grind [Pc.decided, Pc.untested]
    · rw [if_neg hj] at hq
      exact hw.threads j q hq

theorem decisive_step {a : Act} (h : step w a = some w') (hok : w.CancelsDecisively a)
    (hw : w.Decisive) : w'.Decisive := by
  obtain ⟨-, ⟨rfl, -, rfl⟩ | ⟨-, -, rfl⟩ | ⟨r, -, -, rfl⟩ | ⟨-, -, rfl⟩ |
    ⟨i, b, t, rfl, ht, hs⟩⟩ := step_cases h
  · rwa [start_of_running (hok hw.cancelled hw.incomplete)]
  · exact (cancel_same w).decisive rfl hw
  · exact ⟨hw.cancelled, hw.incomplete, hw.threads⟩
  · have hd : Decisive { w with owned := false } := ⟨hw.cancelled, hw.incomplete, hw.threads⟩
    exact (released_same _).decisive (released_cancelled hd.cancelled) hd
  · have hp : w.pcAt i = some t.pc := by simp [pcAt, ht]
    obtain ⟨-, -, rfl⟩ | ⟨-, p', hm⟩ := threadStep_cases ht hs
    · exact ⟨hw.cancelled, hw.incomplete, hw.threads⟩
    · refine hm.decisive hp (fun hpc hp' => ?_) hw
      have hpc' : w'.pcAt i = some .relock := by rw [hm.pcAt, if_pos rfl, hp']
      obtain ⟨r, rfl⟩ := returns_of_relock ht hs hpc hpc'
      have hcomplete : w.complete = true := hok hw.cancelled
      rw [hw.incomplete] at hcomplete
      cases hcomplete

/-- No thread of a worker cancelled for good enters the delegate. -/
theorem Decisive.not_enter (hw : w.Decisive) (i : ℕ) : w.pcAt i ≠ some .enter := by
  intro hp
  simpa [Pc.decided, Pc.untested] using hw.threads i _ hp

end Worker

namespace Component

variable {s s' : Component}

/-- The conditions of `Worker.CancelsDecisively` for the worker a step is about. -/
def CancelsDecisively (s : Component) : Act → Prop
  | .methodCancel o => (s.worker? o).all (fun W => W.complete || W.threadsDecided) = true
  | .methodStart o => (s.worker? o).all (fun W => !W.cancelled || W.complete || W.running) = true
  | .thread w _ (.returns _) =>
    (s.workers[w]?).all (fun W => !W.cancelled || W.complete) = true
  | _ => True

instance (s : Component) : (a : Act) → Decidable (s.CancelsDecisively a)
  | .methodCancel _ | .methodStart _ | .thread _ _ (.returns _) =>
    inferInstanceAs (Decidable (_ = true))
  | .construct _ | .destroy _ | .methodInitialize _ _ | .methodRun _ _ | .timer | .main
  | .handlerReturn | .thread _ _ .next | .thread _ _ .interrupted => isTrue trivial

theorem CancelsDecisively.worker {a : Act} (h : s.CancelsDecisively a) {w : ℕ} {W : Worker}
    (hW : s.workers[w]? = some W) {b : Worker.Act} (hb : s.acts a w = some b) :
    W.CancelsDecisively b := by
  obtain ⟨o, ho, ⟨rfl, rfl⟩ | ⟨rfl, rfl⟩ | ⟨r, -, rfl⟩ | ⟨-, rfl⟩⟩ | ⟨i, c, rfl, rfl⟩ :=
    acts_cases hb
  · have hall : (s.worker? o).all (fun W => !W.cancelled || W.complete || W.running) = true := h
    rw [worker?_eq_some.mpr ⟨w, ho, hW⟩] at hall
    intro hc hi
    simpa [hc, hi] using hall
  · have hall : (s.worker? o).all (fun W => W.complete || W.threadsDecided) = true := h
    rw [worker?_eq_some.mpr ⟨w, ho, hW⟩] at hall
    intro hc
    simpa [hc] using hall
  · trivial
  · trivial
  · cases c with
    | returns r =>
      have hall : (s.workers[w]?).all (fun W => !W.cancelled || W.complete) = true := h
      rw [hW] at hall
      intro hc
      simpa [hc] using hall
    | next | interrupted => trivial

/-- Once `cancel` has been called on a worker that is not complete, no thread of it
enters the delegate, and a callback for it is `$canceled`. -/
def CancelDecides (tr : List (Component × Act)) : Prop :=
  ∀ later x o earlier w W, tr = later ++ (x, .methodCancel o) :: earlier →
    x.workerOf o = some w → x.workers[w]? = some W → W.complete = false →
      ∀ y a, (y, a) ∈ later →
        (∀ i V, a = .thread w i .next → y.workers[w]? = some V → V.pcAt i ≠ some .enter) ∧
          ∀ o' cb, y.delivers a = some (o', cb) → y.workerOf o' = some w → cb = .canceled

/-- Worker `w` is cancelled for good. -/
def DecisiveAt (w : ℕ) (s : Component) : Prop :=
  ∃ W : Worker, s.workers[w]? = some W ∧ W.Decisive

theorem decisiveAt_step {w : ℕ} {a : Act} (hs : s.Owned) (h : step s a = some s')
    (hok : s.CancelsDecisively a) (hd : DecisiveAt w s) : DecisiveAt w s' := by
  obtain ⟨W, hW, hdec⟩ := hd
  obtain ⟨W', hW', ⟨-, rfl⟩ | ⟨b, hb, hstep⟩⟩ := worker_after hs h hW
  · exact ⟨W', hW', hdec⟩
  · exact ⟨W', hW', Worker.decisive_step hstep (hok.worker hW hb) hdec⟩

theorem decisiveAt_cancel {o w : ℕ} {W : Worker} (hs : s.Owned)
    (h : step s (.methodCancel o) = some s') (hok : s.CancelsDecisively (.methodCancel o))
    (ho : s.workerOf o = some w) (hW : s.workers[w]? = some W) (hc : W.complete = false) :
    DecisiveAt w s' := by
  have hact : s.acts (.methodCancel o) w = some .cancel := if_pos ho
  obtain ⟨W', hW', ⟨hnone, -⟩ | ⟨b, hb, hstep⟩⟩ := worker_after hs h hW
  · rw [hact] at hnone
    cases hnone
  · rw [hact, Option.some.injEq] at hb
    subst hb
    obtain ⟨-, rfl⟩ := Worker.step_cancel hstep
    exact ⟨_, hW', Worker.decisive_cancel hc (hok.worker hW hact)⟩

/-- Cancellation is decisive in the runs where it comes while the delegate runs and
the delegate gives way to it. -/
theorem cancel_decides (tr : List (Component × Act)) (s : Component)
    (run : Transition.Run step loaded tr s) (hspare : Transition.Always SparesNotified tr)
    (hok : Transition.Always CancelsDecisively tr) : CancelDecides tr := by
  rintro later x o earlier w W rfl ho hW hc y a hy
  obtain ⟨l₁, l₂, rfl⟩ := List.append_of_mem hy
  rw [List.append_assoc, List.cons_append] at run hspare hok
  obtain ⟨hrun, -⟩ := run.split
  have hok' := hok.of_append.2.tail
  obtain ⟨hrunx, z, hz, hrunz⟩ := hrun.split
  have hokz := hok'.of_append
  have hdec : DecisiveAt w y := by
    have hboth : y.Owned ∧ DecisiveAt w y := by
      refine hrunz.stateInvariant CancelsDecisively (fun s => s.Owned ∧ DecisiveAt w s) ?_
        (fun s a s' hI hok h => ⟨owned_step hI.1 h, decisiveAt_step hI.1 h hok hI.2⟩) hokz.1
      have hown := owned_run hrunx
      exact ⟨owned_step hown hz, decisiveAt_cancel hown hz hokz.2.head ho hW hc⟩
    exact hboth.2
  obtain ⟨V, hV, hdec⟩ := hdec
  refine ⟨fun i V' ha hV' => ?_, fun o' cb hd ho' => ?_⟩
  · rw [hV, Option.some.injEq] at hV'
    exact hV' ▸ hdec.not_enter i
  · have hreads := readsComplete_run hrun hspare.of_append.2.tail
    obtain ⟨V', hV', ⟨-, hcomplete⟩ | ⟨hcb, -⟩⟩ := delivers_cases hreads hd
    · rw [worker?_eq_some.mpr ⟨w, ho', hV⟩, Option.some.injEq] at hV'
      rw [← hV', hdec.incomplete] at hcomplete
      cases hcomplete
    · exact hcb

/-- A cancellation while the delegate runs, which gives way to it. -/
theorem cancel_decides_interrupted :
    ∃ tr s, Transition.replay step loaded [] (setUp 1 ++ [.methodStart 1] ++ prologue 0 0 ++
        [.methodCancel 1, .thread 0 0 .interrupted, .timer, .main, .main, .main,
          .handlerReturn]) = some (tr, s) ∧
      CancelDecides tr := by
  have h : Transition.replay step loaded [] (setUp 1 ++ [.methodStart 1] ++ prologue 0 0 ++
    [.methodCancel 1, .thread 0 0 .interrupted, .timer, .main, .main, .main,
      .handlerReturn]) = some (_, _) := rfl
  exact ⟨_, _, h, cancel_decides _ _ (Transition.replay_run .start h) (by decide) (by decide)⟩

/-- A thread that is scheduled after the cancellation runs the request, and the
next tick reports it completed. -/
theorem cancelled_run_completed :
    ¬ ∀ (tr : List (Component × Act)) (s : Component), Transition.Run step loaded tr s →
      Transition.Always SparesNotified tr →
        Transition.Always (fun _ a => a.background = true) tr → CancelDecides tr := by
  intro hall
  have hbefore : Transition.replay step loaded [] (setUp 1 ++ [.methodStart 1]) =
    some (_, _) := rfl
  have hcancel := (Transition.replay_run .start hbefore).next
    (show step _ (.methodCancel 1) = some _ from rfl)
  have hdecides := hall _ _ (hcancel.append (Transition.replay_run .start
    (show Transition.replay step _ [] (prologue 0 0 ++ epilogue 0 0 [] ++
      [.timer, .main, .main, .main]) = some (_, _) from rfl))) (by decide) (by decide)
  obtain ⟨-, hcb⟩ := hdecides _ _ 1 _ 0 _ rfl rfl rfl rfl _ .main List.mem_cons_self
  cases hcb 1 _ rfl rfl

end Component

end HttpBackground
