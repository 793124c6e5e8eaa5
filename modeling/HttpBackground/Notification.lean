import HttpBackground.Ownership
import HttpBackground.TimerLoop

/-!
# What `notify` has seen

`notify` asks the worker two or three questions, and its threads go on in
between. That a worker was found complete stays true until the result is read,
since nothing takes the flag back and no other worker can have taken its place.
-/
namespace HttpBackground

namespace Worker

variable {w w' : Worker}

theorem complete_of_step {a : Act} (h : step w a = some w') (hc : w.complete = true) :
    w'.complete = true := by
  obtain ⟨-, ⟨-, -, rfl⟩ | ⟨-, -, rfl⟩ | ⟨r, -, -, rfl⟩ | ⟨-, -, rfl⟩ | ⟨i, b, t, -, ht, hs⟩⟩ :=
    step_cases h
  · rw [start_fields]
    exact hc
  · exact hc
  · exact hc
  · exact (released_same { w with owned := false }).complete.trans hc
  · obtain ⟨-, -, rfl⟩ | ⟨-, p', hm⟩ := threadStep_cases ht hs
    · exact hc
    · rw [hm.complete, hc]
      simp

end Worker

namespace Component

variable {s s' : Component}

theorem walk_run {tr : List (Component × Act)} (run : Transition.Run step loaded tr s)
    (hok : Transition.Always SparesNotified tr) :
    Walk s.subscribers s.timerProcessing s.stack :=
  run.stateInvariant SparesNotified (fun s => Walk s.subscribers s.timerProcessing s.stack)
    (Walk.nil _) (fun _ _ _ hw ha h => step_walk h ha hw) hok

theorem worker?_eq_some {o : ℕ} {W : Worker} :
    s.worker? o = some W ↔ ∃ w, s.workerOf o = some w ∧ s.workers[w]? = some W :=
  Option.bind_eq_some_iff

/-- `notify` is about to read the result of a worker that is complete. -/
def ReadsComplete (s : Component) : Prop :=
  ∀ o rest, s.stack = .notifyResult o :: rest → ∃ W, s.worker? o = some W ∧ W.complete = true

theorem readsComplete_of_waits {stack : List Frame} (hs : s.stack = stack)
    (hw : ∀ f ∈ stack, f.waits = true) : s.ReadsComplete := by
  intro o rest hr
  rw [hs] at hr
  have := hw (.notifyResult o) (hr ▸ List.mem_cons_self)
  cases this

theorem readsComplete_of_top {f : Frame} {rest : List Frame} (hs : s.stack = f :: rest)
    (hf : ∀ o, f ≠ .notifyResult o) : s.ReadsComplete := by
  intro o rest' hr
  rw [hs] at hr
  cases hr
  exact absurd rfl (hf o)

theorem readsComplete_of_returned {ret : NextTimer} {rest : List Frame}
    (hs : s.stack = returned ret rest) (hw : ∀ f ∈ rest, f.waits = true) : s.ReadsComplete := by
  unfold returned at hs
  split at hs
  · exact readsComplete_of_top hs (by simp)
  · exact readsComplete_of_waits hs hw

theorem mainStep_readsComplete (h : MainSteps s s')
    (hw : Walk s.subscribers s.timerProcessing s.stack) (hr : s.ReadsComplete) :
    s'.ReadsComplete := by
  cases h with
  | loopEnd rest hs =>
    rw [hs] at hw
    exact readsComplete_of_waits rfl hw.tail_waits
  | isComplete o W rest hs hW hc =>
    intro o' rest' hs'
    cases hs'
    exact ⟨W, hW, hc⟩
  | pending o W rest hs =>
    rw [hs] at hw
    exact readsComplete_of_returned rfl hw.tail_waits
  | loopNotify | loopSkip | assign | testStop | testContinue | notComplete | completed
  | canceled => exact readsComplete_of_top rfl (by simp)
  | fault => exact hr

theorem step_readsComplete (hs : s.Owned) {a : Act} (h : step s a = some s')
    (hw : Walk s.subscribers s.timerProcessing s.stack) (hr : s.ReadsComplete) :
    s'.ReadsComplete := by
  have hidle : s.idle = true → ∀ f ∈ s.stack, f.waits = true := Walk.idle_waits hw
  cases (step_cases h).2 with
  | construct o hi => exact readsComplete_of_waits rfl (hidle hi)
  | destroy o hi =>
    rw [destruct_fields]
    exact readsComplete_of_waits rfl (hidle hi)
  | methodInitialize o rowVal params hi =>
    rw [makeWorker_fields]
    exact readsComplete_of_waits rfl (hidle hi)
  | methodStart o w hi =>
    have hstack : (s.subscribe o).stack = s.stack := by rw [subscribe_fields]
    exact readsComplete_of_waits hstack (hidle hi)
  | methodCancel o w hi | nested hi => exact readsComplete_of_waits rfl (hidle hi)
  | failed | methodRun | tick => exact readsComplete_of_top rfl (by simp)
  | main s' h => exact mainStep_readsComplete (mainStep_cases h) hw hr
  | handlerReturn s' h =>
    obtain ⟨o, cb, rest, hs', ⟨-, rfl⟩ | ⟨-, rfl⟩⟩ := handlerReturn_cases h
    · rw [hs'] at hw
      exact readsComplete_of_waits rfl hw.tail_waits
    · rw [hs'] at hw
      exact readsComplete_of_returned rfl hw.tail_waits
  | thread w i b W W' hW hstep =>
    intro o rest hst
    obtain ⟨W₁, hW₁, hc⟩ := hr o rest hst
    obtain ⟨w₁, ho, hw₁⟩ := worker?_eq_some.mp hW₁
    obtain ⟨W₂, hW₂, ⟨-, rfl⟩ | ⟨b', -, hb'⟩⟩ := worker_after hs h hw₁
    · exact ⟨W₂, worker?_eq_some.mpr ⟨w₁, ho, hW₂⟩, hc⟩
    · exact ⟨W₂, worker?_eq_some.mpr ⟨w₁, ho, hW₂⟩, Worker.complete_of_step hb' hc⟩

theorem readsComplete_run {tr : List (Component × Act)} (run : Transition.Run step loaded tr s)
    (hok : Transition.Always SparesNotified tr) : s.ReadsComplete :=
  run.invariant SparesNotified (fun _ => ReadsComplete) (fun o rest h => by cases h)
    (fun _ _ _ _ run hok hr _ h => step_readsComplete (owned_run run) h (walk_run run hok) hr) hok

/-- What a callback tells of the worker it is about. -/
theorem delivers_cases {a : Act} {o : ℕ} {cb : Callback} (hr : s.ReadsComplete)
    (h : s.delivers a = some (o, cb)) :
    ∃ W, s.worker? o = some W ∧
      (cb = .completed (readResult W.result) ∧ W.complete = true ∨
        cb = .canceled ∧ W.cancelled = true) := by
  cases a with
  | main =>
    simp only [delivers] at h
    split at h
    case h_1 o' rest hs =>
      obtain ⟨W, hW, hcb⟩ := Option.map_eq_some_iff.mp h
      cases hcb
      obtain ⟨W', hW', hc⟩ := hr o rest hs
      rw [hW, Option.some.injEq] at hW'
      exact ⟨W, hW, .inl ⟨rfl, hW' ▸ hc⟩⟩
    case h_2 o' rest hs =>
      obtain ⟨W, hW, hcb⟩ := Option.bind_eq_some_iff.mp h
      by_cases hc : W.cancelled = true
      · rw [if_pos hc] at hcb
        cases hcb
        exact ⟨W, hW, .inr ⟨rfl, hc⟩⟩
      · rw [if_neg hc] at hcb
        cases hcb
    case h_3 => cases h
  | _ => cases h

end Component

end HttpBackground
