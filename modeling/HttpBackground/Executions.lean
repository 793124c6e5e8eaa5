import HttpBackground.Transition
import HttpBackground.WorkerThreads

/-!
# How often the delegate is executed

A thread enters the delegate at most once, so the background executions of a
worker are bounded by its threads. The guard in `start` lets a second thread
through as long as the first has not yet set `running` itself.
-/
namespace HttpBackground

namespace Worker

variable {w w' : Worker}

/-- Where all the threads are, in the order they were spawned. -/
def pcs (w : Worker) : List Pc := w.threads.map WorkerThread.pc

theorem pcs_getElem? (w : Worker) (i : ℕ) : w.pcs[i]? = w.pcAt i := List.getElem?_map

theorem Moved.pcs {i : ℕ} {p p' : Pc} (h : Moved w i p p' w') (hp : w.pcAt i = some p) :
    w'.pcs = w.pcs.set i p' := by
  have hi : i < w.pcs.length := by
    unfold Worker.pcs
    rw [List.length_map]
    exact pcAt_lt hp
  apply List.ext_getElem?
  intro j
  rw [pcs_getElem?, h.pcAt, List.getElem?_set]
  by_cases hj : j = i
  · simp [hj, hi]
  · rw [if_neg hj, if_neg (Ne.symm hj), pcs_getElem?]

theorem SameButCancel.pcs (h : SameButCancel w w') : w'.pcs = w.pcs := by
  apply List.ext_getElem?
  intro j
  rw [pcs_getElem?, pcs_getElem?, h.pcAt]

/-- Every thread started so far has returned or been interrupted. -/
def settled (w : Worker) : Bool := w.pcs.all Pc.finished

/-- The threads that are in the delegate or will not get there any more. -/
def pastRun (w : Worker) : ℕ := w.pcs.countP fun p => !p.beforeRun

/-- The step enters the delegate's `run` on a background thread. -/
def entersRun (w : Worker) : Act → Bool
  | .thread i .next => w.pcAt i == some .enter
  | _ => false

/-- The step is a `$start` made while no earlier thread is pending or running. -/
def startsSettled (w : Worker) : Act → Bool
  | .start => w.settled
  | _ => false

def executions (tr : List (Worker × Act)) : ℕ := tr.countP fun p => p.1.entersRun p.2

def settledStarts (tr : List (Worker × Act)) : ℕ := tr.countP fun p => p.1.startsSettled p.2

theorem executions_cons (tr : List (Worker × Act)) (w : Worker) (a : Act) :
    executions ((w, a) :: tr) = executions tr + if w.entersRun a then 1 else 0 :=
  List.countP_cons

theorem settledStarts_cons (tr : List (Worker × Act)) (w : Worker) (a : Act) :
    settledStarts ((w, a) :: tr) = settledStarts tr + if w.startsSettled a then 1 else 0 :=
  List.countP_cons

theorem pastRun_le_length (w : Worker) : w.pastRun ≤ w.threads.length := by
  unfold pastRun
  calc w.pcs.countP _ ≤ w.pcs.length := List.countP_le_length
    _ = w.threads.length := List.length_map _

/-- The step into the delegate takes its thread out of those that may still get there. -/
theorem Moved.pastRun_le {i : ℕ} {p p' : Pc} (h : Moved w i p p' w') (hp : w.pcAt i = some p) :
    w.pastRun + (if p = .enter then 1 else 0) ≤ w'.pastRun := by
  have hi : i < w.pcs.length := by
    unfold Worker.pcs
    rw [List.length_map]
    exact pcAt_lt hp
  have hget : w.pcs[i] = p := by
    have := pcs_getElem? w i
    rw [hp, List.getElem?_eq_getElem hi] at this
    exact Option.some.inj this
  have hpast : p.beforeRun = false → p'.beforeRun = false := by
    have hn := h.next
    cases p <;> simp [Pc.next] at hn <;> grind [Pc.beforeRun]
  have henter : p = .enter → p'.beforeRun = false := by
    rintro rfl
    have hn := h.next
    simp only [Pc.next, List.mem_singleton] at hn
    rw [hn]
    rfl
  unfold pastRun
  rw [h.pcs hp, List.countP_set hi, hget]
  have hcount : p.beforeRun = false → 0 < w.pcs.countP fun q => !q.beforeRun := by
    intro hb
    exact List.countP_pos_iff.mpr ⟨p, List.mem_of_getElem hget, by simp [hb]⟩
  by_cases hb : p.beforeRun = true
  · by_cases he : p = .enter
    · simp only [henter he, he, Bool.not_false, if_true]
      exact Nat.le_refl _
    · simp [hb, he]
  · have hb : p.beforeRun = false := by simpa using hb
    have hne : p ≠ .enter := by
      rintro rfl
      cases hb
    have := hcount hb
    simp only [hb, hpast hb, hne, Bool.not_false, if_true, if_false]
    omega

theorem start_pastRun (w : Worker) : w.start.pastRun = w.pastRun := by
  by_cases hr : w.running = true
  · rw [start_of_running hr]
  · unfold pastRun pcs start
    rw [if_neg hr]
    simp [Pc.beforeRun]

theorem entersRun_le_pastRun {a : Act} (h : step w a = some w') :
    w.pastRun + (if w.entersRun a then 1 else 0) ≤ w'.pastRun := by
  obtain ⟨-, ⟨rfl, -, rfl⟩ | ⟨rfl, -, rfl⟩ | ⟨r, rfl, -, rfl⟩ | ⟨rfl, -, rfl⟩ |
    ⟨i, b, t, rfl, ht, hs⟩⟩ := step_cases h
  · rw [start_pastRun]
    exact Nat.le_refl _
  · have hc := (cancel_same w).pcs
    simp [entersRun, pastRun, hc]
  · exact Nat.le_refl _
  · have hd := (released_same { w with owned := false }).pcs
    unfold pastRun drop
    rw [hd]
    exact Nat.le_refl _
  · have hp : w.pcAt i = some t.pc := by simp [pcAt, ht]
    obtain ⟨hu, -, rfl⟩ | ⟨-, p', hm⟩ := threadStep_cases ht hs
    · have hne : t.pc ≠ .enter := by
        intro he
        rw [he] at hu
        cases hu
      have hent : w.entersRun (.thread i b) = false := by
        cases b <;> simp [entersRun, hp, hne]
      rw [hent]
      exact Nat.le_refl _
    · have := hm.pastRun_le hp
      cases b <;> simp only [entersRun, hp] <;> grind

/-- A `$start` that finds `running` clear is made when no earlier thread is left. -/
def StartsWhenSettled (w : Worker) : Act → Prop
  | .start => w.running = false → w.settled = true
  | _ => True

instance (w : Worker) : (a : Act) → Decidable (w.StartsWhenSettled a)
  | .start => inferInstanceAs (Decidable (_ → _))
  | .cancel | .run _ | .drop | .thread _ _ => isTrue trivial

/-- The owner's call is `$start`, or a thread takes a step. -/
def Act.startOrThread : Act → Bool
  | .start | .thread _ _ => true
  | _ => false

/-- Threads are made by such a `$start` only. -/
theorem length_le_startsSettled {a : Act} (h : step w a = some w') (hok : StartsWhenSettled w a) :
    w'.threads.length ≤ w.threads.length + if w.startsSettled a then 1 else 0 := by
  obtain ⟨-, ⟨rfl, -, rfl⟩ | ⟨rfl, -, rfl⟩ | ⟨r, rfl, -, rfl⟩ | ⟨rfl, -, rfl⟩ |
    ⟨i, b, t, rfl, ht, hs⟩⟩ := step_cases h
  · by_cases hr : w.running = true
    · rw [start_of_running hr]
      omega
    · have hr : w.running = false := by simpa using hr
      have hset : w.startsSettled .start = true := hok hr
      rw [hset, if_pos rfl]
      exact Nat.le_of_eq (start_length hr)
  · have := (cancel_same w).length
    omega
  · exact Nat.le_add_right _ _
  · have : w.drop.threads.length = w.threads.length :=
      (released_same { w with owned := false }).length
    omega
  · obtain ⟨-, -, rfl⟩ | ⟨-, p', hm⟩ := threadStep_cases ht hs
    · exact Nat.le_add_right _ _
    · have := hm.length
      omega

theorem executions_le_pastRun {params : ParamMap} {tr : List (Worker × Act)}
    (run : Transition.Run step (new params).init tr w) : executions tr ≤ w.pastRun := by
  refine run.holds (fun tr w => executions tr ≤ w.pastRun) (Nat.zero_le _)
    fun tr w a w' _ hw h => ?_
  have := entersRun_le_pastRun h
  rw [executions_cons]
  omega

theorem length_le_settledStarts {params : ParamMap} {tr : List (Worker × Act)}
    (run : Transition.Run step (new params).init tr w)
    (hok : Transition.Always StartsWhenSettled tr) : w.threads.length ≤ settledStarts tr := by
  refine run.invariant StartsWhenSettled (fun tr w => w.threads.length ≤ settledStarts tr)
    (Nat.zero_le _) (fun tr w a w' _ _ hw ha h => ?_) hok
  have := length_le_startsSettled h ha
  rw [settledStarts_cons]
  omega

/-- Where no `$start` falls between an earlier thread's creation and the moment it
sets `running`, nor between its clearing it and its end, a `$start` during a run
does nothing and the executions are bounded by the other ones. -/
theorem executions_le_settledStarts (params : ParamMap) (tr : List (Worker × Act)) (w : Worker)
    (run : Transition.Run step (new params).init tr w)
    (hok : Transition.Always StartsWhenSettled tr) :
    executions tr ≤ settledStarts tr ∧
      ∀ x, (x, Act.start) ∈ tr → x.settled = false → x.start = x := by
  constructor
  · calc executions tr ≤ w.pastRun := executions_le_pastRun run
      _ ≤ w.threads.length := pastRun_le_length w
      _ ≤ settledStarts tr := length_le_settledStarts run hok
  · intro x hx hset
    by_cases hr : x.running = true
    · exact start_of_running hr
    · have := hok _ hx (by simpa using hr)
      rw [hset] at this
      cases this

/-- The steps that bring a thread into the delegate. -/
def prologue (i : ℕ) : List Act := List.replicate 8 (.thread i .next)

/-- The delegate returns to a thread, which then goes up to its last statement. -/
def epilogue (i : ℕ) (result : ParamMap) : List Act :=
  .thread i (.returns result) :: List.replicate 5 (.thread i .next)

/-- A second `$start` is made while the first thread is inside the delegate. -/
theorem executions_le_settledStarts_restart :
    ∃ tr w, Transition.replay step (new []).init [] (.start :: prologue 0 ++ [.start]) =
        some (tr, w) ∧ executions tr = 1 ∧ executions tr ≤ settledStarts tr := by
  have h : Transition.replay step (new []).init [] (.start :: prologue 0 ++ [.start]) =
    some (_, _) := rfl
  have hrun := Transition.replay_run .start h
  exact ⟨_, _, h, rfl, (executions_le_settledStarts [] _ _ hrun (by decide)).1⟩

/-- Two `$start` calls in a row: the second thread gets its turn when the first
has cleared `running`, and sends the request again. -/
theorem second_start_executes :
    ¬ ∀ (params : ParamMap) (tr : List (Worker × Act)) (w : Worker),
      Transition.Run step (new params).init tr w →
        Transition.Always (fun _ a => a.startOrThread = true) tr →
          executions tr ≤ settledStarts tr := by
  intro hall
  have h : Transition.replay step (new []).init []
    (.start :: .start :: prologue 0 ++ epilogue 0 [] ++ prologue 1) = some (_, _) := rfl
  have hle := hall [] _ _ (Transition.replay_run .start h) (by decide)
  revert hle
  decide

end Worker

end HttpBackground
