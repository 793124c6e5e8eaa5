import HttpBackground.Worker

/-!
# What one step of a thread does

The invariants of a worker speak of where its threads are, of who holds a
pointer and of the flags. `threadStep_cases` says once what a thread step does
to each of these; nothing after it unfolds the step.
-/
namespace HttpBackground

/-- The statements that can come next. -/
def Pc.next : Pc → List Pc
  | .lockWeak => [.lockMutex]
  | .lockMutex => [.testRunning]
  | .testRunning => [.unlockEarly, .setRunning]
  | .setRunning => [.copyParams]
  | .copyParams => [.resetPtr]
  | .resetPtr => [.unlock]
  | .unlock => [.enter]
  | .enter => [.inRun]
  | .inRun => [.relock, .interrupted]
  | .relock => [.setResult, .done]
  | .setResult => [.readCancelled]
  | .readCancelled => [.setComplete]
  | .setComplete => [.clearRunning]
  | .clearRunning => [.release]
  | .unlockEarly => [.releaseEarly]
  | .release | .releaseEarly => [.done]
  | .done | .interrupted => []

namespace Worker

variable {w w' : Worker} {i : ℕ} {t : WorkerThread} {a : ThreadAct}

/-- Where thread `i` is. -/
def pcAt (w : Worker) (i : ℕ) : Option Pc := w.threads[i]?.map WorkerThread.pc

/-- The local shared pointer of thread `i` is not empty. -/
def ptrAt (w : Worker) (i : ℕ) : Bool := (w.threads[i]?.map WorkerThread.ptr).getD false

/-- What the delegate has returned to thread `i`. -/
def resultAt (w : Worker) (i : ℕ) : Option ParamMap := w.threads[i]?.bind WorkerThread.result

section setThread

variable (hi : i < w.threads.length) (j : ℕ)
include hi

theorem setThread_getElem? :
    (w.setThread i t).threads[j]? = if j = i then some t else w.threads[j]? := by
  unfold setThread
  rw [List.getElem?_set]
  grind

theorem setThread_pcAt : (w.setThread i t).pcAt j = if j = i then some t.pc else w.pcAt j := by
  unfold pcAt
  rw [setThread_getElem? hi]
  split <;> rfl

theorem setThread_ptrAt : (w.setThread i t).ptrAt j = if j = i then t.ptr else w.ptrAt j := by
  unfold ptrAt
  rw [setThread_getElem? hi]
  split <;> rfl

theorem setThread_resultAt :
    (w.setThread i t).resultAt j = if j = i then t.result else w.resultAt j := by
  unfold resultAt
  rw [setThread_getElem? hi]
  split <;> rfl

end setThread

/-- `interrupt` touches nothing but the request. -/
theorem interrupt_getElem? (w : Worker) (j : ℕ) :
    w.interrupt.threads[j]? = w.threads[j]?.map fun t =>
      { t with interruptRequested := t.interruptRequested || decide (w.thread = some j) } := by
  unfold interrupt
  cases w.thread with
  | none => simp
  | some i =>
    by_cases hij : i = j
    · subst hij
      simp
    · simp [hij]

theorem useCount_pos_iff (w : Worker) :
    0 < w.useCount ↔ w.owned = true ∨ ∃ j, w.ptrAt j = true := by
  unfold useCount ptrAt
  constructor
  · intro h
    by_cases ho : w.owned = true
    · exact .inl ho
    · have hpos : 0 < w.threads.countP WorkerThread.ptr := by
        simpa [ho] using h
      obtain ⟨t, ht, hptr⟩ := List.countP_pos_iff.mp hpos
      obtain ⟨j, hj⟩ := List.mem_iff_getElem?.mp ht
      exact .inr ⟨j, by simp [hj, hptr]⟩
  · rintro (ho | ⟨j, hj⟩)
    · rw [ho, Bool.toNat_true]
      omega
    · have hpos : 0 < w.threads.countP WorkerThread.ptr := by
        cases ht : w.threads[j]? with
        | none => simp [ht] at hj
        | some t =>
          rw [ht] at hj
          exact List.countP_pos_iff.mpr ⟨t, List.mem_of_getElem? ht, hj⟩
      omega

/-- Two states of a worker that differ at most in the cancel request. -/
structure SameButCancel (w w' : Worker) : Prop where
  length : w'.threads.length = w.threads.length
  pcAt : ∀ j, w'.pcAt j = w.pcAt j
  ptrAt : ∀ j, w'.ptrAt j = w.ptrAt j
  resultAt : ∀ j, w'.resultAt j = w.resultAt j
  result : w'.result = w.result
  running : w'.running = w.running
  complete : w'.complete = w.complete
  workMutex : w'.workMutex = w.workMutex
  thread : w'.thread = w.thread
  owned : w'.owned = w.owned
  fault : w'.fault = w.fault

theorem cancel_same (w : Worker) : SameButCancel w w.cancel where
  length := by
    unfold cancel interrupt
    split <;> simp
  pcAt j := by
    show w.interrupt.threads[j]?.map _ = _
    rw [interrupt_getElem?, Option.map_map]
    rfl
  ptrAt j := by
    show (w.interrupt.threads[j]?.map _).getD _ = _
    rw [interrupt_getElem?, Option.map_map]
    rfl
  resultAt j := by
    show w.interrupt.threads[j]?.bind _ = _
    rw [interrupt_getElem?, Option.bind_map]
    rfl
  result := rfl
  running := rfl
  complete := rfl
  workMutex := rfl
  thread := rfl
  owned := rfl
  fault := rfl

theorem released_same (w : Worker) : SameButCancel w w.released := by
  unfold released
  split
  · exact cancel_same w
  · exact ⟨rfl, fun _ => rfl, fun _ => rfl, fun _ => rfl, rfl, rfl, rfl, rfl, rfl, rfl, rfl⟩

@[simp] theorem setThread_length : (w.setThread i t).threads.length = w.threads.length :=
  List.length_set

theorem released_cancelled (h : w.cancelled = true) : w.released.cancelled = true := by
  unfold released
  split
  · rfl
  · exact h

/-- What a step that takes thread `i` from `p` to `p'` does, as far as the
invariants of a worker are concerned. -/
structure Moved (w : Worker) (i : ℕ) (p p' : Pc) (w' : Worker) : Prop where
  next : p' ∈ p.next
  length : w'.threads.length = w.threads.length
  pcAt : ∀ j, w'.pcAt j = if j = i then some p' else w.pcAt j
  running : w'.running = if p = .setRunning then true
    else if p = .clearRunning then false else w.running
  tested : p = .testRunning → (p' = .unlockEarly ↔ w.running = true)
  blocked : p = .lockMutex → w.workMutex = none
  workMutex : w'.workMutex = if p = .lockMutex then some i
    else if p = .unlock ∨ p = .unlockEarly then none else w.workMutex
  ptrAt : ∀ j, w'.ptrAt j = if j ≠ i then w.ptrAt j
    else if p = .lockWeak ∨ p = .relock then decide (0 < w.useCount)
    else if p = .resetPtr ∨ p = .release ∨ p = .releaseEarly then false else w.ptrAt i
  relocked : p = .relock → (p' = .setResult ↔ 0 < w.useCount)
  resultAt : ∀ j, w'.resultAt j = w.resultAt j ∨ j = i ∧ p = .inRun
  returned : p = .inRun → p' = .relock → (w'.resultAt i).isSome
  result : w'.result = if p = .setResult then (w.resultAt i).getD [] else w.result
  complete : w'.complete = if p = .setComplete then true else w.complete
  cancelled : w.owned = true → w'.cancelled = w.cancelled
  still_cancelled : w.cancelled = true → w'.cancelled = true
  owned : w'.owned = w.owned
  thread : w'.thread = w.thread
  fault : w'.fault = w.fault

/-- What the step of a thread in state `t` writes: flags, mutex and result of
the worker, which becomes `u`, and the thread, which becomes `t'`. -/
structure Writes (w : Worker) (i : ℕ) (t : WorkerThread) (u : Worker) (t' : WorkerThread) :
    Prop where
  threads : u.threads = w.threads
  owned : u.owned = w.owned
  thread : u.thread = w.thread
  fault : u.fault = w.fault
  next : t'.pc ∈ t.pc.next
  running : u.running = if t.pc = .setRunning then true
    else if t.pc = .clearRunning then false else w.running
  tested : t.pc = .testRunning → (t'.pc = .unlockEarly ↔ w.running = true)
  blocked : t.pc = .lockMutex → w.workMutex = none
  workMutex : u.workMutex = if t.pc = .lockMutex then some i
    else if t.pc = .unlock ∨ t.pc = .unlockEarly then none else w.workMutex
  ptr : t'.ptr = if t.pc = .lockWeak ∨ t.pc = .relock then decide (0 < w.useCount)
    else if t.pc = .resetPtr ∨ t.pc = .release ∨ t.pc = .releaseEarly then false else t.ptr
  relocked : t.pc = .relock → (t'.pc = .setResult ↔ 0 < w.useCount)
  resultAt : t'.result = t.result ∨ t.pc = .inRun
  returned : t.pc = .inRun → t'.pc = .relock → t'.result.isSome
  result : u.result = if t.pc = .setResult then t.result.getD [] else w.result
  complete : u.complete = if t.pc = .setComplete then true else w.complete
  cancelled : u.cancelled = w.cancelled

theorem Writes.moved {u : Worker} {t' : WorkerThread} (h : Writes w i t u t')
    (ht : w.threads[i]? = some t) : Moved w i t.pc t'.pc (u.setThread i t') := by
  have hi : i < u.threads.length := h.threads ▸ (List.getElem?_eq_some_iff.mp ht).1
  have hptr : w.ptrAt i = t.ptr := by simp [Worker.ptrAt, ht]
  have hres : w.resultAt i = t.result := by simp [Worker.resultAt, ht]
  refine ⟨h.next, ?_, fun j => ?_, h.running, h.tested, h.blocked, h.workMutex, fun j => ?_,
    h.relocked, fun j => ?_, fun hp hp' => ?_, hres ▸ h.result, h.complete, fun _ => h.cancelled,
    h.cancelled.trans, h.owned, h.thread, h.fault⟩
  · rw [setThread_length, h.threads]
  · rw [setThread_pcAt hi]
    simp only [pcAt, h.threads]
  · rw [setThread_ptrAt hi, h.ptr, hptr]
    simp only [Worker.ptrAt, h.threads]
    by_cases hj : j = i <;> simp [hj]
  · rw [setThread_resultAt hi]
    by_cases hj : j = i
    · subst hj
      rw [if_pos rfl, hres]
      exact h.resultAt.imp_right fun hp => ⟨rfl, hp⟩
    · rw [if_neg hj]
      exact .inl (by simp only [Worker.resultAt, h.threads])
  · rw [setThread_resultAt hi, if_pos rfl]
    exact h.returned hp hp'

theorem Moved.released {p p' : Pc} (h : Moved w i p p' w') : Moved w i p p' w'.released := by
  have hs := released_same w'
  constructor
  · exact h.next
  · exact hs.length.trans h.length
  · exact fun j => (hs.pcAt j).trans (h.pcAt j)
  · exact hs.running.trans h.running
  · exact h.tested
  · exact h.blocked
  · exact hs.workMutex.trans h.workMutex
  · exact fun j => (hs.ptrAt j).trans (h.ptrAt j)
  · exact h.relocked
  · exact fun j => (h.resultAt j).imp_left (hs.resultAt j).trans
  · exact fun hp hp' => (hs.resultAt i).symm ▸ h.returned hp hp'
  · exact hs.result.trans h.result
  · exact hs.complete.trans h.complete
  · intro ho
    have hpos : 0 < w'.useCount := (useCount_pos_iff w').mpr (.inl (h.owned.trans ho))
    rw [Worker.released, if_neg (by omega)]
    exact h.cancelled ho
  · exact fun hc => released_cancelled (h.still_cancelled hc)
  · exact hs.owned.trans h.owned
  · exact hs.thread.trans h.thread
  · exact hs.fault.trans h.fault

theorem advance_moved (ht : w.threads[i]? = some t) (h : w.advance i t = some w') :
    ∃ p', Moved w i t.pc p' w' := by
  unfold advance at h
  cases hpc : t.pc with
  | inRun | done | interrupted =>
    rw [hpc] at h
    cases h
  | lockMutex =>
    rw [hpc] at h
    by_cases hm : w.workMutex.isSome = true
    · simp [hm] at h
    · simp only [hm, Bool.false_eq_true, if_false, Option.some.injEq] at h
      subst h
      rw [← hpc]
      refine ⟨_, Writes.moved ?_ ht⟩
      constructor <;> simp_all [Pc.next, setWorkMutex]
  | relock =>
    rw [hpc] at h
    by_cases hc : 0 < w.useCount
    all_goals
      simp only [hc, if_true, if_false, Option.some.injEq] at h
      subst h
      rw [← hpc]
      refine ⟨_, Writes.moved ?_ ht⟩
      constructor <;> simp [hpc, hc, Pc.next]
  | resetPtr | release | releaseEarly =>
    rw [hpc] at h
    cases h
    rw [← hpc]
    refine ⟨_, Moved.released (Writes.moved ?_ ht)⟩
    constructor <;> simp [hpc, Pc.next]
  | lockWeak | testRunning | setRunning | copyParams | unlock | enter | setResult
  | readCancelled | setComplete | clearRunning | unlockEarly =>
    rw [hpc] at h
    cases h
    rw [← hpc]
    refine ⟨_, Writes.moved ?_ ht⟩
    constructor <;> simp [hpc, Pc.next, setRunning, setComplete, setResult, setWorkMutex]

/-- A thread step is a fault at a worker that is not there, or moves the thread. -/
theorem threadStep_cases (ht : w.threads[i]? = some t) (h : w.threadStep i t a = some w') :
    t.pc.usesWorker = true ∧ w.available t = false ∧ w' = { w with fault := true } ∨
      (t.pc.usesWorker = true → w.available t = true) ∧ ∃ p', Moved w i t.pc p' w' := by
  unfold threadStep at h
  cases a with
  | next =>
    by_cases hf : t.pc.usesWorker && !w.available t
    · rw [if_pos hf, Option.some.injEq] at h
      simp only [Bool.and_eq_true, Bool.not_eq_true'] at hf
      exact .inl ⟨hf.1, hf.2, h.symm⟩
    · simp only [hf] at h
      refine .inr ⟨fun hu => ?_, advance_moved ht h⟩
      simpa [hu] using hf
  | returns result =>
    by_cases hpc : t.pc = .inRun
    · simp only [hpc, if_true, Option.some.injEq] at h
      subst h
      refine .inr ⟨by simp [hpc, Pc.usesWorker], _, Writes.moved ?_ ht⟩
      constructor <;> simp [hpc, Pc.next]
    · simp [hpc] at h
  | interrupted =>
    by_cases hpc : t.pc = .inRun ∧ t.interruptRequested = true
    · simp only [hpc, and_self, if_true, Option.some.injEq] at h
      subst h
      refine .inr ⟨by simp [hpc, Pc.usesWorker], _, Writes.moved ?_ ht⟩
      constructor <;> simp [hpc, Pc.next]
    · rw [if_neg hpc] at h
      cases h

theorem start_of_running (h : w.running = true) : w.start = w := if_pos h

/-- The new thread stands before its first statement, the others where they were. -/
theorem start_pcAt (h : w.running = false) (j : ℕ) :
    w.start.pcAt j = if j = w.threads.length then some .lockWeak else w.pcAt j := by
  unfold start pcAt
  rw [if_neg (by simp [h])]
  show ((w.threads ++ [({} : WorkerThread)])[j]?).map _ = _
  rw [List.getElem?_append]
  grind

theorem start_ptrAt (w : Worker) (j : ℕ) : w.start.ptrAt j = w.ptrAt j := by
  unfold start ptrAt
  split
  · rfl
  · show (((w.threads ++ [({} : WorkerThread)])[j]?).map _).getD false = _
    rw [List.getElem?_append]
    grind

theorem start_resultAt (w : Worker) (j : ℕ) : w.start.resultAt j = w.resultAt j := by
  unfold start resultAt
  split
  · rfl
  · show ((w.threads ++ [({} : WorkerThread)])[j]?).bind _ = _
    rw [List.getElem?_append]
    grind

theorem start_length (h : w.running = false) :
    w.start.threads.length = w.threads.length + 1 := by
  unfold start
  rw [if_neg (by simp [h])]
  exact List.length_append

/-- Every field but the threads is as before. -/
theorem start_fields (w : Worker) :
    w.start = { w with threads := w.start.threads, thread := w.start.thread } := by
  unfold start
  split <;> rfl

theorem pcAt_lt {p : Pc} (h : w.pcAt i = some p) : i < w.threads.length := by
  obtain ⟨t, ht, -⟩ := Option.map_eq_some_iff.mp h
  exact (List.getElem?_eq_some_iff.mp ht).1

/-- What can happen to a worker. -/
theorem step_cases {a : Act} (h : step w a = some w') : w.fault = false ∧
    (a = .start ∧ w.owned = true ∧ w' = w.start ∨
      a = .cancel ∧ w.owned = true ∧ w' = w.cancel ∨
      (∃ r, a = .run r ∧ w.owned = true ∧ w' = w.run r) ∨
      a = .drop ∧ w.owned = true ∧ w' = w.drop ∨
      ∃ i b t, a = .thread i b ∧ w.threads[i]? = some t ∧ w.threadStep i t b = some w') := by
  unfold step at h
  by_cases hf : w.fault = true
  · simp [hf] at h
  · refine ⟨by simpa using hf, ?_⟩
    rw [if_neg hf] at h
    cases a with
    | thread i b =>
      obtain ⟨t, ht, hs⟩ := Option.bind_eq_some_iff.mp h
      exact .inr (.inr (.inr (.inr ⟨i, b, t, rfl, ht, hs⟩)))
    | start | cancel | run | drop =>
      by_cases ho : w.owned = true
      · simp only [ho, if_true, Option.some.injEq] at h
        simp [ho, h]
      · simp [ho] at h

theorem step_start (h : step w .start = some w') : w.owned = true ∧ w' = w.start := by
  obtain ⟨-, ⟨-, ho, hw⟩ | ⟨hb, -⟩ | ⟨r, hb, -⟩ | ⟨hb, -⟩ | ⟨i, c, t, hb, -⟩⟩ := step_cases h
  · exact ⟨ho, hw⟩
  all_goals cases hb

theorem step_cancel (h : step w .cancel = some w') : w.owned = true ∧ w' = w.cancel := by
  obtain ⟨-, ⟨hb, -⟩ | ⟨-, ho, hw⟩ | ⟨r, hb, -⟩ | ⟨hb, -⟩ | ⟨i, c, t, hb, -⟩⟩ := step_cases h
  · cases hb
  · exact ⟨ho, hw⟩
  all_goals cases hb

theorem step_thread {b : ThreadAct} (h : step w (.thread i b) = some w') :
    ∃ t, w.threads[i]? = some t ∧ w.threadStep i t b = some w' := by
  obtain ⟨-, ⟨hb, -⟩ | ⟨hb, -⟩ | ⟨r, hb, -⟩ | ⟨hb, -⟩ | ⟨i, c, t, hb, ht, hs⟩⟩ := step_cases h
  on_goal 5 =>
    cases hb
    exact ⟨t, ht, hs⟩
  all_goals cases hb

theorem owned_of_step {b : Act} (h : step w b = some w')
    (hb : b ≠ .drop) : w'.owned = w.owned := by
  obtain ⟨-, ⟨-, -, rfl⟩ | ⟨-, -, rfl⟩ | ⟨r, -, -, rfl⟩ | ⟨rfl, -, -⟩ | ⟨i, c, t, -, ht, hs⟩⟩ :=
    step_cases h
  · rw [start_fields]
  · exact (cancel_same w).owned
  · rfl
  · exact absurd rfl hb
  · obtain ⟨-, -, rfl⟩ | ⟨-, p', hm⟩ := threadStep_cases ht hs
    · rfl
    · exact hm.owned

theorem fault_of_step {b : Act} (h : step w b = some w')
    (hb : ∀ i c, b ≠ .thread i c) : w'.fault = w.fault := by
  obtain ⟨-, ⟨-, -, rfl⟩ | ⟨-, -, rfl⟩ | ⟨r, -, -, rfl⟩ | ⟨-, -, rfl⟩ | ⟨i, c, t, rfl, -, -⟩⟩ :=
    step_cases h
  · rw [start_fields]
  · rfl
  · rfl
  · exact (released_same { w with owned := false }).fault
  · exact absurd rfl (hb i c)

end Worker

end HttpBackground
