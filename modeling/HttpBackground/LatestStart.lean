import HttpBackground.Exclusion
import HttpBackground.Executions
import HttpBackground.Notification

/-!
# Whose outcome a callback reports

The flags and the result belong to the worker, not to a run of it, and `start`
resets none of them. Where `$start` only meets a worker without an outcome, the
worker has one run, and the callback speaks of that.
-/
namespace HttpBackground

namespace Worker

variable {w w' : Worker}

/-- A `$start` finds no outcome and no thread that has yet to set `running`; the
result is written by the thread alone. -/
def StartsUndecided (w : Worker) : Act → Prop
  | .start => w.complete = false ∧ w.cancelled = false ∧ (w.running = true ∨ w.settled = true)
  | .run _ => False
  | _ => True

/-- The flags and the result while the worker's only thread is at `p`. -/
def phase (w : Worker) : Pc → Prop
  | .lockWeak | .lockMutex | .testRunning | .setRunning => w.running = false ∧ w.complete = false
  | .copyParams | .resetPtr | .unlock | .enter | .inRun | .interrupted =>
    w.running = true ∧ w.complete = false
  | .relock | .setResult =>
    w.running = true ∧ w.complete = false ∧ (w.resultAt 0).isSome = true
  | .readCancelled | .setComplete =>
    w.running = true ∧ w.complete = false ∧ w.resultAt 0 = some w.result
  | .clearRunning => w.running = true ∧ w.complete = true ∧ w.resultAt 0 = some w.result
  | .release => w.running = false ∧ w.complete = true ∧ w.resultAt 0 = some w.result
  | .done => (w.owned = true → w.running = false ∧ w.complete = true) ∧
    (w.complete = true → w.resultAt 0 = some w.result)
  | .unlockEarly | .releaseEarly => False

/-- The worker has had one run at most. -/
structure SingleRun (w : Worker) : Prop where
  alone : w.threads.length ≤ 1
  unstarted : w.threads.length = 0 → w.running = false ∧ w.complete = false
  phase : ∀ p, w.pcAt 0 = some p → w.phase p

theorem SingleRun.of_fields (hw : w.SingleRun) (hl : w'.threads.length = w.threads.length)
    (hp : w'.pcAt 0 = w.pcAt 0) (hr : w'.running = w.running) (hc : w'.complete = w.complete)
    (hres : w'.result = w.result) (hat : w'.resultAt 0 = w.resultAt 0)
    (ho : w'.owned = true → w.owned = true) : w'.SingleRun where
  alone := by
    rw [hl]
    exact hw.alone
  unstarted h := by
    rw [hr, hc]
    exact hw.unstarted (hl ▸ h)
  phase p h := by
    have := hw.phase p (hp ▸ h)
    cases p <;> simp only [Worker.phase, hr, hc, hres, hat] at this ⊢ <;> tauto

/-- A thread of an earlier run has left an outcome or `running` set. -/
theorem SingleRun.unstarted_of_undecided (hw : w.SingleRun) (ho : w.owned = true)
    (hex : w.Exclusion) (hok : w.StartsUndecided .start) (hrun : w.running = false) :
    w.threads.length = 0 := by
  obtain ⟨hcomplete, -, hset⟩ := hok
  by_contra hne
  have hlt : 0 < w.pcs.length := by
    unfold pcs
    rw [List.length_map]
    omega
  have hp : w.pcAt 0 = some w.pcs[0] := by
    rw [← pcs_getElem?, List.getElem?_eq_getElem hlt]
  have hset : w.settled = true := by simpa [hrun] using hset
  have hfin := List.all_eq_true.mp hset w.pcs[0] (List.getElem_mem hlt)
  have hphase := hw.phase _ hp
  cases hpc : w.pcs[0] <;> rw [hpc] at hfin hphase hp <;> simp [Pc.finished] at hfin
  · have := (hphase.1 ho).2
    rw [hcomplete] at this
    cases this
  · have := hex.running 0 _ hp rfl
    rw [hrun] at this
    cases this

theorem singleRun_start (ho : w.owned = true) (hex : w.Exclusion) (hw : w.SingleRun)
    (hok : w.StartsUndecided .start) : w.start.SingleRun := by
  by_cases hrun : w.running = true
  · rwa [start_of_running hrun]
  have hrun : w.running = false := by simpa using hrun
  have hnone := hw.unstarted_of_undecided ho hex hok hrun
  constructor
  · rw [start_length hrun]
    omega
  · intro h
    rw [start_length hrun] at h
    omega
  · intro p hp
    rw [start_pcAt hrun, if_pos hnone.symm, Option.some.injEq] at hp
    subst hp
    rw [start_fields]
    exact ⟨hrun, hok.1⟩

theorem Moved.singleRun {i : ℕ} {p p' : Pc} (h : Moved w i p p' w') (hp : w.pcAt i = some p)
    (hw : w.SingleRun) : w'.SingleRun := by
  have hi : i = 0 := by
    have := pcAt_lt hp
    have := hw.alone
    omega
  subst hi
  have hlen : 0 < w.threads.length := pcAt_lt hp
  refine ⟨h.length ▸ hw.alone, fun h0 => ?_, fun q hq => ?_⟩
  · rw [h.length] at h0
    omega
  · rw [h.pcAt, if_pos rfl, Option.some.injEq] at hq
    subst hq
    have hphase := hw.phase p hp
    have hn := h.next
    have hr := h.running
    have hc := h.complete
    have hres := h.result
    have hat := h.resultAt 0
    have hret := h.returned
    have htest := h.tested
    have hrel := h.relocked
    have ho := h.owned
    have hpos := useCount_pos_iff w
    have hsome : (w.resultAt 0).isSome = true → w.resultAt 0 = some ((w.resultAt 0).getD []) := by
      intro hs
      obtain ⟨r, hr⟩ := Option.isSome_iff_exists.mp hs
      rw [hr]
      rfl
    -- each statement leads from its phase into the next one
    cases p <;> simp [Pc.next] at hn <;> grind [phase]

theorem singleRun_step {a : Act} (h : step w a = some w') (hok : w.StartsUndecided a)
    (hex : w.Exclusion) (hw : w.SingleRun) : w'.SingleRun := by
  obtain ⟨-, ⟨rfl, ho, rfl⟩ | ⟨-, -, rfl⟩ | ⟨r, rfl, -, rfl⟩ | ⟨-, -, rfl⟩ |
    ⟨i, b, t, -, ht, hs⟩⟩ := step_cases h
  · exact singleRun_start ho hex hw hok
  · have hc := cancel_same w
    exact hw.of_fields hc.length (hc.pcAt 0) hc.running hc.complete hc.result (hc.resultAt 0)
      fun h => hc.owned ▸ h
  · exact hok.elim
  · have hd := released_same { w with owned := false }
    exact hw.of_fields hd.length (hd.pcAt 0) hd.running hd.complete hd.result (hd.resultAt 0)
      fun h => by rw [drop, hd.owned] at h; cases h
  · have hp : w.pcAt i = some t.pc := by simp [pcAt, ht]
    obtain ⟨-, -, rfl⟩ | ⟨-, p', hm⟩ := threadStep_cases ht hs
    · exact hw.of_fields rfl rfl rfl rfl rfl rfl id
    · exact hm.singleRun hp hw

theorem singleRun_init (params : ParamMap) : (new params).init.SingleRun where
  alone := Nat.zero_le 1
  unstarted _ := ⟨rfl, rfl⟩
  phase p hp := by cases hp

theorem singleRun_run {params : ParamMap} {tr : List (Worker × Act)}
    (run : Transition.Run step (new params).init tr w)
    (hok : Transition.Always StartsUndecided tr) : w.SingleRun :=
  run.invariant StartsUndecided (fun _ => SingleRun) (singleRun_init params)
    (fun _ _ _ _ run _ hw ha h => singleRun_step h ha (exclusion_run run) hw) hok

/-- A complete worker carries the result of its one run. -/
theorem SingleRun.result_of_complete (hw : w.SingleRun) (hc : w.complete = true) :
    0 < w.threads.length ∧ w.resultAt 0 = some w.result := by
  have hpos : 0 < w.threads.length := by
    by_contra hne
    have := (hw.unstarted (by omega)).2
    rw [hc] at this
    cases this
  refine ⟨hpos, ?_⟩
  have hp : w.pcAt 0 = some w.threads[0].pc := by
    simp [pcAt, List.getElem?_eq_getElem hpos]
  have hphase := hw.phase _ hp
  cases hpc : w.threads[0].pc <;> rw [hpc] at hphase <;> simp only [Worker.phase, hc] at hphase <;>
    tauto

end Worker

namespace Component

variable {s s' : Component}

/-- The latest run that a `$start` of the object has begun, as worker and thread,
after a step. A `$start` that finds `running` set begins none. -/
def lastRunAfter (s : Component) (a : Act) (o : ℕ) (before : Option (ℕ × ℕ)) : Option (ℕ × ℕ) :=
  match a with
  | .methodStart o' =>
    if o' = o then
      match s.workerOf o, s.worker? o with
      | some w, some W => if W.running then before else some (w, W.threads.length)
      | _, _ => before
    else before
  | _ => before

def lastRun (o : ℕ) : List (Component × Act) → Option (ℕ × ℕ)
  | [] => none
  | (s, a) :: tr => s.lastRunAfter a o (lastRun o tr)

/-- Whether `cancel` has been called on the object's worker since its latest
`$start`, after a step. -/
def cancelCalledAfter (s : Component) (a : Act) (o : ℕ) (before : Bool) : Bool :=
  match a with
  | .methodStart o' => if o' = o ∧ (s.workerOf o).isSome then false else before
  | .methodCancel o' => if o' = o ∧ (s.workerOf o).isSome then true else before
  | _ => before

def cancelCalled (o : ℕ) : List (Component × Act) → Bool
  | [] => false
  | (s, a) :: tr => s.cancelCalledAfter a o (cancelCalled o tr)

/-- `$run` is not used, and `$start` only meets a worker without an outcome, whose
earlier threads have either set `running` or ended. -/
def StartsUndecided (s : Component) : Act → Prop
  | .methodStart o =>
    (s.worker? o).all (fun W => !W.complete && !W.cancelled && (W.running || W.settled)) = true
  | .methodRun _ _ => False
  | _ => True

instance (s : Component) : (a : Act) → Decidable (s.StartsUndecided a)
  | .methodStart _ => inferInstanceAs (Decidable (_ = true))
  | .methodRun _ _ => isFalse id
  | .construct _ | .destroy _ | .methodInitialize _ _ | .methodCancel _ | .timer | .main
  | .handlerReturn | .thread _ _ _ => isTrue trivial

theorem StartsUndecided.worker {a : Act} (h : s.StartsUndecided a) {w : ℕ} {W : Worker}
    (hW : s.workers[w]? = some W) {b : Worker.Act} (hb : s.acts a w = some b) :
    W.StartsUndecided b := by
  obtain ⟨o, ho, ⟨rfl, rfl⟩ | ⟨-, rfl⟩ | ⟨r, rfl, -⟩ | ⟨-, rfl⟩⟩ | ⟨i, c, -, rfl⟩ := acts_cases hb
  · have hwo : s.worker? o = some W := worker?_eq_some.mpr ⟨w, ho, hW⟩
    have hall : (s.worker? o).all
      (fun W => !W.complete && !W.cancelled && (W.running || W.settled)) = true := h
    rw [hwo] at hall
    simp only [Option.all_some, Bool.and_eq_true, Bool.not_eq_true', Bool.or_eq_true] at hall
    exact ⟨hall.1.1, hall.1.2, hall.2⟩
  · trivial
  · exact h.elim
  · trivial
  · trivial

/-- What an object's worker has to show comes from the object's latest run, and
from a call of `cancel` after it was begun. -/
def Linked (tr : List (Component × Act)) (s : Component) : Prop :=
  ∀ (o w : ℕ) (W : Worker), s.workerOf o = some w → s.workers[w]? = some W →
    (0 < W.threads.length → lastRun o tr = some (w, 0)) ∧
      (W.cancelled = true → cancelCalled o tr = true)

theorem lastRunAfter_of_ne {a : Act} {o : ℕ} (ha : a ≠ .methodStart o)
    (before : Option (ℕ × ℕ)) : s.lastRunAfter a o before = before := by
  cases a with
  | methodStart o' =>
    have hne : o' ≠ o := fun h => ha (h ▸ rfl)
    simp only [lastRunAfter, if_neg hne]
  | _ => rfl

theorem cancelCalledAfter_of_ne {a : Act} {o : ℕ} (ha : a ≠ .methodStart o)
    (ha' : a ≠ .methodCancel o) (before : Bool) :
    s.cancelCalledAfter a o before = before := by
  cases a with
  | methodStart o' =>
    have hne : o' ≠ o := fun h => ha (h ▸ rfl)
    simp [cancelCalledAfter, hne]
  | methodCancel o' =>
    have hne : o' ≠ o := fun h => ha' (h ▸ rfl)
    simp [cancelCalledAfter, hne]
  | _ => rfl

theorem linked_step {tr : List (Component × Act)} {a : Act} (hs : s.Owned)
    (hruns : ∀ (w : ℕ) (W : Worker), s.workers[w]? = some W → W.SingleRun ∧ W.Exclusion)
    (h : step s a = some s') (hok : s.StartsUndecided a) (hl : Linked tr s) :
    Linked ((s, a) :: tr) s' := by
  intro o w W' ho' hW'
  show (_ → s.lastRunAfter a o (lastRun o tr) = _) ∧
    (_ → s.cancelCalledAfter a o (cancelCalled o tr) = true)
  obtain ⟨W, hW, hcase⟩ | ⟨-, o₁, r₁, params, -, -, rfl⟩ := worker_step hs h hW'
  · have ho : s.workerOf o = some w := by
      obtain ho | ⟨hw, -⟩ := workerOf_before h ho'
      · exact ho
      · have := (List.getElem?_eq_some_iff.mp hW).1
        omega
    obtain ⟨hthreads, hcancel⟩ := hl o w W ho hW
    obtain ⟨hnone, rfl⟩ | ⟨b, hb, hstep⟩ := hcase
    · have ha : a ≠ .methodStart o := by
        rintro rfl
        simp [acts, ho] at hnone
      have ha' : a ≠ .methodCancel o := by
        rintro rfl
        simp [acts, ho] at hnone
      rw [lastRunAfter_of_ne ha, cancelCalledAfter_of_ne ha ha']
      exact ⟨hthreads, hcancel⟩
    · have hokW := hok.worker hW hb
      obtain ⟨o₁, ho₁, hact⟩ | ⟨i, c, rfl, rfl⟩ := acts_cases hb
      · obtain rfl := hs.unshared o o₁ w ho ho₁
        have hW₁ : s.worker? o = some W := worker?_eq_some.mpr ⟨w, ho, hW⟩
        obtain ⟨rfl, rfl⟩ | ⟨rfl, rfl⟩ | ⟨r, -, rfl⟩ | ⟨hdrop, -⟩ := hact
        · obtain ⟨howned, rfl⟩ := Worker.step_start hstep
          refine ⟨fun hpos => ?_, fun hc => ?_⟩
          · by_cases hr : W.running = true
            · rw [Worker.start_of_running hr] at hpos
              simpa only [lastRunAfter, if_true, ho, hW₁, hr] using hthreads hpos
            · have hr : W.running = false := by simpa using hr
              obtain ⟨hsingle, hex⟩ := hruns w W hW
              have hnone := hsingle.unstarted_of_undecided howned hex hokW hr
              simp [lastRunAfter, ho, hW₁, hr, hnone]
          · rw [Worker.start_fields] at hc
            rw [show W.cancelled = false from hokW.2.1] at hc
            cases hc
        · obtain ⟨-, rfl⟩ := Worker.step_cancel hstep
          rw [lastRunAfter_of_ne (by simp), (Worker.cancel_same W).length]
          exact ⟨hthreads, fun _ => by simp [cancelCalledAfter, ho]⟩
        · exact hokW.elim
        · rw [step_workerOf h] at ho'
          have hlt := (List.getElem?_eq_some_iff.mp hW).1
          obtain ⟨rowVal, rfl, hrow⟩ | rfl := hdrop
          · simp only [workerOfAfter, hrow, and_self, if_true, Option.some.injEq] at ho'
            omega
          · simp [workerOfAfter] at ho'
      · obtain ⟨t, ht, hts⟩ := Worker.step_thread hstep
        obtain ⟨W₁, hW₁, howned⟩ := hs.owned o w ho
        rw [hW, Option.some.injEq] at hW₁
        subst hW₁
        rw [lastRunAfter_of_ne (by simp), cancelCalledAfter_of_ne (by simp) (by simp)]
        obtain ⟨-, -, rfl⟩ | ⟨-, p', hm⟩ := Worker.threadStep_cases ht hts
        · exact ⟨hthreads, hcancel⟩
        · rw [hm.length, hm.cancelled howned]
          exact ⟨hthreads, hcancel⟩
  · exact ⟨fun h => (by cases h), fun h => (by cases h)⟩

theorem linked_run {tr : List (Component × Act)} (run : Transition.Run step loaded tr s)
    (hok : Transition.Always StartsUndecided tr) :
    (∀ (w : ℕ) (W : Worker), s.workers[w]? = some W → W.SingleRun ∧ W.Exclusion) ∧
      Linked tr s := by
  have hruns : ∀ tr s, Transition.Run step loaded tr s → Transition.Always StartsUndecided tr →
      ∀ (w : ℕ) (W : Worker), s.workers[w]? = some W → W.SingleRun ∧ W.Exclusion := by
    intro tr s run hok w W hW
    obtain ⟨params, trW, hrun, hokW⟩ := worker_run Worker.StartsUndecided StartsUndecided
      (fun _ _ _ _ _ h hW hb => h.worker hW hb) run hok hW
    exact ⟨Worker.singleRun_run hrun hokW, Worker.exclusion_run hrun⟩
  refine ⟨hruns tr s run hok, ?_⟩
  exact run.invariant StartsUndecided Linked (fun o w W ho => by cases ho)
    (fun tr s a s' run hok hl ha h => linked_step (owned_run run) (hruns tr s run hok) h ha hl) hok

/-- The callback is about the latest run begun for the object: it carries what the
delegate has returned there, or `cancel` was called after its `$start`. -/
def ReflectsLatest (tr : List (Component × Act)) (s : Component) (o : ℕ) : Callback → Prop
  | .completed row => ∃ w i W r, lastRun o tr = some (w, i) ∧ s.workers[w]? = some W ∧
    W.resultAt i = some r ∧ row = readResult r
  | .canceled => cancelCalled o tr = true
  | .error _ _ => True

/-- Where `$start` only meets workers without an outcome, every callback reports
the outcome of the latest run. -/
theorem callback_reflects_latest (tr : List (Component × Act)) (s : Component)
    (run : Transition.Run step loaded tr s) (hspare : Transition.Always SparesNotified tr)
    (hok : Transition.Always StartsUndecided tr) (a : Act) (o : ℕ) (cb : Callback)
    (hd : s.delivers a = some (o, cb)) : ReflectsLatest tr s o cb := by
  obtain ⟨hruns, hlinked⟩ := linked_run run hok
  obtain ⟨W, hW, ⟨rfl, hc⟩ | ⟨rfl, hc⟩⟩ := delivers_cases (readsComplete_run run hspare) hd
  · obtain ⟨w, ho, hw⟩ := worker?_eq_some.mp hW
    obtain ⟨hpos, hres⟩ := (hruns w W hw).1.result_of_complete hc
    exact ⟨w, 0, W, W.result, (hlinked o w W ho hw).1 hpos, hw, hres, rfl⟩
  · obtain ⟨w, ho, hw⟩ := worker?_eq_some.mp hW
    exact (hlinked o w W ho hw).2 hc

/-- One run from `$start` to its callback. -/
theorem callback_reflects_latest_once :
    ∃ tr s row, Transition.replay step loaded [] (setUp 1 ++ [.methodStart 1] ++ prologue 0 0 ++
        epilogue 0 0 [] ++ [.timer, .main, .main]) = some (tr, s) ∧
      s.delivers .main = some (1, .completed row) ∧ ReflectsLatest tr s 1 (.completed row) := by
  have h : Transition.replay step loaded [] (setUp 1 ++ [.methodStart 1] ++ prologue 0 0 ++
    epilogue 0 0 [] ++ [.timer, .main, .main]) = some (_, _) := rfl
  exact ⟨_, _, _, h, rfl, callback_reflects_latest _ _ (Transition.replay_run .start h) (by decide)
    (by decide) .main 1 _ rfl⟩

/-- A second `$start` on a complete worker: the next tick reports the first run's
result while the second has not entered the delegate. -/
theorem stale_result_delivered :
    ¬ ∀ (tr : List (Component × Act)) (s : Component), Transition.Run step loaded tr s →
      Transition.Always SparesNotified tr →
        Transition.Always (fun _ a => a.background = true) tr → ∀ (a : Act) (o : ℕ) (cb : Callback),
          s.delivers a = some (o, cb) → ReflectsLatest tr s o cb := by
  intro hall
  have h : Transition.replay step loaded [] (setUp 1 ++ [.methodStart 1] ++ prologue 0 0 ++
    epilogue 0 0 [] ++ [.methodStart 1, .timer, .main, .main]) = some (_, _) := rfl
  obtain ⟨w, i, W, r, hlast, hW, hres, -⟩ := hall _ _ (Transition.replay_run .start h) (by decide)
    (by decide) .main 1 _ rfl
  cases hlast
  cases hW
  cases hres

end Component

end HttpBackground
