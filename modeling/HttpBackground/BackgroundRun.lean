import HttpBackground.DueObject
import HttpBackground.LatestStart

/-!
# What `$start` delivers

The background path of a request from `$start` to its tick, with everything else
the component may do in between: the object's worker has its one thread, the
timer keeps the subscription, and the tick calls `$completed` once.
-/
namespace HttpBackground

namespace Worker

variable {w w' : Worker}

/-- The worker has been started once and still has its owner. -/
structure Begun (w : Worker) : Prop where
  owned : w.owned = true
  one : w.threads.length = 1
  exclusion : w.Exclusion
  single : w.SingleRun

theorem begun_start (params : ParamMap) : (new params).init.start.Begun where
  owned := rfl
  one := rfl
  exclusion := exclusion_start (exclusion_init params)
  single := singleRun_start rfl (exclusion_init params) (singleRun_init params)
    ⟨rfl, rfl, .inr rfl⟩

theorem begun_thread {i : ℕ} {b : ThreadAct} (h : step w (.thread i b) = some w')
    (hw : w.Begun) : w'.Begun := by
  obtain ⟨t, ht, hs⟩ := step_thread h
  refine ⟨?_, ?_, exclusion_step h hw.exclusion, singleRun_step h trivial hw.exclusion hw.single⟩
  · rw [owned_of_step h (by simp)]
    exact hw.owned
  · obtain ⟨-, -, rfl⟩ | ⟨-, p', hm⟩ := threadStep_cases ht hs
    · exact hw.one
    · rw [hm.length]
      exact hw.one

/-- A thread that has ended takes no step. -/
theorem not_step_of_done (hw : w.Begun) (hp : w.pcAt 0 = some .done) (i : ℕ) (b : ThreadAct) :
    step w (.thread i b) ≠ some w' := by
  intro h
  obtain ⟨t, ht, hs⟩ := step_thread h
  have hi : i = 0 := by
    have := (List.getElem?_eq_some_iff.mp ht).1
    have := hw.one
    omega
  subst hi
  have hpc : t.pc = .done := by simpa [pcAt, ht] using hp
  cases b <;> simp [threadStep, hpc, Pc.usesWorker, advance] at hs

end Worker

namespace Component

variable {s s' : Component} {o w : ℕ}

/-- An object that is left alone keeps its worker, to which only its threads act. -/
theorem spared_worker (hs : s.Owned) {a : Act} (h : step s a = some s') (ha : a.spares o = true)
    (ho : s.workerOf o = some w) {W : Worker} (hW : s.workers[w]? = some W) :
    s'.workerOf o = some w ∧ ∃ W', s'.workers[w]? = some W' ∧
      (W' = W ∨ ∃ i c, W.step (.thread i c) = some W') := by
  constructor
  · rw [step_workerOf h]
    cases a with
    | construct o' | destroy o' =>
      have hne : o ≠ o' := Ne.symm (by simpa [Act.spares] using ha)
      simpa [workerOfAfter, hne] using ho
    | methodInitialize o' rowVal =>
      have hne : o ≠ o' := Ne.symm (by simpa [Act.spares] using ha)
      simpa [workerOfAfter, hne] using ho
    | methodRun | methodStart | methodCancel | timer | main | handlerReturn | thread => exact ho
  · obtain ⟨W', hW', ⟨-, rfl⟩ | ⟨b, hb, hstep⟩⟩ := worker_after hs h hW
    · exact ⟨W', hW', .inl rfl⟩
    · obtain ⟨o', ho', hact⟩ | ⟨i, c, -, rfl⟩ := acts_cases hb
      · obtain rfl := hs.unshared o o' w ho ho'
        have hself : a.spares o = false := by
          obtain ⟨rfl, -⟩ | ⟨rfl, -⟩ | ⟨r, rfl, -⟩ | ⟨⟨rowVal, rfl, -⟩ | rfl, -⟩ := hact <;>
            simp [Act.spares]
        rw [hself] at ha
        cases ha
      · exact ⟨W', hW', .inr ⟨i, c, hstep⟩⟩

/-- The component keeps its order, and the object its worker. -/
structure Keeps (s : Component) (o w : ℕ) : Prop where
  owned : s.Owned
  walk : Walk s.subscribers s.timerProcessing s.stack
  worker : s.workerOf o = some w

theorem keeps_step {a : Act} (h : step s a = some s') (ha : a.spares o = true)
    (hspare : s.SparesNotified a) {W : Worker} (hW : s.workers[w]? = some W)
    (hk : s.Keeps o w) : s'.Keeps o w ∧ ∃ W', s'.workers[w]? = some W' ∧
      (W' = W ∨ ∃ i c, W.step (.thread i c) = some W') := by
  obtain ⟨hworker, hW'⟩ := spared_worker hk.owned h ha hk.worker hW
  exact ⟨⟨owned_step hk.owned h, step_walk h hspare hk.walk, hworker⟩, hW'⟩

/-- After `$start` and before the tick. -/
structure Waiting (s : Component) (o w : ℕ) : Prop where
  keeps : s.Keeps o w
  begun : ∃ W, s.workers[w]? = some W ∧ W.Begun
  outside : s.timerProcessing = false
  continues : s.Continues o
  ahead : s.aheadCount o = 0

theorem top_of_ahead_zero (hz : s.aheadCount o = 0) (f : Frame) (rest : List Frame)
    (hs : s.stack = f :: rest) : f ≠ .notifyResult o ∧ f ≠ .notifyCancelled o := by
  have hf := List.countP_eq_zero.mp hz f (hs ▸ List.mem_cons_self)
  constructor <;> rintro rfl <;> simp [Frame.ahead] at hf

theorem outside_step {a : Act} (h : step s a = some s') (ha : a ≠ .timer)
    (ho : s.timerProcessing = false) : s'.timerProcessing = false := by
  cases (step_cases h).2 with
  | main s' h => cases mainStep_cases h <;> first | rfl | exact ho
  | handlerReturn s' h =>
    obtain ⟨o', cb, rest, -, ⟨-, rfl⟩ | ⟨-, rfl⟩⟩ := handlerReturn_cases h
    · exact ho
    · exact ho
  | destroy o' =>
    rw [destruct_fields]
    exact ho
  | methodInitialize o' rowVal params =>
    rw [makeWorker_fields]
    exact ho
  | methodStart o' w =>
    show (s.subscribe o').timerProcessing = false
    rw [subscribe_fields]
    exact ho
  | tick => exact absurd rfl ha
  | construct | failed | methodRun | methodCancel | nested | thread => exact ho

theorem waiting_step {a : Act} (h : step s a = some s') (ha : a.spares o = true)
    (htimer : a ≠ .timer) (hspare : s.SparesNotified a) (hw : s.Waiting o w) :
    s'.Waiting o w ∧ s.callsOn a o = [] := by
  obtain ⟨W, hW, hbegun⟩ := hw.begun
  obtain ⟨hkeeps, W', hW', hact⟩ := keeps_step h ha hspare hW hw.keeps
  obtain ⟨hcount, hcalls⟩ := step_ahead h ha (fun ht => absurd ht htimer) (.inr hw.ahead)
    fun _ => top_of_ahead_zero hw.ahead
  have hassign : ∀ it ret rest, s.stack = .notified it ret :: rest → it.key ≠ o := by
    intro it ret rest hs
    have hwalk := hw.keeps.walk
    rw [hs, hw.outside] at hwalk
    have := (hwalk.alone rfl).2
    cases this
  refine ⟨⟨hkeeps, ⟨W', hW', ?_⟩, outside_step h htimer hw.outside,
    step_continues h ha hassign hw.continues, hcount.trans hw.ahead⟩, hcalls⟩
  obtain rfl | ⟨i, c, hstep⟩ := hact
  · exact hbegun
  · exact Worker.begun_thread hstep hbegun

/-- During the tick, with the calls made on the object since `$start`. -/
structure Ticking (s : Component) (o w : ℕ) (W : Worker) (calls : List Callback) : Prop where
  keeps : s.Keeps o w
  worker : s.workers[w]? = some W
  turn : s.Due o ∧ calls = [] ∨
    s.aheadCount o = 0 ∧ calls = [.completed (readResult W.result)]

theorem ticking_step {a : Act} {W : Worker} {calls : List Callback} (h : step s a = some s')
    (ha : a.spares o = true) (hbusy : s.timerProcessing = true) (hspare : s.SparesNotified a)
    (hbegun : W.Begun) (hdone : W.pcAt 0 = some .done) (hc : W.complete = true)
    (ht : s.Ticking o w W calls) : s'.Ticking o w W (calls ++ s.callsOn a o) := by
  obtain ⟨hkeeps, W', hW', hact⟩ := keeps_step h ha hspare ht.worker ht.keeps
  have hsame : W' = W := by
    obtain rfl | ⟨i, c, hstep⟩ := hact
    · rfl
    · exact absurd hstep (Worker.not_step_of_done hbegun hdone i c)
  subst hsame
  refine ⟨hkeeps, hW', ?_⟩
  have hworker : s.worker? o = some W' := worker?_eq_some.mpr ⟨w, ht.keeps.worker, ht.worker⟩
  obtain ⟨hdue, hcalls⟩ | ⟨hzero, hcalls⟩ := ht.turn
  · rw [hcalls, List.nil_append]
    exact due_step h ha hbusy ht.keeps.walk hworker hc hdue
  · obtain ⟨hcount, hnone⟩ := step_ahead h ha (fun _ => hbusy) (.inr hzero)
      fun _ => top_of_ahead_zero hzero
    rw [hcalls, hnone, List.append_nil]
    exact .inr ⟨hcount.trans hzero, rfl⟩

/-- `$start` on a new worker, at top level. -/
theorem waiting_start {params : ParamMap} (hs : s.Owned)
    (hwalk : Walk s.subscribers s.timerProcessing s.stack) (htop : s.stack = [])
    (ho : s.workerOf o = some w) (hW : s.workers[w]? = some (Worker.new params).init)
    (h : step s (.methodStart o) = some s') : s'.Waiting o w ∧ s.callsOn (.methodStart o) o = [] := by
  have hcalls : s.callsOn (.methodStart o) o = [] := by
    simp [callsOn, callsBack, methodStart, ho, errorOf]
  have houtside : s.timerProcessing = false := by
    have hsingle := hwalk.single
    rw [htop] at hsingle
    cases hbusy : s.timerProcessing with
    | false => rfl
    | true =>
      rw [hbusy] at hsingle
      cases hsingle
  have hworker : s'.workerOf o = some w := by
    rw [step_workerOf h]
    exact ho
  have hact : s.acts (.methodStart o) w = some .start := if_pos ho
  obtain ⟨W', hW', ⟨hnone, -⟩ | ⟨b, hb, hstep⟩⟩ := worker_after hs h hW
  · rw [hact] at hnone
    cases hnone
  rw [hact, Option.some.injEq] at hb
  subst hb
  obtain ⟨-, rfl⟩ := Worker.step_start hstep
  have hs' := (step_methodStart ho h).2
  have hcontinues : s'.Continues o := by
    rw [hs']
    show ((s.subscribe o).subscribers.find? o).map Entry.next = _
    rw [subscribe_fields]
    show ((s.subscribers.subscribe o).find? o).map Entry.next = _
    rw [Subscribers.find?_subscribe, if_pos rfl]
    rfl
  have hahead : s'.aheadCount o = 0 := by
    rw [hs']
    show (s.subscribe o).stack.countP _ = 0
    rw [subscribe_fields, htop]
    rfl
  exact ⟨⟨⟨owned_step hs h, step_walk h trivial hwalk, hworker⟩,
    ⟨_, hW', Worker.begun_start params⟩, outside_step h (by simp) houtside, hcontinues, hahead⟩,
    hcalls⟩

/-- The tick begins, and its loop is to come to the object. -/
theorem ticking_timer {W : Worker} (hw : s.Waiting o w) (htop : s.stack = [])
    (hW : s.workers[w]? = some W) (h : step s .timer = some s') : s'.Ticking o w W [] := by
  obtain ⟨hkeeps, W', hW', hact⟩ := keeps_step h rfl trivial hW hw.keeps
  obtain ⟨e, he, -⟩ := Option.map_eq_some_iff.mp hw.continues
  obtain ⟨it, hit, hle⟩ := Subscribers.first_le he
  cases (step_cases h).2 with
  | nested hi ht =>
    rw [hw.outside] at ht
    cases ht
  | tick hi ht =>
    refine ⟨hkeeps, hW, .inl ⟨⟨hw.continues, ?_, fun f hf => ?_⟩, rfl⟩⟩
    · show (Frame.loop s.subscribers.first :: s.stack).countP (Frame.ahead o) = 1
      rw [htop, hit]
      simp [Frame.ahead, hle]
    · rw [htop] at hf
      rw [List.mem_singleton.mp hf]
      simp
  | failed _ _ _ _ _ hr => exact hr.elim

/-- Where nothing but its own `$start` concerns the object, and no object is destroyed
from inside its own `notify`, one tick after its thread has ended calls `$completed`
with the delegate's result, and nothing else has been called before. -/
theorem start_delivers_completed {s₀ : Component} {tr₀ tr : List (Component × Act)} {row : FldVal}
    {params result : ParamMap} (run : Transition.Run step loaded tr₀ s₀)
    (hspare₀ : Transition.Always SparesNotified tr₀) (htop : s₀.stack = [])
    (hrow : getParamsFromRow row = some params)
    (h : step s₀ (.methodInitialize o (some row)) = some s) (hb : Background s o result tr s')
    (hspare : Transition.Always SparesNotified tr) :
    callbacksTo o tr = [.completed (readResult result)] := by
  obtain ⟨-, -, -, hstack, ho, hW⟩ := step_initialize hrow h
  obtain @⟨x, y, z, _, before, tick, hstart, hbefore, hokb, hytop, ⟨V, hV, hdone, hres⟩, htimer,
    htick, hokt, hend⟩ := hb
  obtain ⟨hspare_tick, hspare_rest⟩ := hspare.of_append
  obtain ⟨hspare_before, -⟩ := hspare_rest.tail.of_append
  -- up to the tick nothing is called
  obtain ⟨hx, hxcalls⟩ := waiting_start (owned_step (owned_run run) h)
    (step_walk h trivial (walk_run run hspare₀)) (hstack.trans htop) ho hW hstart
  have hy : y.Waiting o s₀.workers.length ∧ callbacksTo o before = [] := by
    refine hbefore.invariant
      (fun s a => (a ≠ .timer ∧ a.spares o = true) ∧ s.SparesNotified a)
      (fun tr s => s.Waiting o s₀.workers.length ∧ callbacksTo o tr = []) ⟨hx, rfl⟩ ?_
      fun p hp => ⟨hokb p hp, hspare_before p hp⟩
    intro tr s a s' _ _ hI hok h
    obtain ⟨hw, hcalls⟩ := waiting_step h hok.1.2 hok.1.1 hok.2 hI.1
    exact ⟨hw, by rw [callbacksTo, hI.2, hcalls, List.nil_append]⟩
  -- the thread has ended, so that the worker stays as it is
  obtain ⟨U, hU, hbegun⟩ := hy.1.begun
  have hUV : U = V := by
    rw [worker?_eq_some.mpr ⟨_, hy.1.keeps.worker, hU⟩, Option.some.injEq] at hV
    exact hV
  subst hUV
  obtain ⟨hflags, hresult⟩ := hbegun.single.phase _ hdone
  have hcomplete := (hflags hbegun.owned).2
  have hUres : U.result = result := by
    rw [hresult hcomplete, Option.some.injEq] at hres
    exact hres
  have hz := ticking_timer hy.1 hytop hU htimer
  have hs' : s'.Ticking o s₀.workers.length U (callbacksTo o tick) := by
    refine htick.invariant
      (fun s a => (s.timerProcessing = true ∧ a.spares o = true) ∧ s.SparesNotified a)
      (fun tr s => s.Ticking o s₀.workers.length U (callbacksTo o tr)) hz ?_
      fun p hp => ⟨hokt p hp, hspare_tick p hp⟩
    intro tr s a s' _ _ hI hok h
    exact ticking_step h hok.1.2 hok.1.1 hok.2 hbegun hdone hcomplete hI
  have hcalls : callbacksTo o tick = [.completed (readResult result)] := by
    obtain ⟨hdue, -⟩ | ⟨-, hcalls⟩ := hs'.turn
    · have hnone : s'.aheadCount o = 0 := by rw [aheadCount, hend]; rfl
      rw [hdue.ahead] at hnone
      cases hnone
    · rw [hcalls, hUres]
  have hycalls : y.callsOn .timer o = [] := rfl
  have hxcalls : callbacksTo o [(s, .methodStart o)] = [] := hxcalls
  rw [callbacksTo_append, hcalls, callbacksTo, callbacksTo_append, hxcalls, hy.2, hycalls]
  rfl

instance : (a : Act) → Decidable (a = .timer)
  | .timer => isTrue rfl
  | .construct _ | .destroy _ | .methodInitialize _ _ | .methodRun _ _ | .methodStart _
  | .methodCancel _ | .main | .handlerReturn | .thread _ _ _ => isFalse nofun

/-- What a delegate may return for `urlRow`. -/
def urlResult : ParamMap :=
  [(lit "Method", .string (lit "GET")), (lit "URL", .string (lit "http://host/"))]

/-- One object with a URL, and nothing else in between. -/
theorem start_delivers_completed_url :
    ∃ s tr s', step (loaded.construct 1) (.methodInitialize 1 (some urlRow)) = some s ∧
      Background s 1 urlResult tr s' ∧ callbacksTo 1 tr = [.completed (readResult urlResult)] := by
  have hmade : Transition.replay step loaded [] [.construct 1] = some (_, _) := rfl
  have hrow : getParamsFromRow urlRow = some _ := rfl
  have h : step (loaded.construct 1) (.methodInitialize 1 (some urlRow)) =
    some ((step (loaded.construct 1) (.methodInitialize 1 (some urlRow))).getD loaded) := rfl
  obtain ⟨tr, s', hb, hspare⟩ : ∃ tr s',
      Background ((step (loaded.construct 1) (.methodInitialize 1 (some urlRow))).getD loaded) 1
        urlResult tr s' ∧ Transition.Always SparesNotified tr := by
    refine ⟨_, _, .call (show step _ (.methodStart 1) = some _ from rfl)
      (Transition.replay_run .start
        (show Transition.replay step _ [] (prologue 0 0 ++ epilogue 0 0 urlResult) = some (_, _)
          from rfl))
      (by decide) rfl ⟨_, rfl, rfl, rfl⟩ (show step _ .timer = some _ from rfl)
      (Transition.replay_run .start
        (show Transition.replay step _ [] [.main, .main, .main, .handlerReturn, .main, .main,
          .main] = some (_, _) from rfl)) (by decide) rfl, by decide⟩
  exact ⟨_, tr, s', h, hb, start_delivers_completed (Transition.replay_run .start hmade)
    (by decide) rfl hrow h hb hspare⟩

end Component

end HttpBackground
