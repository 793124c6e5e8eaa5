import HttpBackground.DeliveredRow
import HttpBackground.LatestStart
import HttpBackground.TerminalCallbacks

/-!
# Rows as the delegate returned them

Where `$start` only meets workers without an outcome, a delegate runs once and its
list is taken once. Between the two nothing touches the list, so that the row shows
it as it was returned, and a component without lists makes the same callbacks.
-/
namespace HttpBackground

namespace Worker

variable {w w' : Worker}

/-- No thread has a result before it has left the delegate. -/
def Unreturned (w : Worker) : Prop :=
  ∀ i p, w.pcAt i = some p → p.beforeRun = true ∨ p = .inRun → w.resultAt i = none

theorem Unreturned.of_same (h : w.Unreturned) (hs : SameButCancel w w') : w'.Unreturned := by
  intro i p hp hpc
  rw [hs.resultAt]
  exact h i p (hs.pcAt i ▸ hp) hpc

theorem Unreturned.start (h : w.Unreturned) : w.start.Unreturned := by
  intro i p hp hpc
  rw [start_resultAt]
  by_cases hr : w.running = true
  · rw [start_of_running hr] at hp
    exact h i p hp hpc
  · rw [start_pcAt (by simpa using hr)] at hp
    by_cases hi : i = w.threads.length
    · simp [resultAt, hi]
    · rw [if_neg hi] at hp
      exact h i p hp hpc

theorem Moved.unreturned {i : ℕ} {p p' : Pc} (hm : Moved w i p p' w') (hp : w.pcAt i = some p)
    (h : w.Unreturned) : w'.Unreturned := by
  intro j q hq hqc
  rw [hm.pcAt] at hq
  by_cases hj : j = i
  · subst hj
    rw [if_pos rfl, Option.some.injEq] at hq
    subst hq
    have hbefore : p.beforeRun = true := by
      have hnext := hm.next
      cases p <;> simp [Pc.next] at hnext <;> grind [Pc.beforeRun]
    obtain hres | ⟨-, rfl⟩ := hm.resultAt j
    · rw [hres]
      exact h j p hp (.inl hbefore)
    · cases hbefore
  · rw [if_neg hj] at hq
    obtain hres | ⟨hji, -⟩ := hm.resultAt j
    · rw [hres]
      exact h j q hq hqc
    · exact absurd hji hj

theorem unreturned_step {b : Act} (h : step w b = some w') (hw : w.Unreturned) :
    w'.Unreturned := by
  obtain ⟨-, ⟨-, -, rfl⟩ | ⟨-, -, rfl⟩ | ⟨r, -, -, rfl⟩ | ⟨-, -, rfl⟩ | ⟨i, c, t, -, ht, hts⟩⟩ :=
    step_cases h
  · exact hw.start
  · exact hw.of_same (cancel_same w)
  · exact hw
  · have hdrop : Unreturned { w with owned := false } := hw
    exact hdrop.of_same (released_same _)
  · obtain ⟨-, -, rfl⟩ | ⟨-, p', hm⟩ := threadStep_cases ht hts
    · exact hw
    · exact hm.unreturned (by simp [pcAt, ht]) hw

/-- A thread's result is what the delegate returns to it. -/
theorem resultAt_of_step {b : Act} (h : step w b = some w') (j : ℕ) :
    w'.resultAt j = w.resultAt j ∨
      ∃ r, b = .thread j (.returns r) ∧ w'.resultAt j = some r := by
  obtain ⟨-, ⟨-, -, rfl⟩ | ⟨-, -, rfl⟩ | ⟨r, -, -, rfl⟩ | ⟨-, -, rfl⟩ | ⟨i, c, t, rfl, ht, hts⟩⟩ :=
    step_cases h
  · exact .inl (w.start_resultAt j)
  · exact .inl ((cancel_same w).resultAt j)
  · exact .inl rfl
  · exact .inl ((released_same { w with owned := false }).resultAt j)
  · obtain ⟨-, -, rfl⟩ | ⟨-, p', hm⟩ := threadStep_cases ht hts
    · exact .inl rfl
    · obtain hsame | ⟨rfl, hin⟩ := hm.resultAt j
      · exact .inl hsame
      · obtain ⟨r, rfl, hr⟩ | hsame := threadStep_inRun ht hin hts
        · exact .inr ⟨r, rfl, hr⟩
        · exact .inl hsame

end Worker

namespace Component

variable {s s' : Component}

/-- With one request at most, the callback ends the account of an object. -/
theorem accounted_of_delivers {a : Act} {o : ℕ} {cb : Callback}
    (hd : s.delivers a = some (o, cb)) (h : step s a = some s')
    (hw : Walk s.subscribers s.timerProcessing s.stack) (ht : s.Timed) (hp : s.Paired)
    (ha : s.Accounted o 0 1) : s'.Accounted o 0 0 := by
  cases a with
  | main =>
    have hstep := step_accounted h hw ht hp ha
    have hone : s.terminalsAfter .main o 0 = 1 := by
      show (if (s.delivers .main).map Prod.fst = some o then 0 + 1 else 0) = 1
      rw [hd]
      simp
    rw [hone] at hstep
    obtain ⟨hcalls, hpolled⟩ := hstep
    simp only [requestsAfter] at hcalls hpolled
    exact ⟨by omega, fun hp' => (by have := hpolled hp'; omega)⟩
  | _ => cases hd

/-- Where no request is made on the object, its account does not grow. -/
theorem accounted_unrequested {a : Act} {o asked : ℕ} (h : step s a = some s')
    (hw : Walk s.subscribers s.timerProcessing s.stack) (ht : s.Timed) (hp : s.Paired)
    (hreq : requestsAfter a o asked ≤ asked) (ha : s.Accounted o 0 asked) :
    s'.Accounted o 0 asked := by
  obtain ⟨hcalls, hpolled⟩ := step_accounted h hw ht hp ha
  exact ⟨by omega, fun hp' => (by have := hpolled hp'; omega)⟩

/-- Where `$run` is not used, one callback at most is to come for an object. -/
theorem accounted_one_run {tr : List (Component × Act)} (run : Transition.Run step loaded tr s)
    (hspare : Transition.Always SparesNotified tr) (hok : Transition.Always StartsUndecided tr)
    (o : ℕ) : s.Accounted o 0 1 := by
  refine run.invariant (fun s a => s.SparesNotified a ∧ s.StartsUndecided a)
    (fun _ s => s.Accounted o 0 1) ?_ (fun tr s a s' run hok ha hoka h => ?_)
    fun p hp => ⟨hspare p hp, hok p hp⟩
  · exact ⟨Nat.zero_le 1, fun _ => Nat.le_refl 1⟩
  · have hspare : Transition.Always SparesNotified tr := fun p hp => (hok p hp).1
    have hw := walk_run run hspare
    by_cases hstart : a = .methodStart o
    · subst hstart
      -- Omnis code runs, so that no `notify` is under way
      have hcount : s'.notifyCount o = 0 := by
        cases (step_cases h).2 with
        | failed a o' name text hi hr =>
          have hzero := notifyCount_of_idle hw hi o
          rw [notifyCount] at hzero ⊢
          rwa [setStack, List.countP_cons_of_neg (by simp [Frame.notifyOf])]
        | methodStart _ w hi ho =>
          have hstack : (s.subscribe o).stack = s.stack := by rw [subscribe_fields]
          exact (congrArg _ hstack).trans (notifyCount_of_idle hw hi o)
      exact ⟨by omega, fun _ => by omega⟩
    · refine accounted_unrequested h hw (timed_run run) (paired_run run hspare) ?_ ha
      cases a with
      | methodRun o' r => exact hoka.2.elim
      | methodStart o' =>
        have hne : o' ≠ o := fun h => hstart (h ▸ rfl)
        simp [requestsAfter, hne]
      | construct o' =>
        simp only [requestsAfter]
        split <;> omega
      | _ => exact Nat.le_refl 1

/-- What holds of a component whose `$start` only meets workers without an outcome. -/
structure OneRunEach (s : Component) : Prop where
  owned : s.Owned
  walk : Walk s.subscribers s.timerProcessing s.stack
  timed : s.Timed
  paired : s.Paired
  reads : s.ReadsComplete
  once : ∀ o, s.Accounted o 0 1
  single : ∀ (w : ℕ) (W : Worker), s.workers[w]? = some W → W.SingleRun
  unreturned : ∀ (w : ℕ) (W : Worker), s.workers[w]? = some W → W.Unreturned

theorem oneRunEach_run {tr : List (Component × Act)} (run : Transition.Run step loaded tr s)
    (hspare : Transition.Always SparesNotified tr) (hok : Transition.Always StartsUndecided tr) :
    s.OneRunEach where
  owned := owned_run run
  walk := walk_run run hspare
  timed := timed_run run
  paired := paired_run run hspare
  reads := readsComplete_run run hspare
  once := accounted_one_run run hspare hok
  single w W hW := ((linked_run run hok).1 w W hW).1
  unreturned w W hW := by
    obtain ⟨params, trW, hrun, -⟩ := worker_run (fun _ _ => True) (fun _ _ => True)
      (fun _ _ _ _ _ _ _ _ => trivial) run (fun _ _ => trivial) hW
    exact hrun.stateHolds Worker.Unreturned (fun i p hp => by cases hp)
      fun w a w' hw h => Worker.unreturned_step h hw

end Component

namespace Live

open Component (SparesNotified StartsUndecided)

variable {sdk : OmnisSdk} {s s' : Live} {tr : List (Live × Act)}

/-- The lists decide what a row shows, not who gets one. -/
theorem delivers_fst (s : Live) (a : Component.Act) :
    (s.delivers (.component a)).map Prod.fst = (s.component.delivers a).map Prod.fst := by
  cases a with
  | main =>
    simp only [delivers]
    split
    · next o rest hs =>
      simp only [Component.delivers, hs, row?, Component.worker?]
      cases s.component.workerOf o with
      | none => rfl
      | some w =>
        simp only [Option.bind_some]
        cases s.component.workers[w]? <;> rfl
    · rfl
  | _ => rfl

/-- In the run a row has taken the list of worker `w`'s delegate. -/
def Taken (w : ℕ) (tr : List (Live × Act)) : Prop := ∃ p ∈ tr, Takes w p.1 p.2

theorem Taken.cases {w : ℕ} {a : Act} (h : Taken w ((s, a) :: tr)) :
    Takes w s a ∨ Taken w tr := by
  obtain ⟨p, hp, htake⟩ := h
  obtain rfl | hp := List.mem_cons.mp hp
  · exact .inl htake
  · exact .inr ⟨p, hp, htake⟩

/-- A list is taken from a worker that is complete, and its object hears no more. -/
structure TakenLast (tr : List (Live × Act)) (s : Live) : Prop where
  complete : ∀ w, Taken w tr → ∃ W, s.component.workers[w]? = some W ∧ W.complete = true
  silent : ∀ w o, Taken w tr → s.component.workerOf o = some w → s.component.Accounted o 0 0

theorem TakenLast.complete_cons (hs : s.component.OneRunEach) (ht : TakenLast tr s) {a : Act}
    {w : ℕ} (h : Taken w ((s, a) :: tr)) :
    ∃ W, s.component.workers[w]? = some W ∧ W.complete = true := by
  obtain ⟨o, row, hd, ho⟩ | htaken := h.cases
  · obtain ⟨w', W, ho', hW, hc, -⟩ := delivers_completed hs.reads hd
    rw [ho, Option.some.injEq] at ho'
    exact ⟨W, ho' ▸ hW, hc⟩
  · exact ht.complete w htaken

/-- The row that takes a list ends the account of its object. -/
theorem silent_of_takes (hs : s.component.OneRunEach) {a : Component.Act} {w o : ℕ}
    (h : Takes w s (.component a)) (ho : s.component.workerOf o = some w)
    (hstep : s.component.step a = some s'.component) : s'.component.Accounted o 0 0 := by
  obtain ⟨o₁, row, hd, ho₁⟩ := h
  obtain rfl := hs.owned.unshared o o₁ w ho ho₁
  have hfst := s.delivers_fst a
  rw [hd] at hfst
  obtain ⟨⟨o', cb⟩, hcb, rfl⟩ := Option.map_eq_some_iff.mp hfst.symm
  exact Component.accounted_of_delivers hcb hstep hs.walk hs.timed hs.paired (hs.once o')

/-- Nothing is requested of an object whose worker is complete. -/
theorem requestsAfter_of_complete {a : Component.Act} {w o : ℕ} {W : Worker}
    (hok : s.component.StartsUndecided a) (ho : s.component.workerOf o = some w)
    (hW : s.component.workers[w]? = some W) (hc : W.complete = true) :
    Component.requestsAfter a o 0 = 0 := by
  cases a with
  | methodRun o' r => exact hok.elim
  | methodStart o' =>
    have hne : o' ≠ o := by
      rintro rfl
      have hall : (s.component.worker? o').all
        (fun W => !W.complete && !W.cancelled && (W.running || W.settled)) = true := hok
      rw [Component.worker?_eq_some.mpr ⟨w, ho, hW⟩] at hall
      simp [hc] at hall
    simp [Component.requestsAfter, hne]
  | construct o' => simp [Component.requestsAfter]
  | _ => rfl

theorem takenLast_step (hs : s.component.OneRunEach) {a : Act}
    (hok : OnComponent StartsUndecided s a) (h : step sdk s a = some s')
    (ht : TakenLast tr s) : TakenLast ((s, a) :: tr) s' := by
  cases a with
  | fills w i l =>
    obtain ⟨-, hcomponent, -⟩ := step_fills h
    refine ⟨fun w' htaken => ?_, fun w' o htaken => ?_⟩
    · rw [hcomponent]
      exact ht.complete_cons hs htaken
    · rw [hcomponent]
      obtain ⟨o', row, hd, -⟩ | htaken := htaken.cases
      · cases hd
      · exact ht.silent w' o htaken
  | component a =>
    obtain ⟨hstep, -⟩ := step_component h
    refine ⟨fun w htaken => ?_, fun w o htaken ho' => ?_⟩
    · obtain ⟨W, hW, hc⟩ := ht.complete_cons hs htaken
      obtain ⟨W', hW', ⟨-, rfl⟩ | ⟨b, -, hb⟩⟩ := Component.worker_after hs.owned hstep hW
      · exact ⟨W', hW', hc⟩
      · exact ⟨W', hW', Worker.complete_of_step hb hc⟩
    · obtain ⟨W, hW, hc⟩ := ht.complete_cons hs htaken
      obtain ho | ⟨hw, -⟩ := Component.workerOf_before hstep ho'
      · obtain htake | htaken := htaken.cases
        · exact silent_of_takes hs htake ho hstep
        · exact Component.accounted_unrequested hstep hs.walk hs.timed hs.paired
            (requestsAfter_of_complete hok ho hW hc).le (ht.silent w o htaken ho)
      · have := (List.getElem?_eq_some_iff.mp hW).1
        omega

/-- A list that no row has taken is as the delegate has returned it. -/
def AsReturned (tr : List (Live × Act)) (s : Live) : Prop :=
  ∀ (w : ℕ) (W : Worker) (r : ParamMap) (l : QList), ¬ Taken w tr →
    s.component.workers[w]? = some W → W.resultAt 0 = some r → resultList? r = some l →
      s.listResult w = l

/-- The thread inside the delegate is the worker's only one, and has no result yet. -/
theorem inside (hs : s.component.OneRunEach) {w i : ℕ} {W : Worker}
    (hW : s.component.workers[w]? = some W) (hpc : W.pcAt i = some .inRun) :
    i = 0 ∧ W.resultAt 0 = none := by
  have hi : i = 0 := by
    have := Worker.pcAt_lt hpc
    have := (hs.single w W hW).alone
    omega
  exact ⟨hi, hi ▸ hs.unreturned w W hW i .inRun hpc (.inr rfl)⟩

/-- The delegate returns to a thread that has no result yet. -/
theorem resultAt_of_returned (hs : s.component.OneRunEach) {a : Component.Act} {w : ℕ}
    {W W' : Worker} {b : Worker.Act} {r : ParamMap} (hok : s.component.StartsUndecided a)
    (hW : s.component.workers[w]? = some W) (hb : s.component.acts a w = some b)
    (hstep : W.step b = some W') (hr : b.returned? = some r) : W.resultAt 0 = none := by
  obtain ⟨o, -, ⟨-, rfl⟩ | ⟨-, rfl⟩ | ⟨r', rfl, -⟩ | ⟨-, rfl⟩⟩ | ⟨i, c, -, rfl⟩ :=
    Component.acts_cases hb
  · cases hr
  · cases hr
  · exact hok.elim
  · cases hr
  · cases c <;> cases hr
    exact (inside hs hW (Worker.inRun_of_returns hstep)).2

theorem asReturned_step (hs : s.component.OneRunEach) {a : Act}
    (hok : OnComponent StartsUndecided s a) (h : step sdk s a = some s')
    (hkept : AsReturned tr s) : AsReturned ((s, a) :: tr) s' := by
  intro w W' r l hnot hW' hr hl
  have hnotake : ¬ Takes w s a := fun ht => hnot ⟨(s, a), List.mem_cons_self, ht⟩
  have hbefore : ¬ Taken w tr := fun ⟨p, hp, ht⟩ => hnot ⟨p, List.mem_cons_of_mem _ hp, ht⟩
  cases a with
  | fills w₁ i l₁ =>
    obtain ⟨⟨W₁, hW₁, hpc⟩, hcomponent, hlists⟩ := step_fills h
    rw [hcomponent] at hW'
    have hne : w ≠ w₁ := by
      rintro rfl
      rw [hW', Option.some.injEq] at hW₁
      subst hW₁
      rw [(inside hs hW' hpc).2] at hr
      cases hr
    rw [hlists, Function.update_of_ne hne]
    exact hkept w W' r l hbefore hW' hr hl
  | component a =>
    obtain ⟨hstep, hlists⟩ := step_component h
    rw [hlists]
    obtain ⟨W, hW, hcase⟩ | ⟨-, o, rowVal, params, -, -, rfl⟩ :=
      Component.worker_step hs.owned hstep hW'
    swap
    · cases hr
    have hresult : W.resultAt 0 = some r ∨
        ∃ b, s.component.acts a w = some b ∧ b = .thread 0 (.returns r) := by
      obtain ⟨-, rfl⟩ | ⟨b, hb, hbstep⟩ := hcase
      · exact .inl hr
      · obtain hsame | ⟨r', rfl, hr'⟩ := Worker.resultAt_of_step hbstep 0
        · exact .inl (hsame ▸ hr)
        · rw [hr', Option.some.injEq] at hr
          exact .inr ⟨_, hb, hr ▸ rfl⟩
    obtain hold | ⟨b, hb, rfl⟩ := hresult
    · have hlist := hkept w W r l hbefore hW hold hl
      obtain hsame | ⟨b, r', hb, hret, -⟩ | ⟨htake, -⟩ := listsAfter_cases sdk s a w
      · rw [hsame, hlist]
      · -- the delegate would return to a second thread
        obtain ⟨hnone, -⟩ | ⟨b', hb', hbstep⟩ := hcase
        · rw [hnone] at hb
          cases hb
        · rw [hb, Option.some.injEq] at hb'
          subst hb'
          rw [resultAt_of_returned hs hok hW hb hbstep hret] at hold
          cases hold
      · exact absurd htake hnotake
    · obtain ⟨o, -, ⟨-, hact⟩ | ⟨-, hact⟩ | ⟨r', -, hact⟩ | ⟨-, hact⟩⟩ | ⟨i, c, rfl, hact⟩ :=
        Component.acts_cases hb <;> cases hact
      simp only [listsAfter, filled, Function.update_self, hl, Option.getD_some]

theorem oneRunEach_run (run : Transition.Run (step sdk) loaded tr s)
    (hspare : Transition.Always (OnComponent SparesNotified) tr)
    (hok : Transition.Always (OnComponent StartsUndecided) tr) : s.component.OneRunEach :=
  Component.oneRunEach_run (run_components run) (always_components hspare) (always_components hok)

theorem taken_run (run : Transition.Run (step sdk) loaded tr s)
    (hspare : Transition.Always (OnComponent SparesNotified) tr)
    (hok : Transition.Always (OnComponent StartsUndecided) tr) :
    TakenLast tr s ∧ AsReturned tr s := by
  refine run.invariant (fun s a => OnComponent SparesNotified s a ∧ OnComponent StartsUndecided s a)
    (fun tr s => TakenLast tr s ∧ AsReturned tr s) ?_ (fun tr s a s' run hok hinv hoka h => ?_)
    fun p hp => ⟨hspare p hp, hok p hp⟩
  · refine ⟨⟨?_, ?_⟩, fun w W r l _ hW => by cases hW⟩
    · rintro w ⟨p, hp, -⟩
      cases hp
    · rintro w o ⟨p, hp, -⟩
      cases hp
  · have hs := oneRunEach_run run (fun p hp => (hok p hp).1) fun p hp => (hok p hp).2
    exact ⟨takenLast_step hs hoka.2 h hinv.1, asReturned_step hs hoka.2 h hinv.2⟩

/-- Where `$start` only meets workers without an outcome, a row shows the list as the
delegate has returned it: what goes on with the lists decides nothing that is called
back. -/
theorem delivers_as_returned (sdk : OmnisSdk) (tr : List (Live × Act)) (s : Live)
    (run : Transition.Run (step sdk) loaded tr s)
    (hspare : Transition.Always (OnComponent SparesNotified) tr)
    (hok : Transition.Always (OnComponent StartsUndecided) tr) (a : Component.Act) :
    s.delivers (.component a) = s.component.delivers a := by
  have hs := oneRunEach_run run hspare hok
  obtain ⟨htaken, hkept⟩ := taken_run run hspare hok
  cases a with
  | main =>
    simp only [delivers]
    split
    · next o rest hstack =>
      obtain ⟨W, hWo, hc⟩ := hs.reads o rest hstack
      obtain ⟨w, ho, hW⟩ := Component.worker?_eq_some.mp hWo
      have hnot : ¬ Taken w tr := by
        intro ht
        have hcalls := (htaken.silent w o ht ho).calls
        have hpos : 0 < s.component.notifyCount o :=
          List.countP_pos_iff.mpr ⟨.notifyResult o, by simp [hstack], by simp [Frame.notifyOf]⟩
        omega
      have hres := ((hs.single w W hW).result_of_complete hc).2
      have hrow : readResult (withList W.result (s.listResult w)) = readResult W.result := by
        rw [readResult_withList, readResult_eq]
        cases hl : resultList? W.result with
        | none => simp only [resultRow, hl, Option.isSome_none, Bool.false_eq_true, if_false]
        | some l => rw [hkept w W W.result l hnot hW hres hl, Option.getD_some]
      simp only [row?, ho, Option.bind_some, hW, Option.map_some, hrow, Component.delivers, hstack,
        hWo]
    · rfl
  | _ => rfl

/-- A run up to the delegate. -/
def intoDelegate : List Component.Act :=
  Component.setUp 1 ++ [.methodStart 1] ++ Component.prologue 0 0

/-- From its return to the row. -/
def toRow : List Component.Act := Component.epilogue 0 0 sampleMap ++ [.timer, .main, .main]

/-- The delegate has filled a part of its list before it returns. -/
def filledOnce : List Act :=
  intoDelegate.map .component ++ .fills 0 0 (QList.new.addCol .fftInteger (lit "status")) ::
    toRow.map .component

theorem delivers_as_returned_filled :
    ∃ tr s, Transition.replay (step CppNetlibDelegate.plainSdk) loaded [] filledOnce =
        some (tr, s) ∧
      s.component.delivers .main = some (1, .completed (readResult sampleMap)) ∧
      s.delivers (.component .main) = s.component.delivers .main := by
  have h : Transition.replay (step CppNetlibDelegate.plainSdk) loaded [] filledOnce =
    some (_, _) := rfl
  exact ⟨_, _, h, rfl, delivers_as_returned CppNetlibDelegate.plainSdk _ _
    (Transition.replay_run .start h) (by decide) (by decide) .main⟩

end Live

end HttpBackground
