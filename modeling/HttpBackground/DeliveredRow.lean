import HttpBackground.Generations
import HttpBackground.ResultList

/-!
# The row of `$completed`

Under `Result` a delegate returns a pointer to the one list it has, and the row
shows that list as it is when `notify` builds the row. By then the next run of the
delegate may be filling it, and an earlier row may have taken it away. So the lists
are kept beside the component here, and every change of one is a step.
-/
namespace HttpBackground

/-- The list under `Result`, as it was when the map was made. -/
def resultList? (params : ParamMap) : Option QList := (params.find? (lit "Result")).bind Any.qlist?

/-- The map with the list as it is by now. -/
def withList (params : ParamMap) (l : QList) : ParamMap :=
  match resultList? params with
  | none => params
  | some _ => params.assign (lit "Result") (.qlist l)

/-- A cell for the text under a name. -/
def textCell (params : ParamMap) (name : StdString) : FldVal :=
  match (params.find? name).bind Any.string? with
  | none => .empty
  | some s => .character s

/-- A row with the method and the URL of a result map, and with the list `l` if the
map points to one. -/
def resultRow (params : ParamMap) (l : QList) : FldVal :=
  .list [⟨lit "Method", .fftRow⟩, ⟨lit "URL", .fftRow⟩, ⟨lit "Result", .fftRow⟩]
    [[textCell params (lit "Method"), textCell params (lit "URL"),
      if (resultList? params).isSome then .list l.cols l.rows else .empty]]

theorem readResult_eq (params : ParamMap) :
    readResult params = resultRow params ((resultList? params).getD QList.new) := by
  unfold readResult resultRow textCell resultList?
  cases (params.find? (lit "Method")).bind Any.string? <;>
    cases (params.find? (lit "URL")).bind Any.string? <;>
      cases (params.find? (lit "Result")).bind Any.qlist? <;> rfl

theorem readResult_withList (params : ParamMap) (l : QList) :
    readResult (withList params l) = resultRow params l := by
  rw [readResult_eq]
  cases h : resultList? params with
  | none => simp only [withList, resultRow, h, Option.isSome_none, Bool.false_eq_true, if_false]
  | some l' =>
    have hmethod : StdString.iequals (lit "Method") (lit "Result") = false := by decide
    have hurl : StdString.iequals (lit "URL") (lit "Result") = false := by decide
    have hresult : StdString.iequals (lit "Result") (lit "Result") = true := by decide
    have hlist : resultList? (params.assign (lit "Result") (.qlist l)) = some l := by
      simp [resultList?, ParamMap.find?_assign, hresult, Any.qlist?]
    simp [withList, resultRow, textCell, h, hlist, ParamMap.find?_assign, hmethod, hurl]

/-- Only a worker that has been made takes a step. -/
theorem Component.Owned.exists_of_acts {s s' : Component} {a : Component.Act} {w : ℕ}
    {b : Worker.Act} (hs : s.Owned) (h : s.step a = some s') (hacts : s.acts a w = some b) :
    ∃ W, s.workers[w]? = some W := by
  obtain ⟨o, ho, -⟩ | ⟨i, c, rfl, -⟩ := acts_cases hacts
  · exact (hs.owned o w ho).imp fun W hW => hW.1
  · cases (step_cases h).2 with
    | failed _ _ _ _ _ hr => exact hr.elim
    | thread _ _ _ W W' hW => exact ⟨W, hW⟩

/-- The component and, by the number of its worker, the list of each delegate. A list
is empty from its allocation in `init` to the first run of the delegate. -/
structure Live where
  component : Component
  listResult : ℕ → QList

namespace Live

open Component (DelegateReturns HasReturned lastInitialize)

def loaded : Live := ⟨Component.loaded, fun _ => QList.new⟩

/-- A step of the component, or a change that the delegate of worker `w` makes to its
list while thread `i` is inside. -/
inductive Act
  | component (a : Component.Act)
  | fills (w i : ℕ) (l : QList)

/-- The lists when the delegate of worker `w` returns `r`, which points to its list. -/
def filled (s : Live) (w : ℕ) (r : ParamMap) : ℕ → QList :=
  Function.update s.listResult w ((resultList? r).getD (s.listResult w))

/-- The lists after `setList(ptr.get(), qtrue)` for the row of an object. -/
def handedOver (sdk : OmnisSdk) (s : Live) (o : ℕ) : ℕ → QList :=
  match s.component.workerOf o with
  | none => s.listResult
  | some w =>
    if ((s.component.workers[w]?).bind fun W => resultList? W.result).isSome then
      Function.update s.listResult w (sdk.handedOver (s.listResult w))
    else s.listResult

/-- The lists after a step of the component. -/
def listsAfter (sdk : OmnisSdk) (s : Live) : Component.Act → ℕ → QList
  | .thread w _ (.returns r) => s.filled w r
  | .methodRun o r =>
    match s.component.workerOf o with
    | none => s.listResult
    | some w => s.filled w r
  | .main =>
    match s.component.stack with
    | .notifyResult o :: _ => s.handedOver sdk o
    | _ => s.listResult
  | _ => s.listResult

def step (sdk : OmnisSdk) (s : Live) : Act → Option Live
  | .component a => (s.component.step a).map fun component => ⟨component, s.listsAfter sdk a⟩
  | .fills w i l =>
    if s.component.fault = false ∧
        ((s.component.workers[w]?).bind fun W => W.pcAt i) = some .inRun then
      some { s with listResult := Function.update s.listResult w l }
    else none

/-- The row `notify` builds for an object. -/
def row? (s : Live) (o : ℕ) : Option FldVal :=
  (s.component.workerOf o).bind fun w =>
    (s.component.workers[w]?).map fun W => readResult (withList W.result (s.listResult w))

/-- The callback a step makes to report the outcome of a request, with this row for the
one the component has put together. -/
def delivers (s : Live) : Act → Option (ℕ × Callback)
  | .component .main =>
    match s.component.stack with
    | .notifyResult o :: _ => (s.row? o).map fun row => (o, .completed row)
    | _ => s.component.delivers .main
  | .component a => s.component.delivers a
  | .fills _ _ _ => none

/-- The steps of the component in a run. -/
def components : List (Live × Act) → List (Component × Component.Act)
  | [] => []
  | (s, .component a) :: tr => (s.component, a) :: components tr
  | (_, .fills _ _ _) :: tr => components tr

/-- A condition on the steps of the component. -/
def OnComponent (ok : Component → Component.Act → Prop) (s : Live) : Act → Prop
  | .component a => ok s.component a
  | .fills _ _ _ => True

instance (ok : Component → Component.Act → Prop) [∀ s a, Decidable (ok s a)] (s : Live) :
    (a : Act) → Decidable (OnComponent ok s a)
  | .component a => inferInstanceAs (Decidable (ok s.component a))
  | .fills _ _ _ => isTrue trivial

/-- The worker whose thread takes the step. -/
def Act.thread? : Act → Option ℕ
  | .component (.thread w _ _) | .fills w _ _ => some w
  | .component _ => none

variable {sdk : OmnisSdk} {s s' : Live} {tr : List (Live × Act)}

theorem step_component {a : Component.Act} (h : step sdk s (.component a) = some s') :
    s.component.step a = some s'.component ∧ s'.listResult = s.listsAfter sdk a := by
  obtain ⟨component, hstep, rfl⟩ := Option.map_eq_some_iff.mp h
  exact ⟨hstep, rfl⟩

theorem step_fills {w i : ℕ} {l : QList} (h : step sdk s (.fills w i l) = some s') :
    (∃ W, s.component.workers[w]? = some W ∧ W.pcAt i = some .inRun) ∧
      s'.component = s.component ∧ s'.listResult = Function.update s.listResult w l := by
  by_cases hrun : s.component.fault = false ∧
      ((s.component.workers[w]?).bind fun W => W.pcAt i) = some .inRun
  · rw [step, if_pos hrun, Option.some.injEq] at h
    subst h
    exact ⟨Option.bind_eq_some_iff.mp hrun.2, rfl, rfl⟩
  · rw [step, if_neg hrun] at h
    cases h

/-- What goes on with the lists is not seen by the component. -/
theorem run_components (run : Transition.Run (step sdk) loaded tr s) :
    Transition.Run Component.step Component.loaded (components tr) s.component := by
  induction run with
  | start => exact .start
  | @next tr s a s' run h ih =>
    cases a with
    | component a => exact ih.next (step_component h).1
    | fills w i l =>
      rw [(step_fills h).2.1]
      exact ih

theorem always_components {ok : Component → Component.Act → Prop}
    (hok : Transition.Always (OnComponent ok) tr) : Transition.Always ok (components tr) := by
  induction tr with
  | nil => exact fun p hp => by cases hp
  | cons p tr ih =>
    obtain ⟨s, a⟩ := p
    cases a with
    | fills w i l => exact ih hok.tail
    | component a =>
      intro q hq
      obtain rfl | hq := List.mem_cons.mp hq
      · exact hok.head
      · exact ih hok.tail q hq

/-- In this step the delegate of worker `w`, which was run on `params`, leaves `l` in its
list. -/
def Fills (w : ℕ) (params : ParamMap) (l : QList) (s : Live) : Act → Prop
  | .component a => ∃ r, DelegateReturns w params r s.component a ∧ resultList? r = some l
  | .fills w' i l' =>
    w' = w ∧ l' = l ∧ ∃ W, s.component.workers[w]? = some W ∧ W.paramsAt i = some params

/-- What can be in the list of the delegate of worker `w`: nothing, what the delegate
has left there when it was run on `params`, and what a row has left of that. -/
inductive Held (sdk : OmnisSdk) (tr : List (Live × Act)) (w : ℕ) (params : ParamMap) :
    QList → Prop
  | new : Held sdk tr w params QList.new
  | filled {l} : (∃ p ∈ tr, Fills w params l p.1 p.2) → Held sdk tr w params l
  | handedOver {l} : Held sdk tr w params l → Held sdk tr w params (sdk.handedOver l)

theorem Held.cons {p : Live × Act} {w : ℕ} {params : ParamMap} {l : QList}
    (h : Held sdk tr w params l) : Held sdk (p :: tr) w params l := by
  induction h with
  | new => exact .new
  | filled h =>
    obtain ⟨q, hq, hfills⟩ := h
    exact .filled ⟨q, List.mem_cons_of_mem p hq, hfills⟩
  | handedOver _ ih => exact .handedOver ih

theorem filled_cases (s : Live) (w' : ℕ) (r : ParamMap) (w : ℕ) :
    s.filled w' r w = s.listResult w ∨ w' = w ∧ resultList? r = some (s.filled w' r w) := by
  by_cases hw : w' = w
  · subst hw
    rw [filled, Function.update_self]
    cases hr : resultList? r with
    | none => exact .inl rfl
    | some l => exact .inr ⟨rfl, rfl⟩
  · rw [filled, Function.update_of_ne (Ne.symm hw)]
    exact .inl rfl

/-- In this step a row takes the list of worker `w`'s delegate. -/
def Takes (w : ℕ) (s : Live) (a : Act) : Prop :=
  ∃ o row, s.delivers a = some (o, .completed row) ∧ s.component.workerOf o = some w

theorem handedOver_cases (sdk : OmnisSdk) (s : Live) {o : ℕ} {rest : List Frame}
    (hs : s.component.stack = .notifyResult o :: rest) (w : ℕ) :
    s.handedOver sdk o w = s.listResult w ∨ Takes w s (.component .main) ∧
      s.handedOver sdk o w = sdk.handedOver (s.listResult w) := by
  cases ho : s.component.workerOf o with
  | none =>
    left
    simp only [handedOver, ho]
  | some w' =>
    simp only [handedOver, ho]
    split_ifs with hl
    · by_cases hw : w' = w
      · subst hw
        refine .inr ⟨?_, Function.update_self _ _ _⟩
        obtain ⟨l, hl⟩ := Option.isSome_iff_exists.mp hl
        obtain ⟨W, hW, -⟩ := Option.bind_eq_some_iff.mp hl
        refine ⟨o, readResult (withList W.result (s.listResult w')), ?_, ho⟩
        simp only [delivers, hs, row?, ho, Option.bind_some, hW, Option.map_some]
      · exact .inl (Function.update_of_ne (Ne.symm hw) _ _)
    · exact .inl rfl

/-- A list changes when its delegate returns or a row takes it, and otherwise stays. -/
theorem listsAfter_cases (sdk : OmnisSdk) (s : Live) (a : Component.Act) (w : ℕ) :
    s.listsAfter sdk a w = s.listResult w ∨
      (∃ b r, s.component.acts a w = some b ∧ b.returned? = some r ∧
        resultList? r = some (s.listsAfter sdk a w)) ∨
      Takes w s (.component a) ∧
        s.listsAfter sdk a w = sdk.handedOver (s.listResult w) := by
  cases a with
  | thread w' i b =>
    cases b with
    | next | interrupted => exact .inl rfl
    | returns r =>
      obtain hsame | ⟨rfl, hl⟩ := s.filled_cases w' r w
      · exact .inl hsame
      · exact .inr (.inl ⟨.thread i (.returns r), r, if_pos rfl, rfl, hl⟩)
  | methodRun o r =>
    cases ho : s.component.workerOf o with
    | none =>
      left
      simp only [listsAfter, ho]
    | some w' =>
      have hlists : s.listsAfter sdk (.methodRun o r) = s.filled w' r := by
        simp only [listsAfter, ho]
      rw [hlists]
      obtain hsame | ⟨rfl, hl⟩ := s.filled_cases w' r w
      · exact .inl hsame
      · exact .inr (.inl ⟨.run r, r, if_pos ho, rfl, hl⟩)
  | main =>
    cases hs : s.component.stack with
    | nil =>
      left
      simp only [listsAfter, hs]
    | cons f rest =>
      cases f with
      | notifyResult o =>
        have hlists : s.listsAfter sdk .main = s.handedOver sdk o := by simp only [listsAfter, hs]
        rw [hlists]
        exact (handedOver_cases sdk s hs w).imp_right .inr
      | _ =>
        left
        simp only [listsAfter, hs]
  | construct | destroy | methodInitialize | methodStart | methodCancel | timer
  | handlerReturn => exact .inl rfl

/-- Only a worker that has been made has a delegate to change its list. -/
theorem exists_of_listsAfter {a : Component.Act} {w : ℕ} (hs : s.component.Owned)
    (h : step sdk s (.component a) = some s') (hne : s'.listResult w ≠ s.listResult w) :
    ∃ W, s.component.workers[w]? = some W := by
  obtain ⟨hstep, hlists⟩ := step_component h
  rw [hlists] at hne
  obtain hsame | ⟨b, r, hacts, -⟩ | ⟨⟨o, row, -, ho⟩, -⟩ := listsAfter_cases sdk s a w
  · exact absurd hsame hne
  · exact hs.exists_of_acts hstep hacts
  · exact (hs.owned o w ho).imp fun W hW => hW.1

/-- Where what is in a list comes from. -/
theorem held_step (run : Transition.Run (step sdk) loaded tr s) {a : Act}
    (h : step sdk s a = some s')
    (hheld : ∀ (w : ℕ) (W : Worker), s.component.workers[w]? = some W →
      Held sdk tr w W.params (s.listResult w))
    (hnew : ∀ w, s.component.workers.length ≤ w → s.listResult w = QList.new) :
    (∀ (w : ℕ) (W' : Worker), s'.component.workers[w]? = some W' →
        Held sdk ((s, a) :: tr) w W'.params (s'.listResult w)) ∧
      ∀ w, s'.component.workers.length ≤ w → s'.listResult w = QList.new := by
  have hrun := run_components run
  cases a with
  | fills w₁ i l =>
    obtain ⟨⟨W₁, hW₁, hpc⟩, hcomponent, hlists⟩ := step_fills h
    rw [hcomponent, hlists]
    refine ⟨fun w W hW => ?_, fun w hw => ?_⟩
    · by_cases hww : w = w₁
      · subst hww
        rw [hW₁, Option.some.injEq] at hW
        subst hW
        rw [Function.update_self]
        exact .filled ⟨_, List.mem_cons_self, rfl, rfl, W₁, hW₁,
          (Component.sourced_run hrun w W₁ hW₁).copied i .inRun hpc rfl⟩
      · rw [Function.update_of_ne hww]
        exact (hheld w W hW).cons
    · have hlt := (List.getElem?_eq_some_iff.mp hW₁).1
      rw [Function.update_of_ne (by omega)]
      exact hnew w hw
  | component a =>
    obtain ⟨hstep, hlists⟩ := step_component h
    have howned := Component.owned_run hrun
    have hle := Component.length_le_step hstep
    refine ⟨fun w W' hW' => ?_, fun w hw => ?_⟩
    · obtain ⟨W, hW, hcase⟩ | ⟨hw, o, rowVal, params, -, -, rfl⟩ :=
        Component.worker_step howned hstep hW'
      · have hparams : W'.params = W.params := by
          obtain ⟨-, rfl⟩ | ⟨b, -, hb⟩ := hcase
          · rfl
          · exact Worker.params_of_step hb
        rw [hparams, hlists]
        obtain hsame | ⟨b, r, hacts, hr, hl⟩ | ⟨-, hl⟩ := listsAfter_cases sdk s a w
        · rw [hsame]
          exact (hheld w W hW).cons
        · refine .filled ⟨_, List.mem_cons_self, r, ?_, hl⟩
          exact Component.delegateReturns_of_acts hstep hW (Component.sourced_run hrun w W hW)
            hacts hr
        · rw [hl]
          exact .handedOver (hheld w W hW).cons
      · by_cases hsame : s'.listResult w = s.listResult w
        · rw [hsame, hnew w hw.ge]
          exact .new
        · obtain ⟨W, hW⟩ := exists_of_listsAfter howned h hsame
          have := (List.getElem?_eq_some_iff.mp hW).1
          omega
    · by_cases hsame : s'.listResult w = s.listResult w
      · rw [hsame, hnew w (by omega)]
      · obtain ⟨W, hW⟩ := exists_of_listsAfter howned h hsame
        have := (List.getElem?_eq_some_iff.mp hW).1
        omega

theorem held_run (run : Transition.Run (step sdk) loaded tr s) {w : ℕ} {W : Worker}
    (hW : s.component.workers[w]? = some W) : Held sdk tr w W.params (s.listResult w) := by
  have hboth := run.holds
    (fun tr s => (∀ (w : ℕ) (W : Worker), s.component.workers[w]? = some W →
        Held sdk tr w W.params (s.listResult w)) ∧
      ∀ w, s.component.workers.length ≤ w → s.listResult w = QList.new)
    ⟨fun w W hW => (by cases hW), fun _ _ => rfl⟩
    fun tr s a s' run ih h => held_step run h ih.1 ih.2
  exact hboth.1 w W hW

/-- A row is built from the result of a worker that is complete, and from its list. -/
theorem delivers_completed {a : Act} {o : ℕ} {row : FldVal} (hr : s.component.ReadsComplete)
    (h : s.delivers a = some (o, .completed row)) :
    ∃ w W, s.component.workerOf o = some w ∧ s.component.workers[w]? = some W ∧
      W.complete = true ∧ row = resultRow W.result (s.listResult w) := by
  cases a with
  | fills w i l => cases h
  | component a =>
    cases a with
    | main =>
      simp only [delivers] at h
      split at h
      · next o' rest hs =>
        obtain ⟨row', hrow, he⟩ := Option.map_eq_some_iff.mp h
        cases he
        obtain ⟨w, ho, hmap⟩ := Option.bind_eq_some_iff.mp hrow
        obtain ⟨W, hW, rfl⟩ := Option.map_eq_some_iff.mp hmap
        obtain ⟨W', hW', hc⟩ := hr _ rest hs
        rw [Component.worker?_eq_some.mpr ⟨w, ho, hW⟩, Option.some.injEq] at hW'
        exact ⟨w, W, ho, hW, hW' ▸ hc, readResult_withList W.result (s.listResult w)⟩
      · next hs =>
        simp only [Component.delivers] at h
        split at h
        · next o' rest hs' => exact absurd hs' (hs o' rest)
        · obtain ⟨W, -, hcb⟩ := Option.bind_eq_some_iff.mp h
          split at hcb <;> cases hcb
        · cases h
    | _ => cases h

/-- A step of a thread leaves the objects with another worker, or none, as they are. -/
theorem thread_step_other {a : Act} {w o : ℕ} (ha : a.thread? = some w)
    (h : step sdk s a = some s') (ho : s.component.workerOf o ≠ some w) :
    s'.component.workerOf o = s.component.workerOf o ∧
      s'.component.worker? o = s.component.worker? o ∧
      ∀ v, s.component.workerOf o = some v → s'.listResult v = s.listResult v := by
  have hne : ∀ v, s.component.workerOf o = some v → v ≠ w := by
    rintro v hv rfl
    exact ho hv
  cases a with
  | fills w' i l =>
    cases ha
    obtain ⟨-, hcomponent, hlists⟩ := step_fills h
    rw [hcomponent, hlists]
    exact ⟨rfl, rfl, fun v hv => Function.update_of_ne (hne v hv) _ _⟩
  | component a =>
    obtain ⟨hstep, hlists⟩ := step_component h
    cases a with
    | thread w' i b =>
      cases ha
      obtain ⟨hworkerOf, hworker⟩ := Component.thread_step_other hstep ho
      refine ⟨hworkerOf, hworker, fun v hv => ?_⟩
      rw [hlists]
      cases b with
      | next | interrupted => rfl
      | returns r => exact Function.update_of_ne (hne v hv) _ _
    | _ => cases ha

/-- Every `$completed` shows a result map of the delegate that the object's last
`$initialize` has made, run on the parameters it was given, and a list that nobody
but this delegate has filled; the threads of replaced workers touch neither the worker
in their place nor its list. -/
theorem generations_isolated (sdk : OmnisSdk) (tr : List (Live × Act)) (s : Live)
    (run : Transition.Run (step sdk) loaded tr s)
    (hok : Transition.Always (OnComponent Component.SparesNotified) tr) :
    (∀ a o row, s.delivers a = some (o, .completed row) → ∃ w params r,
        lastInitialize o (components tr) = some (w, params) ∧
          HasReturned (components tr) w params r ∧ row = resultRow r (s.listResult w) ∧
          Held sdk tr w params (s.listResult w)) ∧
      ∀ a w s' o, a.thread? = some w → step sdk s a = some s' → s.component.workerOf o ≠ some w →
        s'.component.workerOf o = s.component.workerOf o ∧
          s'.component.worker? o = s.component.worker? o ∧
          ∀ v, s.component.workerOf o = some v → s'.listResult v = s.listResult v := by
  refine ⟨fun a o row hd => ?_, fun a w s' o ha h ho => thread_step_other ha h ho⟩
  have hrun := run_components run
  obtain ⟨w, W, ho, hW, hcomplete, rfl⟩ :=
    delivers_completed (Component.readsComplete_run hrun (always_components hok)) hd
  obtain ⟨W', hW', hlast⟩ := Component.initialized_run hrun o w ho
  rw [hW, Option.some.injEq] at hW'
  subst hW'
  exact ⟨w, W.params, W.result, hlast, (Component.sourced_run hrun w W hW).complete hcomplete,
    rfl, held_run run hW⟩

/-- The list of a first run, and what the second run makes of it at once. -/
def sampleList : QList := CppNetlibDelegate.bodyList 200 QList.new (lit "hi") QList.new

def refilledList : QList := sampleList.addCol .fftInteger (lit "status")

/-- What the delegate returns for `urlRow` with that list. -/
def sampleMap : ParamMap :=
  CppNetlibDelegate.resultMap { url := lit "http://host/" } ⟨sampleList, QList.new⟩

/-- The object is initialised again while the thread of its first worker comes back from
the delegate. The thread of the second worker runs to its end, and a second `$start`
brings another into the delegate. -/
def replaced : List Component.Act :=
  Component.setUp 1 ++ [.methodStart 1] ++ Component.prologue 0 0 ++
    (Component.epilogue 0 0 [(lit "URL", .string (lit "old"))]).take 2 ++
    [.methodInitialize 1 (some Component.urlRow), .methodStart 1] ++
    (Component.epilogue 0 0 []).drop 2 ++ Component.prologue 1 0 ++
    Component.epilogue 1 0 sampleMap ++ [.methodStart 1] ++ Component.prologue 1 1

/-- The delegate fills its list again before the tick. -/
def refilled : List Act :=
  replaced.map .component ++
    [.fills 1 1 refilledList, .component .timer, .component .main, .component .main]

/-- The row has the method and the URL of the run that is complete, and the list as the
run under way has left it so far. -/
theorem generations_isolated_refilled :
    ∃ tr s row, Transition.replay (step CppNetlibDelegate.plainSdk) loaded [] refilled =
        some (tr, s) ∧
      row = .list [⟨lit "Method", .fftRow⟩, ⟨lit "URL", .fftRow⟩, ⟨lit "Result", .fftRow⟩]
        [[.character (lit "GET"), .character (lit "http://host/"),
          .list refilledList.cols refilledList.rows]] ∧
      s.delivers (.component .main) = some (1, .completed row) ∧ ∃ w params r,
        lastInitialize 1 (components tr) = some (w, params) ∧
          HasReturned (components tr) w params r ∧ row = resultRow r (s.listResult w) ∧
          Held CppNetlibDelegate.plainSdk tr w params (s.listResult w) := by
  have h : Transition.replay (step CppNetlibDelegate.plainSdk) loaded [] refilled =
    some (_, _) := rfl
  exact ⟨_, _, _, h, rfl, rfl, (generations_isolated CppNetlibDelegate.plainSdk _ _
    (Transition.replay_run .start h) (by decide)).1 (.component .main) 1 _ rfl⟩

end Live

end HttpBackground
