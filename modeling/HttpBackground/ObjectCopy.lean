import HttpBackground.Ownership

/-!
# Copying an object

Omnis asks for a copy by the handles of two objects, of which the second may not
exist yet. Both ways end in `NVObjBase::copy`, which the worker object does not
override: what it assigns is the base class's part of the object, and the one
field of that is put back afterwards.
-/
namespace HttpBackground

/-- The part of an object that is `NVObjBase`. -/
structure NVObjBase where
  objInst : ℕ

/-- `NVObjBase::copy` -/
def NVObjBase.copy (this pObj : NVObjBase) : NVObjBase :=
  let inst := this.objInst
  { pObj with objInst := inst }

/-- The objects with their base parts, by address, and the chain Omnis finds them in
by their handles. -/
structure Registry where
  component : Component
  base : ℕ → NVObjBase
  chain : ℕ → Option ℕ
  live : ∀ h o, chain h = some o → (component.objects o).isSome

namespace Registry

variable (r : Registry)

/-- `createObject`, at the address the allocation returns. -/
def createObject (objinst o : ℕ) : Registry where
  component := r.component.construct o
  base := Function.update r.base o ⟨objinst⟩
  chain := r.chain
  live h o' ho' := by
    show (Function.update r.component.objects o (some ⟨none⟩) o').isSome
    by_cases hoo : o' = o
    · rw [hoo, Function.update_self]
      rfl
    · rw [Function.update_of_ne hoo]
      exact r.live h o' ho'

/-- `dest->copy( src )` -/
def copy (dest src : ℕ) : Registry :=
  { r with base := Function.update r.base dest ((r.base dest).copy (r.base src)) }

/-- `src->dup(propID, objinst, ..)` -/
def dup (src objinst o : ℕ) : Registry := (r.createObject objinst o).copy o src

/-- `ECOinsertNVObject` -/
def insertNVObject (h o : ℕ) (hlive : (r.component.objects o).isSome) : Registry :=
  { r with
    chain := Function.update r.chain h (some o)
    live := by
      intro h' o' ho'
      by_cases hh : h' = h
      · rw [hh, Function.update_self, Option.some.injEq] at ho'
        exact ho' ▸ hlive
      · rw [Function.update_of_ne hh] at ho'
        exact r.live h' o' ho' }

theorem dup_live (src objinst o : ℕ) : ((r.dup src objinst o).component.objects o).isSome := by
  show (Function.update r.component.objects o (some ⟨none⟩) o).isSome
  rw [Function.update_self]
  rfl

/-- `copyNVObj`, for `ECM_OBJECT_COPY`; a new object is allocated at `o`. The case
has no `return` and goes on to list the static methods, which reads no object. -/
def copyNVObj (source destination o : ℕ) : Registry :=
  match r.chain source with
  | none => r
  | some src =>
    match r.chain destination with
    | none =>
      (r.dup src destination o).insertNVObject destination o (r.dup_live src destination o)
    | some dest => r.copy dest src

/-- The object at `dest`, found under the handle `destination`, has become a copy of
the one at `src`, and nothing else has changed. -/
structure CopyOf (r r' : Registry) (src dest destination : ℕ) : Prop where
  handle : (r'.base dest).objInst =
    ((r.chain destination).map fun o => (r.base o).objInst).getD destination
  worker : r'.component.workerOf dest = r.component.workerOf src
  run : ∀ result, (r'.component.methodRun dest result).isOk =
    (r'.component.methodRun src result).isOk
  start : (r'.component.methodStart dest).isOk = (r'.component.methodStart src).isOk
  cancel : (r'.component.methodCancel dest).isOk = (r'.component.methodCancel src).isOk
  source : r'.component.objects src = r.component.objects src ∧ r'.base src = r.base src
  others : ∀ o, o ≠ dest →
    r'.component.objects o = r.component.objects o ∧ r'.base o = r.base o
  chain : ∀ h, h ≠ destination → r'.chain h = r.chain h
  shared : r'.component = { r.component with objects := r'.component.objects }

/-- The copy under the handle `destination` of the object under `source`. -/
def Copied (r r' : Registry) (source destination : ℕ) : Prop :=
  ∃ src dest, r.chain source = some src ∧ r'.chain destination = some dest ∧
    CopyOf r r' src dest destination

end Registry

namespace Component

variable {s : Component} {o o' : ℕ}

/-- Whether a method finds a worker is all that its success depends on. -/
theorem methodRun_isOk (s : Component) (o : ℕ) (result : ParamMap) :
    (s.methodRun o result).isOk = (s.workerOf o).isSome := by
  unfold methodRun
  cases s.workerOf o <;> rfl

theorem methodStart_isOk (s : Component) (o : ℕ) :
    (s.methodStart o).isOk = (s.workerOf o).isSome := by
  unfold methodStart
  cases s.workerOf o <;> rfl

theorem methodCancel_isOk (s : Component) (o : ℕ) :
    (s.methodCancel o).isOk = (s.workerOf o).isSome := by
  unfold methodCancel
  cases s.workerOf o <;> rfl

/-- `$run`, `$start` and `$cancel` succeed on the one object exactly if they do on the
other. -/
def MethodsAgree (s : Component) (o o' : ℕ) : Prop :=
  (∀ result, (s.methodRun o result).isOk = (s.methodRun o' result).isOk) ∧
    (s.methodStart o).isOk = (s.methodStart o').isOk ∧
    (s.methodCancel o).isOk = (s.methodCancel o').isOk

theorem methodsAgree_iff :
    s.MethodsAgree o o' ↔ (s.workerOf o).isSome = (s.workerOf o').isSome := by
  constructor
  · rintro ⟨-, hstart, -⟩
    rwa [methodStart_isOk, methodStart_isOk] at hstart
  · intro h
    refine ⟨fun result => ?_, ?_, ?_⟩
    · rw [methodRun_isOk, methodRun_isOk, h]
    · rw [methodStart_isOk, methodStart_isOk, h]
    · rw [methodCancel_isOk, methodCancel_isOk, h]

/-- Two objects with the same worker take the methods alike. -/
theorem methodsAgree_of_worker (h : s.workerOf o = s.workerOf o') : s.MethodsAgree o o' :=
  methodsAgree_iff.mpr (congrArg Option.isSome h)

end Component

namespace Registry

/-- An object that is there keeps its worker, whatever is assigned to it. -/
theorem copyOf_copy_iff (r : Registry) {src dest destination : ℕ}
    (hdest : r.chain destination = some dest) :
    CopyOf r (r.copy dest src) src dest destination ↔
      r.component.workerOf dest = r.component.workerOf src := by
  constructor
  · intro h
    exact h.worker
  · intro hworker
    have hbase : ∀ o, (r.copy dest src).base o = r.base o := by
      intro o
      show Function.update r.base dest ((r.base dest).copy (r.base src)) o = r.base o
      by_cases ho : o = dest
      · rw [ho, Function.update_self]
        rfl
      · rw [Function.update_of_ne ho]
    obtain ⟨hrun, hstart, hcancel⟩ := Component.methodsAgree_of_worker hworker
    constructor
    · rw [hbase, hdest]
      rfl
    · exact hworker
    · exact hrun
    · exact hstart
    · exact hcancel
    · exact ⟨rfl, hbase src⟩
    · exact fun o _ => ⟨rfl, hbase o⟩
    · exact fun h _ => rfl
    · rfl

/-- A new object comes without a worker. -/
theorem copyOf_dup_iff (r : Registry) {src destination o : ℕ}
    (hlive : (r.component.objects src).isSome) (hdest : r.chain destination = none)
    (hnew : r.component.objects o = none) :
    CopyOf r ((r.dup src destination o).insertNVObject destination o
        (r.dup_live src destination o)) src o destination ↔ r.component.workerOf src = none := by
  have hne : src ≠ o := by
    rintro rfl
    rw [hnew] at hlive
    cases hlive
  have hown : (r.component.construct o).workerOf o = none := by
    rw [Component.construct, Component.setObject_workerOf, if_pos rfl]
    rfl
  have hsrc : (r.component.construct o).workerOf src = r.component.workerOf src := by
    rw [Component.construct, Component.setObject_workerOf, if_neg hne]
  constructor
  · intro h
    exact h.worker.symm.trans hown
  · intro hworker
    have hobjects : ∀ o', o' ≠ o →
        (r.component.construct o).objects o' = r.component.objects o' :=
      fun o' ho' => Function.update_of_ne ho' _ _
    have hbase : ∀ o', o' ≠ o → ((r.dup src destination o).insertNVObject destination o
        (r.dup_live src destination o)).base o' = r.base o' := by
      intro o' ho'
      show Function.update (Function.update r.base o ⟨destination⟩) o _ o' = r.base o'
      rw [Function.update_of_ne ho', Function.update_of_ne ho']
    obtain ⟨hrun, hstart, hcancel⟩ :=
      Component.methodsAgree_of_worker (hown.trans (hsrc.trans hworker).symm)
    constructor
    · show (Function.update (Function.update r.base o ⟨destination⟩) o _ o).objInst = _
      rw [Function.update_self, hdest]
      show (Function.update r.base o ⟨destination⟩ o).objInst = destination
      rw [Function.update_self]
    · exact hown.trans hworker.symm
    · exact hrun
    · exact hstart
    · exact hcancel
    · exact ⟨hobjects src hne, hbase src hne⟩
    · exact fun o' ho' => ⟨hobjects o' ho', hbase o' ho'⟩
    · exact fun h hh => Function.update_of_ne hh _ _
    · rfl

/-- The workers of the two objects after `ECM_OBJECT_COPY`. -/
theorem copyNVObj_workers (r : Registry) (destination : ℕ) {source o src : ℕ}
    (hsource : r.chain source = some src) (hnew : r.component.objects o = none) :
    ∃ dest, (r.copyNVObj source destination o).chain destination = some dest ∧
      (r.copyNVObj source destination o).component.workerOf dest =
        (r.chain destination).bind r.component.workerOf ∧
      (r.copyNVObj source destination o).component.workerOf src = r.component.workerOf src := by
  have hlive := r.live source src hsource
  unfold copyNVObj
  rw [hsource]
  cases hdest : r.chain destination with
  | none =>
    have hne : src ≠ o := by
      rintro rfl
      rw [hnew] at hlive
      cases hlive
    refine ⟨o, Function.update_self _ _ _, ?_, ?_⟩
    · show (r.component.construct o).workerOf o = none
      rw [Component.construct, Component.setObject_workerOf, if_pos rfl]
      rfl
    · show (r.component.construct o).workerOf src = r.component.workerOf src
      rw [Component.construct, Component.setObject_workerOf, if_neg hne]
  | some dest => exact ⟨dest, hdest, rfl, rfl⟩

/-- After `ECM_OBJECT_COPY` the destination is a copy of the source, worker and all,
exactly if it had the source's worker before, a new object having none. The methods
succeed on both alike exactly if both had a worker or neither. -/
theorem copyNVObj_iff (r : Registry) (source destination o src : ℕ)
    (hsource : r.chain source = some src) (hnew : r.component.objects o = none) :
    (Copied r (r.copyNVObj source destination o) source destination ↔
        (r.chain destination).bind r.component.workerOf = r.component.workerOf src) ∧
      ((∃ dest, (r.copyNVObj source destination o).chain destination = some dest ∧
          (r.copyNVObj source destination o).component.MethodsAgree dest src) ↔
        ((r.chain destination).bind r.component.workerOf).isSome =
          (r.component.workerOf src).isSome) := by
  constructor
  · have hlive := r.live source src hsource
    have hcopied : ∀ r' dest, r'.chain destination = some dest →
        (Copied r r' source destination ↔ CopyOf r r' src dest destination) := by
      intro r' dest hdest
      constructor
      · rintro ⟨src', dest', hsrc', hdest', h⟩
        rw [hsource, Option.some.injEq] at hsrc'
        rw [hdest, Option.some.injEq] at hdest'
        rwa [hsrc', hdest']
      · exact fun h => ⟨src, dest, hsource, hdest, h⟩
    unfold copyNVObj
    rw [hsource]
    cases hdest : r.chain destination with
    | none =>
      show Copied r ((r.dup src destination o).insertNVObject destination o _) _ _ ↔ _
      rw [hcopied _ o (Function.update_self _ _ _), copyOf_dup_iff r hlive hdest hnew]
      exact eq_comm
    | some dest =>
      show Copied r (r.copy dest src) _ _ ↔ _
      rw [hcopied (r.copy dest src) dest hdest, copyOf_copy_iff r hdest]
      rfl
  · obtain ⟨dest, hdest, hworker, hsrc⟩ := r.copyNVObj_workers destination hsource hnew
    rw [← hworker, ← hsrc]
    constructor
    · rintro ⟨dest', hdest', hagree⟩
      rw [hdest, Option.some.injEq] at hdest'
      exact Component.methodsAgree_iff.mp (hdest' ▸ hagree)
    · exact fun h => ⟨dest, hdest, Component.methodsAgree_iff.mpr h⟩

/-- One object, under handle 7. -/
def single (component : Component) (h : (component.objects 1).isSome) : Registry where
  component := component
  base _ := ⟨7⟩
  chain handle := if handle = 7 then some 1 else none
  live handle o ho := by
    by_cases hh : handle = 7
    · rw [if_pos hh, Option.some.injEq] at ho
      exact ho ▸ h
    · rw [if_neg hh] at ho
      cases ho

/-- An object that has not been initialised is copied to a new one. -/
theorem copyNVObj_iff_uninitialised :
    Copied (single (Component.loaded.construct 1) rfl)
      ((single (Component.loaded.construct 1) rfl).copyNVObj 7 8 2) 7 8 :=
  (copyNVObj_iff _ 7 8 2 1 rfl rfl).1.mpr rfl

/-- The copy of an object that has been initialised has no worker. -/
theorem copy_without_worker :
    ¬ ∀ (r : Registry) (source destination o src : ℕ), r.chain source = some src →
      r.component.objects o = none →
        Copied r (r.copyNVObj source destination o) source destination := by
  intro hall
  obtain ⟨src, dest, hsrc, hdest, h⟩ := hall
    (single ((Component.loaded.construct 1).makeWorker 1 []) rfl) 7 8 2 1 rfl rfl
  cases hsrc
  cases hdest
  have hworker := h.worker
  revert hworker
  decide

end Registry

end HttpBackground
