import HttpBackground.ObjectCopy

/-!
# The messages of Omnis

`NVObjWndProc` is the one entry of the library. It finds the object a message is
for in the chain, by its handle, and a call for a handle that is not there is one
of a static method. The library is the registry with the rule that an object is
chained under the handle it was made with, so none is there twice.
-/
namespace HttpBackground

/-- `cNVObjHTTPWorker`, the one entry of `objectsTable` -/
def cNVObjHTTPWorker : ℕ := 1003

/-- The identifier of a method as a `qshort`. -/
def funcId (id : ℤ) : ℤ := (BitVec.ofInt 16 id).toInt

/-- The levels of the log. -/
inductive Severity
  | trace | debug | info | warning | error | fatal
  deriving DecidableEq, Repr

/-- What a message returns once the calls it makes have returned: a value and the
parameters added to it, after a message to the log, or one of the tables. -/
inductive Reply
  | value (ret : ℤ) (params : List FldVal)
  | logged (severity : Severity) (message : FldVal) (ret : ℤ) (params : List FldVal)
  | table (ids : List ℤ)
  | fault
  deriving Repr

/-- `getEXTFldValFromBool` -/
def getEXTFldValFromBool (b : Bool) : FldVal := .boolean (if b then 2 else 1)

/-- A method of `Static.cpp` with its first parameter, if it has one. -/
def methodStaticLog (severity : Severity) : Option FldVal → Reply
  | some messageVal => .logged severity messageVal 0 [getEXTFldValFromBool true]
  | none => .value 0 [getEXTFldValFromBool false]

def staticMethodCall (id : ℤ) (param : Option FldVal) : Reply :=
  match funcId id with
  | 20000 => methodStaticLog .trace param
  | 20001 => methodStaticLog .debug param
  | 20002 => methodStaticLog .info param
  | 20003 => methodStaticLog .warning param
  | 20004 => methodStaticLog .error param
  | 20005 => methodStaticLog .fatal param
  | _ => .value 0 []

/-- The identifiers in `cStaticMethodsTable`. -/
def cStaticMethodsTable : List ℤ := [20000, 20001, 20002, 20003, 20004, 20005]

/-- The identifiers in `cHTTPWorkerMethodsTable`. -/
def cHTTPWorkerMethodsTable : List ℤ := [4000, 4001, 4002, 4003, 4004]

/-- The identifiers in `cHTTPWorkerPropertyTable`. -/
def cHTTPWorkerPropertyTable : List ℤ := [4500]

/-- The messages, with what Omnis passes in `mCompId`, `lParam` and the parameters.
`o` is the address the next allocation returns. -/
inductive Message
  | objConstruct (compId h o : ℕ)
  | objDestruct (compId h : ℕ) (objInfo : Bool)
  | objectCopy (compId source destination o : ℕ)
  | getStaticObject
  | getMethodName (compId o : ℕ)
  | getPropName (compId o : ℕ)
  | methodCall (h : ℕ) (id : ℤ) (param : Option FldVal) (result : ParamMap)
  | propertyCanAssign (h : ℕ) (id : ℤ)
  | getProperty (h : ℕ) (id : ℤ)
  | setProperty (h : ℕ) (id : ℤ) (param : Option FldVal)

/-- Omnis asks for the names of the methods or of the properties. -/
def Message.lists : Message → Bool
  | .getMethodName _ _ | .getPropName _ _ => true
  | _ => false

/-- The registry of a library whose objects call back the handle they are under. -/
structure Library extends Registry where
  handle : ∀ h o, chain h = some o → (base o).objInst = h

namespace Component

variable {s s' : Component}

/-- The step makes an object or deletes one. -/
def Act.allocates : Act → Bool
  | .construct _ | .destroy _ => true
  | _ => false

theorem isSome_makeWorker {o : ℕ} (params : ParamMap) (ho : (s.objects o).isSome) (j : ℕ) :
    ((s.makeWorker o params).objects j).isSome = (s.objects j).isSome := by
  rw [makeWorker_fields]
  show (Function.update s.objects o _ j).isSome = (s.objects j).isSome
  by_cases hj : j = o
  · rw [hj, Function.update_self, ho]
    rfl
  · rw [Function.update_of_ne hj]

/-- Every other step leaves the objects where they are. -/
theorem isSome_step {a : Act} (h : s.step a = some s') (ha : a.allocates = false) (o : ℕ) :
    (s'.objects o).isSome = (s.objects o).isSome := by
  cases (step_cases h).2 with
  | construct | destroy => cases ha
  | methodInitialize o' rowVal params hi ho hrow => exact isSome_makeWorker params ho o
  | methodStart o' w hi ho =>
    have hobj : (s.subscribe o').objects = s.objects := by rw [subscribe_fields]
    exact congrArg (fun f => (f o).isSome) hobj
  | main s' h => rw [mainStep_objects h]
  | handlerReturn s' h => rw [handlerReturn_objects h]
  | failed | methodRun | methodCancel | nested | tick | thread => rfl

theorem isSome_construct (o j : ℕ) :
    ((s.construct o).objects j).isSome = if j = o then true else (s.objects j).isSome := by
  show (Function.update s.objects o (some ⟨none⟩) j).isSome = _
  by_cases hj : j = o
  · rw [hj, Function.update_self, if_pos rfl]
    rfl
  · rw [Function.update_of_ne hj, if_neg hj]

theorem isSome_destruct (o j : ℕ) :
    ((s.destruct o).objects j).isSome = if j = o then false else (s.objects j).isSome := by
  rw [destruct_fields]
  show (Function.update s.objects o none j).isSome = _
  by_cases hj : j = o
  · rw [hj, Function.update_self, if_pos rfl]
    rfl
  · rw [Function.update_of_ne hj, if_neg hj]

end Component

namespace Library

variable {l l' : Library}

/-- The library as it is loaded. -/
def loaded : Library where
  component := Component.loaded
  base _ := ⟨0⟩
  chain _ := none
  live h o ho := by cases ho
  handle h o ho := by cases ho

theorem ne_of_chain (l : Library) {h o j : ℕ} (hj : l.chain h = some j)
    (hnew : l.component.objects o = none) : j ≠ o := by
  rintro rfl
  have hlive := l.live h j hj
  rw [hnew] at hlive
  cases hlive

/-- `createObject` for a new handle, and `ECOinsertNVObject`. -/
def construct (l : Library) (h o : ℕ) (hnew : l.component.objects o = none) : Library where
  toRegistry := (l.createObject h o).insertNVObject h o (by
    show ((l.component.construct o).objects o).isSome
    rw [Component.isSome_construct, if_pos rfl])
  handle h' o' ho' := by
    replace ho' : Function.update l.chain h (some o) h' = some o' := ho'
    show (Function.update l.base o ⟨h⟩ o').objInst = h'
    by_cases hh : h' = h
    · rw [hh, Function.update_self, Option.some.injEq] at ho'
      rw [← ho', Function.update_self, hh]
    · rw [Function.update_of_ne hh] at ho'
      rw [Function.update_of_ne (l.ne_of_chain ho' hnew)]
      exact l.handle h' o' ho'

/-- `ECOremoveNVObject` -/
def removeNVObject (l : Library) (h : ℕ) : Library where
  component := l.component
  base := l.base
  chain := Function.update l.chain h none
  live h' o' ho' := by
    by_cases hh : h' = h
    · rw [hh, Function.update_self] at ho'
      cases ho'
    · rw [Function.update_of_ne hh] at ho'
      exact l.live h' o' ho'
  handle h' o' ho' := by
    by_cases hh : h' = h
    · rw [hh, Function.update_self] at ho'
      cases ho'
    · rw [Function.update_of_ne hh] at ho'
      exact l.handle h' o' ho'

/-- `removeObject` after `ECOremoveNVObject`: no other handle leads to the object. -/
def destruct (l : Library) (h o : ℕ) (ho : l.chain h = some o) : Library where
  component := l.component.destruct o
  base := l.base
  chain := Function.update l.chain h none
  live h' o' ho' := by
    have hlive := (l.removeNVObject h).live h' o' ho'
    have hchain : l.chain h' = some o' := by
      by_cases hh : h' = h
      · rw [hh, Function.update_self] at ho'
        cases ho'
      · rwa [Function.update_of_ne hh] at ho'
    have hne : o' ≠ o := by
      rintro rfl
      have hh : h' = h := (l.handle h' o' hchain).symm.trans (l.handle h o' ho)
      rw [hh, Function.update_self] at ho'
      cases ho'
    rw [Component.isSome_destruct, if_neg hne]
    exact hlive
  handle := (l.removeNVObject h).handle

/-- `copyObject`, with a fresh address for a new object. -/
def copyNVObj (l : Library) (source destination o : ℕ) (hnew : l.component.objects o = none) :
    Library where
  toRegistry := l.toRegistry.copyNVObj source destination o
  handle h' o' ho' := by
    unfold Registry.copyNVObj at ho' ⊢
    cases hsrc : l.chain source with
    | none =>
      simp only [hsrc] at ho' ⊢
      exact l.handle h' o' ho'
    | some src =>
      cases hdest : l.chain destination with
      | none =>
        simp only [hsrc, hdest] at ho' ⊢
        replace ho' : Function.update l.chain destination (some o) h' = some o' := ho'
        show (Function.update (Function.update l.base o ⟨destination⟩) o _ o').objInst = h'
        by_cases hh : h' = destination
        · rw [hh, Function.update_self, Option.some.injEq] at ho'
          rw [← ho', Function.update_self, hh]
          show (Function.update l.base o ⟨destination⟩ o).objInst = destination
          rw [Function.update_self]
        · rw [Function.update_of_ne hh] at ho'
          have hne := l.ne_of_chain ho' hnew
          rw [Function.update_of_ne hne, Function.update_of_ne hne]
          exact l.handle h' o' ho'
      | some dest =>
        simp only [hsrc, hdest] at ho' ⊢
        show (Function.update l.base dest _ o').objInst = h'
        by_cases hd : o' = dest
        · rw [hd, Function.update_self]
          exact l.handle h' dest (hd ▸ ho')
        · rw [Function.update_of_ne hd]
          exact l.handle h' o' ho'

/-- The object made at `o` for the methods and properties it lists, and removed. -/
def temporary (l : Library) (o : ℕ) (hnew : l.component.objects o = none) : Library where
  component := (l.component.construct o).destruct o
  base := Function.update l.base o ⟨0⟩
  chain := l.chain
  live h j hj := by
    have hne := l.ne_of_chain hj hnew
    rw [Component.isSome_destruct, if_neg hne, Component.isSome_construct, if_neg hne]
    exact l.live h j hj
  handle h j hj := by
    rw [Function.update_of_ne (l.ne_of_chain hj hnew)]
    exact l.handle h j hj

/-- A null pointer is used. -/
def faulted (l : Library) : Library where
  component := l.component.faulted
  base := l.base
  chain := l.chain
  live := l.live
  handle := l.handle

/-- A step of the component that makes and deletes nothing. -/
def runs (l : Library) (a : Component.Act) (ha : a.allocates = false) : Option Library :=
  match h : l.component.step a with
  | none => none
  | some component => some
    { component := component
      base := l.base
      chain := l.chain
      live := fun h' o ho => by
        rw [Component.isSome_step h ha]
        exact l.live h' o ho
      handle := l.handle }

/-- `NVObjHTTPWorker::methodCall` -/
def methodCall (l : Library) (o : ℕ) (id : ℤ) (param : Option FldVal) (result : ParamMap) :
    Option (Library × Reply) :=
  match funcId id with
  | 4001 => (l.runs (.methodInitialize o param) rfl).map fun l' => (l', .value 0
    (if (param.bind getParamsFromRow).isSome then [getEXTFldValFromBool true] else []))
  | 4002 => (l.runs (.methodRun o result) rfl).map fun l' => (l', .value 0 [])
  | 4003 => (l.runs (.methodStart o) rfl).map fun l' => (l', .value 0 [])
  | 4004 => (l.runs (.methodCancel o) rfl).map fun l' => (l', .value 0 [])
  | _ => some (l, .value 0 [])

/-- The messages that reach the objects; `none` where the address is in use. The
`ECM_OBJECT_COPY` case has no `return` and answers with the static methods. -/
def NVObjWndProc (l : Library) : Message → Option (Library × Reply)
  | .objConstruct compId h o =>
    match l.chain h with
    | some _ => some (l, .value 1 [])
    | none =>
      if compId = cNVObjHTTPWorker then
        if hnew : l.component.objects o = none then some (l.construct h o hnew, .value 1 [])
        else none
      else some (l, .value 0 [])
  | .objDestruct compId h objInfo =>
    if objInfo then
      match ho : l.chain h with
      | none => some (l, .value 1 [])
      | some o =>
        if compId = cNVObjHTTPWorker then some (l.destruct h o ho, .value 1 [])
        else some (l.removeNVObject h, .value 1 [])
    else some (l, .value 1 [])
  | .objectCopy compId source destination o =>
    if compId = cNVObjHTTPWorker then
      if hnew : l.component.objects o = none then
        some (l.copyNVObj source destination o hnew, .table cStaticMethodsTable)
      else none
    else some (l, .table cStaticMethodsTable)
  | .getStaticObject => some (l, .table cStaticMethodsTable)
  | .getMethodName compId o =>
    if compId = cNVObjHTTPWorker then
      if hnew : l.component.objects o = none then
        some (l.temporary o hnew, .table cHTTPWorkerMethodsTable)
      else none
    else some (l.faulted, .fault)
  | .getPropName compId o =>
    if compId = cNVObjHTTPWorker then
      if hnew : l.component.objects o = none then
        some (l.temporary o hnew, .table cHTTPWorkerPropertyTable)
      else none
    else some (l.faulted, .fault)
  | .methodCall h id param result =>
    match l.chain h with
    | some o => l.methodCall o id param result
    | none => some (l, staticMethodCall id param)
  | .propertyCanAssign h id =>
    match l.chain h with
    | some _ => some (l, .value (if id = 4500 then 1 else 0) [])
    | none => some (l, .value 0 [])
  | .getProperty h id =>
    match l.chain h with
    | some _ => some (l, .value 1 (if id = 4500 then [.empty] else []))
    | none => some (l, .value 0 [])
  | .setProperty h _ param =>
    match l.chain h with
    | some _ => some (l, .value (if param.isSome then 1 else 0) [])
    | none => some (l, .value 0 [])

/-- A message, or what goes on between the messages. -/
inductive Label
  | message (m : Message)
  | timer
  | main
  | handlerReturn
  | thread (w i : ℕ) (b : ThreadAct)

/-- Omnis sends a message only while it is in control. -/
def step (l : Library) : Label → Option Library
  | .message m =>
    if l.component.fault then none
    else if l.component.idle then (l.NVObjWndProc m).map Prod.fst
    else none
  | .timer => l.runs .timer rfl
  | .main => l.runs .main rfl
  | .handlerReturn => l.runs .handlerReturn rfl
  | .thread w i b => l.runs (.thread w i b) rfl

end Library

end HttpBackground
