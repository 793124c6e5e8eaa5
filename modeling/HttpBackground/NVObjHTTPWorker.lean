import HttpBackground.ParamConversion
import HttpBackground.Subscribers
import HttpBackground.Worker
import Mathlib.Logic.Function.Basic

/-!
# The HTTP worker objects and their timer

The component as Omnis drives it on the main thread: objects with their workers,
the timer procedure and the callbacks into Omnis. A callback runs Omnis code,
which may call back into the component, so the calls in progress form a stack.
The loop of the timer procedure and `notify` take one step for each access to
the map or to the worker, with the worker threads in between.
-/
namespace HttpBackground

/-- `_worker` points into the workers ever made, which are numbered. -/
structure NVObjHTTPWorker where
  worker : Option ℕ
  deriving DecidableEq, Repr

/-- `readResult`: a one-row list with the columns Method, URL and Result. The list under
`Result` is the one in the map; `Live.row?` puts in what the pointer leads to by then. -/
def readResult (params : ParamMap) : FldVal :=
  let retList := QList.new.addCol .fftRow (lit "Method")
  let retList := retList.addCol .fftRow (lit "URL")
  let retList := retList.addCol .fftRow (lit "Result")
  let retList := retList.insertRow
  let retList := match (params.find? (lit "Method")).bind Any.string? with
    | some method => retList.setColVal 1 1 (.character method)
    | none => retList
  let retList := match (params.find? (lit "URL")).bind Any.string? with
    | some url => retList.setColVal 1 2 (.character url)
    | none => retList
  let retList := match (params.find? (lit "Result")).bind Any.qlist? with
    | some l => retList.setColVal 1 3 (.list l.cols l.rows)
    | none => retList
  .list retList.cols retList.rows

/-- A call of the object's Omnis code by `ECOdoMethod`. `$error` gets the name of
the method that failed with `ERR_METHOD_FAILED` and the extra error text. -/
inductive Callback
  | completed (row : FldVal)
  | canceled
  | error (methodName extraErrorText : StdString)

/-- What a call in progress on the main thread does next, from the loop test of
`timerMsgProc` (`loop`) over its call of `notify` (`awaiting`) to the assignment
of what that returned (`notified`) and the second test (`test`). An iterator
`none` is `end()`. -/
inductive Frame
  | loop (it : Option Iter)
  | awaiting (it : Iter)
  | notified (it : Iter) (ret : NextTimer)
  | test (it : Iter)
  | notifyComplete (o : ℕ)
  | notifyResult (o : ℕ)
  | notifyCancelled (o : ℕ)
  | handler (o : ℕ) (cb : Callback)

/-- The objects by address, every worker ever made, the static data of the timer
and the calls in progress, innermost first. `fault` records that an iterator or
a pointer was used that is not valid. -/
structure Component where
  objects : ℕ → Option NVObjHTTPWorker
  workers : List Worker
  subscribers : Subscribers
  timerProcessing : Bool
  timerID : ℕ
  osTimers : List ℕ
  nextTimerID : ℕ
  stack : List Frame
  fault : Bool

namespace Component

/-- The component as it is loaded. -/
def loaded : Component :=
  ⟨fun _ => none, [], Subscribers.empty, false, 0, [], 1, [], false⟩

def workerOf (s : Component) (o : ℕ) : Option ℕ := (s.objects o).bind NVObjHTTPWorker.worker

/-- The worker an object points to. -/
def worker? (s : Component) (o : ℕ) : Option Worker := (s.workerOf o).bind fun w => s.workers[w]?

def setObject (s : Component) (o : ℕ) (obj : Option NVObjHTTPWorker) : Component :=
  { s with objects := Function.update s.objects o obj }

def modifyWorker (s : Component) (w : ℕ) (f : Worker → Worker) : Component :=
  { s with workers := s.workers.modify w f }

def setSubscribers (s : Component) (m : Subscribers) : Component := { s with subscribers := m }

def setStack (s : Component) (stack : List Frame) : Component := { s with stack := stack }

/-- The timer is set unless it is already; `WNDsetTimer` returns a fresh identifier. -/
def setTimer (s : Component) : Component :=
  if s.timerID = 0 then
    { s with timerID := s.nextTimerID, osTimers := s.nextTimerID :: s.osTimers
             nextTimerID := s.nextTimerID + 1 }
  else s

def killTimer (s : Component) : Component :=
  { s with timerID := 0, osTimers := s.osTimers.erase s.timerID }

/-- `ThreadTimer::subscribe` -/
def subscribe (s : Component) (o : ℕ) : Component :=
  (s.setSubscribers (s.subscribers.subscribe o)).setTimer

/-- `ThreadTimer::unsubscribe` -/
def unsubscribe (s : Component) (o : ℕ) : Component :=
  if (s.subscribers.erase o).entries.isEmpty then
    (s.setSubscribers (s.subscribers.erase o)).killTimer
  else s.setSubscribers (s.subscribers.erase o)

/-- The object lets go of its worker. -/
def dropWorker (s : Component) (o : ℕ) : Component :=
  match s.workerOf o with
  | none => s
  | some w => s.modifyWorker w Worker.drop

/-- `ERR_METHOD_FAILED` with `mExtraErrorText` -/
structure MethodError where
  extraErrorText : StdString := []

/-- A new worker takes the place of the object's former one. -/
def makeWorker (s : Component) (o : ℕ) (params : ParamMap) : Component :=
  { (s.dropWorker o).setObject o (some ⟨some s.workers.length⟩) with
    workers := (s.dropWorker o).workers ++ [(Worker.new params).init] }

/-- `methodInitialize`; `none` is a call without the first parameter. -/
def methodInitialize (s : Component) (o : ℕ) (rowVal : Option FldVal) :
    Except MethodError Component :=
  match rowVal.bind getParamsFromRow with
  | none => .error ⟨lit "1st parameter must be a row of parameters"⟩
  | some params => .ok (s.makeWorker o params)

/-- `methodRun`, when the delegate returns `result`. -/
def methodRun (s : Component) (o : ℕ) (result : ParamMap) : Except MethodError Component :=
  match s.workerOf o with
  | none => .error {}
  | some w => .ok ((s.modifyWorker w (Worker.run · result)).setStack (.notifyComplete o :: s.stack))

/-- `methodStart` -/
def methodStart (s : Component) (o : ℕ) : Except MethodError Component :=
  match s.workerOf o with
  | none => .error {}
  | some w => .ok ((s.subscribe o).modifyWorker w Worker.start)

/-- `methodCancel` -/
def methodCancel (s : Component) (o : ℕ) : Except MethodError Component :=
  match s.workerOf o with
  | none => .error {}
  | some w => .ok (s.modifyWorker w Worker.cancel)

/-- `methodCall` with `callErrorMethod`: a method that failed calls `$error`. -/
def methodCall (s : Component) (o : ℕ) (methodName : StdString) :
    Except MethodError Component → Component
  | .ok s' => s'
  | .error e => s.setStack (.handler o (.error methodName e.extraErrorText) :: s.stack)

/-- The constructor of an object. -/
def construct (s : Component) (o : ℕ) : Component := s.setObject o (some ⟨none⟩)

/-- The destructor of an object. -/
def destruct (s : Component) (o : ℕ) : Component :=
  ((s.unsubscribe o).dropWorker o).setObject o none

/-- The call of `timerMsgProc` up to its loop. -/
def timerMsgProc (s : Component) : Component :=
  if s.timerProcessing then s
  else { s with timerProcessing := true, stack := .loop s.subscribers.first :: s.stack }

/-- `notify` returns; its value goes to the loop that called it, if one did. -/
def returned (ret : NextTimer) : List Frame → List Frame
  | .awaiting it :: rest => .notified it ret :: rest
  | rest => rest

def faulted (s : Component) : Component := { s with fault := true }

/-- The next statement of the innermost call of `timerMsgProc` or `notify`. -/
def mainStep (s : Component) : Option Component :=
  match s.stack with
  | .loop none :: rest => some { s with timerProcessing := false, stack := rest }
  | .loop (some it) :: rest =>
    if s.subscribers.holds it then
      if (s.subscribers.find? it.key).map Entry.next = some .kTimerContinue then
        some (s.setStack (.notifyComplete it.key :: .awaiting it :: rest))
      else some (s.setStack (.test it :: rest))
    else some s.faulted
  | .notified it ret :: rest =>
    if s.subscribers.holds it then
      some ((s.setSubscribers (s.subscribers.setNext it ret)).setStack (.test it :: rest))
    else some s.faulted
  | .test it :: rest =>
    if s.subscribers.holds it then
      if (s.subscribers.find? it.key).map Entry.next = some .kTimerStop then
        some ((s.setSubscribers (s.subscribers.erase it.key)).setStack
          (.loop (s.subscribers.after it.key) :: rest))
      else some (s.setStack (.loop (s.subscribers.after it.key) :: rest))
    else some s.faulted
  | .notifyComplete o :: rest =>
    match s.worker? o with
    | none => some s.faulted
    | some w => some (s.setStack ((if w.complete then .notifyResult o else .notifyCancelled o) :: rest))
  | .notifyResult o :: rest =>
    match s.worker? o with
    | none => some s.faulted
    | some w => some (s.setStack (.handler o (.completed (readResult w.result)) :: rest))
  | .notifyCancelled o :: rest =>
    match s.worker? o with
    | none => some s.faulted
    | some w =>
      if w.cancelled then some (s.setStack (.handler o .canceled :: rest))
      else some (s.setStack (returned .kTimerContinue rest))
  | .awaiting _ :: _ | .handler _ _ :: _ | [] => none

/-- The Omnis code called back returns. After `$completed` and `$canceled` so does `notify`. -/
def handlerReturn (s : Component) : Option Component :=
  match s.stack with
  | .handler _ (.error _ _) :: rest => some (s.setStack rest)
  | .handler _ _ :: rest => some (s.setStack (returned .kTimerStop rest))
  | _ => none

/-- Omnis is in control on the main thread. -/
def idle (s : Component) : Bool :=
  match s.stack with
  | [] | .handler _ _ :: _ => true
  | _ => false

/-- What can happen: a call by Omnis, a timer message, a statement of the main
thread, or a step of a worker thread. -/
inductive Act
  | construct (o : ℕ)
  | destroy (o : ℕ)
  | methodInitialize (o : ℕ) (rowVal : Option FldVal)
  | methodRun (o : ℕ) (result : ParamMap)
  | methodStart (o : ℕ)
  | methodCancel (o : ℕ)
  | timer
  | main
  | handlerReturn
  | thread (w i : ℕ) (a : ThreadAct)

/-- The call is not `$run`. -/
def Act.background : Act → Bool
  | .methodRun _ _ => false
  | _ => true

/-- Omnis acts only while it is in control, and on objects that exist. -/
def omnis (s : Component) (exists? : Bool) (s' : Component) : Option Component :=
  if s.idle && exists? then some s' else none

def step (s : Component) (a : Act) : Option Component :=
  if s.fault then none
  else match a with
    | .construct o => s.omnis (s.objects o).isNone (s.construct o)
    | .destroy o => s.omnis (s.objects o).isSome (s.destruct o)
    | .methodInitialize o rowVal => s.omnis (s.objects o).isSome
      (s.methodCall o (lit "$initialize") (s.methodInitialize o rowVal))
    | .methodRun o result => s.omnis (s.objects o).isSome
      (s.methodCall o (lit "$run") (s.methodRun o result))
    | .methodStart o => s.omnis (s.objects o).isSome
      (s.methodCall o (lit "$start") (s.methodStart o))
    | .methodCancel o => s.omnis (s.objects o).isSome
      (s.methodCall o (lit "$cancel") (s.methodCancel o))
    | .timer => s.omnis true s.timerMsgProc
    | .main => s.mainStep
    | .handlerReturn => s.handlerReturn
    | .thread w i b => s.workers[w]?.bind fun W =>
      (W.step (.thread i b)).map fun W' =>
        { s with workers := s.workers.set w W', fault := W'.fault }

/-- The callback a step makes to report the outcome of a request, where nobody has
touched the list since the delegate returned it. -/
def delivers (s : Component) : Act → Option (ℕ × Callback)
  | .main =>
    match s.stack with
    | .notifyResult o :: _ => (s.worker? o).map fun w => (o, .completed (readResult w.result))
    | .notifyCancelled o :: _ =>
      (s.worker? o).bind fun w => if w.cancelled then some (o, .canceled) else none
    | _ => none
  | _ => none

/-- The call of `$error` a method ends with. -/
def errorOf (o : ℕ) (methodName : StdString) :
    Except MethodError Component → Option (ℕ × Callback)
  | .ok _ => none
  | .error e => some (o, .error methodName e.extraErrorText)

/-- The Omnis code a step calls. -/
def callsBack (s : Component) : Act → Option (ℕ × Callback)
  | .methodInitialize o rowVal => errorOf o (lit "$initialize") (s.methodInitialize o rowVal)
  | .methodRun o result => errorOf o (lit "$run") (s.methodRun o result)
  | .methodStart o => errorOf o (lit "$start") (s.methodStart o)
  | .methodCancel o => errorOf o (lit "$cancel") (s.methodCancel o)
  | a => s.delivers a

/-- The steps that bring a thread into the delegate. -/
def prologue (w i : ℕ) : List Act := List.replicate 8 (.thread w i .next)

/-- The delegate returns to a thread, which then runs to its end. -/
def epilogue (w i : ℕ) (result : ParamMap) : List Act :=
  .thread w i (.returns result) :: List.replicate 6 (.thread w i .next)

/-- A row with a URL and nothing else. -/
def urlRow : FldVal := .row [⟨lit "url", .fftCharacter⟩] [[.character (lit "http://host/")]]

/-- An object is made and given a request. -/
def setUp (o : ℕ) : List Act := [.construct o, .methodInitialize o (some urlRow)]

end Component

end HttpBackground
