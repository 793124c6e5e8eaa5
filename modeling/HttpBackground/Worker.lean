import HttpBackground.OmnisValue

/-!
# The worker and its threads

One `Worker` as its owner and the threads it has spawned see it. Every locked
access, every use of the weak pointer and every return of the delegate is a step
of its own, so that a run of `Worker.step` is an interleaving. The main thread's
calls are one step each: a thread that `start` creates may be held back as long
as need be before its first step, and `interrupt` is only looked at inside the
delegate.
-/
namespace HttpBackground

/-- The statement of `WorkerThread::operator()` a thread is about to execute. The
names ending in `Early` are the way out once the worker was found running. -/
inductive Pc
  | lockWeak | lockMutex | testRunning | setRunning | copyParams | resetPtr | unlock
  | enter | inRun
  | relock | setResult | readCancelled | setComplete | clearRunning | release
  | unlockEarly | releaseEarly
  | done | interrupted
  deriving DecidableEq, Repr

namespace Pc

/-- The statements that read or write through the worker. -/
def usesWorker : Pc → Bool
  | .lockMutex | .testRunning | .setRunning | .copyParams | .unlock | .unlockEarly
  | .setResult | .readCancelled | .setComplete | .clearRunning => true
  | _ => false

/-- `operator()` has been left, by returning or by an interruption. -/
def finished : Pc → Bool
  | .done | .interrupted => true
  | _ => false

/-- `_workMutex` is held. -/
def locked : Pc → Bool
  | .testRunning | .setRunning | .copyParams | .resetPtr | .unlock | .unlockEarly => true
  | _ => false

/-- `running` has been set by this thread and not been cleared again. An
interrupted thread never clears it. -/
def critical : Pc → Bool
  | .copyParams | .resetPtr | .unlock | .enter | .inRun | .relock | .setResult
  | .readCancelled | .setComplete | .clearRunning | .interrupted => true
  | _ => false

/-- The delegate has not been entered and still may be. -/
def beforeRun : Pc → Bool
  | .lockWeak | .lockMutex | .testRunning | .setRunning | .copyParams | .resetPtr
  | .unlock | .enter => true
  | _ => false

/-- `ptr` is known to have been taken from the weak pointer and not been reset. -/
def holdsPtr : Pc → Bool
  | .testRunning | .setRunning | .copyParams | .resetPtr | .unlockEarly | .releaseEarly
  | .setResult | .readCancelled | .setComplete | .clearRunning | .release => true
  | _ => false

end Pc

/-- `ptr` tells whether the local shared pointer holds the worker, `result` is
what the delegate's `run` returned. -/
structure WorkerThread where
  pc : Pc := .lockWeak
  ptr : Bool := false
  params : ParamMap := []
  result : Option ParamMap := none
  interruptRequested : Bool := false

/-- `threads` lists every thread spawned so far and `thread` is the handle of the
last one. `owned` is the owner's shared pointer. `fault` records that a worker
was used that does not exist. Every worker is made with a delegate. -/
structure Worker where
  params : ParamMap
  result : ParamMap := []
  running : Bool := false
  complete : Bool := false
  cancelled : Bool := false
  workMutex : Option ℕ := none
  thread : Option ℕ := none
  threads : List WorkerThread := []
  owned : Bool := true
  fault : Bool := false

/-- What a thread does next: its next statement, or one of the two ways out of
the delegate. -/
inductive ThreadAct
  | next
  | returns (result : ParamMap)
  | interrupted

namespace Worker

/-- The shared pointers to the worker. -/
def useCount (w : Worker) : ℕ := w.owned.toNat + w.threads.countP WorkerThread.ptr

def setRunning (w : Worker) (r : Bool) : Worker := { w with running := r }

def setComplete (w : Worker) (c : Bool) : Worker := { w with complete := c }

def setResult (w : Worker) (pm : ParamMap) : Worker := { w with result := pm }

def setWorkMutex (w : Worker) (holder : Option ℕ) : Worker := { w with workMutex := holder }

def setThread (w : Worker) (i : ℕ) (t : WorkerThread) : Worker :=
  { w with threads := w.threads.set i t }

/-- `_thread.interrupt()`, unless that has been requested already. -/
def interrupt (w : Worker) : Worker :=
  { w with threads := match w.thread with
      | none => w.threads
      | some i => w.threads.modify i fun t => { t with interruptRequested := true } }

def cancel (w : Worker) : Worker := { w.interrupt with cancelled := true }

/-- A shared pointer has gone. The destructor, which cancels, runs after the last. -/
def released (w : Worker) : Worker := if w.useCount = 0 then w.cancel else w

/-- `start` -/
def start (w : Worker) : Worker :=
  if w.running then w
  else { w with threads := w.threads ++ [{}], thread := some w.threads.length }

/-- `run`, when the delegate returns `result`. -/
def run (w : Worker) (result : ParamMap) : Worker := w.setResult result

/-- The owner's pointer is reset or replaced. -/
def drop (w : Worker) : Worker := released { w with owned := false }

/-- The worker a thread is about to use exists. At the end of the locked scope
`ptr` has been reset on purpose and only the owner's pointer is left. -/
def available (w : Worker) (t : WorkerThread) : Bool :=
  (t.ptr || t.pc == .unlock) && decide (0 < w.useCount)

/-- The next statement of thread `i`, which is in state `t`. -/
def advance (w : Worker) (i : ℕ) (t : WorkerThread) : Option Worker :=
  match t.pc with
  | .lockWeak => some (w.setThread i { t with pc := .lockMutex, ptr := decide (0 < w.useCount) })
  | .lockMutex =>
    -- blocked while another thread holds the mutex
    if w.workMutex.isSome then none
    else some ((w.setWorkMutex (some i)).setThread i { t with pc := .testRunning })
  | .testRunning =>
    some (w.setThread i { t with pc := if w.running then .unlockEarly else .setRunning })
  | .setRunning => some ((w.setRunning true).setThread i { t with pc := .copyParams })
  | .copyParams => some (w.setThread i { t with pc := .resetPtr, params := w.params })
  | .resetPtr => some (w.setThread i { t with pc := .unlock, ptr := false }).released
  | .unlock => some ((w.setWorkMutex none).setThread i { t with pc := .enter })
  | .enter => some (w.setThread i { t with pc := .inRun })
  | .inRun => none
  | .relock =>
    -- an empty pointer skips the rest
    if 0 < w.useCount then some (w.setThread i { t with pc := .setResult, ptr := true })
    else some (w.setThread i { t with pc := .done, ptr := false })
  | .setResult =>
    some ((w.setResult (t.result.getD [])).setThread i { t with pc := .readCancelled })
  | .readCancelled => some (w.setThread i { t with pc := .setComplete })
  | .setComplete => some ((w.setComplete true).setThread i { t with pc := .clearRunning })
  | .clearRunning => some ((w.setRunning false).setThread i { t with pc := .release })
  | .release => some (w.setThread i { t with pc := .done, ptr := false }).released
  | .unlockEarly => some ((w.setWorkMutex none).setThread i { t with pc := .releaseEarly })
  | .releaseEarly => some (w.setThread i { t with pc := .done, ptr := false }).released
  | .done => none
  | .interrupted => none

/-- One step of thread `i`. -/
def threadStep (w : Worker) (i : ℕ) (t : WorkerThread) (a : ThreadAct) : Option Worker :=
  match a with
  | .next =>
    if t.pc.usesWorker && !w.available t then some { w with fault := true } else w.advance i t
  | .returns result =>
    if t.pc = .inRun then some (w.setThread i { t with pc := .relock, result := some result })
    else none
  | .interrupted =>
    -- `boost::thread_interrupted` leaves `operator()` from within the delegate
    if t.pc = .inRun ∧ t.interruptRequested then
      some (w.setThread i { t with pc := .interrupted, interruptRequested := false })
    else none

/-- What happens to one worker: its owner's calls and the steps of its threads. -/
inductive Act
  | start
  | cancel
  | run (result : ParamMap)
  | drop
  | thread (i : ℕ) (a : ThreadAct)

/-- After a fault nothing is said any more. -/
def step (w : Worker) (a : Act) : Option Worker :=
  if w.fault then none
  else match a with
    | .start => if w.owned then some w.start else none
    | .cancel => if w.owned then some w.cancel else none
    | .run result => if w.owned then some (w.run result) else none
    | .drop => if w.owned then some w.drop else none
    | .thread i b => w.threads[i]?.bind fun t => w.threadStep i t b

/-- The constructor, where `make_shared` puts the first pointer into the owner's hands. -/
def new (params : ParamMap) : Worker := { params := params }

/-- `init`. The delegate's own `init` is in `CppNetlibDelegate`. -/
def init (w : Worker) : Worker :=
  { w with complete := false, cancelled := false, running := false }

end Worker

end HttpBackground
