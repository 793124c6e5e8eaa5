import HttpBackground.ChunkedBody
import HttpBackground.Effects
import HttpBackground.ResponseHeaders

/-!
# The asynchronous connection

`http_async_connection` resolves the host, tries its addresses, sends the
request and reads the response in pieces of whatever size the socket delivers.
At any time at most one operation is in flight; its completion runs one handler
in the client's own thread. What the caller sees of the response are seven
promises, each of which a handler may settle once. An exception that leaves a
handler ends that thread.
-/
namespace HttpBackground

/-- `boost::system::error_code`, as far as the handlers tell errors apart. -/
inductive ErrorCode
  | eof
  | shortRead
  | hostNotFound
  | other (value : ℤ)
  deriving DecidableEq, Repr

/-- The end of the connection: `eof`, or a TLS connection closed without notice. -/
def ErrorCode.isEnd : ErrorCode → Bool
  | .eof | .shortRead => true
  | _ => false

/-- What `set_exception` stores in a promise. -/
inductive NetError
  | runtimeError (what : StdString)
  | systemError (ec : ErrorCode)
  deriving DecidableEq, Repr

abbrev Promise (α : Type) := Option (Except NetError α)

/-- What can leave a handler: the two exceptions, a step that is undefined, a
loop without end. -/
inductive Escape
  | promiseAlreadySatisfied
  | badLexicalCast
  | undefined
  | endless
  deriving DecidableEq, Repr

/-- `state_t` of the connection: the part of the response that is read. -/
inductive Stage
  | version
  | status
  | statusMessage
  | headers
  | body
  deriving DecidableEq, Repr

structure Endpoint where
  address : StdString
  port : ℕ
  deriving DecidableEq, Repr

/-- The operation in flight, with what is bound to its handler. -/
inductive Waiting
  | resolve (port : ℕ)
  | connect (endpoint : Endpoint) (others : List StdString)
  | write
  | readSome (stage : Stage)
  | nothing
  deriving DecidableEq, Repr

/-- The connection. `callback` says whether a body callback was given, and
`callbackCalls` what it has been called with. -/
structure Connection where
  responseParser : ResponseParser.State := .httpResponseBegin
  versionPromise : Promise StdString := none
  statusPromise : Promise ℕ := none
  statusMessagePromise : Promise StdString := none
  headersPromise : Promise Headers := none
  sourcePromise : Promise StdString := none
  destinationPromise : Promise StdString := none
  bodyPromise : Promise StdString := none
  partialParsed : StdString := []
  isChunkEncoding : Bool := false
  commandStreambuf : StdString := []
  getBody : Bool := true
  callback : Bool := false
  callbackCalls : List (StdString × Option ErrorCode) := []
  waiting : Waiting := .nothing
  escaped : Option Escape := none

namespace Connection

open Scanning ResponseParser StdString Effects

abbrev HandlerM := ExceptT Escape (StateM Connection)

/-- `set_value` and `set_exception` of one promise. -/
def settle {α : Type} (promise : Connection → Promise α)
    (put : Connection → Promise α → Connection) (r : Except NetError α) : HandlerM Unit := do
  let c ← get
  match promise c with
  | none => set (put c (some r))
  | some _ => throw .promiseAlreadySatisfied

def setVersion := settle (·.versionPromise) fun c p => { c with versionPromise := p }

def setStatus := settle (·.statusPromise) fun c p => { c with statusPromise := p }

def setStatusMessage :=
  settle (·.statusMessagePromise) fun c p => { c with statusMessagePromise := p }

def setHeaders := settle (·.headersPromise) fun c p => { c with headersPromise := p }

def setSource := settle (·.sourcePromise) fun c p => { c with sourcePromise := p }

def setDestination := settle (·.destinationPromise) fun c p => { c with destinationPromise := p }

def setBody := settle (·.bodyPromise) fun c p => { c with bodyPromise := p }

def readSome (stage : Stage) : HandlerM Unit :=
  modify fun c => { c with waiting := .readSome stage }

/-- What fails with the status message, in the order of the source; the status
and the version fail with what comes after them. -/
def failStatusMessage (error : NetError) : HandlerM Unit := do
  setStatusMessage (.error error)
  setHeaders (.error error)
  setSource (.error error)
  setDestination (.error error)
  setBody (.error error)

def failStatus (error : NetError) : HandlerM Unit := do
  setStatus (.error error)
  failStatusMessage error

def failVersion (error : NetError) : HandlerM Unit := do
  setVersion (.error error)
  failStatus error

def failHeaders (error : NetError) : HandlerM Unit := do
  setHeaders (.error error)
  setBody (.error error)
  setSource (.error error)
  setDestination (.error error)

def setErrors (ec : ErrorCode) : HandlerM Unit := failVersion (.systemError ec)

/-- The common body of `parse_version`, `parse_status`, `parse_status_message`
and `parse_headers`: what the parser has walked over joins `partial_parsed`, and
goes on to `done` once the stop state is reached. The verdict comes back with
the bytes of the buffer that are left. -/
def parsePart (stopState : State) (stage : Stage) (done : StdString → HandlerM Unit)
    (invalid : HandlerM Unit) (input : StdString) : HandlerM (Verdict × StdString) := do
  let c ← get
  let result := parseUntil stopState c.responseParser input
  let text := c.partialParsed ++ result.state.2
  match result.verdict with
  | .accepted =>
    set { c with responseParser := result.state.1, partialParsed := [] }
    done text
  | .refused =>
    set { c with responseParser := result.state.1 }
    invalid
  | .pending =>
    set { c with responseParser := result.state.1, partialParsed := text }
    readSome stage
  return (result.verdict, result.rest)

def parseVersion : StdString → HandlerM (Verdict × StdString) :=
  parsePart .httpVersionDone .version (fun version => setVersion (.ok (trim version)))
    (failVersion (.runtimeError (lit "Invalid Version Part.")))

/-- `lexical_cast<boost::uint16_t>` of a string of digits. -/
def lexicalCast (s : StdString) : Option ℕ :=
  let n := s.foldl (fun n c => 10 * n + (c.toNat - 48)) 0
  if n < 2 ^ 16 then some n else none

def parseStatus : StdString → HandlerM (Verdict × StdString) :=
  parsePart .httpStatusDone .status
    (fun status =>
      match lexicalCast (trim status) with
      | some statusInt => setStatus (.ok statusInt)
      | none => throw .badLexicalCast)
    (failStatus (.runtimeError (lit "Invalid status part.")))

def parseStatusMessage : StdString → HandlerM (Verdict × StdString) :=
  parsePart .httpStatusMessageDone .statusMessage
    (fun statusMessage => setStatusMessage (.ok (trim statusMessage)))
    (failStatusMessage (.runtimeError (lit "Invalid status message part.")))

def parseHeaders : StdString → HandlerM (Verdict × StdString) :=
  parsePart .httpHeadersDone .headers
    (fun headersString =>
      match parseHeadersReal headersString with
      | some headers => do
        modify fun c => { c with isChunkEncoding := chunkEncoding headers }
        setHeaders (.ok headers)
      | none => throw .endless)
    (failHeaders (.runtimeError (lit "Invalid header part.")))

def parseBody (input : StdString) : HandlerM Unit := do
  modify fun c => { c with partialParsed := c.partialParsed ++ input }
  readSome .body

def callCallback (range : StdString) (ec : Option ErrorCode) : HandlerM Unit :=
  modify fun c => { c with callbackCalls := c.callbackCalls ++ [(range, ec)] }

/-- The destination and the source are never known; then the parser is reset. -/
def closeResponse : HandlerM Unit := do
  setDestination (.ok [])
  setSource (.ok [])
  modify fun c => { c with responseParser := .httpResponseBegin }

/-- `case body` of `handle_received_data`. -/
def receiveBody (ec : Option ErrorCode) (input : StdString) : HandlerM Unit := do
  let c ← get
  if ec.any ErrorCode.isEnd then
    if c.callback then
      callCallback input ec
    else
      let bodyString := c.partialParsed ++ input
      set { c with partialParsed := [] }
      if c.isChunkEncoding then
        match ChunkedBody.parseChunkEncoding bodyString with
        | some body => setBody (.ok body)
        | none => throw .undefined
      else
        setBody (.ok bodyString)
    closeResponse
  else if c.callback then
    callCallback input ec
    readSome .body
  else
    parseBody input

/-- What follows the head: the bytes of the buffer that are left are the first of
the body. -/
def afterHead (ec : Option ErrorCode) (remainder : StdString) : HandlerM Unit := do
  let c ← get
  if !c.getBody then
    setBody (.ok [])
    closeResponse
  else if c.callback then
    setBody (.ok [])
    callCallback remainder ec
    readSome .body
  else
    parseBody remainder

/-- A case of the `switch` returns unless its part is accepted, and falls
through to the next case then. -/
def fallThrough (part : StdString → HandlerM (Verdict × StdString))
    (next : StdString → HandlerM Unit) (input : StdString) : HandlerM Unit := do
  let (parsedOk, rest) ← part input
  if parsedOk = .accepted then next rest

def receiveHeaders (ec : Option ErrorCode) : StdString → HandlerM Unit :=
  fallThrough parseHeaders (afterHead ec)

def receiveStatusMessage (ec : Option ErrorCode) : StdString → HandlerM Unit :=
  fallThrough parseStatusMessage (receiveHeaders ec)

def receiveStatus (ec : Option ErrorCode) : StdString → HandlerM Unit :=
  fallThrough parseStatus (receiveStatusMessage ec)

def receiveVersion (ec : Option ErrorCode) : StdString → HandlerM Unit :=
  fallThrough parseVersion (receiveStatus ec)

/-- The `switch` of `handle_received_data`. -/
def receiveData (stage : Stage) (ec : Option ErrorCode) (input : StdString) : HandlerM Unit :=
  match stage with
  | .version => receiveVersion ec input
  | .status => receiveStatus ec input
  | .statusMessage => receiveStatusMessage ec input
  | .headers => receiveHeaders ec input
  | .body => receiveBody ec input

/-- The cases of the second `switch`, from the stage on. -/
def failFrom (stage : Stage) (error : NetError) : HandlerM Unit := do
  if stage = .version then setVersion (.error error)
  if stage = .version ∨ stage = .status then setStatus (.error error)
  if stage = .version ∨ stage = .status ∨ stage = .statusMessage then
    setStatusMessage (.error error)
  if stage ≠ .body then setHeaders (.error error)
  setBody (.error error)

def handleReceivedData (stage : Stage) (ec : Option ErrorCode) (input : StdString) :
    HandlerM Unit :=
  match ec with
  | some e =>
    if e.isEnd then receiveData stage ec input
    else do
      let error := NetError.systemError e
      setSource (.error error)
      setDestination (.error error)
      failFrom stage error
  | none => receiveData stage ec input

def handleSentRequest (ec : Option ErrorCode) : HandlerM Unit :=
  match ec with
  | none => readSome .version
  | some e => setErrors e

def handleConnected (port : ℕ) (others : List StdString) (ec : Option ErrorCode) :
    HandlerM Unit := do
  match ec, others with
  | none, _ => modify fun c => { c with waiting := .write }
  | some _, address :: others =>
    modify fun c => { c with waiting := .connect ⟨address, port⟩ others }
  | some e, [] =>
    setErrors e
    if (← get).callback then callCallback [] ec

def handleResolved (port : ℕ) (ec : Option ErrorCode) (addresses : List StdString) :
    HandlerM Unit :=
  match ec, addresses with
  | none, address :: others =>
    modify fun c => { c with waiting := .connect ⟨address, port⟩ others }
  | none, [] => setErrors .hostNotFound
  | some e, _ => setErrors e

/-- How the operation in flight has ended. -/
inductive Completion
  | resolved (ec : Option ErrorCode) (addresses : List StdString)
  | connected (ec : Option ErrorCode)
  | sent (ec : Option ErrorCode)
  | received (ec : Option ErrorCode) (data : StdString)
  deriving DecidableEq, Repr

/-- The handler a completion runs, when that operation is in flight. -/
def handler? : Waiting → Completion → Option (HandlerM Unit)
  | .resolve port, .resolved ec addresses => some (handleResolved port ec addresses)
  | .connect endpoint others, .connected ec => some (handleConnected endpoint.port others ec)
  | .write, .sent ec => some (handleSentRequest ec)
  | .readSome stage, .received ec data => some (handleReceivedData stage ec data)
  | _, _ => none

/-- After a handler; what leaves it leaves the thread that runs the handlers. -/
def settled : Except Escape Unit × Connection → Connection
  | (.ok _, c) => c
  | (.error e, c) => { c with waiting := .nothing, escaped := some e }

/-- One completion. -/
def step (c : Connection) (completion : Completion) : Option Connection :=
  (handler? c.waiting completion).map fun handler =>
    settled (exec handler { c with waiting := .nothing })

/-- `start`, with the request as `linearize` has written it. -/
def start (command : StdString) (port : ℕ) (getBody callback : Bool) : Connection :=
  { commandStreambuf := command, getBody, callback, waiting := .resolve port }

end Connection

end HttpBackground
