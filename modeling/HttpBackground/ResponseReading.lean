import HttpBackground.ConnectionPieces

/-!
# What the connection makes of a response

The promises of the status line and of the headers are settled with values
exactly when the bytes start with a head whose status fits `boost::uint16_t`;
the values are those of the head, and everything behind the head is the body.
-/
namespace HttpBackground

namespace ResponseParser

open Scanning StdString State

/-- The range of the version starts at the `H`. -/
theorem parseUntil_version (v : Version) (rest : StdString) :
    parseUntil httpVersionDone httpResponseBegin (v.text ++ rest) =
      ⟨.accepted, (httpVersionDone, v.name ++ [' '.toUInt8]), rest⟩ := by
  have hlead : reads advance (fun p => p.1 == httpVersionDone) (httpResponseBegin, []) v.leading =
      some (httpResponseBegin, []) := by
    apply reads_loop rfl
    intro c hc
    have := v.hleading c hc
    simp only [isLeading, Bool.or_eq_true, beq_iff_eq, or_assoc] at this
    simp [advance, next, this]
  have hword : v.name ++ [' '.toUInt8] = 'H'.toUInt8 :: (lit "TTP/" ++
      [v.major, '.'.toUInt8, v.minor, ' '.toUInt8]) := by
    have hlit : lit "HTTP/" = 'H'.toUInt8 :: lit "TTP/" := by decide
    simp [Version.name, hlit]
  have hH : advance (httpResponseBegin, []) 'H'.toUInt8 = some (httpVersionH, ['H'.toUInt8]) := rfl
  have htail : follows httpVersionDone httpVersionH (lit "TTP/" ++
      [v.major, '.'.toUInt8, v.minor, ' '.toUInt8]) = some httpVersionDone := by
    have h := follows_version v
    rw [Version.text, follows, reads_append, show reads next _ httpResponseBegin v.leading = _ from
      follows_leading v, Option.bind_some, hword, reads_cons_some rfl rfl] at h
    exact h
  rw [parseUntil, scan_eq_accepted_iff]
  refine ⟨v.text, rfl, ?_, rfl⟩
  rw [Version.text]
  apply reads_trans hlead
  rw [hword, reads_cons_some rfl hH, reads_advance (by decide), htail]
  rfl

end ResponseParser

namespace Connection

open Scanning ResponseParser StdString Effects

/-- A connection that has just sent its request and reads the first bytes. -/
structure Fresh (c : Connection) : Prop where
  waiting : c.waiting = .readSome .version
  parser : c.responseParser = .httpResponseBegin
  partialParsed : c.partialParsed = []
  version : c.versionPromise = none
  status : c.statusPromise = none
  statusMessage : c.statusMessagePromise = none
  headers : c.headersPromise = none
  source : c.sourcePromise = none
  destination : c.destinationPromise = none
  body : c.bodyPromise = none
  callback : c.callback = false

section Settle

variable {c : Connection}

theorem exec_setVersion {r : Except NetError StdString} (h : c.versionPromise = none) :
    exec (setVersion r) c = (.ok (), { c with versionPromise := some r }) := exec_settle h

theorem exec_setStatus {r : Except NetError ℕ} (h : c.statusPromise = none) :
    exec (setStatus r) c = (.ok (), { c with statusPromise := some r }) := exec_settle h

theorem exec_setStatusMessage {r : Except NetError StdString} (h : c.statusMessagePromise = none) :
    exec (setStatusMessage r) c = (.ok (), { c with statusMessagePromise := some r }) :=
  exec_settle h

theorem exec_setHeaders {r : Except NetError Headers} (h : c.headersPromise = none) :
    exec (setHeaders r) c = (.ok (), { c with headersPromise := some r }) := exec_settle h

theorem exec_setSource {r : Except NetError StdString} (h : c.sourcePromise = none) :
    exec (setSource r) c = (.ok (), { c with sourcePromise := some r }) := exec_settle h

theorem exec_setDestination {r : Except NetError StdString} (h : c.destinationPromise = none) :
    exec (setDestination r) c = (.ok (), { c with destinationPromise := some r }) := exec_settle h

theorem exec_setBody {r : Except NetError StdString} (h : c.bodyPromise = none) :
    exec (setBody r) c = (.ok (), { c with bodyPromise := some r }) := exec_settle h

end Settle

variable {c : Connection} {ec : Option ErrorCode}

theorem trim_version (v : Version) : trim (v.name ++ [' '.toUInt8]) = v.name := by
  have hlit : lit "HTTP/" = 'H'.toUInt8 :: lit "TTP/" := by decide
  have hspace : isSpace 'H'.toUInt8 = false := by decide
  have hminor : isSpace v.minor = false := isSpace_of_alnum (by simp [isAlnum, v.hminor])
  refine trim_word (by simp [Version.name]) ?_ ?_ (forall_mem_of_all (by decide))
  · simp [Version.name, hlit, hspace]
  · simp [Version.name, hminor]

theorem trim_status (s : Status) : trim (s.digits ++ [' '.toUInt8]) = s.digits := by
  have hdigits : ∀ c ∈ s.digits, isSpace c = false := by
    intro c hc
    apply isSpace_of_alnum
    rcases List.mem_cons.mp hc with rfl | hc
    · simp [isAlnum, s.hfirst]
    · simp [isAlnum, s.hmore c hc]
  have hne : s.digits ≠ [] := by simp [Status.digits]
  exact trim_word hne (hdigits _ (List.head_mem hne)) (hdigits _ (List.getLast_mem hne))
    (forall_mem_of_all (by decide))

/-- The reason phrase loses the spaces at its end. -/
theorem trim_message (m : StatusMessage) : trim m.text = m.phrase.rdropWhile isSpace := by
  have h : trim ([] ++ (m.first :: m.more ++ crlf)) = (m.first :: m.more).rdropWhile isSpace :=
    trim_eq (by simp) (isSpace_of_alnum m.hfirst) (forall_mem_of_all (by decide))
  simpa [StatusMessage.text, StatusMessage.phrase] using h

/-- The version is settled, and the status is read from behind it. -/
theorem exec_receiveVersion (v : Version) (rest : StdString)
    (hparser : c.responseParser = .httpResponseBegin) (hparsed : c.partialParsed = [])
    (hpromise : c.versionPromise = none) :
    exec (receiveVersion ec (v.text ++ rest)) c =
      exec (receiveStatus ec rest) { c with
        responseParser := .httpVersionDone, versionPromise := some (.ok v.name) } := by
  have hparse := parseUntil_version v rest
  rw [receiveVersion, parseVersion, exec_fallThrough_accepted (by rw [hparser, hparse]), hparser,
    hparse, hparsed, List.nil_append, trim_version]
  exact exec_bind_of_ok (exec_setVersion hpromise)

theorem exec_receiveStatus (s : Status) (rest : StdString) {n : ℕ}
    (hn : lexicalCast s.digits = some n) (hparser : c.responseParser = .httpVersionDone)
    (hparsed : c.partialParsed = []) (hpromise : c.statusPromise = none) :
    exec (receiveStatus ec (s.text ++ rest)) c =
      exec (receiveStatusMessage ec rest) { c with
        responseParser := .httpStatusDone, statusPromise := some (.ok n) } := by
  have hparse := parseUntil_of_follows (by decide) (follows_status s) rest
  rw [receiveStatus, parseStatus, exec_fallThrough_accepted (by rw [hparser, hparse]), hparser,
    hparse, hparsed, List.nil_append, Status.text, trim_status, hn]
  exact exec_bind_of_ok (exec_setStatus hpromise)

theorem exec_receiveStatusMessage (m : StatusMessage) (rest : StdString)
    (hparser : c.responseParser = .httpStatusDone) (hparsed : c.partialParsed = [])
    (hpromise : c.statusMessagePromise = none) :
    exec (receiveStatusMessage ec (m.text ++ rest)) c =
      exec (receiveHeaders ec rest) { c with
        responseParser := .httpStatusMessageDone
        statusMessagePromise := some (.ok (m.phrase.rdropWhile isSpace)) } := by
  have hparse := parseUntil_of_follows (by decide) (follows_message m) rest
  rw [receiveStatusMessage, parseStatusMessage,
    exec_fallThrough_accepted (by rw [hparser, hparse]), hparser, hparse, hparsed,
    List.nil_append, trim_message]
  exact exec_bind_of_ok (exec_setStatusMessage hpromise)

theorem exec_receiveHeaders (lines : List HeaderLine) (rest : StdString)
    (hparser : c.responseParser = .httpStatusMessageDone) (hparsed : c.partialParsed = [])
    (hpromise : c.headersPromise = none) :
    exec (receiveHeaders ec (headerText lines ++ rest)) c =
      exec (afterHead ec rest) { c with
        responseParser := .httpHeadersDone
        isChunkEncoding :=
          chunkEncoding (OrderedMultimap.ofList less (lines.map HeaderLine.entry))
        headersPromise := some (.ok (OrderedMultimap.ofList less (lines.map HeaderLine.entry))) } := by
  have hat : atLine .httpStatusMessageDone = true := rfl
  have hparse := parseUntil_of_follows (by decide) (follows_headers hat lines) rest
  rw [receiveHeaders, parseHeaders, exec_fallThrough_accepted (by rw [hparser, hparse]), hparser,
    hparse, hparsed, List.nil_append, parseHeadersReal_headerText]
  rw [bind_assoc, exec_modify_bind]
  exact exec_bind_of_ok (exec_setHeaders hpromise)

/-- The connection behind the head of a response. -/
def behindHead (c : Connection) (h : Head) (n : ℕ) : Connection :=
  { c with
    responseParser := .httpHeadersDone
    versionPromise := some (.ok h.version.name)
    statusPromise := some (.ok n)
    statusMessagePromise := some (.ok (h.message.phrase.rdropWhile isSpace))
    headersPromise := some (.ok h.headers)
    isChunkEncoding := chunkEncoding h.headers
    waiting := .nothing }

theorem receive_head (hc : Fresh c) (h : Head) {n : ℕ} (hn : lexicalCast h.status.digits = some n)
    (rest : StdString) :
    receive c (h.text ++ rest) = settled (exec (afterHead none rest) (behindHead c h n)) := by
  have htext : h.text ++ rest = h.version.text ++ (h.status.text ++ (h.message.text ++
      (headerText h.lines ++ rest))) := by simp [Head.text]
  rw [receive_eq_resume, resume, hc.waiting]
  simp only [receiveData]
  rw [htext, exec_receiveVersion _ _ (by exact hc.parser) (by exact hc.partialParsed)
      (by exact hc.version),
    exec_receiveStatus _ _ hn rfl (by exact hc.partialParsed) (by exact hc.status),
    exec_receiveStatusMessage _ _ rfl (by exact hc.partialParsed) (by exact hc.statusMessage),
    exec_receiveHeaders _ _ rfl (by exact hc.partialParsed) (by exact hc.headers)]
  rfl

/-- What the response says is what the promises say. -/
structure Answers (c : Connection) (h : Head) (n : ℕ) (body : StdString) : Prop where
  version : c.versionPromise = some (.ok h.version.name)
  status : c.statusPromise = some (.ok n)
  statusMessage : c.statusMessagePromise = some (.ok (h.message.phrase.rdropWhile isSpace))
  headers : c.headersPromise = some (.ok h.headers)
  body : c.bodyPromise = some (.ok body)
  source : c.sourcePromise = some (.ok [])
  destination : c.destinationPromise = some (.ok [])
  waiting : c.waiting = .nothing

theorem answers_visible {h : Head} {n : ℕ} {body : StdString} :
    Answers (visible c) h n body ↔ Answers c h n body := by
  constructor
  · intro ha
    by_cases hwaiting : c.waiting = .nothing
    · have hvisible : visible c = { c with partialParsed := [] } := by simp [visible, hwaiting]
      rw [hvisible] at ha
      exact ⟨ha.version, ha.status, ha.statusMessage, ha.headers, ha.body, ha.source,
        ha.destination, ha.waiting⟩
    · rwa [visible_of_waiting hwaiting] at ha
  · intro ha
    have hvisible : visible c = { c with partialParsed := [] } := by simp [visible, ha.waiting]
    rw [hvisible]
    exact ⟨ha.version, ha.status, ha.statusMessage, ha.headers, ha.body, ha.source,
      ha.destination, ha.waiting⟩

/-- The body of a response: nothing for a `HEAD` request, else what is behind
the head, put together from its chunks if the headers say that it is chunked. -/
def content (c : Connection) (h : Head) (rest : StdString) : Option StdString :=
  if !c.getBody then some []
  else if chunkEncoding h.headers then ChunkedBody.parseChunkEncoding rest
  else some rest

theorem exec_closeResponse (hsource : c.sourcePromise = none)
    (hdestination : c.destinationPromise = none) :
    exec closeResponse c = (.ok (), { c with
      destinationPromise := some (.ok [])
      sourcePromise := some (.ok [])
      responseParser := .httpResponseBegin }) := by
  rw [closeResponse, exec_bind_of_ok (exec_setDestination hdestination),
    exec_bind_of_ok (exec_setSource (by exact hsource)), exec_modify]

/-- The end of the connection is the end of the body. -/
theorem exec_receiveBody_end {e : ErrorCode} (he : e.isEnd = true) (hcallback : c.callback = false)
    {body : StdString}
    (hbody : (if c.isChunkEncoding then ChunkedBody.parseChunkEncoding c.partialParsed
      else some c.partialParsed) = some body)
    (hpromise : c.bodyPromise = none) :
    exec (receiveBody (some e) []) c = exec closeResponse { c with
      partialParsed := [], bodyPromise := some (.ok body) } := by
  rw [receiveBody, exec_get_bind]
  simp only [Option.any_some, he, if_true, hcallback, Bool.false_eq_true, if_false,
    List.append_nil]
  cases hchunk : c.isChunkEncoding with
  | true =>
    simp only [hchunk, if_true] at hbody ⊢
    rw [hbody, exec_set_bind]
    exact exec_bind_of_ok (exec_setBody hpromise)
  | false =>
    simp only [hchunk, Bool.false_eq_true, if_false, Option.some.injEq] at hbody ⊢
    rw [hbody, exec_set_bind]
    exact exec_bind_of_ok (exec_setBody hpromise)

theorem exchange_head (hc : Fresh c) (h : Head) {n : ℕ} (hn : lexicalCast h.status.digits = some n)
    {rest body : StdString} (hbody : content c h rest = some body) {e : ErrorCode}
    (he : e.isEnd = true) : Answers (exchange c [h.text ++ rest] e) h n body := by
  rw [exchange, List.foldl_cons, List.foldl_nil, receive_head hc h hn]
  cases hget : c.getBody with
  | false =>
    obtain rfl : [] = body := by simpa [content, hget] using hbody
    have hclosed : exec (afterHead none rest) (behindHead c h n) = (.ok (), { behindHead c h n with
        bodyPromise := some (.ok [])
        destinationPromise := some (.ok [])
        sourcePromise := some (.ok [])
        responseParser := .httpResponseBegin }) := by
      rw [exec_afterHead_head none (by exact hget), exec_bind_of_ok (exec_setBody (by exact hc.body))]
      exact exec_closeResponse hc.source hc.destination
    rw [hclosed, settled_ok, finish_of_nothing rfl]
    exact ⟨rfl, rfl, rfl, rfl, rfl, rfl, rfl, rfl⟩
  | true =>
    have hread : exec (afterHead none rest) (behindHead c h n) = (.ok (), { behindHead c h n with
        partialParsed := rest, waiting := .readSome .body }) := by
      rw [exec_afterHead_body none (by exact hget) (by exact hc.callback), parseBody,
        exec_modify_bind, readSome, exec_modify]
      simp [behindHead, hc.partialParsed]
    have hcontent : (if chunkEncoding h.headers then ChunkedBody.parseChunkEncoding rest
        else some rest) = some body := by
      simpa [content, hget] using hbody
    rw [hread, settled_ok, finish, step]
    simp only [handler?, Option.map_some, Option.getD_some, handleReceivedData, he, if_true,
      receiveData]
    rw [exec_receiveBody_end he (by exact hc.callback) (by exact hcontent) (by exact hc.body),
      exec_closeResponse (by exact hc.source) (by exact hc.destination)]
    exact ⟨rfl, rfl, rfl, rfl, rfl, rfl, rfl, rfl⟩

/-- Whatever the pieces, a response with a well-formed head settles each promise
with the part of the response it stands for. -/
theorem exchange_answers (hc : Fresh c) (h : Head) {n : ℕ}
    (hn : lexicalCast h.status.digits = some n) {rest body : StdString}
    (hbody : content c h rest = some body) {e : ErrorCode} (he : e.isEnd = true)
    {pieces : List StdString} (hpieces : pieces.flatten = h.text ++ rest) :
    Answers (exchange c pieces e) h n body := by
  cases pieces with
  | nil =>
    have hlen := congrArg List.length hpieces
    simp [Head.text, Version.text] at hlen
  | cons data pieces =>
    rw [← answers_visible, exchange_pieces hc.callback, ← List.flatten_cons, hpieces,
      answers_visible]
    exact exchange_head hc h hn hbody he

/-- `HTTP/1.1 200 OK` with one header line. -/
def headOk : Head where
  version := ⟨[], '1'.toUInt8, '1'.toUInt8, List.forall_mem_nil _, by decide, by decide⟩
  status := ⟨'2'.toUInt8, lit "00", by decide, forall_mem_of_all (by decide)⟩
  message := ⟨'O'.toUInt8, lit "K", by decide, forall_mem_of_all (by decide)⟩
  lines := [⟨'S'.toUInt8, lit "erver", lit " ", 'x'.toUInt8, [], by decide,
    forall_mem_of_all (by decide), forall_mem_of_all (by decide), by decide,
    List.forall_mem_nil _⟩]

theorem fresh_reading : Fresh { waiting := .readSome .version } := by
  constructor <;> rfl

/-- A property of the connection that reading the body leaves alone. -/
structure BodyFrame (P : Connection → Prop) : Prop where
  body : ∀ c r, P c → P { c with bodyPromise := r }
  source : ∀ c r, P c → P { c with sourcePromise := r }
  destination : ∀ c r, P c → P { c with destinationPromise := r }
  parser : ∀ c s, P c → P { c with responseParser := s }
  partialParsed : ∀ c text, P c → P { c with partialParsed := text }
  callbackCalls : ∀ c calls, P c → P { c with callbackCalls := calls }
  readSome : ∀ c, P c → P { c with waiting := .readSome .body }

theorem keeps_settle {P : Connection → Prop} {α : Type} {promise : Connection → Promise α}
    {put : Connection → Promise α → Connection} {r : Except NetError α}
    (h : ∀ c, P c → P (put c (some r))) : Keeps P (settle promise put r) := by
  refine .get_bind fun c hc => ?_
  cases promise c with
  | none => exact h c hc
  | some _ => exact hc

section Frame

variable {P : Connection → Prop}

theorem keeps_setBody (hP : BodyFrame P) (r : Except NetError StdString) : Keeps P (setBody r) :=
  keeps_settle fun c => hP.body c _

theorem keeps_callCallback (hP : BodyFrame P) (range : StdString) (ec : Option ErrorCode) :
    Keeps P (callCallback range ec) :=
  .modify fun c => hP.callbackCalls c _

theorem keeps_closeResponse (hP : BodyFrame P) : Keeps P closeResponse :=
  (keeps_settle fun c => hP.destination c _).bind fun _ =>
    (keeps_settle fun c => hP.source c _).bind fun _ => .modify fun c => hP.parser c _

theorem keeps_parseBody (hP : BodyFrame P) (input : StdString) : Keeps P (parseBody input) :=
  .bind (.modify fun c => hP.partialParsed c _) fun _ => .modify hP.readSome

theorem keeps_receiveBody (hP : BodyFrame P) (ec : Option ErrorCode) (input : StdString) :
    Keeps P (receiveBody ec input) := by
  refine .get_bind fun c hc => ?_
  split
  · split
    · exact (keeps_callCallback hP input ec).bind (fun _ => keeps_closeResponse hP) c hc
    · have htext := hP.partialParsed c [] hc
      simp only [exec_set_bind]
      split
      · cases ChunkedBody.parseChunkEncoding (c.partialParsed ++ input) with
        | some body => exact (keeps_setBody hP _).bind (fun _ => keeps_closeResponse hP) _ htext
        | none => exact htext
      · exact (keeps_setBody hP _).bind (fun _ => keeps_closeResponse hP) _ htext
  · split
    · exact (keeps_callCallback hP input ec).bind (fun _ => .modify hP.readSome) c hc
    · exact keeps_parseBody hP input c hc

theorem keeps_afterHead (hP : BodyFrame P) (ec : Option ErrorCode) (input : StdString) :
    Keeps P (afterHead ec input) := by
  refine .get_bind fun c hc => ?_
  split
  · exact (keeps_setBody hP _).bind (fun _ => keeps_closeResponse hP) c hc
  · split
    · exact (keeps_setBody hP _).bind (fun _ => (keeps_callCallback hP input ec).bind
        fun _ => .modify hP.readSome) c hc
    · exact keeps_parseBody hP input c hc

end Frame

/-- Where the parser stops in a stage. -/
def stopState : Stage → State
  | .version => .httpVersionDone
  | .status => .httpStatusDone
  | .statusMessage => .httpStatusMessageDone
  | .headers => .httpHeadersDone
  | .body => .httpHeadersDone

theorem step_end {c : Connection} (stage : Stage) (hwaiting : c.waiting = .readSome stage)
    (hstage : stage ≠ .body) (hgoing : c.responseParser ≠ stopState stage) {e : ErrorCode}
    (he : e.isEnd = true) : step c (.received (some e) []) = some c := by
  have hexec : exec (receiveData stage (some e) []) { c with waiting := .nothing } = (.ok (), c) := by
    have hc : ({ c with waiting := .readSome stage } : Connection) = c := by rw [← hwaiting]
    cases stage with
    | body => exact absurd rfl hstage
    | version | status | statusMessage | headers =>
      exact (exec_fallThrough_nil (by exact hgoing)).trans (by rw [hc])
  rw [step, hwaiting]
  simp only [handler?, Option.map_some, handleReceivedData, he, if_true, hexec, settled_ok]

/-- The headers promise holds no value: it is open or has an error. -/
def NoHeaders (c : Connection) : Prop := ∀ headers, c.headersPromise ≠ some (.ok headers)

theorem keeps_failHeaders (error : NetError) : Keeps NoHeaders (failHeaders error) :=
  (keeps_settle fun _ _ => by simp [NoHeaders]).bind fun _ => (keeps_settle fun _ h => h).bind
    fun _ => (keeps_settle fun _ h => h).bind fun _ => keeps_settle fun _ h => h

theorem keeps_failStatusMessage (error : NetError) : Keeps NoHeaders (failStatusMessage error) :=
  (keeps_settle fun _ h => h).bind fun _ => (keeps_settle fun _ _ => by simp [NoHeaders]).bind
    fun _ => (keeps_settle fun _ h => h).bind fun _ => (keeps_settle fun _ h => h).bind
      fun _ => keeps_settle fun _ h => h

theorem keeps_failStatus (error : NetError) : Keeps NoHeaders (failStatus error) :=
  (keeps_settle fun _ h => h).bind fun _ => keeps_failStatusMessage error

theorem keeps_failVersion (error : NetError) : Keeps NoHeaders (failVersion error) :=
  (keeps_settle fun _ h => h).bind fun _ => keeps_failStatus error

theorem noHeaders_settled {x : HandlerM Unit} {e : ErrorCode} (hx : Settles x)
    (hfail : Keeps NoHeaders x) (hc : NoHeaders c) (hwaiting : c.waiting = .nothing) :
    NoHeaders (finish e (settled (exec x c))) := by
  rw [finish_of_nothing (settled_waiting ((hx.waiting c).trans hwaiting))]
  have h := hfail c hc
  rcases hexec : exec x c with ⟨_ | _, c'⟩
  · rwa [hexec] at h
  · rwa [hexec] at h

/-- A case whose part is not accepted never sets the headers, whether the
connection then ends or not. -/
theorem noHeaders_fallThrough (stage : Stage) {done : StdString → HandlerM Unit}
    {invalid : HandlerM Unit} {next : StdString → HandlerM Unit} {c : Connection} {e : ErrorCode}
    {input : StdString} (he : e.isEnd = true) (hstage : stage ≠ .body) (hinvalid : Settles invalid)
    (hfail : Keeps NoHeaders invalid) (hc : NoHeaders c) (hwaiting : c.waiting = .nothing)
    (h : (parseUntil (stopState stage) c.responseParser input).verdict ≠ .accepted) :
    NoHeaders (finish e (settled (exec
      (fallThrough (parsePart (stopState stage) stage done invalid) next input) c))) := by
  cases hverdict : (parseUntil (stopState stage) c.responseParser input).verdict with
  | accepted => exact absurd hverdict h
  | pending =>
    have hgoing : (parseUntil (stopState stage) c.responseParser input).state.1 ≠
        stopState stage := fun hstop => h (parseUntil_accepted_iff.mpr hstop)
    rw [exec_fallThrough_pending hverdict, settled_ok, finish,
      step_end stage rfl hstage (by exact hgoing) he]
    exact hc
  | refused =>
    rw [exec_fallThrough_refused hverdict]
    exact noHeaders_settled hinvalid hfail hc hwaiting

section Converse

variable {e : ErrorCode} {headers : Headers} {input : StdString}

/-- With the headers set at the end, the bytes start with a version. -/
theorem exists_version_of_headers (he : e.isEnd = true) (hc : NoHeaders c)
    (hwaiting : c.waiting = .nothing) (hparser : c.responseParser = .httpResponseBegin)
    (h : (finish e (settled (exec (receiveVersion ec input) c))).headersPromise =
      some (.ok headers)) : ∃ (v : Version) (rest : StdString), input = v.text ++ rest := by
  by_cases hverdict : (parseUntil .httpVersionDone c.responseParser input).verdict = .accepted
  · rw [hparser] at hverdict
    obtain ⟨w, rest, rfl, hw⟩ := exists_of_accepted hverdict
    obtain ⟨v, rfl⟩ := exists_version hw
    exact ⟨v, rest, rfl⟩
  · exact absurd h (noHeaders_fallThrough .version he (by decide)
      ((settles_setVersion _).bind (settles_failStatus _)) (keeps_failVersion _) hc hwaiting
      hverdict _)

theorem exists_status_of_headers (he : e.isEnd = true) (hc : NoHeaders c)
    (hwaiting : c.waiting = .nothing) (hparser : c.responseParser = .httpVersionDone)
    (h : (finish e (settled (exec (receiveStatus ec input) c))).headersPromise =
      some (.ok headers)) : ∃ (s : Status) (rest : StdString), input = s.text ++ rest := by
  by_cases hverdict : (parseUntil .httpStatusDone c.responseParser input).verdict = .accepted
  · rw [hparser] at hverdict
    obtain ⟨w, rest, rfl, hw⟩ := exists_of_accepted hverdict
    obtain ⟨s, rfl⟩ := exists_status hw
    exact ⟨s, rest, rfl⟩
  · exact absurd h (noHeaders_fallThrough .status he (by decide)
      (settles_failStatus _) (keeps_failStatus _) hc hwaiting hverdict _)

theorem exists_message_of_headers (he : e.isEnd = true) (hc : NoHeaders c)
    (hwaiting : c.waiting = .nothing) (hparser : c.responseParser = .httpStatusDone)
    (h : (finish e (settled (exec (receiveStatusMessage ec input) c))).headersPromise =
      some (.ok headers)) : ∃ (m : StatusMessage) (rest : StdString), input = m.text ++ rest := by
  by_cases hverdict : (parseUntil .httpStatusMessageDone c.responseParser input).verdict = .accepted
  · rw [hparser] at hverdict
    obtain ⟨w, rest, rfl, hw⟩ := exists_of_accepted hverdict
    obtain ⟨m, rfl⟩ := exists_message hw
    exact ⟨m, rest, rfl⟩
  · exact absurd h (noHeaders_fallThrough .statusMessage he (by decide)
      (settles_failStatusMessage _) (keeps_failStatusMessage _) hc hwaiting hverdict _)

theorem exists_lines_of_headers (he : e.isEnd = true) (hc : NoHeaders c)
    (hwaiting : c.waiting = .nothing) (hparser : c.responseParser = .httpStatusMessageDone)
    (h : (finish e (settled (exec (receiveHeaders ec input) c))).headersPromise =
      some (.ok headers)) :
    ∃ (lines : List HeaderLine) (rest : StdString), input = headerText lines ++ rest := by
  by_cases hverdict : (parseUntil .httpHeadersDone c.responseParser input).verdict = .accepted
  · rw [hparser] at hverdict
    obtain ⟨w, rest, rfl, hw⟩ := exists_of_accepted hverdict
    obtain ⟨lines, rfl⟩ := exists_headers rfl hw
    exact ⟨lines, rest, rfl⟩
  · exact absurd h (noHeaders_fallThrough .headers he (by decide)
      (settles_failHeaders _) (keeps_failHeaders _) hc hwaiting hverdict _)

/-- A status that does not fit its type leaves the headers open. -/
theorem lexicalCast_of_headers (s : Status) (rest : StdString) (hc : NoHeaders c)
    (hparser : c.responseParser = .httpVersionDone) (hparsed : c.partialParsed = [])
    (h : (finish e (settled (exec (receiveStatus ec (s.text ++ rest)) c))).headersPromise =
      some (.ok headers)) : ∃ n, lexicalCast s.digits = some n := by
  cases hn : lexicalCast s.digits with
  | some n => exact ⟨n, rfl⟩
  | none =>
    have hparse := parseUntil_of_follows (by decide) (follows_status s) rest
    rw [receiveStatus, parseStatus, exec_fallThrough_accepted (by rw [hparser, hparse]), hparser,
      hparse, hparsed, List.nil_append, Status.text, trim_status, hn,
      exec_bind_of_error exec_throw, finish_of_nothing rfl] at h
    exact absurd h (hc _)

/-- The headers are set at the end only if the bytes start with a head. -/
theorem exists_head_of_headers (hc : Fresh c) (he : e.isEnd = true)
    (h : (exchange c [input] e).headersPromise = some (.ok headers)) :
    ∃ (hd : Head) (n : ℕ) (rest : StdString), input = hd.text ++ rest ∧
      lexicalCast hd.status.digits = some n := by
  have hnone : NoHeaders c := by
    intro _
    simp [hc.headers]
  rw [exchange, List.foldl_cons, List.foldl_nil, receive_eq_resume, resume, hc.waiting] at h
  simp only [receiveData] at h
  obtain ⟨v, rest₁, rfl⟩ :=
    exists_version_of_headers he (by exact hnone) rfl (by exact hc.parser) h
  rw [exec_receiveVersion _ _ (by exact hc.parser) (by exact hc.partialParsed)
    (by exact hc.version)] at h
  obtain ⟨s, rest₂, rfl⟩ := exists_status_of_headers he (by exact hnone) rfl rfl h
  obtain ⟨n, hn⟩ := lexicalCast_of_headers s rest₂ (by exact hnone) rfl (by exact hc.partialParsed) h
  rw [exec_receiveStatus _ _ hn rfl (by exact hc.partialParsed) (by exact hc.status)] at h
  obtain ⟨m, rest₃, rfl⟩ := exists_message_of_headers he (by exact hnone) rfl rfl h
  rw [exec_receiveStatusMessage _ _ rfl (by exact hc.partialParsed)
    (by exact hc.statusMessage)] at h
  obtain ⟨lines, rest, rfl⟩ := exists_lines_of_headers he (by exact hnone) rfl rfl h
  exact ⟨⟨v, s, m, lines⟩, n, rest, by simp [Head.text], hn⟩

end Converse

/-- A connection that reads the body or has ended, with the headers promise as it
is. -/
def InBody (r : Promise Headers) (c : Connection) : Prop :=
  (c.waiting = .nothing ∨ c.waiting = .readSome .body) ∧ c.headersPromise = r

theorem bodyFrame_inBody (r : Promise Headers) : BodyFrame (InBody r) where
  body _ _ h := h
  source _ _ h := h
  destination _ _ h := h
  parser _ _ h := h
  partialParsed _ _ h := h
  callbackCalls _ _ h := h
  readSome _ h := ⟨.inr rfl, h.2⟩

theorem inBody_settled {r : Promise Headers} {x : HandlerM Unit} (hx : Keeps (InBody r) x)
    (hc : InBody r c) : InBody r (settled (exec x c)) := by
  have h := hx c hc
  rcases hexec : exec x c with ⟨e | _, c'⟩
  · rw [hexec] at h
    exact ⟨.inl rfl, h.2⟩
  · rwa [hexec] at h

theorem inBody_finish {r : Promise Headers} {e : ErrorCode} (he : e.isEnd = true)
    (hc : InBody r c) : InBody r (finish e c) := by
  obtain hwaiting | hwaiting := hc.1
  · rwa [finish_of_nothing hwaiting]
  · rw [finish, step, hwaiting]
    simp only [handler?, Option.map_some, Option.getD_some, handleReceivedData, he, if_true,
      receiveData]
    exact inBody_settled (keeps_receiveBody (bodyFrame_inBody r) (some e) []) ⟨.inl rfl, hc.2⟩

theorem headers_visible (c : Connection) : (visible c).headersPromise = c.headersPromise := by
  simp only [visible]
  split <;> rfl

/-- A read that brings nothing is as good as none. -/
theorem receive_nil (hc : Fresh c) : receive c [] = c := by
  obtain ⟨hwaiting, hparser, hpartial, -⟩ := hc
  obtain ⟨⟩ := c
  subst hwaiting hparser hpartial
  rfl

/-- The promise of the headers gets a value exactly when the bytes, in whatever
pieces, start with a well-formed head whose status fits its type; the value is what
the header lines of that head stand for. -/
theorem exchange_headers_iff (hc : Fresh c) {e : ErrorCode} (he : e.isEnd = true)
    (pieces : List StdString) (headers : Headers) :
    (exchange c pieces e).headersPromise = some (.ok headers) ↔
      ∃ (h : Head) (n : ℕ) (rest : StdString), pieces.flatten = h.text ++ rest ∧
        lexicalCast h.status.digits = some n ∧ headers = h.headers := by
  have hhead : ∀ (h : Head) (n : ℕ) (rest : StdString), lexicalCast h.status.digits = some n →
      (exchange c [h.text ++ rest] e).headersPromise = some (.ok h.headers) := by
    intro h n rest hn
    rw [exchange, List.foldl_cons, List.foldl_nil, receive_head hc h hn]
    exact (inBody_finish he (inBody_settled
      (keeps_afterHead (bodyFrame_inBody (some (.ok h.headers))) none rest) ⟨.inl rfl, rfl⟩)).2
  -- all pieces as one
  have hone : (exchange c pieces e).headersPromise =
      (exchange c [pieces.flatten] e).headersPromise := by
    cases pieces with
    | nil =>
      show (finish e c).headersPromise = (finish e (receive c [])).headersPromise
      rw [receive_nil hc]
    | cons data pieces => rw [← headers_visible, exchange_pieces hc.callback, headers_visible,
        List.flatten_cons]
  rw [hone]
  constructor
  · intro h
    obtain ⟨hd, n, rest, htext, hn⟩ := exists_head_of_headers hc he h
    rw [htext, hhead hd n rest hn] at h
    exact ⟨hd, n, rest, htext, hn, by simpa [eq_comm] using h⟩
  · rintro ⟨hd, n, rest, htext, hn, rfl⟩
    rw [htext]
    exact hhead hd n rest hn

theorem exchange_headers_iff_ok :
    (exchange { waiting := .readSome .version }
        [lit "HTTP/1.1 200 OK\r", lit "\nServer: x\r\n\r\nhello"] .eof).headersPromise =
      some (.ok [(lit "Server", lit "x")]) := by
  refine (exchange_headers_iff fresh_reading rfl _ _).mpr ⟨headOk, 200, lit "hello", ?_, ?_, ?_⟩
  · decide
  · decide
  · decide +kernel

end Connection

end HttpBackground
