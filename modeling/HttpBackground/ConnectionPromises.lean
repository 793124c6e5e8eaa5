import HttpBackground.ResponseReading
import HttpBackground.Transition
import Mathlib.Data.Fintype.Sets

/-!
# The promises of a connection

A handler that sets a promise twice throws, and a promise that is never set
leaves its reader waiting. Each stage has its set of promises that are settled
before it; a handler either stays in its stage, moves on to a later one or
settles all that is still open.
-/
namespace HttpBackground

namespace Connection

open Scanning ResponseParser StdString Effects

inductive Slot
  | version
  | status
  | statusMessage
  | headers
  | source
  | destination
  | body
  deriving DecidableEq, Repr

instance : Fintype Slot where
  elems := {.version, .status, .statusMessage, .headers, .source, .destination, .body}
  complete slot := by cases slot <;> decide

/-- Whether a promise has been settled. -/
def isSet (c : Connection) : Slot → Bool
  | .version => c.versionPromise.isSome
  | .status => c.statusPromise.isSome
  | .statusMessage => c.statusMessagePromise.isSome
  | .headers => c.headersPromise.isSome
  | .source => c.sourcePromise.isSome
  | .destination => c.destinationPromise.isSome
  | .body => c.bodyPromise.isSome

/-- The connection without its promises. -/
def control (c : Connection) : Connection :=
  { c with
    versionPromise := none
    statusPromise := none
    statusMessagePromise := none
    headersPromise := none
    sourcePromise := none
    destinationPromise := none
    bodyPromise := none }

/-- The promises that are settled when a stage begins. A body callback is told
by the body promise that the body begins. -/
def settledAt (callback : Bool) : Stage → List Slot
  | .version => []
  | .status => [.version]
  | .statusMessage => [.version, .status]
  | .headers => [.version, .status, .statusMessage]
  | .body => [.version, .status, .statusMessage, .headers] ++ if callback then [.body] else []

def AllSettled (c : Connection) : Prop := ∀ slot, c.isSet slot = true

/-- A computation that settles the promises of a list, given that they are open,
and does nothing else. -/
def SetsAll (slots : List Slot) (x : HandlerM Unit) : Prop :=
  ∀ c : Connection, (∀ slot ∈ slots, c.isSet slot = false) →
    ∃ c', exec x c = (.ok (), c') ∧ c'.control = c.control ∧
      ∀ slot, c'.isSet slot = (c.isSet slot || decide (slot ∈ slots))

theorem SetsAll.settle {α : Type} {promise : Connection → Promise α}
    {put : Connection → Promise α → Connection} {r : Except NetError α} {slot : Slot}
    (hpromise : ∀ c, c.isSet slot = (promise c).isSome)
    (hcontrol : ∀ c p, (put c p).control = c.control)
    (hset : ∀ c p s, (put c p).isSet s = if s = slot then p.isSome else c.isSet s) :
    SetsAll [slot] (settle promise put r) := by
  intro c hopen
  have hnone : promise c = none := by
    have := hopen slot (by simp)
    rw [hpromise] at this
    simpa using this
  refine ⟨put c (some r), exec_settle hnone, hcontrol _ _, ?_⟩
  intro s
  rw [hset]
  by_cases hs : s = slot <;> simp [hs]

/-- One computation after the other, on different promises. -/
theorem SetsAll.bind {l m : List Slot} {x y : HandlerM Unit} (hx : SetsAll l x) (hy : SetsAll m y)
    (hdisjoint : ∀ slot ∈ m, slot ∉ l) : SetsAll (l ++ m) (do x; y) := by
  intro c hopen
  obtain ⟨c', hexec, hcontrol, hset⟩ := hx c fun s hs => hopen s (List.mem_append_left m hs)
  obtain ⟨c'', hexec', hcontrol', hset'⟩ := hy c' (by
    intro s hs
    rw [hset, hopen s (List.mem_append_right l hs)]
    simpa using hdisjoint s hs)
  refine ⟨c'', (exec_bind_of_ok hexec).trans hexec', hcontrol'.trans hcontrol, ?_⟩
  intro s
  rw [hset', hset]
  simp [Bool.or_assoc]

theorem setsAll_version (r : Except NetError StdString) : SetsAll [.version] (setVersion r) :=
  .settle (fun _ => rfl) (fun _ _ => rfl) fun _ _ s => by cases s <;> rfl

theorem setsAll_status (r : Except NetError ℕ) : SetsAll [.status] (setStatus r) :=
  .settle (fun _ => rfl) (fun _ _ => rfl) fun _ _ s => by cases s <;> rfl

theorem setsAll_statusMessage (r : Except NetError StdString) :
    SetsAll [.statusMessage] (setStatusMessage r) :=
  .settle (fun _ => rfl) (fun _ _ => rfl) fun _ _ s => by cases s <;> rfl

theorem setsAll_headers (r : Except NetError Headers) : SetsAll [.headers] (setHeaders r) :=
  .settle (fun _ => rfl) (fun _ _ => rfl) fun _ _ s => by cases s <;> rfl

theorem setsAll_source (r : Except NetError StdString) : SetsAll [.source] (setSource r) :=
  .settle (fun _ => rfl) (fun _ _ => rfl) fun _ _ s => by cases s <;> rfl

theorem setsAll_destination (r : Except NetError StdString) :
    SetsAll [.destination] (setDestination r) :=
  .settle (fun _ => rfl) (fun _ _ => rfl) fun _ _ s => by cases s <;> rfl

theorem setsAll_body (r : Except NetError StdString) : SetsAll [.body] (setBody r) :=
  .settle (fun _ => rfl) (fun _ _ => rfl) fun _ _ s => by cases s <;> rfl

theorem setsAll_failHeaders (error : NetError) :
    SetsAll [.headers, .body, .source, .destination] (failHeaders error) :=
  (setsAll_headers _).bind ((setsAll_body _).bind ((setsAll_source _).bind
    (setsAll_destination _) (by decide)) (by decide)) (by decide)

theorem setsAll_failStatusMessage (error : NetError) :
    SetsAll [.statusMessage, .headers, .source, .destination, .body] (failStatusMessage error) :=
  (setsAll_statusMessage _).bind ((setsAll_headers _).bind ((setsAll_source _).bind
    ((setsAll_destination _).bind (setsAll_body _) (by decide)) (by decide)) (by decide))
    (by decide)

theorem setsAll_failStatus (error : NetError) :
    SetsAll [.status, .statusMessage, .headers, .source, .destination, .body] (failStatus error) :=
  (setsAll_status _).bind (setsAll_failStatusMessage error) (by decide)

theorem setsAll_failVersion (error : NetError) :
    SetsAll [.version, .status, .statusMessage, .headers, .source, .destination, .body]
      (failVersion error) :=
  (setsAll_version _).bind (setsAll_failStatus error) (by decide)

theorem setsAll_setErrors (ec : ErrorCode) :
    SetsAll [.version, .status, .statusMessage, .headers, .source, .destination, .body]
      (setErrors ec) :=
  setsAll_failVersion (.systemError ec)

/-- What is open in a stage but for the source and the destination. -/
def openFrom : Stage → List Slot
  | .version => [.version, .status, .statusMessage, .headers, .body]
  | .status => [.status, .statusMessage, .headers, .body]
  | .statusMessage => [.statusMessage, .headers, .body]
  | .headers => [.headers, .body]
  | .body => [.body]

theorem setsAll_failFrom (stage : Stage) (error : NetError) :
    SetsAll (openFrom stage) (failFrom stage error) := by
  cases stage with
  | version =>
    exact (setsAll_version _).bind ((setsAll_status _).bind ((setsAll_statusMessage _).bind
      ((setsAll_headers _).bind (setsAll_body _) (by decide)) (by decide)) (by decide)) (by decide)
  | status =>
    exact (setsAll_status _).bind ((setsAll_statusMessage _).bind ((setsAll_headers _).bind
      (setsAll_body _) (by decide)) (by decide)) (by decide)
  | statusMessage =>
    exact (setsAll_statusMessage _).bind ((setsAll_headers _).bind (setsAll_body _) (by decide))
      (by decide)
  | headers => exact (setsAll_headers _).bind (setsAll_body _) (by decide)
  | body => exact setsAll_body _

/-- Where the parser stands when a stage begins. -/
def startState : Stage → State
  | .version => .httpResponseBegin
  | .status => .httpVersionDone
  | .statusMessage => .httpStatusDone
  | .headers => .httpStatusMessageDone
  | .body => .httpHeadersDone

/-- The connection in a stage: the promises before it are settled, and
`partial_parsed` has brought the parser where it stands. -/
structure Awaits (stage : Stage) (c : Connection) : Prop where
  isSet : ∀ slot, c.isSet slot = decide (slot ∈ settledAt c.callback stage)
  parser : stage ≠ .body →
    follows (stopState stage) (startState stage) c.partialParsed = some c.responseParser
  going : stage ≠ .body → c.responseParser ≠ stopState stage

/-- The promises of a connection that has ended, by the exception that ended it.
A status that does not fit its type leaves only the version settled, and a chunked
body that cannot be put together leaves only the head settled. -/
def Ended (c : Connection) : Prop :=
  match c.escaped with
  | none => AllSettled c
  | some .promiseAlreadySatisfied => c.callback = true ∧ AllSettled c
  | some .badLexicalCast => ∀ slot, c.isSet slot = decide (slot ∈ settledAt c.callback .status)
  | some .undefined => c.callback = false ∧ c.isChunkEncoding = true ∧
      ∀ slot, c.isSet slot = decide (slot ∈ settledAt c.callback .body)
  | some .endless => False

/-- What holds of the connection between two completions. -/
structure Inv (c : Connection) : Prop where
  sending : c.waiting = .write ∨ (∃ port, c.waiting = .resolve port) ∨
    (∃ endpoint others, c.waiting = .connect endpoint others) → Awaits .version c
  reading : ∀ stage, c.waiting = .readSome stage → Awaits stage c
  running : c.waiting ≠ .nothing → c.escaped = none
  ended : c.waiting = .nothing → Ended c

theorem inv_of_ended {c : Connection} (hwaiting : c.waiting = .nothing) (h : Ended c) : Inv c where
  sending h := by simp [hwaiting] at h
  reading stage h := by simp [hwaiting] at h
  running h := absurd hwaiting h
  ended _ := h

theorem inv_of_settled {c : Connection} (hwaiting : c.waiting = .nothing) (he : c.escaped = none)
    (hset : AllSettled c) : Inv c :=
  inv_of_ended hwaiting (by simpa only [Ended, he] using hset)

theorem inv_of_reading {c : Connection} {stage : Stage} (hwaiting : c.waiting = .readSome stage)
    (he : c.escaped = none) (h : Awaits stage c) : Inv c where
  sending h := by simp [hwaiting] at h
  reading stage' h' := by
    obtain rfl : stage = stage' := by simpa [hwaiting] using h'
    exact h
  running _ := he
  ended h := by simp [hwaiting] at h

/-- A handler that an exception has left. -/
theorem inv_of_thrown {x : HandlerM Unit} {c c' : Connection} {e : Escape}
    (hexec : exec x c = (.error e, c')) (h : Ended { c' with escaped := some e }) :
    Inv (settled (exec x c)) := by
  rw [hexec, settled]
  exact inv_of_ended rfl h

/-- A connection in which a handler runs: no operation is in flight. -/
structure Handling (stage : Stage) (c : Connection) : Prop extends Awaits stage c where
  waiting : c.waiting = .nothing
  escaped : c.escaped = none

/-- Settling all that is open closes the connection. -/
theorem inv_of_setsAll {slots : List Slot} {x : HandlerM Unit} {stage : Stage} {c : Connection}
    (hisSet : ∀ slot, c.isSet slot = decide (slot ∈ settledAt c.callback stage))
    (hwaiting : c.waiting = .nothing) (hescaped : c.escaped = none) (hx : SetsAll slots x)
    (hopen : ∀ slot ∈ slots, slot ∉ settledAt c.callback stage)
    (hall : ∀ slot, slot ∈ settledAt c.callback stage ∨ slot ∈ slots) :
    Inv (settled (exec x c)) := by
  obtain ⟨c', hexec, hcontrol, hset⟩ := hx c fun slot hslot => by
    rw [hisSet]
    simpa using hopen slot hslot
  have hw : c'.control.waiting = c.control.waiting := by rw [hcontrol]
  have he : c'.control.escaped = c.control.escaped := by rw [hcontrol]
  have hw' : c'.waiting = .nothing := hw.trans hwaiting
  have he' : c'.escaped = none := he.trans hescaped
  rw [hexec, settled_ok]
  apply inv_of_settled hw' he'
  intro slot
  rw [hset, hisSet]
  simpa using hall slot

/-- The promises that are settled once the part of a stage is accepted. -/
def passed : Stage → List Slot
  | .version => [.version]
  | .status => [.version, .status]
  | .statusMessage => [.version, .status, .statusMessage]
  | .headers | .body => [.version, .status, .statusMessage, .headers]

/-- The connection behind an accepted part. -/
structure Behind (stage : Stage) (c : Connection) : Prop where
  isSet : ∀ slot, c.isSet slot = decide (slot ∈ passed stage)
  waiting : c.waiting = .nothing
  escaped : c.escaped = none
  parser : c.responseParser = stopState stage
  partialParsed : c.partialParsed = []

/-- What is done with an accepted part: its promise is settled, or an exception
ends the connection. -/
def Advances (stage : Stage) (done : StdString → HandlerM Unit) : Prop :=
  ∀ (c : Connection) (text : StdString),
    follows (stopState stage) (startState stage) text = some (stopState stage) →
    (∀ slot, c.isSet slot = decide (slot ∈ settledAt c.callback stage)) → c.waiting = .nothing →
    c.escaped = none → c.responseParser = stopState stage → c.partialParsed = [] →
    (∃ c', exec (done text) c = (.ok (), c') ∧ Behind stage c') ∨
      ∃ e c', exec (done text) c = (.error e, c') ∧ Ended { c' with escaped := some e }

/-- A part whose promise is set with a value advances. -/
theorem behind_of_sets {stage : Stage} {slot : Slot} {x : HandlerM Unit} {c : Connection}
    (hx : SetsAll [slot] x)
    (hpassed : ∀ callback, passed stage = settledAt callback stage ++ [slot])
    (hslot : ∀ callback, slot ∉ settledAt callback stage)
    (hisSet : ∀ slot, c.isSet slot = decide (slot ∈ settledAt c.callback stage))
    (hwaiting : c.waiting = .nothing) (hescaped : c.escaped = none)
    (hparser : c.responseParser = stopState stage) (hparsed : c.partialParsed = []) :
    ∃ c', exec x c = (.ok (), c') ∧ Behind stage c' := by
  obtain ⟨c', hexec, hcontrol, hset⟩ := hx c fun s hs => by
    obtain rfl := List.mem_singleton.mp hs
    rw [hisSet]
    simpa using hslot c.callback
  have hw : c'.control.waiting = c.control.waiting := by rw [hcontrol]
  have he : c'.control.escaped = c.control.escaped := by rw [hcontrol]
  have hp : c'.control.responseParser = c.control.responseParser := by rw [hcontrol]
  have ht : c'.control.partialParsed = c.control.partialParsed := by rw [hcontrol]
  refine ⟨c', hexec, ?_, hw.trans hwaiting, he.trans hescaped, hp.trans hparser,
    ht.trans hparsed⟩
  intro s
  rw [hset, hisSet, hpassed c.callback]
  simp

/-- A case of the `switch` keeps the invariant if the next case does. -/
theorem inv_fallThrough {stage : Stage} {slots : List Slot} {done : StdString → HandlerM Unit}
    {invalid : HandlerM Unit} {next : StdString → HandlerM Unit} {c : Connection}
    (hstage : stage ≠ .body) (hc : Handling stage c) (hdone : Advances stage done)
    (hinvalid : SetsAll slots invalid)
    (hopen : ∀ callback, ∀ slot ∈ slots, slot ∉ settledAt callback stage)
    (hall : ∀ callback slot, slot ∈ settledAt callback stage ∨ slot ∈ slots)
    (hnext : ∀ c' rest, Behind stage c' → Inv (settled (exec (next rest) c')))
    (input : StdString) :
    Inv (settled (exec (fallThrough (parsePart (stopState stage) stage done invalid) next input)
      c)) := by
  have hfollows := hc.parser hstage
  have hrange := follows_range (hc.going hstage) input
  cases hverdict : (parseUntil (stopState stage) c.responseParser input).verdict with
  | pending =>
    rw [exec_fallThrough_pending hverdict, settled_ok]
    refine inv_of_reading rfl hc.escaped ⟨hc.isSet, fun _ => reads_trans hfollows hrange, ?_⟩
    intro _ hstop
    have := parseUntil_accepted_iff.mpr hstop
    exact absurd (this.symm.trans hverdict) (by decide)
  | refused =>
    rw [exec_fallThrough_refused hverdict]
    exact inv_of_setsAll hc.isSet hc.waiting hc.escaped hinvalid (hopen _) (hall _)
  | accepted =>
    have hstop := parseUntil_accepted_iff.mp hverdict
    rw [hstop] at hrange
    have htext := reads_trans hfollows hrange
    rw [exec_fallThrough_accepted hverdict]
    obtain ⟨c', hexec, hc'⟩ | ⟨e, c', hexec, hended⟩ :=
      hdone { c with
        responseParser := (parseUntil (stopState stage) c.responseParser input).state.1
        partialParsed := [] } _ htext hc.isSet hc.waiting hc.escaped hstop rfl
    · rw [exec_bind_of_ok hexec]
      exact hnext c' _ hc'
    · exact inv_of_thrown (exec_bind_of_error hexec) hended

/-- The next stage begins behind the part. -/
theorem handling_of_behind {stage next : Stage} {c : Connection} (hc : Behind stage c)
    (hpassed : settledAt c.callback next = passed stage)
    (hstart : startState next = stopState stage) : Handling next c where
  isSet slot := by rw [hpassed, hc.isSet]
  parser _ := by rw [hc.partialParsed, hc.parser, ← hstart, follows, reads_nil]
  going h := by
    rw [hc.parser, ← hstart]
    cases next with
    | body => exact absurd rfl h
    | _ => decide
  waiting := hc.waiting
  escaped := hc.escaped

theorem advances_version : Advances .version fun version => setVersion (.ok (trim version)) := by
  intro c text _ hisSet hwaiting hescaped hparser hparsed
  exact .inl (behind_of_sets (setsAll_version _) (fun _ => rfl) (by decide) hisSet hwaiting hescaped
    hparser hparsed)

theorem advances_status : Advances .status fun status =>
    match lexicalCast (trim status) with
    | some statusInt => setStatus (.ok statusInt)
    | none => throw .badLexicalCast := by
  intro c text _ hisSet hwaiting hescaped hparser hparsed
  beta_reduce
  cases lexicalCast (trim text) with
  | none => exact .inr ⟨.badLexicalCast, c, rfl, hisSet⟩
  | some statusInt =>
    exact .inl (behind_of_sets (setsAll_status _) (fun _ => rfl) (by decide) hisSet hwaiting hescaped
      hparser hparsed)

theorem advances_statusMessage :
    Advances .statusMessage fun statusMessage => setStatusMessage (.ok (trim statusMessage)) := by
  intro c text _ hisSet hwaiting hescaped hparser hparsed
  exact .inl (behind_of_sets (setsAll_statusMessage _) (fun _ => rfl) (by decide) hisSet hwaiting
    hescaped hparser hparsed)

/-- An accepted header text is made of lines, so that the second parser ends. -/
theorem advances_headers : Advances .headers fun headersString =>
    match parseHeadersReal headersString with
    | some headers => do
      modify fun c => { c with isChunkEncoding := chunkEncoding headers }
      setHeaders (.ok headers)
    | none => throw .endless := by
  intro c text htext hisSet hwaiting hescaped hparser hparsed
  obtain ⟨lines, rfl⟩ := exists_headers rfl htext
  beta_reduce
  rw [parseHeadersReal_headerText]
  simp only [exec_modify_bind]
  exact .inl (behind_of_sets (c := { c with isChunkEncoding := _ }) (setsAll_headers _)
    (fun _ => rfl) (by decide) hisSet hwaiting hescaped hparser hparsed)

section Handlers

variable {c : Connection} {ec : Option ErrorCode}

/-- Behind the head a `HEAD` request is done, and the body begins for the others. -/
theorem inv_afterHead (hc : Behind .headers c) (rest : StdString) :
    Inv (settled (exec (afterHead ec rest) c)) := by
  have hisSet := hc.isSet
  have hbody : c.bodyPromise = none := by simpa [isSet, passed] using hisSet .body
  have hsource : c.sourcePromise = none := by simpa [isSet, passed] using hisSet .source
  have hdestination : c.destinationPromise = none := by
    simpa [isSet, passed] using hisSet .destination
  cases hget : c.getBody with
  | false =>
    rw [exec_afterHead_head ec hget, exec_bind_of_ok (exec_setBody hbody),
      exec_closeResponse (by exact hsource) (by exact hdestination), settled_ok]
    refine inv_of_settled (by exact hc.waiting) (by exact hc.escaped) ?_
    intro slot
    cases slot with
    | source | destination | body => rfl
    | version => exact hisSet .version
    | status => exact hisSet .status
    | statusMessage => exact hisSet .statusMessage
    | headers => exact hisSet .headers
  | true =>
    cases hcallback : c.callback with
    | false =>
      rw [exec_afterHead_body ec hget hcallback, parseBody, exec_modify_bind, readSome,
        exec_modify, settled_ok]
      refine inv_of_reading rfl hc.escaped ⟨fun slot => ?_, fun h => absurd rfl h, fun h => absurd rfl h⟩
      have : settledAt c.callback .body = passed .headers := by rw [hcallback]; rfl
      exact (hisSet slot).trans (by rw [this])
    | true =>
      rw [afterHead, exec_get_bind]
      simp only [hget, hcallback, Bool.not_true, Bool.false_eq_true, if_false, if_true]
      rw [exec_bind_of_ok (exec_setBody hbody), callCallback, exec_modify_bind, readSome,
        exec_modify, settled_ok]
      refine inv_of_reading rfl hc.escaped ⟨fun slot => ?_, fun h => absurd rfl h, fun h => absurd rfl h⟩
      have : settledAt c.callback .body = passed .headers ++ [.body] := by rw [hcallback]; rfl
      simp only [this, List.mem_append, List.mem_singleton]
      cases slot with
      | body => rfl
      | source => exact hisSet .source
      | destination => exact hisSet .destination
      | version => exact hisSet .version
      | status => exact hisSet .status
      | statusMessage => exact hisSet .statusMessage
      | headers => exact hisSet .headers

/-- Closing the response settles the two promises that are left. -/
theorem inv_closeResponse (hsource : c.sourcePromise = none)
    (hdestination : c.destinationPromise = none) (hwaiting : c.waiting = .nothing)
    (hescaped : c.escaped = none)
    (hset : ∀ slot, slot ≠ .source → slot ≠ .destination → c.isSet slot = true) :
    Inv (settled (exec closeResponse c)) := by
  rw [exec_closeResponse hsource hdestination, settled_ok]
  refine inv_of_settled hwaiting hescaped ?_
  intro slot
  cases slot with
  | source | destination => rfl
  | version => exact hset .version (by decide) (by decide)
  | status => exact hset .status (by decide) (by decide)
  | statusMessage => exact hset .statusMessage (by decide) (by decide)
  | headers => exact hset .headers (by decide) (by decide)
  | body => exact hset .body (by decide) (by decide)

theorem inv_receiveBody (hc : Handling .body c) (input : StdString) :
    Inv (settled (exec (receiveBody ec input) c)) := by
  have hisSet := hc.isSet
  have hsource : c.sourcePromise = none := by
    cases hcallback : c.callback <;> simpa [isSet, settledAt, hcallback] using hisSet .source
  have hdestination : c.destinationPromise = none := by
    cases hcallback : c.callback <;> simpa [isSet, settledAt, hcallback] using hisSet .destination
  have hhead : ∀ slot, slot ≠ .source → slot ≠ .destination → slot ≠ .body →
      c.isSet slot = true := by
    intro slot hs hd hb
    rw [hisSet]
    apply decide_eq_true
    apply List.mem_append_left
    cases slot <;> simp_all
  rw [receiveBody, exec_get_bind]
  by_cases hend : ec.any ErrorCode.isEnd = true
  · rw [if_pos hend]
    by_cases hcallback : c.callback = true
    · rw [if_pos hcallback]
      have hbody : c.isSet .body = true := by simpa [settledAt, hcallback] using hisSet .body
      rw [callCallback, exec_modify_bind]
      refine inv_closeResponse hsource hdestination hc.waiting hc.escaped fun slot hs hd => ?_
      by_cases hb : slot = .body
      · exact hb ▸ hbody
      · exact hhead slot hs hd hb
    · rw [if_neg hcallback]
      have hbody : c.bodyPromise = none := by
        simpa [isSet, settledAt, hcallback] using hisSet .body
      have hclose : ∀ text body, Inv (settled (exec (do setBody (.ok body); closeResponse)
          { c with partialParsed := text })) := by
        intro text body
        rw [exec_bind_of_ok (exec_setBody (by exact hbody))]
        refine inv_closeResponse (by exact hsource) (by exact hdestination) (by exact hc.waiting)
          (by exact hc.escaped) fun slot hs hd => ?_
        by_cases hb : slot = .body
        · rw [hb]
          rfl
        · have := hhead slot hs hd hb
          cases slot <;> simp_all [isSet]
      simp only [exec_set_bind]
      by_cases hchunk : c.isChunkEncoding = true
      · rw [if_pos hchunk]
        cases ChunkedBody.parseChunkEncoding (c.partialParsed ++ input) with
        | some body => exact hclose [] body
        | none =>
          -- the iterator has been advanced beyond the end of the body
          exact inv_of_thrown (exec_bind_of_error exec_throw)
            ⟨by simpa using hcallback, hchunk, hisSet⟩
      · rw [if_neg hchunk]
        exact hclose [] _
  · rw [if_neg hend]
    by_cases hcallback : c.callback = true
    · rw [if_pos hcallback]
      simp only [callCallback, exec_modify_bind, readSome, exec_modify, settled_ok]
      exact inv_of_reading rfl hc.escaped ⟨hc.isSet, fun h => absurd rfl h, fun h => absurd rfl h⟩
    · rw [if_neg hcallback]
      simp only [parseBody, exec_modify_bind, readSome, exec_modify, settled_ok]
      exact inv_of_reading rfl hc.escaped ⟨hc.isSet, fun h => absurd rfl h, fun h => absurd rfl h⟩

theorem inv_receiveHeaders (hc : Handling .headers c) (input : StdString) :
    Inv (settled (exec (receiveHeaders ec input) c)) :=
  inv_fallThrough (by decide) hc advances_headers (setsAll_failHeaders _) (by decide) (by decide)
    (fun _ rest h => inv_afterHead h rest) input

theorem inv_receiveStatusMessage (hc : Handling .statusMessage c) (input : StdString) :
    Inv (settled (exec (receiveStatusMessage ec input) c)) :=
  inv_fallThrough (by decide) hc advances_statusMessage (setsAll_failStatusMessage _) (by decide)
    (by decide) (fun _ rest h => inv_receiveHeaders (handling_of_behind h rfl rfl) rest) input

theorem inv_receiveStatus (hc : Handling .status c) (input : StdString) :
    Inv (settled (exec (receiveStatus ec input) c)) :=
  inv_fallThrough (by decide) hc advances_status (setsAll_failStatus _) (by decide) (by decide)
    (fun _ rest h => inv_receiveStatusMessage (handling_of_behind h rfl rfl) rest) input

theorem inv_receiveVersion (hc : Handling .version c) (input : StdString) :
    Inv (settled (exec (receiveVersion ec input) c)) :=
  inv_fallThrough (by decide) hc advances_version (setsAll_failVersion _) (by decide) (by decide)
    (fun _ rest h => inv_receiveStatus (handling_of_behind h rfl rfl) rest) input

theorem inv_receiveData {stage : Stage} (hc : Handling stage c) (input : StdString) :
    Inv (settled (exec (receiveData stage ec input) c)) := by
  cases stage with
  | version => exact inv_receiveVersion hc input
  | status => exact inv_receiveStatus hc input
  | statusMessage => exact inv_receiveStatusMessage hc input
  | headers => exact inv_receiveHeaders hc input
  | body => exact inv_receiveBody hc input

/-- A read that fails settles what is open; a body callback has had its body
promise before, and settling it again throws. -/
theorem inv_failReceived {stage : Stage} (hc : Handling stage c) (error : NetError) :
    Inv (settled (exec (do
      setSource (.error error)
      setDestination (.error error)
      failFrom stage error) c)) := by
  by_cases hbody : stage = .body ∧ c.callback = true
  · obtain ⟨rfl, hcallback⟩ := hbody
    have hsource : c.sourcePromise = none := by
      simpa [isSet, settledAt, hcallback] using hc.isSet .source
    have hdestination : c.destinationPromise = none := by
      simpa [isSet, settledAt, hcallback] using hc.isSet .destination
    have hset : c.bodyPromise.isSome := by
      simpa [isSet, settledAt, hcallback] using hc.isSet .body
    obtain ⟨r, hr⟩ := Option.isSome_iff_exists.mp hset
    have hhead : ∀ slot ∈ passed .headers, c.isSet slot = true := by
      intro slot hslot
      rw [hc.isSet]
      exact decide_eq_true (List.mem_append_left _ hslot)
    rw [exec_bind_of_ok (exec_setSource hsource),
      exec_bind_of_ok (exec_setDestination (by exact hdestination))]
    have hthrow : exec (failFrom .body error) { c with
        sourcePromise := some (.error error), destinationPromise := some (.error error) } =
        (.error .promiseAlreadySatisfied, { c with
          sourcePromise := some (.error error), destinationPromise := some (.error error) }) := by
      change exec (setBody (.error error)) _ = _
      rw [setBody, settle, exec_get_bind]
      simp [hr]
    refine inv_of_thrown hthrow ⟨hcallback, fun slot => ?_⟩
    cases slot with
    | source | destination => rfl
    | version => exact hhead .version (by decide)
    | status => exact hhead .status (by decide)
    | statusMessage => exact hhead .statusMessage (by decide)
    | headers => exact hhead .headers (by decide)
    | body => exact hset
  · refine inv_of_setsAll hc.isSet hc.waiting hc.escaped
      ((setsAll_source _).bind ((setsAll_destination _).bind (setsAll_failFrom stage error) ?_) ?_)
      ?_ ?_
    · cases stage <;> decide
    · cases stage <;> decide
    · generalize c.callback = callback at hbody
      cases stage <;> cases callback <;> first | decide | exact absurd ⟨rfl, rfl⟩ hbody
    · generalize c.callback = callback at hbody
      cases stage <;> cases callback <;> decide

theorem inv_handleReceivedData {stage : Stage} (hc : Handling stage c) (data : StdString) :
    Inv (settled (exec (handleReceivedData stage ec data) c)) := by
  cases ec with
  | none => exact inv_receiveData hc data
  | some e =>
    rw [handleReceivedData]
    by_cases hend : e.isEnd = true
    · rw [if_pos hend]
      exact inv_receiveData hc data
    · rw [if_neg hend]
      exact inv_failReceived hc _

/-- Before the first read every promise is open. -/
theorem inv_setErrors (hc : Handling .version c) (e : ErrorCode) :
    Inv (settled (exec (setErrors e) c)) :=
  inv_of_setsAll hc.isSet hc.waiting hc.escaped (setsAll_setErrors e) (by simp [settledAt])
    (by simp only [settledAt]; decide)

/-- An operation of the connection phase is started. -/
theorem inv_of_sending {waiting : Waiting} (hc : Handling .version c)
    (hwaiting : ∀ stage, waiting = .readSome stage → stage = .version)
    (hnothing : waiting ≠ .nothing) : Inv { c with waiting := waiting } where
  sending _ := ⟨hc.isSet, hc.parser, hc.going⟩
  reading stage h := by
    obtain rfl := hwaiting stage h
    exact ⟨hc.isSet, hc.parser, hc.going⟩
  running _ := hc.escaped
  ended h := absurd h hnothing

theorem inv_handleSentRequest (hc : Handling .version c) :
    Inv (settled (exec (handleSentRequest ec) c)) := by
  cases ec with
  | none =>
    rw [handleSentRequest, readSome, exec_modify, settled_ok]
    exact inv_of_sending hc (by simp) (by simp)
  | some e => exact inv_setErrors hc e

theorem inv_handleResolved (hc : Handling .version c) (port : ℕ) (addresses : List StdString) :
    Inv (settled (exec (handleResolved port ec addresses) c)) := by
  cases ec with
  | some e => exact inv_setErrors hc e
  | none =>
    cases addresses with
    | nil => exact inv_setErrors hc _
    | cons address others =>
      rw [handleResolved, exec_modify, settled_ok]
      exact inv_of_sending hc (by simp) (by simp)

theorem inv_handleConnected (hc : Handling .version c) (port : ℕ) (others : List StdString) :
    Inv (settled (exec (handleConnected port others ec) c)) := by
  cases ec with
  | none =>
    rw [handleConnected, exec_modify, settled_ok]
    exact inv_of_sending hc (by simp) (by simp)
  | some e =>
    cases others with
    | cons address others =>
      rw [handleConnected, exec_modify, settled_ok]
      exact inv_of_sending hc (by simp) (by simp)
    | nil =>
      obtain ⟨c', hexec, hcontrol, hset⟩ := setsAll_setErrors e c
        fun slot _ => by simpa [settledAt] using hc.isSet slot
      have hw : c'.control.waiting = c.control.waiting := by rw [hcontrol]
      have he : c'.control.escaped = c.control.escaped := by rw [hcontrol]
      have hall : AllSettled c' := by
        intro slot
        rw [hset]
        cases slot <;> simp
      rw [handleConnected, exec_bind_of_ok hexec, exec_get_bind]
      by_cases hcallback : c'.callback = true
      · rw [if_pos hcallback, callCallback, exec_modify, settled_ok]
        exact inv_of_settled (hw.trans hc.waiting) (he.trans hc.escaped) hall
      · rw [if_neg hcallback, exec_pure, settled_ok]
        exact inv_of_settled (hw.trans hc.waiting) (he.trans hc.escaped) hall

end Handlers

/-- The handler runs on the connection without its operation. -/
theorem handling_of_awaits {c : Connection} {stage : Stage} (h : Awaits stage c)
    (he : c.escaped = none) : Handling stage { c with waiting := .nothing } where
  isSet := h.isSet
  parser := h.parser
  going := h.going
  waiting := rfl
  escaped := he

theorem inv_step {c c' : Connection} {completion : Completion} (hc : Inv c)
    (hstep : step c completion = some c') : Inv c' := by
  obtain ⟨handler, hhandler, rfl⟩ := Option.map_eq_some_iff.mp hstep
  have hne : c.waiting ≠ .nothing := by
    intro h
    simp [h, handler?] at hhandler
  have he := hc.running hne
  cases hwaiting : c.waiting with
  | nothing => exact absurd hwaiting hne
  | resolve port =>
    have h := handling_of_awaits (hc.sending (.inr (.inl ⟨port, hwaiting⟩))) he
    cases completion <;> simp only [hwaiting, handler?, Option.some.injEq, reduceCtorEq] at hhandler
    subst hhandler
    exact inv_handleResolved h _ _
  | connect endpoint others =>
    have h := handling_of_awaits (hc.sending (.inr (.inr ⟨endpoint, others, hwaiting⟩))) he
    cases completion <;> simp only [hwaiting, handler?, Option.some.injEq, reduceCtorEq] at hhandler
    subst hhandler
    exact inv_handleConnected h _ _
  | write =>
    have h := handling_of_awaits (hc.sending (.inl hwaiting)) he
    cases completion <;> simp only [hwaiting, handler?, Option.some.injEq, reduceCtorEq] at hhandler
    subst hhandler
    exact inv_handleSentRequest h
  | readSome stage =>
    have h := handling_of_awaits (hc.reading stage hwaiting) he
    cases completion <;> simp only [hwaiting, handler?, Option.some.injEq, reduceCtorEq] at hhandler
    subst hhandler
    exact inv_handleReceivedData h _

theorem inv_start (command : StdString) (port : ℕ) (getBody callback : Bool) :
    Inv (start command port getBody callback) where
  sending _ := ⟨fun slot => by cases slot <;> rfl, fun _ => rfl, fun _ => by simp [start, stopState]⟩
  reading stage h := by simp [start] at h
  running _ := rfl
  ended h := by simp [start] at h

theorem inv_run {command : StdString} {port : ℕ} {getBody callback : Bool}
    {tr : List (Connection × Completion)} {c : Connection}
    (run : Transition.Run step (start command port getBody callback) tr c) : Inv c :=
  run.stateHolds Inv (inv_start command port getBody callback) fun _ _ _ => inv_step

/-- Whatever the resolver, the network and the peer do, a connection that has no
operation in flight has settled all its promises, unless the status or the chunks
of the response made an exception leave a handler. -/
theorem run_ended {command : StdString} {port : ℕ} {getBody callback : Bool}
    {tr : List (Connection × Completion)} {c : Connection}
    (run : Transition.Run step (start command port getBody callback) tr c)
    (h : c.waiting = .nothing) : Ended c := (inv_run run).ended h

/-- A host that is not found. -/
theorem run_ended_notFound : ∃ tr c,
    Transition.replay step (start [] 80 true false) [] [.resolved (some .hostNotFound) []] =
      some (tr, c) ∧ Ended c := by
  have h : Transition.replay step (start [] 80 true false) []
    [.resolved (some .hostNotFound) []] = some (_, _) := rfl
  exact ⟨_, _, h, run_ended (Transition.replay_run .start h) rfl⟩

/-- A connection that is closed inside the head is never reported: the end of the
connection leaves everything as it was, so that the next read ends in the same way,
and nobody is told about the headers and the body. -/
theorem run_end_unnoticed {command : StdString} {port : ℕ} {getBody callback : Bool}
    {tr : List (Connection × Completion)} {c : Connection}
    (run : Transition.Run step (start command port getBody callback) tr c) (stage : Stage)
    (hwaiting : c.waiting = .readSome stage) (hstage : stage ≠ .body) {e : ErrorCode}
    (he : e.isEnd = true) :
    step c (.received (some e) []) = some c ∧ c.headersPromise = none ∧ c.bodyPromise = none := by
  have h := (inv_run run).reading stage hwaiting
  have hheaders : c.isSet .headers = false := by
    rw [h.isSet]
    cases stage <;> simp_all [settledAt]
  have hbody : c.isSet .body = false := by
    rw [h.isSet]
    cases stage <;> simp_all [settledAt]
  exact ⟨step_end stage hwaiting hstage (h.going hstage) he, by simpa [isSet] using hheaders,
    by simpa [isSet] using hbody⟩

/-- The peer accepts, takes the request and closes the connection. -/
theorem run_end_unnoticed_accepted : ∃ tr c,
    Transition.replay step (start [] 80 true false) [] [.resolved none [lit "a"],
        .connected none, .sent none] = some (tr, c) ∧
      step c (.received (some .eof) []) = some c ∧ c.headersPromise = none ∧
      c.bodyPromise = none := by
  have h : Transition.replay step (start [] 80 true false) [] [.resolved none [lit "a"],
    .connected none, .sent none] = some (_, _) := rfl
  exact ⟨_, _, h, run_end_unnoticed (Transition.replay_run .start h) .version rfl
    (by decide) rfl⟩

end Connection

end HttpBackground
