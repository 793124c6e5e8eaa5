import HttpBackground.AsyncConnection

/-!
# A response in pieces

The socket hands over the response in pieces the peer and the network choose.
What the connection makes of them depends on their concatenation only: a case of
the `switch` that runs out of input goes on with the next piece where it stopped.
-/
namespace HttpBackground

namespace Connection

open Scanning ResponseParser StdString Effects

/-- The connection as its promises and its next read show it; a connection that
reads no more has no use for `partial_parsed`. -/
def visible (c : Connection) : Connection :=
  if c.waiting = .nothing then { c with partialParsed := [] } else c

/-- A read that has brought some bytes, or nothing where no read is in flight. -/
def receive (c : Connection) (data : StdString) : Connection :=
  (step c (.received none data)).getD c

/-- The handlers run on with what the next read brings. -/
def resume (c : Connection) (data : StdString) : Connection :=
  match c.waiting with
  | .readSome stage => settled (exec (receiveData stage none data) { c with waiting := .nothing })
  | _ => c

theorem receive_eq_resume (c : Connection) (data : StdString) : receive c data = resume c data := by
  unfold receive step resume
  cases c.waiting <;> rfl

theorem resume_of_nothing {c : Connection} (h : c.waiting = .nothing) (data : StdString) :
    resume c data = c := by
  simp [resume, h]

/-- A case reads its input in two pieces as it does in one. -/
structure Resumable (case : StdString → HandlerM Unit) : Prop where
  callback : ∀ c xs, (exec (case xs) c).2.callback = c.callback
  pieces : ∀ (c : Connection) (xs ys : StdString), c.waiting = .nothing → c.callback = false →
    visible (settled (exec (case (xs ++ ys)) c)) =
      visible (resume (settled (exec (case xs) c)) ys)

/-- A computation that settles promises: it starts no operation, and where
`partial_parsed` stands makes no difference to it. -/
structure Settles (x : HandlerM Unit) : Prop where
  waiting : ∀ c, (exec x c).2.waiting = c.waiting
  callback : ∀ c, (exec x c).2.callback = c.callback
  frame : ∀ c text, exec x { c with partialParsed := text } =
    ((exec x c).1, { (exec x c).2 with partialParsed := text })

theorem exec_settle {α : Type} {promise : Connection → Promise α}
    {put : Connection → Promise α → Connection} {r : Except NetError α} {c : Connection}
    (h : promise c = none) : exec (settle promise put r) c = (.ok (), put c (some r)) := by
  rw [settle, exec_get_bind, h]
  rfl

/-- A promise is set once. -/
theorem exec_settle_again {α : Type} {promise : Connection → Promise α}
    {put : Connection → Promise α → Connection} {r r' : Except NetError α} {c : Connection}
    (h : promise c = some r') :
    exec (settle promise put r) c = (.error .promiseAlreadySatisfied, c) := by
  rw [settle, exec_get_bind, h]
  rfl

theorem Settles.settle {α : Type} {promise : Connection → Promise α}
    {put : Connection → Promise α → Connection} {r : Except NetError α}
    (hwaiting : ∀ c p, (put c p).waiting = c.waiting)
    (hcallback : ∀ c p, (put c p).callback = c.callback)
    (hpromise : ∀ c text, promise { c with partialParsed := text } = promise c)
    (hput : ∀ c p text, put { c with partialParsed := text } p =
      { put c p with partialParsed := text }) :
    Settles (settle promise put r) := by
  refine ⟨?_, ?_, ?_⟩
  · intro c
    cases h : promise c with
    | none => rw [exec_settle h, hwaiting]
    | some _ => rw [exec_settle_again h]
  · intro c
    cases h : promise c with
    | none => rw [exec_settle h, hcallback]
    | some _ => rw [exec_settle_again h]
  · intro c text
    cases h : promise c with
    | none => rw [exec_settle h, exec_settle ((hpromise c text).trans h), hput]
    | some _ => rw [exec_settle_again h, exec_settle_again ((hpromise c text).trans h)]

theorem Settles.throw (e : Escape) : Settles (throw e) :=
  ⟨fun _ => rfl, fun _ => rfl, fun _ _ => rfl⟩

theorem Settles.bind {x y : HandlerM Unit} (hx : Settles x) (hy : Settles y) :
    Settles (do x; y) := by
  refine ⟨?_, ?_, ?_⟩
  · intro c
    have := hx.waiting c
    rcases h : exec x c with ⟨_ | _, c'⟩
    · rw [exec_bind_of_error h]
      rwa [h] at this
    · rw [exec_bind_of_ok h]
      rw [h] at this
      exact (hy.waiting c').trans this
  · intro c
    have := hx.callback c
    rcases h : exec x c with ⟨_ | _, c'⟩
    · rw [exec_bind_of_error h]
      rwa [h] at this
    · rw [exec_bind_of_ok h]
      rw [h] at this
      exact (hy.callback c').trans this
  · intro c text
    have := hx.frame c text
    rcases h : exec x c with ⟨_ | _, c'⟩
    · rw [h] at this
      rw [exec_bind_of_error h, exec_bind_of_error this]
    · rw [h] at this
      rw [exec_bind_of_ok h, exec_bind_of_ok this]
      exact hy.frame c' text

theorem settles_setVersion (r : Except NetError StdString) : Settles (setVersion r) :=
  .settle (fun _ _ => rfl) (fun _ _ => rfl) (fun _ _ => rfl) fun _ _ _ => rfl

theorem settles_setStatus (r : Except NetError ℕ) : Settles (setStatus r) :=
  .settle (fun _ _ => rfl) (fun _ _ => rfl) (fun _ _ => rfl) fun _ _ _ => rfl

theorem settles_setStatusMessage (r : Except NetError StdString) : Settles (setStatusMessage r) :=
  .settle (fun _ _ => rfl) (fun _ _ => rfl) (fun _ _ => rfl) fun _ _ _ => rfl

theorem settles_setHeaders (r : Except NetError Headers) : Settles (setHeaders r) :=
  .settle (fun _ _ => rfl) (fun _ _ => rfl) (fun _ _ => rfl) fun _ _ _ => rfl

theorem settles_setSource (r : Except NetError StdString) : Settles (setSource r) :=
  .settle (fun _ _ => rfl) (fun _ _ => rfl) (fun _ _ => rfl) fun _ _ _ => rfl

theorem settles_setDestination (r : Except NetError StdString) : Settles (setDestination r) :=
  .settle (fun _ _ => rfl) (fun _ _ => rfl) (fun _ _ => rfl) fun _ _ _ => rfl

theorem settles_setBody (r : Except NetError StdString) : Settles (setBody r) :=
  .settle (fun _ _ => rfl) (fun _ _ => rfl) (fun _ _ => rfl) fun _ _ _ => rfl

theorem settles_failStatusMessage (error : NetError) : Settles (failStatusMessage error) :=
  (settles_setStatusMessage _).bind ((settles_setHeaders _).bind ((settles_setSource _).bind
    ((settles_setDestination _).bind (settles_setBody _))))

theorem settles_failStatus (error : NetError) : Settles (failStatus error) :=
  (settles_setStatus _).bind (settles_failStatusMessage error)

section Part

variable {stopState : State} {stage : Stage} {done : StdString → HandlerM Unit}
  {invalid : HandlerM Unit} {next : StdString → HandlerM Unit} {c : Connection} {input : StdString}

/-- The input runs out: the handler asks for more. -/
theorem exec_fallThrough_pending
    (h : (parseUntil stopState c.responseParser input).verdict = .pending) :
    exec (fallThrough (parsePart stopState stage done invalid) next input) c =
      (.ok (), { c with
        responseParser := (parseUntil stopState c.responseParser input).state.1
        partialParsed := c.partialParsed ++ (parseUntil stopState c.responseParser input).state.2
        waiting := .readSome stage }) := by
  simp only [fallThrough, parsePart, bind_assoc, exec_get_bind, h, exec_set_bind, pure_bind,
    readSome, exec_modify_bind]
  rfl

theorem exec_fallThrough_refused
    (h : (parseUntil stopState c.responseParser input).verdict = .refused) :
    exec (fallThrough (parsePart stopState stage done invalid) next input) c =
      exec invalid { c with
        responseParser := (parseUntil stopState c.responseParser input).state.1 } := by
  simp only [fallThrough, parsePart, bind_assoc, exec_get_bind, h, exec_set_bind, pure_bind]
  simp

theorem exec_fallThrough_accepted
    (h : (parseUntil stopState c.responseParser input).verdict = .accepted) :
    exec (fallThrough (parsePart stopState stage done invalid) next input) c =
      exec (do
        done (c.partialParsed ++ (parseUntil stopState c.responseParser input).state.2)
        next (parseUntil stopState c.responseParser input).rest)
      { c with
        responseParser := (parseUntil stopState c.responseParser input).state.1
        partialParsed := [] } := by
  simp only [fallThrough, parsePart, bind_assoc, exec_get_bind, h, exec_set_bind, pure_bind]
  simp

/-- A case that gets nothing to read only asks for more. -/
theorem exec_fallThrough_nil (h : c.responseParser ≠ stopState) :
    exec (fallThrough (parsePart stopState stage done invalid) next []) c =
      (.ok (), { c with waiting := .readSome stage }) := by
  have hparse : parseUntil stopState c.responseParser [] = ⟨.pending, (c.responseParser, []), []⟩ := by
    simp [parseUntil, scan, h]
  rw [exec_fallThrough_pending (by rw [hparse]), hparse, List.append_nil]

end Part

@[simp] theorem settled_ok (c : Connection) : settled (.ok (), c) = c := rfl

theorem settled_waiting {x : HandlerM Unit} {c : Connection}
    (h : (exec x c).2.waiting = .nothing) : (settled (exec x c)).waiting = .nothing := by
  rcases hx : exec x c with ⟨_ | _, c'⟩
  · rfl
  · simpa [settled, hx] using h

/-- Where `partial_parsed` stands is not seen after a computation that only
settles promises. -/
theorem visible_frame {x : HandlerM Unit} (hx : Settles x) {c : Connection}
    (hwaiting : c.waiting = .nothing) (text : StdString) :
    visible (settled (exec x { c with partialParsed := text })) = visible (settled (exec x c)) := by
  have hafter : (exec x c).2.waiting = .nothing := (hx.waiting c).trans hwaiting
  rw [hx.frame]
  rcases h : exec x c with ⟨_ | _, c'⟩
  · rfl
  · rw [h] at hafter
    simp only at hafter
    simp [settled, visible, hafter]

theorem callback_fallThrough {stopState : State} {stage : Stage}
    {done : StdString → HandlerM Unit} {invalid : HandlerM Unit} {next : StdString → HandlerM Unit}
    (hdone : ∀ text, Settles (done text)) (hinvalid : Settles invalid)
    (hnext : ∀ c xs, (exec (next xs) c).2.callback = c.callback) (c : Connection)
    (xs : StdString) :
    (exec (Connection.fallThrough (parsePart stopState stage done invalid) next xs) c).2.callback =
      c.callback := by
  cases hverdict : (parseUntil stopState c.responseParser xs).verdict with
  | pending => rw [exec_fallThrough_pending hverdict]
  | refused =>
    rw [exec_fallThrough_refused hverdict]
    exact hinvalid.callback _
  | accepted =>
    rw [exec_fallThrough_accepted hverdict]
    generalize hc' : ({ c with
      responseParser := (parseUntil stopState c.responseParser xs).state.1
      partialParsed := [] } : Connection) = c'
    have hcallback : c'.callback = c.callback := by rw [← hc']
    have hb := (hdone (c.partialParsed ++
      (parseUntil stopState c.responseParser xs).state.2)).callback c'
    rcases hexec : exec (done _) c' with ⟨e | _, c''⟩
    · rw [exec_bind_of_error hexec]
      rw [hexec] at hb
      exact hb.trans hcallback
    · rw [exec_bind_of_ok hexec]
      rw [hexec] at hb
      exact (hnext c'' _).trans (hb.trans hcallback)

/-- A case that reads a part and falls through reads its input in pieces if the
next case does. -/
theorem Resumable.fallThrough {stopState : State} {stage : Stage}
    {done : StdString → HandlerM Unit} {invalid : HandlerM Unit} {next : StdString → HandlerM Unit}
    (hdone : ∀ text, Settles (done text)) (hinvalid : Settles invalid) (hnext : Resumable next)
    (hstage : receiveData stage none =
      Connection.fallThrough (parsePart stopState stage done invalid) next) :
    Resumable (Connection.fallThrough (parsePart stopState stage done invalid) next) := by
  refine ⟨callback_fallThrough hdone hinvalid hnext.callback, ?_⟩
  intro c xs ys hwaiting hcallback
  cases hverdict : (parseUntil stopState c.responseParser xs).verdict with
  | pending =>
    -- the first piece leaves the parser and `partial_parsed` where the second goes on
    have happend := parseUntil_append_pending hverdict ys
    rw [exec_fallThrough_pending hverdict, settled_ok]
    simp only [resume, hstage]
    cases hsecond : (parseUntil stopState
        (parseUntil stopState c.responseParser xs).state.1 ys).verdict with
    | pending =>
      rw [exec_fallThrough_pending (by rw [happend]; exact hsecond),
        exec_fallThrough_pending hsecond, happend]
      simp
    | refused =>
      rw [exec_fallThrough_refused (by rw [happend]; exact hsecond),
        exec_fallThrough_refused hsecond, happend]
      have hframe := visible_frame hinvalid (c := { c with
          responseParser := (parseUntil stopState
            (parseUntil stopState c.responseParser xs).state.1 ys).state.1 }) hwaiting
        (c.partialParsed ++ (parseUntil stopState c.responseParser xs).state.2)
      simpa only [hwaiting] using hframe.symm
    | accepted =>
      rw [exec_fallThrough_accepted (by rw [happend]; exact hsecond),
        exec_fallThrough_accepted hsecond, happend]
      simp [hwaiting]
  | refused =>
    have hnothing := settled_waiting (c := { c with
      responseParser := (parseUntil stopState c.responseParser xs).state.1 })
      ((hinvalid.waiting _).trans hwaiting)
    have happend := parseUntil_append_settled (by rw [hverdict]; decide) ys
    rw [exec_fallThrough_refused hverdict, resume_of_nothing hnothing,
      exec_fallThrough_refused (by rw [happend]; exact hverdict), happend]
  | accepted =>
    have happend := parseUntil_append_settled (by rw [hverdict]; decide) ys
    rw [exec_fallThrough_accepted hverdict,
      exec_fallThrough_accepted (by rw [happend]; exact hverdict), happend]
    simp only
    generalize c.partialParsed ++ (parseUntil stopState c.responseParser xs).state.2 = text
    generalize hc' : ({ c with
      responseParser := (parseUntil stopState c.responseParser xs).state.1
      partialParsed := [] } : Connection) = c'
    have hwaiting' : c'.waiting = .nothing := by rw [← hc']; exact hwaiting
    have hcallback' : c'.callback = false := by rw [← hc']; exact hcallback
    have hw := (hdone text).waiting c'
    have hb := (hdone text).callback c'
    rcases hexec : exec (done text) c' with ⟨e | _, c''⟩
    · rw [exec_bind_of_error hexec, exec_bind_of_error hexec, resume_of_nothing rfl]
    · rw [exec_bind_of_ok hexec, exec_bind_of_ok hexec]
      rw [hexec] at hw hb
      exact hnext.pieces c'' _ ys (hw.trans hwaiting') (hb.trans hcallback')

theorem exec_afterHead_head {c : Connection} (ec : Option ErrorCode) (hbody : c.getBody = false)
    (input : StdString) :
    exec (afterHead ec input) c = exec (do setBody (.ok []); closeResponse) c := by
  rw [afterHead, exec_get_bind]
  simp [hbody]

theorem exec_afterHead_body {c : Connection} (ec : Option ErrorCode) (hbody : c.getBody = true)
    (hcallback : c.callback = false) (input : StdString) :
    exec (afterHead ec input) c = exec (parseBody input) c := by
  rw [afterHead, exec_get_bind]
  simp [hbody, hcallback]

theorem settles_closeHead : Settles (do setBody (.ok []); closeResponse) :=
  (settles_setBody _).bind ((settles_setDestination _).bind ((settles_setSource _).bind
    ⟨fun _ => rfl, fun _ => rfl, fun _ _ => rfl⟩))

/-- Behind the head the body is not looked at any more. -/
theorem resumable_afterHead : Resumable (afterHead none) := by
  constructor
  · intro c xs
    cases hbody : c.getBody with
    | false =>
      rw [exec_afterHead_head none hbody]
      exact settles_closeHead.callback c
    | true =>
      cases hcallback : c.callback with
      | false =>
        rw [exec_afterHead_body none hbody hcallback]
        exact hcallback
      | true =>
        have hset := (settles_setBody (.ok [])).callback c
        rw [afterHead, exec_get_bind]
        simp only [hbody, hcallback, Bool.not_true, Bool.false_eq_true, if_false, if_true]
        rcases hexec : exec (setBody (.ok [])) c with ⟨e | _, c'⟩
        · rw [exec_bind_of_error hexec]
          rw [hexec] at hset
          exact hset.trans hcallback
        · rw [exec_bind_of_ok hexec]
          rw [hexec] at hset
          exact hset.trans hcallback
  · intro c xs ys hwaiting hcallback
    cases hbody : c.getBody with
    | false =>
      rw [exec_afterHead_head none hbody, exec_afterHead_head none hbody,
        resume_of_nothing (settled_waiting ((settles_closeHead.waiting c).trans hwaiting))]
    | true =>
      rw [exec_afterHead_body none hbody hcallback, exec_afterHead_body none hbody hcallback]
      simp [parseBody, readSome, settled, resume, receiveData, receiveBody, hcallback]

theorem settles_acceptStatus (status : StdString) : Settles (
    match lexicalCast (trim status) with
    | some statusInt => setStatus (.ok statusInt)
    | none => throw .badLexicalCast) := by
  cases lexicalCast (trim status) with
  | none => exact .throw _
  | some statusInt => exact settles_setStatus _

theorem settles_acceptHeaders (headersString : StdString) : Settles (
    match parseHeadersReal headersString with
    | some headers => do
      modify fun c => { c with isChunkEncoding := chunkEncoding headers }
      setHeaders (.ok headers)
    | none => throw .endless) := by
  cases parseHeadersReal headersString with
  | none => exact .throw _
  | some headers =>
    exact .bind ⟨fun _ => rfl, fun _ => rfl, fun _ _ => rfl⟩ (settles_setHeaders _)

theorem settles_failHeaders (error : NetError) : Settles (failHeaders error) :=
  (settles_setHeaders _).bind ((settles_setBody _).bind ((settles_setSource _).bind
    (settles_setDestination _)))

theorem resumable_receiveHeaders : Resumable (receiveHeaders none) :=
  .fallThrough settles_acceptHeaders (settles_failHeaders _) resumable_afterHead rfl

theorem resumable_receiveStatusMessage : Resumable (receiveStatusMessage none) :=
  .fallThrough (fun _ => settles_setStatusMessage _) (settles_failStatusMessage _)
    resumable_receiveHeaders rfl

theorem resumable_receiveStatus : Resumable (receiveStatus none) :=
  .fallThrough settles_acceptStatus (settles_failStatus _) resumable_receiveStatusMessage rfl

theorem resumable_receiveVersion : Resumable (receiveVersion none) :=
  .fallThrough (fun _ => settles_setVersion _) ((settles_setVersion _).bind (settles_failStatus _))
    resumable_receiveStatus rfl

theorem resumable_receiveBody : Resumable (receiveBody none) := by
  constructor
  · intro c xs
    cases hcallback : c.callback <;>
      simp [receiveBody, hcallback, parseBody, callCallback, readSome]
  · intro c xs ys hwaiting hcallback
    simp [receiveBody, hcallback, parseBody, readSome, settled, resume, receiveData]

theorem resumable_receiveData (stage : Stage) : Resumable (receiveData stage none) := by
  cases stage with
  | version => exact resumable_receiveVersion
  | status => exact resumable_receiveStatus
  | statusMessage => exact resumable_receiveStatusMessage
  | headers => exact resumable_receiveHeaders
  | body => exact resumable_receiveBody

theorem resume_callback (c : Connection) (data : StdString) :
    (resume c data).callback = c.callback := by
  cases hwaiting : c.waiting with
  | readSome stage =>
    have h := (resumable_receiveData stage).callback { c with waiting := .nothing } data
    simp only [resume, hwaiting]
    rcases hexec : exec (receiveData stage none data) { c with waiting := .nothing } with ⟨_ | _, c'⟩
    · simpa [settled, hexec] using h
    · simpa [settled, hexec] using h
  | nothing => rw [resume_of_nothing hwaiting]
  | resolve port => simp [resume, hwaiting]
  | connect endpoint others => simp [resume, hwaiting]
  | write => simp [resume, hwaiting]

theorem visible_resume {c : Connection} (hcallback : c.callback = false) (xs ys : StdString) :
    visible (resume c (xs ++ ys)) = visible (resume (resume c xs) ys) := by
  cases hwaiting : c.waiting with
  | readSome stage =>
    have h := (resumable_receiveData stage).pieces { c with waiting := .nothing } xs ys rfl hcallback
    simpa only [resume, hwaiting] using h
  | nothing =>
    rw [resume_of_nothing hwaiting, resume_of_nothing hwaiting, resume_of_nothing hwaiting]
  | resolve port => simp [resume, hwaiting]
  | connect endpoint others => simp [resume, hwaiting]
  | write => simp [resume, hwaiting]

/-- A response that comes in pieces is the response they make up: after reading
them the connection shows what it shows after reading all of it at once. -/
theorem visible_receive_pieces {c : Connection} (hcallback : c.callback = false)
    (data : StdString) (pieces : List StdString) :
    visible (pieces.foldl receive (receive c data)) =
      visible (receive c (data ++ pieces.flatten)) := by
  simp only [funext fun c => funext (receive_eq_resume c)]
  induction pieces generalizing c data with
  | nil => simp
  | cons piece pieces ih =>
    rw [List.foldl_cons, List.flatten_cons,
      ih ((resume_callback c data).trans hcallback) piece, visible_resume hcallback]

/-- The peer has closed the connection and nothing is left to read. -/
def finish (ec : ErrorCode) (c : Connection) : Connection :=
  (step c (.received (some ec) [])).getD c

/-- A whole response: the reads that bring it, then the end of the connection. -/
def exchange (c : Connection) (pieces : List StdString) (ec : ErrorCode) : Connection :=
  finish ec (pieces.foldl receive c)

theorem visible_waiting (c : Connection) : (visible c).waiting = c.waiting := by
  simp only [visible]
  split <;> rfl

theorem visible_of_waiting {c : Connection} (h : c.waiting ≠ .nothing) : visible c = c := by
  simp [visible, h]

theorem finish_of_nothing {c : Connection} (h : c.waiting = .nothing) (ec : ErrorCode) :
    finish ec c = c := by
  simp [finish, step, h, handler?]

theorem visible_finish {c d : Connection} (h : visible c = visible d) (ec : ErrorCode) :
    visible (finish ec c) = visible (finish ec d) := by
  have hwaiting : c.waiting = d.waiting := by
    rw [← visible_waiting, h, visible_waiting]
  by_cases hc : c.waiting = .nothing
  · rw [finish_of_nothing hc, finish_of_nothing (hwaiting ▸ hc), h]
  · rw [visible_of_waiting hc, visible_of_waiting (hwaiting ▸ hc)] at h
    rw [h]

theorem exchange_pieces {c : Connection} (hcallback : c.callback = false) (data : StdString)
    (pieces : List StdString) (ec : ErrorCode) :
    visible (exchange c (data :: pieces) ec) = visible (exchange c [data ++ pieces.flatten] ec) :=
  visible_finish (visible_receive_pieces hcallback data pieces) ec

/-- However the bytes of a response are cut into reads, the promises end up with
the same outcomes. -/
theorem exchange_flatten {c : Connection} (hcallback : c.callback = false)
    {pieces pieces' : List StdString} (hne : pieces ≠ []) (hne' : pieces' ≠ [])
    (hflatten : pieces.flatten = pieces'.flatten) (ec : ErrorCode) :
    visible (exchange c pieces ec) = visible (exchange c pieces' ec) := by
  obtain ⟨data, pieces, rfl⟩ := List.exists_cons_of_ne_nil hne
  obtain ⟨data', pieces', rfl⟩ := List.exists_cons_of_ne_nil hne'
  rw [List.flatten_cons, List.flatten_cons] at hflatten
  rw [exchange_pieces hcallback data, exchange_pieces hcallback data', hflatten]

/-- A status line that is cut in the middle of its number, and one that is not. -/
theorem exchange_flatten_status :
    visible (exchange { waiting := .readSome .version }
        [lit "HTTP/1.1 20", lit "0 OK\r\n\r\n"] .eof) =
      visible (exchange { waiting := .readSome .version }
        [lit "HTTP/1.1 ", lit "200 OK\r\n", lit "\r\n"] .eof) :=
  exchange_flatten rfl (by decide) (by decide) (by decide) _

end Connection

end HttpBackground
