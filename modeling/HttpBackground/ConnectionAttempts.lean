import HttpBackground.ConnectionPromises

/-!
# The addresses of a host

The resolver may give several addresses. They are tried in its order, each once,
as long as the attempts fail; the request is sent to the first that accepts, and
the connection gives up only when there is none left.
-/
namespace HttpBackground

namespace Connection

open Scanning ResponseParser StdString Effects

/-- The operations that do not go back to an earlier phase of the connection. -/
def Reading (c : Connection) : Prop := c.waiting = .nothing ∨ ∃ stage, c.waiting = .readSome stage

theorem Settles.reading {x : HandlerM Unit} (hx : Settles x) : Keeps Reading x := by
  intro c hc
  simpa [Reading, hx.waiting] using hc

theorem bodyFrame_reading : BodyFrame Reading where
  body _ _ h := h
  source _ _ h := h
  destination _ _ h := h
  parser _ _ h := h
  partialParsed _ _ h := h
  callbackCalls _ _ h := h
  readSome _ _ := .inr ⟨.body, rfl⟩

section Reads

variable (ec : Option ErrorCode) (input : StdString)

theorem keeps_fallThrough {stopState : State} {stage : Stage} {done : StdString → HandlerM Unit}
    {invalid : HandlerM Unit} {next : StdString → HandlerM Unit}
    (hdone : ∀ text, Settles (done text)) (hinvalid : Settles invalid)
    (hnext : ∀ rest, Keeps Reading (next rest)) :
    Keeps Reading (fallThrough (parsePart stopState stage done invalid) next input) := by
  intro c hc
  cases hverdict : (parseUntil stopState c.responseParser input).verdict with
  | pending =>
    rw [exec_fallThrough_pending hverdict]
    exact .inr ⟨stage, rfl⟩
  | refused =>
    rw [exec_fallThrough_refused hverdict]
    exact hinvalid.reading _ hc
  | accepted =>
    rw [exec_fallThrough_accepted hverdict]
    exact (hdone _).reading.bind (fun _ => hnext _) _ hc

theorem keeps_receiveHeaders : Keeps Reading (receiveHeaders ec input) :=
  keeps_fallThrough input settles_acceptHeaders (settles_failHeaders _) fun rest =>
    keeps_afterHead bodyFrame_reading ec rest

theorem keeps_receiveStatusMessage : Keeps Reading (receiveStatusMessage ec input) :=
  keeps_fallThrough input (fun _ => settles_setStatusMessage _) (settles_failStatusMessage _)
    (keeps_receiveHeaders ec)

theorem keeps_receiveStatus : Keeps Reading (receiveStatus ec input) :=
  keeps_fallThrough input settles_acceptStatus (settles_failStatus _)
    (keeps_receiveStatusMessage ec)

theorem keeps_receiveVersion : Keeps Reading (receiveVersion ec input) :=
  keeps_fallThrough input (fun _ => settles_setVersion _)
    ((settles_setVersion _).bind (settles_failStatus _)) (keeps_receiveStatus ec)

theorem keeps_receiveData (stage : Stage) : Keeps Reading (receiveData stage ec input) := by
  cases stage with
  | version => exact keeps_receiveVersion ec input
  | status => exact keeps_receiveStatus ec input
  | statusMessage => exact keeps_receiveStatusMessage ec input
  | headers => exact keeps_receiveHeaders ec input
  | body => exact keeps_receiveBody bodyFrame_reading ec input

end Reads

theorem keeps_failFrom (stage : Stage) (error : NetError) : Keeps Reading (failFrom stage error) := by
  cases stage with
  | version =>
    exact ((settles_setVersion _).bind ((settles_setStatus _).bind
      ((settles_setStatusMessage _).bind ((settles_setHeaders _).bind (settles_setBody _))))).reading
  | status =>
    exact ((settles_setStatus _).bind ((settles_setStatusMessage _).bind
      ((settles_setHeaders _).bind (settles_setBody _)))).reading
  | statusMessage =>
    exact ((settles_setStatusMessage _).bind
      ((settles_setHeaders _).bind (settles_setBody _))).reading
  | headers => exact ((settles_setHeaders _).bind (settles_setBody _)).reading
  | body => exact (settles_setBody _).reading

theorem keeps_handleReceivedData (stage : Stage) (ec : Option ErrorCode) (data : StdString) :
    Keeps Reading (handleReceivedData stage ec data) := by
  cases ec with
  | none => exact keeps_receiveData none data stage
  | some e =>
    rw [handleReceivedData]
    split
    · exact keeps_receiveData (some e) data stage
    · exact (settles_setSource _).reading.bind fun _ => (settles_setDestination _).reading.bind
        fun _ => keeps_failFrom stage _

theorem keeps_handleSentRequest (ec : Option ErrorCode) : Keeps Reading (handleSentRequest ec) := by
  cases ec with
  | none => exact .modify fun _ _ => .inr ⟨.version, rfl⟩
  | some e => exact ((settles_setVersion _).bind (settles_failStatus _)).reading

/-- The steps of a run, newest first, as `Transition.Run` keeps them. -/
abbrev History := List (Connection × Completion)

/-- The endpoints that a step adds to those to try. -/
def offered (p : Connection × Completion) : List Endpoint :=
  match p.1.waiting, p.2 with
  | .resolve port, .resolved none addresses => addresses.map (⟨·, port⟩)
  | _, _ => []

/-- The endpoint a step has tried, and how that ended. -/
def tried? (p : Connection × Completion) : Option (Endpoint × Option ErrorCode) :=
  match p.1.waiting, p.2 with
  | .connect endpoint _, .connected ec => some (endpoint, ec)
  | _, _ => none

def candidates (tr : History) : List Endpoint := tr.reverse.flatMap offered

def attempts (tr : History) : List (Endpoint × Option ErrorCode) := tr.reverse.filterMap tried?

theorem candidates_cons (p : Connection × Completion) (tr : History) :
    candidates (p :: tr) = candidates tr ++ offered p := by
  simp [candidates]

theorem attempts_cons (p : Connection × Completion) (tr : History) :
    attempts (p :: tr) = attempts tr ++ (tried? p).toList := by
  cases h : tried? p <;> simp [attempts, h]

/-- Every promise holds the error. -/
structure Failed (c : Connection) (e : ErrorCode) : Prop where
  version : c.versionPromise = some (.error (.systemError e))
  status : c.statusPromise = some (.error (.systemError e))
  statusMessage : c.statusMessagePromise = some (.error (.systemError e))
  headers : c.headersPromise = some (.error (.systemError e))
  source : c.sourcePromise = some (.error (.systemError e))
  destination : c.destinationPromise = some (.error (.systemError e))
  body : c.bodyPromise = some (.error (.systemError e))

/-- An attempt has succeeded, and those before it have failed. -/
def Reached (tr : History) : Prop :=
  ∃ failed endpoint, attempts tr = failed ++ [(endpoint, none)] ∧ (∀ p ∈ failed, p.2 ≠ none) ∧
    (attempts tr).map Prod.fst <+: candidates tr

/-- All endpoints have been tried in vain; the last error is reported. -/
def GaveUp (tr : History) (c : Connection) : Prop :=
  (attempts tr).map Prod.fst = candidates tr ∧ (∀ p ∈ attempts tr, p.2 ≠ none) ∧
    ∃ e, Failed c e ∧ ∀ p, (attempts tr).getLast? = some p → p.2 = some e

/-- How far the attempts have come, by the operation in flight. -/
def Phase (tr : History) (c : Connection) : Prop :=
  match c.waiting with
  | .resolve _ => attempts tr = [] ∧ candidates tr = []
  | .connect endpoint others =>
    (attempts tr).map Prod.fst ++ endpoint :: others.map (⟨·, endpoint.port⟩) = candidates tr ∧
      ∀ p ∈ attempts tr, p.2 ≠ none
  | .write | .readSome _ => Reached tr
  | .nothing => Reached tr ∨ GaveUp tr c

/-- The connection after `set_errors`. -/
def withErrors (c : Connection) (e : ErrorCode) : Connection :=
  { c with
    versionPromise := some (.error (.systemError e))
    statusPromise := some (.error (.systemError e))
    statusMessagePromise := some (.error (.systemError e))
    headersPromise := some (.error (.systemError e))
    sourcePromise := some (.error (.systemError e))
    destinationPromise := some (.error (.systemError e))
    bodyPromise := some (.error (.systemError e)) }

theorem failed_withErrors (c : Connection) (e : ErrorCode) : Failed (withErrors c e) e :=
  ⟨rfl, rfl, rfl, rfl, rfl, rfl, rfl⟩

theorem exec_setErrors {c : Connection} (hopen : ∀ slot, c.isSet slot = false) (e : ErrorCode) :
    exec (setErrors e) c = (.ok (), withErrors c e) := by
  have hversion : c.versionPromise = none := by simpa [isSet] using hopen .version
  have hstatus : c.statusPromise = none := by simpa [isSet] using hopen .status
  have hmessage : c.statusMessagePromise = none := by simpa [isSet] using hopen .statusMessage
  have hheaders : c.headersPromise = none := by simpa [isSet] using hopen .headers
  have hsource : c.sourcePromise = none := by simpa [isSet] using hopen .source
  have hdestination : c.destinationPromise = none := by simpa [isSet] using hopen .destination
  have hbody : c.bodyPromise = none := by simpa [isSet] using hopen .body
  rw [setErrors, failVersion, failStatus, failStatusMessage,
    exec_bind_of_ok (exec_setVersion hversion),
    exec_bind_of_ok (exec_setStatus (by exact hstatus)),
    exec_bind_of_ok (exec_setStatusMessage (by exact hmessage)),
    exec_bind_of_ok (exec_setHeaders (by exact hheaders)),
    exec_bind_of_ok (exec_setSource (by exact hsource)),
    exec_bind_of_ok (exec_setDestination (by exact hdestination)),
    exec_setBody (by exact hbody)]
  rfl

section Step

variable {tr : History} {c : Connection}

/-- A step that neither resolves nor connects leaves the attempts as they are. -/
theorem reached_cons {p : Connection × Completion} (hoffered : offered p = [])
    (htried : tried? p = none) (h : Reached tr) : Reached (p :: tr) := by
  simpa [Reached, attempts_cons, candidates_cons, hoffered, htried] using h

theorem phase_resolved {port : ℕ} {ec : Option ErrorCode} {addresses : List StdString}
    (hwaiting : c.waiting = .resolve port) (hopen : ∀ slot, c.isSet slot = false)
    (h : Phase tr c) :
    Phase ((c, .resolved ec addresses) :: tr)
      (settled (exec (handleResolved port ec addresses) { c with waiting := .nothing })) := by
  obtain ⟨hattempts, hcandidates⟩ : attempts tr = [] ∧ candidates tr = [] := by
    simpa [Phase, hwaiting] using h
  have htried : attempts ((c, .resolved ec addresses) :: tr) = [] := by
    simp [attempts_cons, hattempts, tried?, hwaiting]
  have hfail : ∀ e, candidates ((c, .resolved ec addresses) :: tr) = [] →
      Phase ((c, .resolved ec addresses) :: tr)
        (settled (exec (setErrors e) { c with waiting := .nothing })) := by
    intro e hnone
    rw [exec_setErrors (by exact hopen), settled_ok]
    exact .inr ⟨by rw [htried, hnone]; rfl, by simp [htried],
      e, failed_withErrors _ e, by simp [htried]⟩
  cases ec with
  | some e => exact hfail e (by simp [candidates_cons, hcandidates, offered, hwaiting])
  | none =>
    cases addresses with
    | nil => exact hfail _ (by simp [candidates_cons, hcandidates, offered, hwaiting])
    | cons address others =>
      rw [handleResolved, exec_modify, settled_ok]
      refine ⟨?_, by simp [htried]⟩
      rw [htried, candidates_cons, hcandidates]
      simp [offered, hwaiting]

theorem phase_connected {endpoint : Endpoint} {others : List StdString} {ec : Option ErrorCode}
    (hwaiting : c.waiting = .connect endpoint others) (hopen : ∀ slot, c.isSet slot = false)
    (h : Phase tr c) :
    Phase ((c, .connected ec) :: tr)
      (settled (exec (handleConnected endpoint.port others ec) { c with waiting := .nothing })) := by
  obtain ⟨horder, hfailed⟩ : (attempts tr).map Prod.fst ++
      endpoint :: others.map (⟨·, endpoint.port⟩) = candidates tr ∧
      ∀ p ∈ attempts tr, p.2 ≠ none := by
    simpa [Phase, hwaiting] using h
  have hcandidates : candidates ((c, .connected ec) :: tr) = candidates tr := by
    simp [candidates_cons, offered, hwaiting]
  have hattempts : attempts ((c, .connected ec) :: tr) = attempts tr ++ [(endpoint, ec)] := by
    simp [attempts_cons, tried?, hwaiting]
  cases ec with
  | none =>
    rw [handleConnected, exec_modify, settled_ok]
    refine ⟨attempts tr, endpoint, hattempts, hfailed, ?_⟩
    rw [hattempts, hcandidates, ← horder]
    exact ⟨others.map (⟨·, endpoint.port⟩), by simp⟩
  | some e =>
    have hfailed' : ∀ p ∈ attempts ((c, .connected (some e)) :: tr), p.2 ≠ none := by
      intro p hp
      rw [hattempts, List.mem_append, List.mem_singleton] at hp
      rcases hp with hp | rfl
      · exact hfailed p hp
      · simp
    cases others with
    | cons address others =>
      rw [handleConnected, exec_modify, settled_ok]
      refine ⟨?_, hfailed'⟩
      rw [hattempts, hcandidates, ← horder]
      simp
    | nil =>
      have hgaveUp : ∀ c', Failed c' e → c'.waiting = .nothing →
          Phase ((c, .connected (some e)) :: tr) c' := by
        intro c' hc' hwaiting'
        rw [Phase, hwaiting']
        refine .inr ⟨?_, hfailed', e, hc', ?_⟩
        · rw [hattempts, hcandidates, ← horder]
          simp
        · simp [hattempts]
      rw [handleConnected, exec_bind_of_ok (exec_setErrors (by exact hopen) e), exec_get_bind]
      split
      · rw [callCallback, exec_modify, settled_ok]
        exact hgaveUp _ ⟨rfl, rfl, rfl, rfl, rfl, rfl, rfl⟩ rfl
      · exact hgaveUp _ (failed_withErrors _ e) rfl

/-- Once the request is on its way the attempts are over. -/
theorem phase_of_reading {x : HandlerM Unit} {completion : Completion}
    (hx : Keeps Reading x) (hoffered : offered (c, completion) = [])
    (htried : tried? (c, completion) = none) (h : Reached tr) :
    Phase ((c, completion) :: tr) (settled (exec x { c with waiting := .nothing })) := by
  have hreached := reached_cons hoffered htried h
  have hreading := hx { c with waiting := .nothing } (.inl rfl)
  rcases hexec : exec x { c with waiting := .nothing } with ⟨e | _, c'⟩
  · exact .inl hreached
  · rw [hexec] at hreading
    rw [settled_ok, Phase]
    obtain hwaiting | ⟨stage, hwaiting⟩ := hreading
    · rw [hwaiting]
      exact .inl hreached
    · rw [hwaiting]
      exact hreached

theorem phase_step {c' : Connection} {completion : Completion} (hinv : Inv c) (h : Phase tr c)
    (hstep : step c completion = some c') : Phase ((c, completion) :: tr) c' := by
  obtain ⟨handler, hhandler, rfl⟩ := Option.map_eq_some_iff.mp hstep
  have hopen : ∀ stage, stage = .version → Awaits stage c → ∀ slot, c.isSet slot = false := by
    rintro _ rfl hawaits slot
    simpa [settledAt] using hawaits.isSet slot
  cases hwaiting : c.waiting with
  | nothing => simp [hwaiting, handler?] at hhandler
  | resolve port =>
    cases completion <;> simp only [hwaiting, handler?, Option.some.injEq, reduceCtorEq] at hhandler
    subst hhandler
    exact phase_resolved hwaiting
      (hopen _ rfl (hinv.sending (.inr (.inl ⟨port, hwaiting⟩)))) h
  | connect endpoint others =>
    cases completion <;> simp only [hwaiting, handler?, Option.some.injEq, reduceCtorEq] at hhandler
    subst hhandler
    exact phase_connected hwaiting
      (hopen _ rfl (hinv.sending (.inr (.inr ⟨endpoint, others, hwaiting⟩)))) h
  | write =>
    have hreached : Reached tr := by simpa [Phase, hwaiting] using h
    cases completion <;> simp only [hwaiting, handler?, Option.some.injEq, reduceCtorEq] at hhandler
    subst hhandler
    refine phase_of_reading ?_ (by simp [offered, hwaiting]) (by simp [tried?, hwaiting]) hreached
    exact keeps_handleSentRequest _
  | readSome stage =>
    have hreached : Reached tr := by simpa [Phase, hwaiting] using h
    cases completion <;> simp only [hwaiting, handler?, Option.some.injEq, reduceCtorEq] at hhandler
    subst hhandler
    exact phase_of_reading (keeps_handleReceivedData stage _ _) (by simp [offered, hwaiting])
      (by simp [tried?, hwaiting]) hreached

end Step

/-- The endpoints tried are the first of those the resolver has given, in its order,
and all but the last were tried in vain. While the connection sends and reads, the
last attempt has succeeded; when it ends without one, every endpoint has been tried
and the promises hold the last error. -/
structure InOrder (tr : History) (c : Connection) : Prop where
  order : (attempts tr).map Prod.fst <+: candidates tr
  failed : ∀ p ∈ (attempts tr).dropLast, p.2 ≠ none
  sent : c.waiting = .write ∨ (∃ stage, c.waiting = .readSome stage) →
    ∃ endpoint, (attempts tr).getLast? = some (endpoint, none)
  gaveUp : c.waiting = .nothing →
    (∃ endpoint, (attempts tr).getLast? = some (endpoint, none)) ∨ GaveUp tr c

theorem inOrder_of_reached {tr : History} {c : Connection} (h : Reached tr) : InOrder tr c := by
  obtain ⟨failed, endpoint, hattempts, hfailed, horder⟩ := h
  have hlast : (attempts tr).getLast? = some (endpoint, none) := by simp [hattempts]
  exact ⟨horder, by simpa [hattempts] using hfailed, fun _ => ⟨endpoint, hlast⟩,
    fun _ => .inl ⟨endpoint, hlast⟩⟩

theorem inOrder_of_phase {tr : History} {c : Connection} (h : Phase tr c) : InOrder tr c := by
  rw [Phase] at h
  cases hwaiting : c.waiting with
  | resolve port =>
    obtain ⟨hattempts, -⟩ : attempts tr = [] ∧ candidates tr = [] := by simpa [hwaiting] using h
    exact ⟨by simp [hattempts], by simp [hattempts], by simp [hwaiting], by simp [hwaiting]⟩
  | connect endpoint others =>
    rw [hwaiting] at h
    exact ⟨⟨_, h.1⟩, fun p hp => h.2 p (List.mem_of_mem_dropLast hp), by simp [hwaiting],
      by simp [hwaiting]⟩
  | write =>
    rw [hwaiting] at h
    exact inOrder_of_reached h
  | readSome stage =>
    rw [hwaiting] at h
    exact inOrder_of_reached h
  | nothing =>
    rw [hwaiting] at h
    obtain h | h := h
    · exact inOrder_of_reached h
    · exact ⟨by rw [h.1], fun p hp => h.2.1 p (List.mem_of_mem_dropLast hp), by simp [hwaiting],
        fun _ => .inr h⟩

/-- In every run the addresses of the host are tried in the order the resolver gave
them, none twice and each after the one before has failed, and the request goes to
the last that was tried. -/
theorem run_inOrder {command : StdString} {port : ℕ} {getBody callback : Bool} {tr : History}
    {c : Connection} (run : Transition.Run step (start command port getBody callback) tr c) :
    InOrder tr c := by
  apply inOrder_of_phase
  have hinit : Phase [] (start command port getBody callback) := by simp [Phase, start, attempts,
    candidates]
  refine run.holds Phase hinit ?_
  intro tr c completion c' run h hstep
  exact phase_step (inv_run run) h hstep

/-- The first of two addresses refuses. -/
theorem run_inOrder_second : ∃ tr c,
    Transition.replay step (start [] 80 true false) [] [.resolved none [lit "a", lit "b"],
      .connected (some (.other 61))] = some (tr, c) ∧ InOrder tr c := by
  have h : Transition.replay step (start [] 80 true false) [] [.resolved none [lit "a", lit "b"],
    .connected (some (.other 61))] = some (_, _) := rfl
  exact ⟨_, _, h, run_inOrder (Transition.replay_run .start h)⟩

end Connection

end HttpBackground
