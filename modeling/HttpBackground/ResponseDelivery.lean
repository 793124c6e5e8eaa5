import HttpBackground.ConnectionPromises
import HttpBackground.ResultList

/-!
# From the bytes to the result list

`run` reads the response through futures of the connection's promises. Once the
connection has ended no accessor waits, and what the result list says is what the
bytes on the wire say.
-/
namespace HttpBackground

namespace CppNetlibDelegate

open Effects (exec_bind_of_ok)
open ResponseParser RunM

/-- `get` of a future: none where it waits. What is stored as an exception is
thrown as a `std::exception`. -/
def get? {α : Type} (p : Promise α) : Option (Except Raised α) :=
  p.map (Except.mapError fun _ => .stdException)

/-- The response as `run` uses it, where none of its accessors waits. -/
def response? (c : Connection) : Option Response := do
  let status ← get? c.statusPromise
  let body ← get? c.bodyPromise
  let headers ← get? c.headersPromise
  return ⟨status, body, headers⟩

/-- The list that describes a response, by the verb. -/
def described (sdk : OmnisSdk) (call : Call) (status : ℕ) (headers : Headers) (body : StdString) :
    QList :=
  let names := headers.map fun it => ⟨initStr255 sdk it.1, .fftCharacter⟩
  let values := headers.map fun it => .character it.2
  if call.isHead then
    ⟨[⟨lit "status", .fftList⟩, ⟨lit "headers", .fftList⟩],
      [[.integer status, .list names [values]]]⟩
  else
    ⟨[⟨lit "status", .fftInteger⟩, ⟨lit "headers", .fftList⟩, ⟨lit "body", .fftCharacter⟩],
      [[.integer status, .list names [values], .character body]]⟩

section Parts

variable {sdk : OmnisSdk} {client : HttpClient} {p : RunParams} {params : ParamMap} {call : Call}
  {r : Response} {status : ℕ} {body : StdString} {hs : Headers} {d : CppNetlibDelegate}

theorem exec_lift {α : Type} {x : Except Raised α} {a : α} (h : x = .ok a) :
    (lift x).exec d = (.ok a, d) := by
  rw [h]
  rfl

/-- A response with all its parts fills the lists. -/
theorem answer_of_parts (hsend : client.send call = .ok r) (hstatus : r.status = .ok status)
    (hbody : call.isHead = false → r.body = .ok body) (hheaders : r.headers = .ok hs) :
    (answer sdk client p call).exec d =
      (.ok (resultMap p (filled sdk call status body hs d)), filled sdk call status body hs d) := by
  have hbuild : (buildHeaderList sdk r).exec d =
      (.ok (), { d with headerResult := headerList sdk d.headerResult hs }) :=
    exec_bind_of_ok (exec_lift hheaders)
  refine (exec_bind_of_ok (exec_lift hsend)).trans ((exec_bind_of_ok (exec_lift hstatus)).trans ?_)
  cases hhead : call.isHead with
  | true =>
    simp only [if_true, filled, hhead]
    exact (exec_bind_of_ok hbuild).trans rfl
  | false =>
    simp only [Bool.false_eq_true, if_false, filled, hhead]
    exact (exec_bind_of_ok (exec_lift (hbody hhead))).trans ((exec_bind_of_ok hbuild).trans rfl)

/-- What `served` says of the steps before the call. -/
theorem perform_of_served (sdk : OmnisSdk) (d : CppNetlibDelegate)
    (hserved : served client params = some (call, r)) :
    (readParams params).url.isEmpty = false ∧ client.send call = .ok r ∧
      (perform sdk client (readParams params)).exec d =
        (answer sdk client (readParams params) call).exec d := by
  simp only [served] at hserved
  cases hurl : (readParams params).url.isEmpty with
  | true => simp [hurl] at hserved
  | false =>
    rw [hurl] at hserved
    cases hmake : client.makeRequest (readParams params).url with
    | error e => simp [hmake] at hserved
    | ok u =>
      cases hhead : requestHeaders ([], []) (readParams params).headers with
      | error e => simp [hmake, hhead] at hserved
      | ok headers =>
        simp only [hmake, hhead, Bool.false_eq_true, if_false, Option.bind_eq_some_iff] at hserved
        obtain ⟨call', hcall, hsend⟩ := hserved
        obtain ⟨r', hr', he⟩ := Option.map_eq_some_iff.mp hsend
        obtain ⟨rfl, rfl⟩ := Prod.mk.inj he
        have hok : client.send call' = .ok r' := by
          cases hx : client.send call' <;> simp_all [Except.toOption]
        refine ⟨rfl, hok, ?_⟩
        refine (exec_bind_of_ok (exec_lift hmake)).trans
          ((exec_bind_of_ok (exec_lift hhead)).trans ?_)
        simp only [hcall]
        rfl

/-- `run` on a response with all its parts. -/
theorem run_of_parts (hserved : served client params = some (call, r))
    (hstatus : r.status = .ok status) (hbody : call.isHead = false → r.body = .ok body)
    (hheaders : r.headers = .ok hs) :
    run sdk client params d = (.ok (resultMap (readParams params)
      (filled sdk call status body hs d)), filled sdk call status body hs d) := by
  obtain ⟨hurl, hsend, hperform⟩ := perform_of_served sdk d hserved
  simp only [run, hurl, Bool.false_eq_true, if_false, hperform,
    answer_of_parts hsend hstatus hbody hheaders, caught]

theorem filled_init : (filled sdk call status body hs init).listResult =
    described sdk call status hs body := by
  have hnew : headerList sdk init.headerResult hs = headerList sdk QList.new hs := rfl
  cases hhead : call.isHead with
  | true =>
    simp only [filled, hhead, if_true, fillHead, hnew, headerList_new, described]
    rfl
  | false =>
    simp only [filled, hhead, Bool.false_eq_true, if_false, fillBody, hnew, headerList_new,
      described]
    exact bodyList_new _ _ _

theorem response?_eq_some {c : Connection} (h : response? c = some r) :
    ∃ s b hs, c.statusPromise = some s ∧ c.bodyPromise = some b ∧ c.headersPromise = some hs ∧
      r = ⟨s.mapError fun _ => .stdException, b.mapError fun _ => .stdException,
        hs.mapError fun _ => .stdException⟩ := by
  simp only [response?, get?, Option.bind_eq_bind, Option.bind_eq_some_iff,
    Option.map_eq_some_iff] at h
  obtain ⟨_, ⟨s, hs, rfl⟩, _, ⟨b, hb, rfl⟩, _, ⟨hd, hh, rfl⟩, h⟩ := h
  exact ⟨s, b, hd, hs, hb, hh, (Option.some.inj h).symm⟩

/-- What a delegate returns for a response is what the bytes of the response say,
however they are cut into reads: the status, a column for each header line with its
value, and the body. -/
theorem run_delivers (hserved : served client params = some (call, r)) {c : Connection}
    (hc : Connection.Fresh c) {h : Head} {n : ℕ}
    (hn : Connection.lexicalCast h.status.digits = some n) {rest : StdString}
    (hcontent : Connection.content c h rest = some body) {e : ErrorCode} (he : e.isEnd = true)
    {pieces : List StdString} (hpieces : pieces.flatten = h.text ++ rest)
    (hr : response? (Connection.exchange c pieces e) = some r) :
    ∃ m, (run sdk client params init).1 = .ok m ∧
      (m.find? (lit "Result")).bind Any.qlist? = some (described sdk call n h.headers body) := by
  have ha := Connection.exchange_answers hc h hn hcontent he hpieces
  obtain ⟨s, b, hd, hs, hb, hh, rfl⟩ := response?_eq_some hr
  obtain rfl : Except.ok n = s := Option.some.inj (ha.status.symm.trans hs)
  obtain rfl : Except.ok body = b := Option.some.inj (ha.body.symm.trans hb)
  obtain rfl : Except.ok h.headers = hd := Option.some.inj (ha.headers.symm.trans hh)
  refine ⟨_, congrArg Prod.fst (run_of_parts hserved rfl (fun _ => rfl) rfl), ?_⟩
  rw [find?_resultMap, filled_init]

/-- `Connection.headOk` with a body, as `run` sees it. -/
def okResponse : Response := ⟨.ok 200, .ok (lit "hello"), .ok [(lit "Server", lit "x")]⟩

def okClient : HttpClient := ⟨fun _ => .ok (), fun _ => .ok okResponse⟩

theorem run_delivers_ok :
    ∃ m, (run plainSdk okClient [(lit "url", .string (lit "http://host/"))] init).1 = .ok m ∧
      (m.find? (lit "Result")).bind Any.qlist? = some (described plainSdk
        (.get ⟨lit "http://host/", []⟩) 200 [(lit "Server", lit "x")] (lit "hello")) := by
  have hheaders : Connection.headOk.headers = [(lit "Server", lit "x")] := by decide +kernel
  have hpieces : [lit "HTTP/1.1 200 OK\r", lit "\nServer: x\r\n\r\nhello"].flatten =
      Connection.headOk.text ++ lit "hello" := by decide
  have hcontent : Connection.content { waiting := .readSome .version } Connection.headOk
      (lit "hello") = some (lit "hello") := by decide +kernel
  have ha := Connection.exchange_answers Connection.fresh_reading Connection.headOk (n := 200)
    (by decide) hcontent (e := .eof) rfl hpieces
  have hr : response? (Connection.exchange { waiting := .readSome .version }
      [lit "HTTP/1.1 200 OK\r", lit "\nServer: x\r\n\r\nhello"] .eof) = some okResponse := by
    rw [response?, ha.status, ha.body, ha.headers, hheaders]
    rfl
  have hserved : served okClient [(lit "url", .string (lit "http://host/"))] =
      some (.get ⟨lit "http://host/", []⟩, okResponse) := rfl
  rw [← hheaders]
  exact run_delivers hserved Connection.fresh_reading (by decide) hcontent rfl hpieces hr

/-- The parts of the response `run` reads for a verb all have a value. -/
def Complete (call : Call) (c : Connection) : Prop :=
  (∃ status, c.statusPromise = some (.ok status)) ∧
    (call.isHead = false → ∃ body, c.bodyPromise = some (.ok body)) ∧
    ∃ headers, c.headersPromise = some (.ok headers)

theorem mapError_ok {α : Type} {x : Except NetError α} {a : α}
    (h : (x.mapError fun _ => Raised.stdException) = .ok a) : x = .ok a := by
  cases x with
  | error e => cases h
  | ok b => exact congrArg Except.ok (Except.ok.inj h)

theorem mapError_error {α : Type} {x : Except NetError α} {e : Raised}
    (h : (x.mapError fun _ => Raised.stdException) = .error e) : e = .stdException := by
  cases x with
  | error _ => exact (Except.error.inj h).symm
  | ok b => cases h

/-- Without a part that it reads `run` returns the empty map and leaves the lists
alone. -/
theorem run_of_not_complete {c : Connection} (hserved : served client params = some (call, r))
    (hr : response? c = some r) (hcomplete : ¬ Complete call c) :
    run sdk client params d = (.ok [], d) := by
  obtain ⟨hurl, hsend, hperform⟩ := perform_of_served sdk d hserved
  obtain ⟨s, b, hd, hs, hb, hh, rfl⟩ := response?_eq_some hr
  rcases hexec : (answer sdk client (readParams params) call).exec d with ⟨e | m, d'⟩
  · obtain ⟨rfl, hthrows⟩ := answer_exec_error sdk client (readParams params) call d hexec
    have he : e = .stdException := by
      obtain hthrown | ⟨r', hr', hthrown⟩ := hthrows
      · simp [hsend] at hthrown
      · obtain rfl : _ = r' := Except.ok.inj (hsend.symm.trans hr')
        obtain h | h | h := hthrown <;> exact mapError_error h
    simp only [run, hurl, Bool.false_eq_true, if_false, hperform, hexec, he, caught]
  · obtain ⟨r', hr', status, hstatus, body, hbody, hs', hheaders, -, -⟩ :=
      answer_exec sdk client (readParams params) call d hexec
    obtain rfl : _ = r' := Except.ok.inj (hsend.symm.trans hr')
    refine absurd ⟨⟨status, ?_⟩, fun hhead => ⟨body, ?_⟩, ⟨hs', ?_⟩⟩ hcomplete
    · rw [hs, mapError_ok hstatus]
    · rw [hb, mapError_ok (hbody hhead)]
    · rw [hh, mapError_ok hheaders]

theorem run_of_complete {c : Connection} (hserved : served client params = some (call, r))
    (hr : response? c = some r) (hcomplete : Complete call c) :
    ∃ m l, (run sdk client params d).1 = .ok m ∧
      (m.find? (lit "Result")).bind Any.qlist? = some l := by
  obtain ⟨s, b, hd, hs, hb, hh, rfl⟩ := response?_eq_some hr
  obtain ⟨⟨status, hstatus⟩, hbody, headers, hheaders⟩ := hcomplete
  obtain rfl : Except.ok status = s := Option.some.inj (hstatus.symm.trans hs)
  obtain rfl : Except.ok headers = hd := Option.some.inj (hheaders.symm.trans hh)
  have hbody' : ∃ body, call.isHead = false →
      (b.mapError fun _ => Raised.stdException) = .ok body := by
    cases hhead : call.isHead with
    | true => exact ⟨[], by simp⟩
    | false =>
      obtain ⟨body, hok⟩ := hbody hhead
      obtain rfl : Except.ok body = b := Option.some.inj (hok.symm.trans hb)
      exact ⟨body, fun _ => rfl⟩
  obtain ⟨body, hbody'⟩ := hbody'
  exact ⟨_, _, congrArg Prod.fst (run_of_parts hserved rfl hbody' rfl), find?_resultMap _ _⟩

/-- Whatever the resolver, the network and the peer have done: once the connection
has ended, no accessor waits, and `run` returns a result list if every part it reads
has a value and the empty map with the lists untouched if one of them has an error. -/
theorem run_ends {command : StdString} {port : ℕ} {getBody : Bool}
    {tr : List (Connection × Connection.Completion)} {c : Connection}
    (steps : Transition.Run Connection.step (Connection.start command port getBody false) tr c)
    (hwaiting : c.waiting = .nothing) (hescaped : c.escaped = none) :
    ∃ r, response? c = some r ∧ (served client params = some (call, r) →
      (Complete call c → ∃ m l, (run sdk client params d).1 = .ok m ∧
        (m.find? (lit "Result")).bind Any.qlist? = some l) ∧
      (¬ Complete call c → run sdk client params d = (.ok [], d))) := by
  have hended := (Connection.inv_run steps).ended hwaiting
  rw [Connection.Ended, hescaped] at hended
  have hset : Connection.AllSettled c := hended
  obtain ⟨s, hs⟩ := Option.isSome_iff_exists.mp (hset .status)
  obtain ⟨b, hb⟩ := Option.isSome_iff_exists.mp (hset .body)
  obtain ⟨hd, hh⟩ := Option.isSome_iff_exists.mp (hset .headers)
  have hr : ∃ r, response? c = some r := by simp [response?, get?, hs, hb, hh]
  obtain ⟨r, hr⟩ := hr
  exact ⟨r, hr, fun hserved => ⟨run_of_complete hserved hr, run_of_not_complete hserved hr⟩⟩

/-- A response of which nothing came. -/
def noResponse : Response := ⟨.error .stdException, .error .stdException, .error .stdException⟩

def noClient : HttpClient := ⟨fun _ => .ok (), fun _ => .ok noResponse⟩

/-- The host is not found, so that `run` fails and leaves the delegate alone. -/
theorem run_ends_notFound : ∃ tr c,
    Transition.replay Connection.step (Connection.start [] 80 true false) []
        [.resolved (some .hostNotFound) []] = some (tr, c) ∧ response? c = some noResponse ∧
      run plainSdk noClient [(lit "url", .string (lit "http://host/"))] init = (.ok [], init) := by
  have h : Transition.replay Connection.step (Connection.start [] 80 true false) []
    [.resolved (some .hostNotFound) []] = some (_, _) := rfl
  have hserved : served noClient [(lit "url", .string (lit "http://host/"))] =
      some (.get ⟨lit "http://host/", []⟩, noResponse) := rfl
  obtain ⟨r, hr, hrun⟩ := run_ends (Transition.replay_run .start h) rfl rfl
  obtain rfl : noResponse = r := Option.some.inj hr
  refine ⟨_, _, h, rfl, (hrun hserved).2 ?_⟩
  rintro ⟨⟨status, hstatus⟩, -⟩
  cases hstatus

end Parts

end CppNetlibDelegate

end HttpBackground
