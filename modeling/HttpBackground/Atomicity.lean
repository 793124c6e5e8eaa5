import HttpBackground.ResultList

/-!
# A request succeeds as a whole or not at all

Whatever throws inside `run` throws before the lists of the delegate are touched:
the casts of the header entries, the call and the status, the body and the headers
of the response. The handler then returns a map that nothing has been put into.
-/
namespace HttpBackground

/-- Nothing but a `std::exception` comes out of the client and its responses. -/
structure HttpClient.ThrowsStd (client : HttpClient) : Prop where
  makeRequest : ∀ url e, client.makeRequest url = .error e → e = .stdException
  send : ∀ call e, client.send call = .error e → e = .stdException
  status : ∀ call r e, client.send call = .ok r → r.status = .error e → e = .stdException
  body : ∀ call r e, client.send call = .ok r → r.body = .error e → e = .stdException
  headers : ∀ call r e, client.send call = .ok r → r.headers = .error e → e = .stdException

namespace CppNetlibDelegate

variable {client : HttpClient} {e : Raised}

theorem castString_error {v : Any} (h : castString v = .error e) : e = .stdException := by
  unfold castString at h
  split at h
  · cases h
  · cases h
    rfl

/-- A failed cast of a header entry is a `std::exception`. -/
theorem headerItems_error {acc : StdString × StdString} {items : ParamMap}
    (h : headerItems acc items = .error e) : e = .stdException := by
  induction items generalizing acc with
  | nil => cases h
  | cons item items ih =>
    obtain ⟨k, v⟩ := item
    simp only [headerItems] at h
    split_ifs at h
    · cases hcast : castString v with
      | error e' =>
        rw [hcast] at h
        cases h
        exact castString_error hcast
      | ok headKey =>
        rw [hcast] at h
        exact ih h
    · cases hcast : castString v with
      | error e' =>
        rw [hcast] at h
        cases h
        exact castString_error hcast
      | ok headValue =>
        rw [hcast] at h
        exact ih h
    · exact ih h

theorem requestHeaders_error {acc : StdString × StdString} {headers : List ParamMap}
    (h : requestHeaders acc headers = .error e) : e = .stdException := by
  induction headers generalizing acc with
  | nil => cases h
  | cons head headers ih =>
    simp only [requestHeaders] at h
    cases hitems : headerItems acc head with
    | error e' =>
      rw [hitems] at h
      cases h
      exact headerItems_error hitems
    | ok acc' =>
      rw [hitems] at h
      cases hrest : requestHeaders acc' headers with
      | error e' =>
        have : (Except.error e' : Except Raised (List (StdString × StdString))) = .error e := by
          simpa [hrest, bind, Except.bind] using h
        cases this
        exact ih hrest
      | ok rest => simp [hrest, bind, Except.bind, pure, Except.pure] at h

/-- So is everything else that leaves the `try` block. -/
theorem perform_throwsStd (hstd : client.ThrowsStd) {sdk : OmnisSdk} {p : RunParams}
    {d d' : CppNetlibDelegate} (h : (perform sdk client p).exec d = (.error e, d')) :
    e = .stdException := by
  obtain ⟨-, hmake | hhead | ⟨call, hsend | ⟨r, hr, hstatus | hbody | hheaders⟩⟩⟩ :=
    perform_exec_error sdk client p d h
  · exact hstd.makeRequest p.url e hmake
  · exact requestHeaders_error hhead
  · exact hstd.send call e hsend
  · exact hstd.status call r e hr hstatus
  · exact hstd.body call r e hr hbody
  · exact hstd.headers call r e hr hheaders

theorem resultMap_keys (p : RunParams) (d : CppNetlibDelegate) :
    (resultMap p d).map Prod.fst = [lit "Method", lit "Result", lit "URL"] := rfl

/-- As long as nothing but `std::exception` is thrown, `run` returns, with the three
keys of a result or with an empty map, and with an empty map both lists are as before. -/
theorem run_atomic (sdk : OmnisSdk) (client : HttpClient) (hstd : client.ThrowsStd)
    (params : ParamMap) (d : CppNetlibDelegate) :
    ∃ m d', run sdk client params d = (.ok m, d') ∧
      (m = [] ∨ m.map Prod.fst = [lit "Method", lit "Result", lit "URL"]) ∧
      (m = [] → d' = d) := by
  by_cases hurl : (readParams params).url.isEmpty = true
  · exact ⟨[], d, by simp only [run, hurl, if_true], .inl rfl, fun _ => rfl⟩
  have hrun : run sdk client params d = caught ((perform sdk client (readParams params)).exec d) := by
    simp only [run, hurl, Bool.false_eq_true, if_false]
  rcases hexec : (perform sdk client (readParams params)).exec d with ⟨out, d'⟩
  rw [hexec] at hrun
  cases out with
  | error e =>
    obtain rfl := perform_throwsStd hstd hexec
    exact ⟨[], d', hrun, .inl rfl, fun _ => (perform_exec_error sdk client _ d hexec).1⟩
  | ok m =>
    obtain ⟨rfl, rfl⟩ | ⟨headers, call, r, status, body, hs, -, -, -, -, -, -, -, -, rfl⟩ :=
      perform_exec sdk client _ d hexec
    · exact ⟨[], _, hrun, .inl rfl, fun _ => rfl⟩
    · have hkeys := resultMap_keys (readParams params) d'
      refine ⟨_, d', hrun, .inr hkeys, fun hnil => ?_⟩
      rw [hnil] at hkeys
      cases hkeys

/-- The body of the response throws. -/
theorem run_atomic_body :
    ∃ m d', run plainSdk ⟨fun _ => .ok (), fun _ => .ok ⟨.ok 200, .error .stdException, .ok []⟩⟩
        [(lit "url", .string (lit "http://host/"))] init = (.ok m, d') ∧
      (m = [] ∨ m.map Prod.fst = [lit "Method", lit "Result", lit "URL"]) ∧
      (m = [] → d' = init) := by
  refine run_atomic plainSdk _ ⟨fun url e h => ?_, fun call e h => ?_, fun call r e hr h => ?_,
    fun call r e hr h => ?_, fun call r e hr h => ?_⟩ _ _
  · cases h
  · cases h
  · cases hr
    cases h
  · cases hr
    cases h
    rfl
  · cases hr
    cases h

end CppNetlibDelegate

end HttpBackground
