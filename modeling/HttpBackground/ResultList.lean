import HttpBackground.CppNetlibDelegate
import HttpBackground.Transition
import Mathlib.Data.List.TakeWhile

/-!
# What the result list of an execution describes

The two lists of a delegate are allocated once and extended by every execution
that gets a response, while the cells written are always those of row 1 and of
the first columns. An execution therefore describes its own response exactly
when it finds both lists empty, the verb is not `HEAD`, whose status column has
the wrong type, and every header name fits the column name it is copied to.
-/
namespace HttpBackground

namespace CppNetlibDelegate

/-- The call an execution issues and the response it gets, if it comes so far. -/
def served (client : HttpClient) (params : ParamMap) : Option (Call × Response) :=
  let p := readParams params
  if p.url.isEmpty then none
  else match client.makeRequest p.url, requestHeaders ([], []) p.headers with
    | .ok _, .ok headers =>
      (call? p ⟨p.url, headers⟩).bind fun call => (client.send call).toOption.map fun r => (call, r)
    | _, _ => none

/-- What `perform` does to the delegate when the call gets a response with all
its parts: the lists of the verb, and nothing else. -/
def filled (sdk : OmnisSdk) (call : Call) (status : ℕ) (body : StdString)
    (hs : List (StdString × StdString)) (d : CppNetlibDelegate) : CppNetlibDelegate :=
  let d := { d with headerResult := headerList sdk d.headerResult hs }
  if call.isHead then fillHead sdk status d else fillBody sdk status body d

theorem answer_exec (sdk : OmnisSdk) (client : HttpClient) (p : RunParams) (call : Call)
    (d : CppNetlibDelegate) {m : ParamMap} {d' : CppNetlibDelegate}
    (h : (answer sdk client p call).exec d = (.ok m, d')) :
    ∃ r, client.send call = .ok r ∧ ∃ status, r.status = .ok status ∧
      ∃ body, (call.isHead = false → r.body = .ok body) ∧ ∃ hs, r.headers = .ok hs ∧
      d' = filled sdk call status body hs d ∧ m = resultMap p d' := by
  unfold answer at h
  obtain ⟨r, hr, h⟩ := RunM.exec_lift_bind_ok h
  obtain ⟨status, hst, h⟩ := RunM.exec_lift_bind_ok h
  refine ⟨r, hr, status, hst, ?_⟩
  by_cases hc : call.isHead = true
  · rw [if_pos hc] at h
    obtain ⟨⟨⟩, d₁, hlist, h⟩ := RunM.exec_bind_ok h
    obtain ⟨hs, hhs, rfl⟩ := buildHeaderList_ok hlist
    cases h
    exact ⟨[], fun hnot => by simp [hc] at hnot, hs, hhs, (if_pos hc).symm, rfl⟩
  · rw [if_neg hc] at h
    obtain ⟨body, hbody, h⟩ := RunM.exec_lift_bind_ok h
    obtain ⟨⟨⟩, d₁, hlist, h⟩ := RunM.exec_bind_ok h
    obtain ⟨hs, hhs, rfl⟩ := buildHeaderList_ok hlist
    cases h
    exact ⟨body, fun _ => hbody, hs, hhs, (if_neg hc).symm, rfl⟩

/-- The call throws, or a part of the response that it gets. -/
def Throws (client : HttpClient) (call : Call) (e : Raised) : Prop :=
  client.send call = .error e ∨ ∃ r, client.send call = .ok r ∧
    (r.status = .error e ∨ r.body = .error e ∨ r.headers = .error e)

/-- Every accessor that can throw comes before the first change to a list. -/
theorem answer_exec_error (sdk : OmnisSdk) (client : HttpClient) (p : RunParams) (call : Call)
    (d : CppNetlibDelegate) {e : Raised} {d' : CppNetlibDelegate}
    (h : (answer sdk client p call).exec d = (.error e, d')) :
    d' = d ∧ Throws client call e := by
  unfold answer at h
  obtain ⟨hsend, hd⟩ | ⟨r, hr, h⟩ := RunM.exec_lift_bind_error h
  · exact ⟨hd, .inl hsend⟩
  obtain ⟨hstatus, hd⟩ | ⟨status, -, h⟩ := RunM.exec_lift_bind_error h
  · exact ⟨hd, .inr ⟨r, hr, .inl hstatus⟩⟩
  by_cases hc : call.isHead = true
  · rw [if_pos hc] at h
    obtain hlist | ⟨⟨⟩, d₁, -, h⟩ := RunM.exec_bind_error h
    · obtain ⟨hheaders, hd⟩ := buildHeaderList_error hlist
      exact ⟨hd, .inr ⟨r, hr, .inr (.inr hheaders)⟩⟩
    · cases h
  · rw [if_neg hc] at h
    obtain ⟨hbody, hd⟩ | ⟨body, -, h⟩ := RunM.exec_lift_bind_error h
    · exact ⟨hd, .inr ⟨r, hr, .inr (.inl hbody)⟩⟩
    obtain hlist | ⟨⟨⟩, d₁, -, h⟩ := RunM.exec_bind_error h
    · obtain ⟨hheaders, hd⟩ := buildHeaderList_error hlist
      exact ⟨hd, .inr ⟨r, hr, .inr (.inr hheaders)⟩⟩
    · cases h

/-- Whatever leaves the `try` block leaves the lists as they were. -/
theorem perform_exec_error (sdk : OmnisSdk) (client : HttpClient) (p : RunParams)
    (d : CppNetlibDelegate) {e : Raised} {d' : CppNetlibDelegate}
    (h : (perform sdk client p).exec d = (.error e, d')) :
    d' = d ∧ (client.makeRequest p.url = .error e ∨
      requestHeaders ([], []) p.headers = .error e ∨ ∃ call, Throws client call e) := by
  unfold perform at h
  obtain ⟨hmake, hd⟩ | ⟨⟨⟩, -, h⟩ := RunM.exec_lift_bind_error h
  · exact ⟨hd, .inl hmake⟩
  obtain ⟨hhead, hd⟩ | ⟨headers, -, h⟩ := RunM.exec_lift_bind_error h
  · exact ⟨hd, .inr (.inl hhead)⟩
  cases hcall : call? p ⟨p.url, headers⟩ with
  | none =>
    rw [hcall] at h
    cases h
  | some call =>
    rw [hcall] at h
    obtain ⟨hd, hthrown⟩ := answer_exec_error sdk client p call d h
    exact ⟨hd, .inr (.inr ⟨call, hthrown⟩)⟩

theorem perform_exec (sdk : OmnisSdk) (client : HttpClient) (p : RunParams)
    (d : CppNetlibDelegate) {m : ParamMap} {d' : CppNetlibDelegate}
    (h : (perform sdk client p).exec d = (.ok m, d')) :
    (m = [] ∧ d' = d) ∨
    ∃ headers call r status body hs, client.makeRequest p.url = .ok () ∧
      requestHeaders ([], []) p.headers = .ok headers ∧ call? p ⟨p.url, headers⟩ = some call ∧
      client.send call = .ok r ∧ r.status = .ok status ∧
      (call.isHead = false → r.body = .ok body) ∧ r.headers = .ok hs ∧
      d' = filled sdk call status body hs d ∧ m = resultMap p d' := by
  unfold perform at h
  obtain ⟨⟨⟩, hmake, h⟩ := RunM.exec_lift_bind_ok h
  obtain ⟨headers, hhead, h⟩ := RunM.exec_lift_bind_ok h
  cases hcall : call? p ⟨p.url, headers⟩ with
  | none =>
    rw [hcall] at h
    cases h
    exact .inl ⟨rfl, rfl⟩
  | some call =>
    rw [hcall] at h
    obtain ⟨r, hr, status, hst, body, hbody, hs, hhs, hd, hm⟩ := answer_exec sdk client p call d h
    exact .inr ⟨headers, call, r, status, body, hs, hmake, hhead, hcall, hr, hst, hbody, hhs, hd, hm⟩

theorem qshort_of_lt {n : ℕ} (h : n < 32768) : qshort n = n := by
  rw [qshort, BitVec.toInt_ofNat', Int.bmod]
  omega

theorem cStr_of_not_mem {s : StdString} (h : 0 ∉ s) : cStr s = s := by
  rw [cStr, List.takeWhile_eq_self_iff]
  intro c hc
  have hne : c ≠ 0 := fun h0 => h (h0 ▸ hc)
  simpa using hne

theorem not_mem_of_cStr {s : StdString} (h : cStr s = s) : 0 ∉ s := by
  rw [cStr, List.takeWhile_eq_self_iff] at h
  intro h0
  simpa using h 0 h0

/-- A column takes the name it is given exactly when the name is a C string of
at most 255 bytes. A name long enough to wrap the guard cannot survive either,
since a string of that capacity does not hold it. -/
theorem initStr255_eq_iff (sdk : OmnisSdk) (s : StdString) :
    initStr255 sdk s = s ↔ 0 ∉ s ∧ s.length ≤ 255 := by
  constructor
  · intro h
    simp only [initStr255, initStr] at h
    split_ifs at h with hguard
    · have hcap := sdk.setUtf8_length 255 (cStr s)
      have hprefix : (cStr s).length ≤ s.length := (List.takeWhile_sublist _).length_le
      rw [h] at hcap
      rw [qshort_of_lt (by omega)] at hguard
      have hle : (cStr s).length ≤ 255 := by omega
      rw [sdk.setUtf8_of_le 255 _ hle] at h
      exact ⟨not_mem_of_cStr h, by rw [h] at hle; exact hle⟩
    · subst h
      simp
  · rintro ⟨hzero, hle⟩
    simp only [initStr255, initStr, cStr_of_not_mem hzero]
    rw [qshort_of_lt (by omega), sdk.setUtf8_of_le 255 s hle]
    split_ifs with hguard
    · rfl
    · have hnil : s.length = 0 := by omega
      exact (List.length_eq_zero_iff.mp hnil).symm

@[simp] theorem addHeaderCols_cols (sdk : OmnisSdk) (l : QList)
    (hs : List (StdString × StdString)) :
    (addHeaderCols sdk l hs).cols =
      l.cols ++ hs.map fun it => ⟨initStr255 sdk it.1, .fftCharacter⟩ := by
  induction hs generalizing l with
  | nil => simp [addHeaderCols]
  | cons it hs ih =>
    simp only [addHeaderCols, List.foldl_cons] at ih ⊢
    rw [ih]
    simp [QList.addCol]

@[simp] theorem addHeaderCols_length (sdk : OmnisSdk) (l : QList)
    (hs : List (StdString × StdString)) :
    (addHeaderCols sdk l hs).rows.length = l.rows.length := by
  induction hs generalizing l with
  | nil => rfl
  | cons it hs ih =>
    simp only [addHeaderCols, List.foldl_cons] at ih ⊢
    rw [ih, QList.addCol_length]

theorem setHeaderVals_cols (l : QList) (col : ℕ) (hs : List (StdString × StdString)) :
    (setHeaderVals l col hs).cols = l.cols := by
  induction hs generalizing l col with
  | nil => rfl
  | cons it hs ih => rw [setHeaderVals, ih, QList.setColVal_cols]

theorem setHeaderVals_length (l : QList) (col : ℕ) (hs : List (StdString × StdString)) :
    (setHeaderVals l col hs).rows.length = l.rows.length := by
  induction hs generalizing l col with
  | nil => rfl
  | cons it hs ih => rw [setHeaderVals, ih, QList.setColVal_length]

/-- Writing the values behind those already written, into a row long enough. -/
theorem setHeaderVals_row (cols : List Column) (done : List FldVal)
    (hs : List (StdString × StdString)) :
    setHeaderVals ⟨cols, [done ++ List.replicate hs.length .empty]⟩ done.length hs =
      ⟨cols, [done ++ hs.map fun it => .character it.2]⟩ := by
  induction hs generalizing done with
  | nil => simp [setHeaderVals]
  | cons it hs ih =>
    obtain ⟨name, value⟩ := it
    have hset : (QList.mk cols [done ++ List.replicate (hs.length + 1) .empty]).setColVal 1
        (done.length + 1) (.character value) =
        ⟨cols, [(done ++ [.character value]) ++ List.replicate hs.length .empty]⟩ := by
      simp [QList.setColVal, List.replicate_succ]
    simp only [setHeaderVals, List.length_cons, hset]
    have hdone : done.length + 1 = (done ++ [FldVal.character value]).length := by simp
    rw [hdone, ih]
    simp

theorem headerList_cols (sdk : OmnisSdk) (l : QList) (hs : List (StdString × StdString)) :
    (headerList sdk l hs).cols =
      l.cols ++ hs.map fun it => ⟨initStr255 sdk it.1, .fftCharacter⟩ := by
  rw [headerList, setHeaderVals_cols, QList.insertRow, addHeaderCols_cols]

theorem headerList_length (sdk : OmnisSdk) (l : QList) (hs : List (StdString × StdString)) :
    (headerList sdk l hs).rows.length = l.rows.length + 1 := by
  rw [headerList, setHeaderVals_length, QList.insertRow_length, addHeaderCols_length]

/-- On an empty list the two passes leave one column and one value per header. -/
theorem headerList_new (sdk : OmnisSdk) (hs : List (StdString × StdString)) :
    headerList sdk QList.new hs =
      ⟨hs.map fun it => ⟨initStr255 sdk it.1, .fftCharacter⟩,
        [hs.map fun it => .character it.2]⟩ := by
  have hrows : (addHeaderCols sdk QList.new hs).rows = [] := by
    rw [← List.length_eq_zero_iff, addHeaderCols_length]
    rfl
  have hinsert : (addHeaderCols sdk QList.new hs).insertRow =
      ⟨hs.map fun it => ⟨initStr255 sdk it.1, .fftCharacter⟩,
        [[] ++ List.replicate hs.length .empty]⟩ := by
    simp only [QList.insertRow, QList.colCnt, hrows, addHeaderCols_cols]
    simp [QList.new]
  unfold headerList
  rw [hinsert]
  exact setHeaderVals_row _ [] hs

theorem bodyList_cols (status : ℕ) (h : QList) (body : StdString) (l : QList) :
    (bodyList status h body l).cols = l.cols ++ [⟨lit "status", .fftInteger⟩,
      ⟨lit "headers", .fftList⟩, ⟨lit "body", .fftCharacter⟩] := by
  simp [bodyList, setHeaderCell, QList.setColVal_cols, QList.insertRow, QList.addCol]

theorem bodyList_length (status : ℕ) (h : QList) (body : StdString) (l : QList) :
    (bodyList status h body l).rows.length = l.rows.length + 1 := by
  simp [bodyList, setHeaderCell]

theorem bodyList_new (status : ℕ) (h : QList) (body : StdString) :
    bodyList status h body QList.new =
      ⟨[⟨lit "status", .fftInteger⟩, ⟨lit "headers", .fftList⟩, ⟨lit "body", .fftCharacter⟩],
        [[.integer status, .list h.cols h.rows, .character body]]⟩ := rfl

theorem headList_cols (status : ℕ) (h : QList) (l : QList) :
    (headList status h l).cols =
      l.cols ++ [⟨lit "status", .fftList⟩, ⟨lit "headers", .fftList⟩] := by
  simp [headList, setHeaderCell, QList.setColVal_cols, QList.insertRow, QList.addCol]

theorem headList_length (status : ℕ) (h : QList) (l : QList) :
    (headList status h l).rows.length = l.rows.length + 1 := by
  simp [headList, setHeaderCell]

/-- The list in the headers cell: one row, a column per response header. -/
structure HeaderCell (hs : List (StdString × StdString)) (h : QList) : Prop where
  names : h.cols.map Column.name = hs.map Prod.fst
  row : h.rows = [hs.map fun it => .character it.2]

/-- The result list describes this response and nothing else. -/
structure OwnResponse (call : Call) (r : Response) (l : QList) : Prop where
  one_row : l.rowCnt = 1
  names : l.cols.map Column.name =
    if call.isHead then [lit "status", lit "headers"]
    else [lit "status", lit "headers", lit "body"]
  status_fft : l.cols.head?.map Column.fft = some .fftInteger
  status : ∃ status, r.status = .ok status ∧ l.getColVal 1 1 = .integer status
  headers : ∃ hs h, r.headers = .ok hs ∧ l.getColVal 1 2 = .list h.cols h.rows ∧ HeaderCell hs h
  body : call.isHead = false → ∃ body, r.body = .ok body ∧ l.getColVal 1 3 = .character body

/-- What an execution must find for its list to describe its own response. -/
structure Fresh (d : CppNetlibDelegate) (call : Call) (r : Response) : Prop where
  listResult : d.listResult = QList.new
  headerResult : d.headerResult = QList.new
  verb : call.isHead = false
  names : ∀ hs, r.headers = .ok hs → ∀ it ∈ hs, 0 ∉ it.1 ∧ it.1.length ≤ 255

/-- A list without columns and rows is a new one. -/
theorem eq_new {l : QList} (hcols : l.cols.length = 0) (hrows : l.rows.length = 0) :
    l = QList.new := by
  obtain ⟨cols, rows⟩ := l
  rw [QList.new, QList.mk.injEq]
  exact ⟨List.length_eq_zero_iff.mp hcols, List.length_eq_zero_iff.mp hrows⟩

theorem headerCell_iff (sdk : OmnisSdk) (l : QList) (hs : List (StdString × StdString)) :
    HeaderCell hs (headerList sdk l hs) ↔
      l = QList.new ∧ ∀ it ∈ hs, 0 ∉ it.1 ∧ it.1.length ≤ 255 := by
  constructor
  · intro h
    have hnames := h.names
    have hlength := congrArg List.length hnames
    have hrows := congrArg List.length h.row
    rw [headerList_cols] at hnames hlength
    rw [headerList_length] at hrows
    simp only [List.length_map, List.length_append, List.length_cons, List.length_nil] at hlength hrows
    have hnew : l = QList.new := eq_new (by omega) (by omega)
    subst hnew
    refine ⟨rfl, fun it hit => ?_⟩
    simp only [QList.new, List.nil_append, List.map_map, List.map_inj_left] at hnames
    exact (initStr255_eq_iff sdk it.1).mp (hnames it hit)
  · rintro ⟨rfl, hfit⟩
    rw [headerList_new]
    refine ⟨?_, rfl⟩
    simp only [List.map_map, List.map_inj_left]
    exact fun it hit => (initStr255_eq_iff sdk it.1).mpr (hfit it hit)

section OneExecution

variable {call : Call} {r : Response} {status : ℕ} {h l : QList}

/-- The status column of a HEAD request is a list column if it is the first at all. -/
theorem not_ownResponse_head (hc : call.isHead = true) :
    ¬ OwnResponse call r (headList status h l) := by
  intro hown
  have hnames := congrArg List.length hown.names
  have hfft := hown.status_fft
  rw [headList_cols] at hnames hfft
  simp only [hc, List.length_map, List.length_append, List.length_cons, if_true,
    List.length_nil] at hnames
  have hnil : l.cols = [] := List.length_eq_zero_iff.mp (by omega)
  simp [hnil] at hfft

/-- Three columns and one row leave no room for what was there before. -/
theorem new_of_ownResponse {body : StdString} (hc : call.isHead = false)
    (hown : OwnResponse call r (bodyList status h body l)) : l = QList.new := by
  have hnames := congrArg List.length hown.names
  have hrows := hown.one_row
  rw [bodyList_cols] at hnames
  rw [QList.rowCnt, bodyList_length] at hrows
  simp only [hc, List.length_map, List.length_append, List.length_cons, List.length_nil,
    Bool.false_eq_true, if_false] at hnames
  exact eq_new (by omega) (by omega)

/-- The header list is the one that the cell of the only row shows. -/
theorem headerCell_of_ownResponse {body : StdString} {hs : List (StdString × StdString)}
    (hhs : r.headers = .ok hs) (hown : OwnResponse call r (bodyList status h body QList.new)) :
    HeaderCell hs h := by
  obtain ⟨hs', h', hhs', hcell, hheader⟩ := hown.headers
  rw [hhs] at hhs'
  cases hhs'
  rw [bodyList_new] at hcell
  have hh : h = h' := by
    cases h
    cases h'
    simpa [QList.getColVal] using hcell
  rwa [hh]

end OneExecution

/-- The list of an execution that gets its response describes it exactly when
the execution finds both lists empty, the verb has a body and the names fit. -/
theorem ownResponse_filled_iff (sdk : OmnisSdk) (d : CppNetlibDelegate) (call : Call)
    (r : Response) {status : ℕ} {body : StdString} {hs : List (StdString × StdString)}
    (hstatus : r.status = .ok status) (hbody : call.isHead = false → r.body = .ok body)
    (hhs : r.headers = .ok hs) :
    OwnResponse call r (filled sdk call status body hs d).listResult ↔ Fresh d call r := by
  cases hc : call.isHead with
  | true =>
    have hlist : (filled sdk call status body hs d).listResult =
        headList status (headerList sdk d.headerResult hs) d.listResult := by
      simp [filled, hc, fillHead]
    rw [hlist]
    apply iff_of_false (not_ownResponse_head hc)
    intro h
    have hverb := h.verb
    simp [hc] at hverb
  | false =>
    have hlist : (filled sdk call status body hs d).listResult =
        bodyList status (headerList sdk d.headerResult hs) body d.listResult := by
      simp [filled, hc, fillBody]
    rw [hlist]
    constructor
    · intro h
      have hnew := new_of_ownResponse hc h
      rw [hnew] at h
      have hheader := (headerCell_iff sdk d.headerResult hs).mp (headerCell_of_ownResponse hhs h)
      refine ⟨hnew, hheader.1, hc, fun hs' hhs' => ?_⟩
      rw [hhs] at hhs'
      cases hhs'
      exact hheader.2
    · intro h
      have hheader := (headerCell_iff sdk d.headerResult hs).mpr ⟨h.headerResult, h.names hs hhs⟩
      rw [h.listResult, bodyList_new]
      exact ⟨rfl, by simp [hc], rfl, ⟨status, hstatus, rfl⟩,
        ⟨hs, _, hhs, rfl, hheader⟩, fun _ => ⟨body, hbody hc, rfl⟩⟩

theorem find?_resultMap (p : RunParams) (d : CppNetlibDelegate) :
    ((resultMap p d).find? (lit "Result")).bind Any.qlist? = some d.listResult := by
  have hmethod : StdString.iequals (lit "Result") (lit "Method") = false := by decide
  have hurl : StdString.iequals (lit "Result") (lit "URL") = false := by decide
  have hresult : StdString.iequals (lit "Result") (lit "Result") = true := by decide
  simp [resultMap, ParamMap.find?_assign, hmethod, hurl, hresult, Any.qlist?]

/-- An execution that returns a result list got its response in full, and what
it leaves in the delegate is that response filled into the lists it found. -/
theorem run_returned (sdk : OmnisSdk) (client : HttpClient) (params : ParamMap)
    (d : CppNetlibDelegate) {m : ParamMap} {l : QList}
    (hm : (run sdk client params d).1 = .ok m)
    (hl : (m.find? (lit "Result")).bind Any.qlist? = some l) :
    ∃ call r status body hs, served client params = some (call, r) ∧ r.status = .ok status ∧
      (call.isHead = false → r.body = .ok body) ∧ r.headers = .ok hs ∧
      (run sdk client params d).2 = filled sdk call status body hs d ∧
      l = (filled sdk call status body hs d).listResult := by
  by_cases hurl : (readParams params).url.isEmpty = true
  · simp only [run, hurl, if_true, Except.ok.injEq] at hm
    subst hm
    simp [ParamMap.find?, OrderedMap.find?] at hl
  · have hrun : run sdk client params d =
        caught ((perform sdk client (readParams params)).exec d) := by
      simp only [run, hurl, Bool.false_eq_true, if_false]
    rcases hexec : (perform sdk client (readParams params)).exec d with ⟨out, d'⟩
    rw [hexec] at hrun
    cases out with
    | error e =>
      cases e with
      | threadInterrupted => simp [hrun, caught] at hm
      | stdException =>
        simp only [hrun, caught, Except.ok.injEq] at hm
        subst hm
        simp [ParamMap.find?, OrderedMap.find?] at hl
    | ok result =>
      simp only [hrun, caught, Except.ok.injEq] at hm
      subst hm
      rcases perform_exec sdk client _ d hexec with ⟨rfl, -⟩ |
        ⟨headers, call, r, status, body, hs, hmake, hhead, hcall, hsend, hst, hbody, hhs, rfl, rfl⟩
      · simp [ParamMap.find?, OrderedMap.find?] at hl
      · have hserved : served client params = some (call, r) := by
          simp [served, hurl, hmake, hhead, hcall, hsend, Except.toOption]
        refine ⟨call, r, status, body, hs, hserved, hst, hbody, hhs, by rw [hrun, caught], ?_⟩
        rw [find?_resultMap, Option.some.injEq] at hl
        exact hl.symm

/-- An execution that returns no result list leaves both lists alone. -/
theorem run_not_returned (sdk : OmnisSdk) (client : HttpClient) (params : ParamMap)
    (d : CppNetlibDelegate) (h : ∀ m, (run sdk client params d).1 = .ok m →
      (m.find? (lit "Result")).bind Any.qlist? = none) : (run sdk client params d).2 = d := by
  by_cases hurl : (readParams params).url.isEmpty = true
  · simp [run, hurl]
  · have hrun : run sdk client params d =
        caught ((perform sdk client (readParams params)).exec d) := by
      simp only [run, hurl, Bool.false_eq_true, if_false]
    rcases hexec : (perform sdk client (readParams params)).exec d with ⟨out, d'⟩
    rw [hexec] at hrun
    cases out with
    | error e =>
      have hd := (perform_exec_error sdk client _ d hexec).1
      cases e <;> simp [hrun, caught, hd]
    | ok result =>
      rcases perform_exec sdk client _ d hexec with ⟨rfl, rfl⟩ |
        ⟨headers, call, r, status, body, hs, hmake, hhead, hcall, hsend, hst, hbody, hhs, rfl, rfl⟩
      · simp [hrun, caught]
      · have hnone := h _ (by rw [hrun, caught])
        rw [find?_resultMap] at hnone
        cases hnone

/-- An execution on the delegate, or `readResult` handing the result list over
to the row of a callback. -/
inductive Event
  | run (client : HttpClient) (params : ParamMap)
  | handOver

def step (sdk : OmnisSdk) (d : CppNetlibDelegate) : Event → Option CppNetlibDelegate
  | .run client params => some (run sdk client params d).2
  | .handOver => some { d with listResult := sdk.handedOver d.listResult }

/-- The result list an event returns, if it is an execution that returns one. -/
def returned (sdk : OmnisSdk) (d : CppNetlibDelegate) : Event → Option QList
  | .run client params =>
    match (run sdk client params d).1 with
    | .ok m => (m.find? (lit "Result")).bind Any.qlist?
    | .error _ => none
  | .handOver => none

/-- The call of an event and its response. -/
def Event.served? : Event → Option (Call × Response)
  | .run client params => served client params
  | .handOver => none

/-- The event returns no result list, or one that describes its own response. -/
def Describes (sdk : OmnisSdk) (d : CppNetlibDelegate) (e : Event) : Prop :=
  ∀ l, returned sdk d e = some l →
    ∃ call r, e.served? = some (call, r) ∧ OwnResponse call r l

/-- The event returns no result list, or starts from empty lists with a verb
that has a body and gets header names that fit. -/
def StartsFresh (sdk : OmnisSdk) (d : CppNetlibDelegate) (e : Event) : Prop :=
  (returned sdk d e).isSome → ∃ call r, e.served? = some (call, r) ∧ Fresh d call r

theorem returned_spec (sdk : OmnisSdk) (d : CppNetlibDelegate) {e : Event} {l : QList}
    (h : returned sdk d e = some l) :
    ∃ call r status body hs, e.served? = some (call, r) ∧ r.status = .ok status ∧
      (call.isHead = false → r.body = .ok body) ∧ r.headers = .ok hs ∧
      step sdk d e = some (filled sdk call status body hs d) ∧
      l = (filled sdk call status body hs d).listResult := by
  cases e with
  | handOver => simp [returned] at h
  | run client params =>
    cases hm : (run sdk client params d).1 with
    | error err => simp [returned, hm] at h
    | ok m =>
      simp only [returned, hm] at h
      obtain ⟨call, r, status, body, hs, hserved, hst, hbody, hhs, hd, hl⟩ :=
        run_returned sdk client params d hm h
      exact ⟨call, r, status, body, hs, hserved, hst, hbody, hhs, by simp [step, hd], hl⟩

theorem describes_iff_startsFresh (sdk : OmnisSdk) (d : CppNetlibDelegate) (e : Event) :
    Describes sdk d e ↔ StartsFresh sdk d e := by
  cases hret : returned sdk d e with
  | none => simp [Describes, StartsFresh, hret]
  | some l =>
    obtain ⟨call, r, status, body, hs, hserved, hst, hbody, hhs, -, rfl⟩ :=
      returned_spec sdk d hret
    have hiff := ownResponse_filled_iff sdk d call r hst hbody hhs
    constructor
    · intro h _
      obtain ⟨call', r', hserved', hown⟩ := h _ hret
      rw [hserved] at hserved'
      cases hserved'
      exact ⟨call, r, hserved, hiff.mp hown⟩
    · intro h l' hl'
      rw [hret] at hl'
      cases hl'
      obtain ⟨call', r', hserved', hfresh⟩ := h (by simp [hret])
      rw [hserved] at hserved'
      cases hserved'
      exact ⟨call, r, hserved, hiff.mpr hfresh⟩

/-- An execution that returns no list changes none. -/
theorem step_of_not_returned (sdk : OmnisSdk) {d d' : CppNetlibDelegate} {e : Event}
    (hexec : e ≠ .handOver) (hret : returned sdk d e = none) (hstep : step sdk d e = some d') :
    d' = d := by
  cases e with
  | handOver => exact absurd rfl hexec
  | run client params =>
    simp only [step, Option.some.injEq] at hstep
    rw [← hstep]
    refine run_not_returned sdk client params d fun m hm => ?_
    simpa [returned, hm] using hret

/-- Each returned list adds a row to the list of the delegate. -/
theorem step_rowCnt (sdk : OmnisSdk) {d d' : CppNetlibDelegate} {e : Event}
    (hexec : e ≠ .handOver) (hstep : step sdk d e = some d') :
    d'.listResult.rowCnt = d.listResult.rowCnt + if (returned sdk d e).isSome then 1 else 0 := by
  cases hret : returned sdk d e with
  | some l =>
    obtain ⟨call, r, status, body, hs, -, -, -, -, hfill, -⟩ := returned_spec sdk d hret
    rw [hstep, Option.some.injEq] at hfill
    subst hfill
    cases hc : call.isHead <;>
      simp [filled, hc, fillBody, fillHead, QList.rowCnt, bodyList_length, headList_length]
  | none => simp [step_of_not_returned sdk hexec hret hstep]

/-- As long as nobody takes the lists away, only one execution of a delegate
can return a list that describes its own response. -/
theorem returned_at_most_once (sdk : OmnisSdk) {tr : List (CppNetlibDelegate × Event)}
    {d : CppNetlibDelegate} (run : Transition.Run (step sdk) init tr d)
    (hexec : Transition.Always (fun _ e => e ≠ .handOver) tr)
    (hown : Transition.Always (Describes sdk) tr) :
    tr.countP (fun p => (returned sdk p.1 p.2).isSome) ≤ 1 := by
  refine (run.invariant (fun d e => e ≠ .handOver ∧ Describes sdk d e)
    (fun tr d => d.listResult.rowCnt = tr.countP (fun p => (returned sdk p.1 p.2).isSome) ∧
      tr.countP (fun p => (returned sdk p.1 p.2).isSome) ≤ 1)
    ⟨rfl, Nat.zero_le _⟩ ?_ (fun p hp => ⟨hexec p hp, hown p hp⟩)).2
  · rintro tr d e d' - - ⟨hcount, hle⟩ ⟨hne, hdesc⟩ hstep
    have hrow := step_rowCnt sdk hne hstep
    cases hret : returned sdk d e with
    | none => simp_all
    | some l =>
      obtain ⟨call, r, -, hfresh⟩ := (describes_iff_startsFresh sdk d e).mp hdesc (by simp [hret])
      rw [hfresh.listResult] at hcount
      have hzero : tr.countP (fun p => (returned sdk p.1 p.2).isSome) = 0 := hcount.symm
      rw [hfresh.listResult] at hrow
      refine ⟨?_, by simp [hret, hzero]⟩
      rw [hrow]
      simp [hret, hzero, QList.rowCnt, QList.new]

/-- Where no execution has returned a list, none has touched the delegate's. -/
theorem untouched_run (sdk : OmnisSdk) {tr : List (CppNetlibDelegate × Event)}
    {d : CppNetlibDelegate} (run : Transition.Run (step sdk) init tr d)
    (hexec : Transition.Always (fun _ e => e ≠ .handOver) tr)
    (hnone : tr.countP (fun p => (returned sdk p.1 p.2).isSome) = 0) : d = init := by
  refine run.invariant (fun _ e => e ≠ .handOver)
    (fun tr d => tr.countP (fun p => (returned sdk p.1 p.2).isSome) = 0 → d = init)
    (fun _ => rfl) ?_ hexec hnone
  intro tr d e d' _ _ ih hne hstep hcount
  rw [List.countP_cons] at hcount
  cases hret : returned sdk d e with
  | some l => simp [hret] at hcount
  | none => rw [step_of_not_returned sdk hne hret hstep, ih (by omega)]

/-- The event returns no result list, or has a verb with a body and gets header names
that fit. -/
def Suits (sdk : OmnisSdk) (d : CppNetlibDelegate) (e : Event) : Prop :=
  (returned sdk d e).isSome → ∃ call r, e.served? = some (call, r) ∧ call.isHead = false ∧
    ∀ hs, r.headers = .ok hs → ∀ it ∈ hs, 0 ∉ it.1 ∧ it.1.length ≤ 255

/-- As long as nobody takes the lists away, the first list that is returned is the only
one that starts fresh. -/
theorem startsFresh_iff_suits (sdk : OmnisSdk) {tr : List (CppNetlibDelegate × Event)}
    {d : CppNetlibDelegate} (run : Transition.Run (step sdk) init tr d)
    (hexec : Transition.Always (fun _ e => e ≠ .handOver) tr) :
    Transition.Always (StartsFresh sdk) tr ↔
      tr.countP (fun p => (returned sdk p.1 p.2).isSome) ≤ 1 ∧
        Transition.Always (Suits sdk) tr := by
  constructor
  · intro hfresh
    refine ⟨returned_at_most_once sdk run hexec fun p hp =>
      (describes_iff_startsFresh sdk p.1 p.2).mpr (hfresh p hp), fun p hp hret => ?_⟩
    obtain ⟨call, r, hserved, h⟩ := hfresh p hp hret
    exact ⟨call, r, hserved, h.verb, h.names⟩
  · rintro ⟨hcount, hsuits⟩ p hp hret
    obtain ⟨later, earlier, rfl⟩ := List.append_of_mem hp
    obtain ⟨hearlier, -⟩ := run.split
    rw [List.countP_append, List.countP_cons, if_pos hret] at hcount
    have hinit := untouched_run sdk hearlier hexec.of_append.2.tail (by omega)
    obtain ⟨call, r, hserved, hverb, hnames⟩ := hsuits p hp hret
    refine ⟨call, r, hserved, ?_, ?_, hverb, hnames⟩
    · rw [hinit]
      rfl
    · rw [hinit]
      rfl

/-- In every sequence of executions and hand-overs on an initialised delegate,
all returned lists describe their own response exactly when all the executions
that return one start fresh. Without hand-overs this is when at most one returns a
list, by a verb with a body and with header names that fit. -/
theorem results_describe_iff (sdk : OmnisSdk) (tr : List (CppNetlibDelegate × Event))
    (d : CppNetlibDelegate) (run : Transition.Run (step sdk) init tr d) :
    (Transition.Always (Describes sdk) tr ↔ Transition.Always (StartsFresh sdk) tr) ∧
      (Transition.Always (fun _ e => e ≠ .handOver) tr →
        (Transition.Always (Describes sdk) tr ↔
          tr.countP (fun p => (returned sdk p.1 p.2).isSome) ≤ 1 ∧
            Transition.Always (Suits sdk) tr)) := by
  have hiff : Transition.Always (Describes sdk) tr ↔ Transition.Always (StartsFresh sdk) tr :=
    ⟨fun h p hp => (describes_iff_startsFresh sdk p.1 p.2).mp (h p hp),
      fun h p hp => (describes_iff_startsFresh sdk p.1 p.2).mpr (h p hp)⟩
  exact ⟨hiff, fun hexec => hiff.trans (startsFresh_iff_suits sdk run hexec)⟩

/-- An SDK that cuts an over-long string off and leaves a handed-over list as it is. -/
def plainSdk : OmnisSdk where
  setUtf8 cap s := s.take cap
  setUtf8_of_le cap s h := List.take_of_length_le h
  setUtf8_length cap s := by
    rw [List.length_take]
    omega
  handedOver l := l

/-- A `GET` that is answered with one header and a body. -/
def sampleGet : Event :=
  .run ⟨fun _ => .ok (), fun _ => .ok ⟨.ok 200, .ok (lit "hi"), .ok [(lit "Server", lit "s")]⟩⟩
    [(lit "url", .string (lit "http://host/"))]

theorem results_describe_iff_sampleGet :
    Transition.Always (Describes plainSdk) [(init, sampleGet)] := by
  refine (results_describe_iff plainSdk _ _ (Transition.Run.start.next rfl)).1.mpr fun p hp => ?_
  rw [List.mem_singleton] at hp
  subst hp
  refine fun _ => ⟨_, _, rfl, rfl, rfl, rfl, fun hs hhs it hit => ?_⟩
  cases hhs
  rw [List.mem_singleton] at hit
  subst hit
  exact ⟨by decide, by decide⟩

/-- The second of two executions returns a list with two rows. -/
theorem second_result_mixed :
    ¬ ∀ (sdk : OmnisSdk) (tr : List (CppNetlibDelegate × Event)) (d : CppNetlibDelegate),
      Transition.Run (step sdk) init tr d → Transition.Always (fun _ e => e ≠ .handOver) tr →
        Transition.Always (Describes sdk) tr := by
  intro h
  let d₁ := (step plainSdk init sampleGet).get rfl
  have hfirst : step plainSdk init sampleGet = some d₁ := rfl
  have hsecond : step plainSdk d₁ sampleGet = some _ := rfl
  have hall := h plainSdk _ _ ((Transition.Run.start.next hfirst).next hsecond)
    (by simp [Transition.Always, sampleGet])
  have hfresh := (describes_iff_startsFresh plainSdk d₁ sampleGet).mp hall.head rfl
  obtain ⟨call, r, -, hfresh⟩ := hfresh
  have hrows : d₁.listResult.rowCnt = 1 := rfl
  rw [hfresh.listResult] at hrows
  exact absurd hrows (by decide)

end CppNetlibDelegate

end HttpBackground
