import HttpBackground.OmnisValue

/-!
# The HTTP delegate

`CppNetlibDelegate::run` reads the parameters, performs one request through
cpp-netlib and describes the response in two Omnis lists that live as long as
the delegate. The HTTP client and the parts of the Omnis SDK behind the strings
and lists are parameters. Whatever is thrown carries on to the handler at the
end of `run` with the lists as they are at that point.
-/
namespace HttpBackground

/-- `qshort length = strlen(in)` keeps the low 16 bits, read as signed. -/
def qshort (n : ℕ) : ℤ := (BitVec.ofNat 16 n).toInt

/-- The C string at the start of a byte buffer. -/
def cStr (s : StdString) : StdString := s.takeWhile (· ≠ 0)

/-- What the component relies on in the Omnis SDK. `setUtf8 cap` fills a string
class of capacity `cap`; one character takes at most four bytes of UTF-8. After
`setList(list, qtrue)` has handed a list over, `handedOver` is what is left. -/
structure OmnisSdk where
  setUtf8 : ℕ → StdString → StdString
  setUtf8_of_le : ∀ cap s, s.length ≤ cap → setUtf8 cap s = s
  setUtf8_length : ∀ cap s, (setUtf8 cap s).length ≤ 4 * cap
  handedOver : QList → QList

/-- The common body of `initStr15`, `initStr31`, `initStr80` and `initStr255`:
the guard is on the narrowed length, the copy takes the whole string. -/
def initStr (sdk : OmnisSdk) (cap : ℕ) (inp : StdString) : StdString :=
  let length := qshort (cStr inp).length
  if length > 0 ∧ length ≤ cap then sdk.setUtf8 cap (cStr inp) else []

def initStr255 (sdk : OmnisSdk) (inp : StdString) : StdString := initStr sdk 255 inp

/-- What can leave a call: a `std::exception`, or `boost::thread_interrupted`,
which is not one. -/
inductive Raised
  | stdException
  | threadInterrupted
  deriving DecidableEq, Repr

/-- The asynchronous response: each accessor waits, and may throw. -/
structure Response where
  status : Except Raised ℕ
  body : Except Raised StdString
  headers : Except Raised (List (StdString × StdString))

structure Request where
  url : StdString
  headers : List (StdString × StdString)
  deriving DecidableEq, Repr

/-- The client call of one execution. -/
inductive Call
  | get (request : Request)
  | post (request : Request) (body : StdString) (bodyType : Option StdString)
  | put (request : Request) (body : StdString) (bodyType : Option StdString)
  | delete (request : Request)
  | head (request : Request)
  deriving DecidableEq, Repr

def Call.isHead : Call → Bool
  | .head _ => true
  | _ => false

/-- `makeRequest` is the construction of the request from a URL. -/
structure HttpClient where
  makeRequest : StdString → Except Raised Unit
  send : Call → Except Raised Response

/-- The two lists `init` allocates on the main thread. -/
structure CppNetlibDelegate where
  listResult : QList
  headerResult : QList

namespace CppNetlibDelegate

def init : CppNetlibDelegate := ⟨QList.new, QList.new⟩

/-- The locals of `run` that the parameters fill. -/
structure RunParams where
  method : StdString := lit "GET"
  url : StdString := []
  headers : List ParamMap := []
  requestBody : StdString := []
  requestBodyType : StdString := []

/-- One pass of the parameter loop. A failed cast is logged and changes nothing. -/
def readParam (p : RunParams) (it : StdString × Any) : RunParams :=
  if StdString.iequals it.1 (lit "url") then
    { p with url := it.2.string?.getD p.url }
  else if StdString.iequals it.1 (lit "method") then
    { p with method := it.2.string?.getD p.method }
  else if StdString.iequals it.1 (lit "headers") then
    { p with headers := it.2.paramMaps?.getD p.headers }
  else if StdString.iequals it.1 (lit "body_type") then
    { p with requestBodyType := it.2.string?.getD p.requestBodyType }
  else if StdString.iequals it.1 (lit "body") then
    { p with requestBody := it.2.string?.getD p.requestBody }
  else p

def readParams (params : ParamMap) : RunParams := params.foldl readParam {}

/-- `boost::any_cast<std::string>` where a failure is not caught at once. -/
def castString (v : Any) : Except Raised StdString :=
  match v.string? with
  | some s => .ok s
  | none => .error .stdException

/-- The items of one header map, into `headKey` and `headValue`. -/
def headerItems (acc : StdString × StdString) : ParamMap → Except Raised (StdString × StdString)
  | [] => .ok acc
  | (k, v) :: items =>
    if StdString.iequals k (lit "key") then do
      let headKey ← castString v
      headerItems (headKey, acc.2) items
    else if StdString.iequals k (lit "value") then do
      let headValue ← castString v
      headerItems (acc.1, headValue) items
    else headerItems acc items

/-- The header directives, one per map. `headKey` and `headValue` are declared
outside the loop, so a map that lacks an entry repeats the one before it. -/
def requestHeaders (acc : StdString × StdString) :
    List ParamMap → Except Raised (List (StdString × StdString))
  | [] => .ok []
  | head :: headers => do
    let acc ← headerItems acc head
    let rest ← requestHeaders acc headers
    return acc :: rest

/-- First pass over the response headers: a column each. -/
def addHeaderCols (sdk : OmnisSdk) (l : QList) (headers : List (StdString × StdString)) : QList :=
  headers.foldl (fun l it => l.addCol .fftCharacter (initStr255 sdk it.1)) l

/-- Second pass: the values, into row 1 from column `col + 1` on. -/
def setHeaderVals (l : QList) (col : ℕ) : List (StdString × StdString) → QList
  | [] => l
  | (_, value) :: headers =>
    setHeaderVals (l.setColVal 1 (col + 1) (.character value)) (col + 1) headers

def headerList (sdk : OmnisSdk) (l : QList) (headers : List (StdString × StdString)) : QList :=
  setHeaderVals (addHeaderCols sdk l headers).insertRow 0 headers

/-- `run` between `try` and the handler: what it throws leaves the delegate as
it is by then. -/
abbrev RunM := ExceptT Raised (StateM CppNetlibDelegate)

namespace RunM

variable {α β : Type}

def exec (x : RunM α) (d : CppNetlibDelegate) : Except Raised α × CppNetlibDelegate := x.run.run d

def lift (x : Except Raised α) : RunM α := ExceptT.mk (pure x)

variable {x : RunM α} {f : α → RunM β} {d d' : CppNetlibDelegate}

/-- A sequence of two that ends without an exception has run both. -/
theorem exec_bind_ok {b : β} (h : exec (x >>= f) d = (.ok b, d')) :
    ∃ a d₁, exec x d = (.ok a, d₁) ∧ exec (f a) d₁ = (.ok b, d') := by
  have hbind : exec (x >>= f) d = (ExceptT.bindCont f (exec x d).1).run (exec x d).2 := rfl
  rcases hx : exec x d with ⟨out, d₁⟩
  rw [hbind, hx] at h
  cases out with
  | error e => cases h
  | ok a => exact ⟨a, d₁, rfl, h⟩

/-- What leaves a sequence of two leaves the first, or the second after it. -/
theorem exec_bind_error {e : Raised} (h : exec (x >>= f) d = (.error e, d')) :
    exec x d = (.error e, d') ∨ ∃ a d₁, exec x d = (.ok a, d₁) ∧ exec (f a) d₁ = (.error e, d') := by
  have hbind : exec (x >>= f) d = (ExceptT.bindCont f (exec x d).1).run (exec x d).2 := rfl
  rcases hx : exec x d with ⟨out, d₁⟩
  rw [hbind, hx] at h
  cases out with
  | error e₁ =>
    cases h
    exact .inl rfl
  | ok a => exact .inr ⟨a, d₁, rfl, h⟩

/-- A call that is not the delegate's own leaves it alone. -/
theorem exec_lift_bind_ok {y : Except Raised α} {b : β}
    (h : exec (lift y >>= f) d = (.ok b, d')) :
    ∃ a, y = .ok a ∧ exec (f a) d = (.ok b, d') := by
  obtain ⟨a, d₁, hlift, hrest⟩ := exec_bind_ok h
  obtain ⟨hy, rfl⟩ := Prod.mk.inj hlift
  exact ⟨a, hy, hrest⟩

theorem exec_lift_bind_error {y : Except Raised α} {e : Raised}
    (h : exec (lift y >>= f) d = (.error e, d')) :
    y = .error e ∧ d' = d ∨ ∃ a, y = .ok a ∧ exec (f a) d = (.error e, d') := by
  obtain hlift | ⟨a, d₁, hlift, hrest⟩ := exec_bind_error h
  · obtain ⟨hy, hd⟩ := Prod.mk.inj hlift
    exact .inl ⟨hy, hd.symm⟩
  · obtain ⟨hy, rfl⟩ := Prod.mk.inj hlift
    exact .inr ⟨a, hy, hrest⟩

end RunM

open RunM

def buildHeaderList (sdk : OmnisSdk) (response : Response) : RunM Unit := do
  let headers ← lift response.headers
  modify fun d => { d with headerResult := headerList sdk d.headerResult headers }

theorem buildHeaderList_ok {sdk : OmnisSdk} {response : Response} {d d' : CppNetlibDelegate}
    (h : exec (buildHeaderList sdk response) d = (.ok (), d')) :
    ∃ headers, response.headers = .ok headers ∧
      d' = { d with headerResult := headerList sdk d.headerResult headers } := by
  unfold buildHeaderList at h
  obtain ⟨headers, hheaders, hmodify⟩ := exec_lift_bind_ok h
  cases hmodify
  exact ⟨headers, hheaders, rfl⟩

theorem buildHeaderList_error {sdk : OmnisSdk} {response : Response} {d d' : CppNetlibDelegate}
    {e : Raised} (h : exec (buildHeaderList sdk response) d = (.error e, d')) :
    response.headers = .error e ∧ d' = d := by
  unfold buildHeaderList at h
  obtain hthrown | ⟨headers, -, hmodify⟩ := exec_lift_bind_error h
  · exact hthrown
  · cases hmodify

/-- The header list goes into its cell by `setList(ptr.get(), qtrue)`. -/
def setHeaderCell (l h : QList) : QList := l.setColVal 1 2 (.list h.cols h.rows)

/-- The result list of a verb with a body. -/
def bodyList (status : ℕ) (h : QList) (body : StdString) (l : QList) : QList :=
  let l := l.addCol .fftInteger (lit "status")
  let l := l.addCol .fftList (lit "headers")
  let l := l.addCol .fftCharacter (lit "body")
  let l := l.insertRow
  let l := l.setColVal 1 1 (.integer status)
  let l := setHeaderCell l h
  l.setColVal 1 3 (.character body)

/-- The result list of `HEAD`, whose status column is declared as a list. -/
def headList (status : ℕ) (h : QList) (l : QList) : QList :=
  let l := l.addCol .fftList (lit "status")
  let l := l.addCol .fftList (lit "headers")
  let l := l.insertRow
  let l := l.setColVal 1 1 (.integer status)
  setHeaderCell l h

def fillBody (sdk : OmnisSdk) (status : ℕ) (body : StdString) (d : CppNetlibDelegate) :
    CppNetlibDelegate :=
  ⟨bodyList status d.headerResult body d.listResult, sdk.handedOver d.headerResult⟩

def fillHead (sdk : OmnisSdk) (status : ℕ) (d : CppNetlibDelegate) : CppNetlibDelegate :=
  ⟨headList status d.headerResult d.listResult, sdk.handedOver d.headerResult⟩

def resultMap (p : RunParams) (d : CppNetlibDelegate) : ParamMap :=
  ((ParamMap.assign [] (lit "Result") (.qlist d.listResult)).assign
    (lit "Method") (.string p.method)).assign (lit "URL") (.string p.url)

/-- An empty body type is the overload without one. -/
def bodyType? (p : RunParams) : Option StdString :=
  if p.requestBodyType.isEmpty then none else some p.requestBodyType

/-- The call for a supported method, whatever the case it is written in. -/
def call? (p : RunParams) (request : Request) : Option Call :=
  if StdString.iequals p.method (lit "GET") then some (.get request)
  else if StdString.iequals p.method (lit "POST") then
    some (.post request p.requestBody (bodyType? p))
  else if StdString.iequals p.method (lit "PUT") then
    some (.put request p.requestBody (bodyType? p))
  else if StdString.iequals p.method (lit "DELETE") then some (.delete request)
  else if StdString.iequals p.method (lit "HEAD") then some (.head request)
  else none

/-- The rest of the `try` block once the method is known to be supported. -/
def answer (sdk : OmnisSdk) (client : HttpClient) (p : RunParams) (call : Call) :
    RunM ParamMap := do
  let response ← lift (client.send call)
  let status ← lift response.status
  if call.isHead then
    buildHeaderList sdk response
    modify (fillHead sdk status)
  else
    let body ← lift response.body
    buildHeaderList sdk response
    modify (fillBody sdk status body)
  return resultMap p (← get)

/-- The `try` block. -/
def perform (sdk : OmnisSdk) (client : HttpClient) (p : RunParams) : RunM ParamMap := do
  lift (client.makeRequest p.url)
  let headers ← lift (requestHeaders ([], []) p.headers)
  match call? p ⟨p.url, headers⟩ with
  | none => return []
  | some call => answer sdk client p call

/-- The handler at the end of `run`: only `std::exception` is caught, and the
result map is still empty where it is. -/
def caught : Except Raised ParamMap × CppNetlibDelegate → Except Raised ParamMap × CppNetlibDelegate
  | (.error .stdException, d) => (.ok [], d)
  | (.error .threadInterrupted, d) => (.error .threadInterrupted, d)
  | (.ok result, d) => (.ok result, d)

/-- `CppNetlibDelegate::run` -/
def run (sdk : OmnisSdk) (client : HttpClient) (params : ParamMap) (d : CppNetlibDelegate) :
    Except Raised ParamMap × CppNetlibDelegate :=
  let p := readParams params
  if p.url.isEmpty then (.ok [], d) else caught ((perform sdk client p).exec d)

end CppNetlibDelegate

end HttpBackground
