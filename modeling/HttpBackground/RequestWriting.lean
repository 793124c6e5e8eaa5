import HttpBackground.CppNetlibDelegate
import HttpBackground.OrderedMultimap
import Mathlib.Data.Nat.Digits.Defs

/-!
# The request on the wire

The facade completes the headers of a request, and `linearize` writes the request
line, the headers in the order of the multimap, the defaults that are missing and
the body. The parts of the URL come from the URI library and are parameters.
-/
namespace HttpBackground

open StdString OrderedMultimap

/-- What `basic_request` reads off its URI; `port` is the port the URI names. -/
structure UriParts where
  host : StdString
  port : Option ℕ := none
  path : StdString := []
  query : StdString := []
  fragment : StdString := []
  deriving DecidableEq, Repr

/-- `basic_request` of the client: the URI and the message. -/
structure ClientRequest where
  uri : UriParts
  headers : List (StdString × StdString) := []
  body : StdString := []
  deriving DecidableEq, Repr

/-- `boost::lexical_cast<string_type>` of a number. -/
def decimal (n : ℕ) : StdString :=
  if n = 0 then lit "0" else (Nat.digits 10 n).reverse.map fun d => (48 + d).toUInt8

namespace ClientRequest

/-- `request << header(name, value)` -/
def header (r : ClientRequest) (name value : StdString) : ClientRequest :=
  { r with headers := insert less (name, value) r.headers }

/-- `request << remove_header(name)` -/
def removeHeader (r : ClientRequest) (name : StdString) : ClientRequest :=
  { r with headers := erase less name r.headers }

/-- What the client hands to the connection. -/
structure Skeleton where
  request : ClientRequest
  method : StdString
  getBody : Bool
  deriving DecidableEq, Repr

/-- A body that is there, with its length among the headers. -/
def withLength (r : ClientRequest) (body : StdString) : ClientRequest :=
  if body.isEmpty then r
  else
    { (r.removeHeader (lit "Content-Length")).header (lit "Content-Length")
        (decimal body.length) with body }

/-- A content type replaces those that are there; without one there is a default. -/
def withType (r : ClientRequest) (contentType : StdString) : ClientRequest :=
  let noContentType := (equalRange less (lit "Content-Type") r.headers).isEmpty
  if !contentType.isEmpty then
    let r := if noContentType then r else r.removeHeader (lit "Content-Type")
    r.header (lit "Content-Type") contentType
  else if noContentType then
    r.header (lit "Content-Type") (lit "x-application/octet-stream")
  else r

/-- The common body of `post` and `put`. -/
def completed (r : ClientRequest) (body contentType : StdString) : ClientRequest :=
  (r.withLength body).withType contentType

def head (r : ClientRequest) : Skeleton := ⟨r, lit "HEAD", false⟩

def get (r : ClientRequest) : Skeleton := ⟨r, lit "GET", true⟩

def post (r : ClientRequest) (body contentType : StdString) : Skeleton :=
  ⟨r.completed body contentType, lit "POST", true⟩

def put (r : ClientRequest) (body contentType : StdString) : Skeleton :=
  ⟨r.completed body contentType, lit "PUT", true⟩

def delete (r : ClientRequest) : Skeleton := ⟨r, lit "DELETE", true⟩

/-- Whether a header of that name is there, empty or not. -/
def found (r : ClientRequest) (name : StdString) : Bool := r.headers.any fun h => iequals h.1 name

/-- The path, with a slash in front if it has none, the query and the anchor. -/
def target (r : ClientRequest) : StdString :=
  let slash := '/'.toUInt8
  (if r.uri.path.head? = some slash then [] else [slash]) ++ r.uri.path ++
    (if r.uri.query.isEmpty then [] else '?'.toUInt8 :: r.uri.query) ++
    (if r.uri.fragment.isEmpty then [] else '#'.toUInt8 :: r.uri.fragment)

/-- The host, and the port if the URI names one. -/
def hostValue (r : ClientRequest) : StdString :=
  r.uri.host ++ (r.uri.port.elim [] fun port => ':'.toUInt8 :: decimal port)

/-- The headers `linearize` adds for a client that does not keep its connections
alive. -/
def defaultHeaders (r : ClientRequest) (versionMajor versionMinor : ℕ) :
    List (StdString × StdString) :=
  (if r.found (lit "Host") then [] else [(lit "Host", r.hostValue)]) ++
    (if r.found (lit "Accept") then [] else [(lit "Accept", lit "*/*")]) ++
    (if versionMajor = 1 ∧ versionMinor = 1 ∧ !r.found (lit "Accept-Encoding") then
      [(lit "Accept-Encoding", lit "identity;q=1.0, *;q=0")] else []) ++
    [(lit "Connection", lit "Close")]

/-- The headers on the wire: empty ones are left out. -/
def wireHeaders (r : ClientRequest) (versionMajor versionMinor : ℕ) :
    List (StdString × StdString) :=
  r.headers.filter (fun h => !h.2.isEmpty) ++ r.defaultHeaders versionMajor versionMinor

def headerLine (h : StdString × StdString) : StdString := h.1 ++ lit ": " ++ h.2 ++ lit "\r\n"

def linearize (r : ClientRequest) (method : StdString) (versionMajor versionMinor : ℕ) :
    StdString :=
  method ++ lit " " ++ r.target ++ lit " HTTP/" ++ decimal versionMajor ++ lit "." ++
    decimal versionMinor ++ lit "\r\n" ++
    (r.wireHeaders versionMajor versionMinor).flatMap headerLine ++ lit "\r\n" ++ r.body

/-- The request `run` builds from a URL and the header directives. -/
def ofRequest (uri : StdString → UriParts) (request : Request) : ClientRequest :=
  { uri := uri request.url, headers := ofList less request.headers }

end ClientRequest

namespace Call

def request : Call → Request
  | .get request | .post request _ _ | .put request _ _ | .delete request | .head request => request

def body : Call → StdString
  | .post _ body _ | .put _ body _ => body
  | _ => []

def bodyType : Call → StdString
  | .post _ _ bodyType | .put _ _ bodyType => bodyType.getD []
  | _ => []

end Call

namespace ClientRequest

/-- The facade's method for a call. -/
def ofCall (uri : StdString → UriParts) : Call → Skeleton
  | .get request => (ofRequest uri request).get
  | .post request body bodyType => (ofRequest uri request).post body (bodyType.getD [])
  | .put request body bodyType => (ofRequest uri request).put body (bodyType.getD [])
  | .delete request => (ofRequest uri request).delete
  | .head request => (ofRequest uri request).head

/-- The bytes of a call: the client speaks HTTP/1.1. -/
def Skeleton.wire (s : Skeleton) : StdString := s.request.linearize s.method 1 1

theorem withType_body (r : ClientRequest) (contentType : StdString) :
    (r.withType contentType).body = r.body := by
  simp only [withType]
  split
  · split <;> rfl
  · split <;> rfl

theorem completed_body {r : ClientRequest} (hr : r.body = []) (body contentType : StdString) :
    (r.completed body contentType).body = body := by
  rw [completed, withType_body, withLength]
  split
  · simp_all
  · rfl

theorem ofCall_body (uri : StdString → UriParts) (call : Call) :
    (ofCall uri call).request.body = call.body := by
  cases call with
  | post request body bodyType => exact completed_body rfl _ _
  | put request body bodyType => exact completed_body rfl _ _
  | _ => rfl

theorem decimal_digit {n : ℕ} {c : UInt8} (hc : c ∈ decimal n) :
    48 ≤ c.toNat ∧ c.toNat ≤ 57 := by
  by_cases hn : n = 0
  · have hlit : lit "0" = [48] := by decide
    rw [decimal, if_pos hn, hlit, List.mem_singleton] at hc
    simp [hc]
  · rw [decimal, if_neg hn, List.mem_map] at hc
    obtain ⟨d, hd, rfl⟩ := hc
    have hlt : d < 10 := Nat.digits_lt_base (by omega) (List.mem_reverse.mp hd)
    rw [Nat.toUInt8_eq, UInt8.toNat_ofNat']
    omega

theorem decimal_ne_nil (n : ℕ) : decimal n ≠ [] := by
  by_cases hn : n = 0
  · rw [hn]
    decide
  · simp [decimal, hn, Nat.digits_ne_nil_iff_ne_zero]

/-- Reading the digits gives the number back. -/
theorem decimal_value (n : ℕ) :
    (decimal n).foldl (fun n c => 10 * n + (c.toNat - 48)) 0 = n := by
  by_cases hn : n = 0
  · rw [hn]
    decide
  · have hdigit : ∀ d ∈ Nat.digits 10 n, ((48 + d).toUInt8.toNat - 48) = d := by
      intro d hd
      have hlt : d < 10 := Nat.digits_lt_base (by omega) hd
      rw [Nat.toUInt8_eq, UInt8.toNat_ofNat']
      omega
    rw [decimal, if_neg hn, List.foldl_map, List.foldl_reverse]
    conv_rhs => rw [← Nat.ofDigits_digits 10 n, Nat.ofDigits_eq_foldr]
    generalize Nat.digits 10 n = digits at hdigit
    induction digits with
    | nil => rfl
    | cons d digits ih =>
      have hd := hdigit d List.mem_cons_self
      have hrest := ih fun e he => hdigit e (List.mem_cons_of_mem d he)
      rw [List.foldr_cons, List.foldr_cons, hd, hrest]
      exact Nat.add_comm _ _

variable {r : ClientRequest}

theorem equalRange_header (hr : Sorted less r.headers) (k name value : StdString) :
    equalRange less k (r.header name value).headers =
      equalRange less k r.headers ++ if k = name then [(name, value)] else [] := by
  by_cases hk : k = name
  · rw [if_pos hk]
    exact equalRange_insert_self hr (equiv_less_iff.mpr hk)
  · rw [if_neg hk, List.append_nil]
    exact equalRange_insert_of_not_equiv fun h => hk (equiv_less_iff.mp h)

theorem equalRange_removeHeader (r : ClientRequest) (k name : StdString) :
    equalRange less k (r.removeHeader name).headers =
      if k = name then [] else equalRange less k r.headers := by
  by_cases hk : k = name
  · rw [if_pos hk, hk]
    exact equalRange_erase_self name r.headers
  · rw [if_neg hk]
    refine equalRange_erase_of_ne (fun l hl hl' => hk ?_) r.headers
    rw [equiv_less_iff.mp hl, equiv_less_iff.mp hl']

theorem sorted_header (hr : Sorted less r.headers) (name value : StdString) :
    Sorted less (r.header name value).headers := sorted_insert _ hr

theorem sorted_removeHeader (hr : Sorted less r.headers) (name : StdString) :
    Sorted less (r.removeHeader name).headers := sorted_erase name hr

section Completed

variable (hr : Sorted less r.headers) (body contentType : StdString)
include hr

/-- The first half of `completed`, on any header name. -/
theorem equalRange_withLength (k : StdString) :
    equalRange less k (r.withLength body).headers =
      if k = lit "Content-Length" ∧ body ≠ [] then [(k, decimal body.length)]
      else equalRange less k r.headers := by
  cases hbody : body.isEmpty with
  | true => simp_all [withLength]
  | false =>
    have hne : body ≠ [] := by simpa using hbody
    have h := equalRange_header (sorted_removeHeader hr (lit "Content-Length")) k
      (lit "Content-Length") (decimal body.length)
    rw [equalRange_removeHeader] at h
    by_cases hk : k = lit "Content-Length"
    · simp_all [withLength]
    · simp_all [withLength]

theorem sorted_withLength : Sorted less (r.withLength body).headers := by
  rw [withLength]
  split
  · exact hr
  · exact sorted_header (sorted_removeHeader hr _) _ _

theorem equalRange_withType (k : StdString) :
    equalRange less k (r.withType contentType).headers =
      if k = lit "Content-Type" then
        if contentType ≠ [] then [(k, contentType)]
        else if equalRange less k r.headers = [] then [(k, lit "x-application/octet-stream")]
        else equalRange less k r.headers
      else equalRange less k r.headers := by
  by_cases hk : k = lit "Content-Type"
  · subst hk
    cases hnone : (equalRange less (lit "Content-Type") r.headers).isEmpty with
    | true =>
      have hnil := List.isEmpty_iff.mp hnone
      have h := fun value => equalRange_header hr (lit "Content-Type") (lit "Content-Type") value
      cases htype : contentType.isEmpty <;> simp_all [withType]
    | false =>
      have hne : equalRange less (lit "Content-Type") r.headers ≠ [] := by simpa using hnone
      have h := equalRange_header (sorted_removeHeader hr (lit "Content-Type"))
        (lit "Content-Type") (lit "Content-Type") contentType
      rw [equalRange_removeHeader] at h
      cases htype : contentType.isEmpty <;> simp_all [withType]
  · have hadd := fun value => equalRange_header hr k (lit "Content-Type") value
    have hreplace := equalRange_header (sorted_removeHeader hr (lit "Content-Type")) k
      (lit "Content-Type") contentType
    rw [equalRange_removeHeader] at hreplace
    cases htype : contentType.isEmpty <;>
      cases hnone : (equalRange less (lit "Content-Type") r.headers).isEmpty <;>
        simp_all [withType]

theorem equalRange_completed_length (hne : body ≠ []) :
    equalRange less (lit "Content-Length") (r.completed body contentType).headers =
      [(lit "Content-Length", decimal body.length)] := by
  rw [completed, equalRange_withType (sorted_withLength hr body), if_neg (by decide),
    equalRange_withLength hr, if_pos ⟨rfl, hne⟩]

theorem equalRange_completed_other {k : StdString} (htype : k ≠ lit "Content-Type")
    (hlength : k ≠ lit "Content-Length") :
    equalRange less k (r.completed body contentType).headers = equalRange less k r.headers := by
  rw [completed, equalRange_withType (sorted_withLength hr body), if_neg htype,
    equalRange_withLength hr, if_neg fun h => hlength h.1]

/-- The headers of a `POST` or `PUT`, name by name: the length of a body that is
there is the only `Content-Length`, a content type that is given is the only
`Content-Type`, the default stands in where there would be none, and all others
are the caller's. -/
theorem equalRange_completed (k : StdString) :
    equalRange less k (r.completed body contentType).headers =
      if k = lit "Content-Type" then
        if contentType ≠ [] then [(k, contentType)]
        else if equalRange less k r.headers = [] then [(k, lit "x-application/octet-stream")]
        else equalRange less k r.headers
      else if k = lit "Content-Length" ∧ body ≠ [] then [(k, decimal body.length)]
      else equalRange less k r.headers := by
  have hnames : lit "Content-Type" ≠ lit "Content-Length" := by decide
  rw [completed, equalRange_withType (sorted_withLength hr body), equalRange_withLength hr]
  by_cases hk : k = lit "Content-Type"
  · simp [hk, hnames]
  · simp [hk]

end Completed

/-- The caller's own length is replaced. -/
theorem equalRange_completed_own :
    equalRange less (lit "Content-Length") (completed
      { uri := { host := lit "h" }, headers := [(lit "Content-Length", lit "9")] }
      (lit "abc") []).headers = [(lit "Content-Length", lit "3")] := by
  have hsorted : Sorted less [(lit "Content-Length", lit "9")] := List.pairwise_singleton _ _
  rw [equalRange_completed (r := { uri := { host := lit "h" }, headers := _ }) hsorted,
    if_neg (by decide), if_pos ⟨rfl, by decide⟩]
  decide

/-- Where the headers of a completed request come from. -/
theorem mem_completed {body contentType : StdString} {h : StdString × StdString}
    (hh : h ∈ (r.completed body contentType).headers) :
    h ∈ r.headers ∨ h = (lit "Content-Length", decimal body.length) ∨
      h = (lit "Content-Type", contentType) ∨
      h = (lit "Content-Type", lit "x-application/octet-stream") := by
  have hlength : h ∈ (r.withLength body).headers →
      h ∈ r.headers ∨ h = (lit "Content-Length", decimal body.length) := by
    intro hmem
    rw [withLength] at hmem
    split at hmem
    · exact .inl hmem
    · rcases mem_insert.mp hmem with he | hmem
      · exact .inr he
      · exact .inl (List.mem_of_mem_filter hmem)
  have htype : h ∈ (r.withLength body).headers ∨ h = (lit "Content-Type", contentType) ∨
      h = (lit "Content-Type", lit "x-application/octet-stream") := by
    rw [completed] at hh
    simp only [withType] at hh
    split at hh
    · rcases mem_insert.mp hh with he | hmem
      · exact .inr (.inl he)
      · refine .inl ?_
        split at hmem
        · exact hmem
        · exact List.mem_of_mem_filter hmem
    · split at hh
      · rcases mem_insert.mp hh with he | hmem
        · exact .inr (.inr he)
        · exact .inl hmem
      · exact .inl hh
  rcases htype with h' | h'
  · rcases hlength h' with h' | h'
    · exact .inl h'
    · exact .inr (.inl h')
  · exact .inr (.inr h')

theorem not_found_iff {name : StdString} :
    r.found name = false ↔ ∀ h ∈ r.headers, iequals h.1 name = false := by
  simp [found]

/-- A default is on the wire exactly where no header of its name is there, in
whatever case; a header that is there but empty leaves the wire without one. -/
theorem filter_wireHeaders_default {name value : StdString}
    (hdefault : (name, value) ∈ [(lit "Host", r.hostValue), (lit "Accept", lit "*/*"),
      (lit "Accept-Encoding", lit "identity;q=1.0, *;q=0")]) :
    (r.wireHeaders 1 1).filter (fun h => iequals h.1 name) =
      if r.found name then r.headers.filter fun h => iequals h.1 name && !h.2.isEmpty
      else [(name, value)] := by
  have hnames : iequals (lit "Host") (lit "Host") = true ∧
      iequals (lit "Accept") (lit "Accept") = true ∧
      iequals (lit "Accept-Encoding") (lit "Accept-Encoding") = true ∧
      iequals (lit "Host") (lit "Accept") = false ∧
      iequals (lit "Host") (lit "Accept-Encoding") = false ∧
      iequals (lit "Accept") (lit "Host") = false ∧
      iequals (lit "Accept") (lit "Accept-Encoding") = false ∧
      iequals (lit "Accept-Encoding") (lit "Host") = false ∧
      iequals (lit "Accept-Encoding") (lit "Accept") = false ∧
      iequals (lit "Connection") (lit "Host") = false ∧
      iequals (lit "Connection") (lit "Accept") = false ∧
      iequals (lit "Connection") (lit "Accept-Encoding") = false := by decide
  obtain ⟨hhh, haa, hee, hha, hhe, hah, hae, heh, hea, hch, hca, hce⟩ := hnames
  have hdefaults : (r.defaultHeaders 1 1).filter (fun h => iequals h.1 name) =
      if r.found name then [] else [(name, value)] := by
    simp only [List.mem_cons, Prod.mk.injEq, List.not_mem_nil, or_false] at hdefault
    rcases hdefault with ⟨rfl, rfl⟩ | ⟨rfl, rfl⟩ | ⟨rfl, rfl⟩ <;>
      · simp only [defaultHeaders, List.filter_append]
        split_ifs <;> simp_all
  rw [wireHeaders, List.filter_append, List.filter_filter, hdefaults]
  cases hfound : r.found name with
  | true => simp
  | false =>
    have hnone : r.headers.filter (fun h => iequals h.1 name && !h.2.isEmpty) = [] := by
      rw [List.filter_eq_nil_iff]
      intro h hh
      simp [not_found_iff.mp hfound h hh]
    simp [hnone]

/-- A header the caller has written in lower case stands in for the default. -/
theorem filter_wireHeaders_default_accept :
    (wireHeaders { uri := { host := lit "h" }, headers := [(lit "accept", lit "text/html")] }
      1 1).filter (fun h => iequals h.1 (lit "Accept")) = [(lit "accept", lit "text/html")] := by
  have hdefault (r : ClientRequest) : (lit "Accept", lit "*/*") ∈ [(lit "Host", r.hostValue),
      (lit "Accept", lit "*/*"), (lit "Accept-Encoding", lit "identity;q=1.0, *;q=0")] := by simp
  rw [filter_wireHeaders_default (hdefault _)]
  decide

end ClientRequest

end HttpBackground
