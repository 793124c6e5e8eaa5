import HttpBackground.AsyncConnection
import HttpBackground.RequestParser
import HttpBackground.UriParsing

/-!
# From a URL to the request

A URL becomes a `uri`, whose accessors give the request its host, its port and its
target. Nothing asks whether the URL was valid: the request goes to what could be
read of it, and whatever the URL was, the request that is written is one request.
-/
namespace HttpBackground

open ParsingExpression UriGrammar StdString

namespace UriGrammar.HierPart

def userInfo : HierPart → StdString
  | .authority userInfo _ _ _ => userInfo.getD []
  | .noAuthority _ => []

def host : HierPart → StdString
  | .authority _ host _ _ => host
  | .noAuthority _ => []

def port : HierPart → StdString
  | .authority _ _ port _ => port.getD []
  | .noAuthority _ => []

def path : HierPart → StdString
  | .authority _ _ _ path => path
  | .noAuthority path => path

end UriGrammar.HierPart

/-- `uri`: its text, what its accessors return, and `is_valid_`. A part that is not
there is the empty string, as is one that `update` fills in. -/
structure Uri where
  uri : StdString
  isValid : Bool := false
  scheme : StdString := []
  userInfo : StdString := []
  host : StdString := []
  port : StdString := []
  path : StdString := []
  query : StdString := []
  fragment : StdString := []
  deriving DecidableEq, Repr

namespace Uri

def ofParts (uri : StdString) (isValid : Bool) (p : Parts) : Uri where
  uri := uri
  isValid := isValid
  scheme := p.scheme
  userInfo := p.hierPart.userInfo
  host := p.hierPart.host
  port := p.hierPart.port
  path := p.hierPart.path
  query := p.query.getD []
  fragment := p.fragment.getD []

/-- `uri::parse`. A grammar that fails leaves the scheme it has read behind; `none` is
a constructor that does not return. -/
def parse (octet : Rule UInt8) (uri : StdString) : Option Uri :=
  match start octet uri with
  | .matched p rest => some (ofParts uri rest.isEmpty p)
  | .failed =>
    match UriGrammar.scheme.run uri with
    | .matched s _ => some { uri := uri, scheme := s }
    | _ => some { uri := uri }
  | .diverges => none

/-- `port_us`: the port is a number of 16 bits, or there is an exception. -/
def portUs (u : Uri) : Except Raised (Option ℕ) :=
  if u.port.isEmpty then .ok none
  else
    match Connection.lexicalCast u.port with
    | some n => .ok (some n)
    | none => .error .stdException

/-- What the request reads off its URI. -/
def parts (u : Uri) : Except Raised UriParts :=
  u.portUs.map fun port => ⟨u.host, port, u.path, u.query, u.fragment⟩

variable {octet : Rule UInt8} {url : StdString} {u : Uri}

theorem parse_of_matched {p : Parts} {rest : StdString}
    (h : start octet url = .matched p rest) : parse octet url = some (ofParts url rest.isEmpty p) := by
  rw [parse, h]

theorem start_ne_failed {s rest : StdString} (hs : IsScheme s) :
    start octet (s ++ ':'.toUInt8 :: rest) ≠ .failed := by
  rw [start_of_scheme hs]
  intro h
  obtain h | ⟨_, _, -, h⟩ := Outcome.bind_eq_failed_iff.mp h
  · exact hierPart_ne_failed h
  · obtain h | ⟨_, _, -, h⟩ := Outcome.bind_eq_failed_iff.mp h
    · exact optional_ne_failed h
    · obtain h | ⟨_, _, -, h⟩ := Outcome.bind_eq_failed_iff.mp h
      · exact optional_ne_failed h
      · cases h

/-- A URL with a second line in it. -/
def lineUrl : StdString := lit "http://h/a\r\nX: y"

def lineUri : Uri where
  uri := lineUrl
  scheme := lit "http"
  host := lit "h"
  path := lit "/a"

theorem parse_lineUrl : parse decimalOctet lineUrl = some lineUri := by decide +kernel

/-- A URL with a scheme is read as the beginning of it that its grammar has matched:
that beginning is valid and has the same parts, and nothing but `is_valid` tells the
two apart. -/
theorem parse_beginning (ho : IsOctet octet) {s tail : StdString} (hs : IsScheme s)
    (h : parse octet (s ++ ':'.toUInt8 :: tail) = some u) :
    ∃ beginning rest, s ++ ':'.toUInt8 :: tail = beginning ++ rest ∧
      u.isValid = rest.isEmpty ∧
      parse octet beginning = some { u with uri := beginning, isValid := true } := by
  cases hstart : start octet (s ++ ':'.toUInt8 :: tail) with
  | matched p rest =>
    obtain ⟨hp, hinput⟩ := start_cases ho hstart
    rw [parse_of_matched hstart] at h
    obtain rfl := Option.some.inj h
    exact ⟨p.text, rest, hinput, rfl, parse_of_matched (start_text ho hp)⟩
  | failed => exact absurd hstart (start_ne_failed hs)
  | diverges =>
    rw [parse, hstart] at h
    cases h

/-- The URL is cut at the end of its line. -/
theorem parse_beginning_line : ∃ beginning rest, lineUrl = beginning ++ rest ∧
    lineUri.isValid = rest.isEmpty ∧
      parse decimalOctet beginning = some { lineUri with uri := beginning, isValid := true } := by
  have hscheme : IsScheme (lit "http") :=
    ⟨'h'.toUInt8, lit "ttp", by decide, forall_mem_of_all (by decide), rfl⟩
  have hurl : lineUrl = lit "http" ++ ':'.toUInt8 :: lit "//h/a\r\nX: y" := rfl
  have h := parse_lineUrl
  rw [hurl] at h ⊢
  exact parse_beginning isOctet_decimalOctet hscheme h

section Characters

open RequestParser

variable {text : StdString}

theorem isTarget_of_alnum {c : UInt8} (h : isAlnum c = true) : isTarget c = true := by
  have hrange : 48 ≤ c.toNat ∧ c.toNat ≤ 122 := by
    simp only [isAlnum, isAlpha, StdString.isDigit, Bool.or_eq_true, Bool.and_eq_true, decide_eq_true_eq,
      UInt8.le_iff_toNat_le] at h
    have : (48 : UInt8).toNat = 48 := rfl
    have : (57 : UInt8).toNat = 57 := rfl
    have : (65 : UInt8).toNat = 65 := rfl
    have : (90 : UInt8).toNat = 90 := rfl
    have : (97 : UInt8).toNat = 97 := rfl
    have : (122 : UInt8).toNat = 122 := rfl
    omega
  have hdelete : c ≠ 127 := by
    rintro rfl
    exact absurd hrange.2 (by decide)
  have hspace : c ≠ ' '.toUInt8 := by
    rintro rfl
    exact absurd hrange.1 (by decide)
  have hcontrol : ¬ c.toNat ≤ 31 := by omega
  simp [isTarget, isCtl, hdelete, hspace, hcontrol]

/-- Nothing of a unit ends a line or a word. -/
theorem isTarget_of_encoded {more : String} {c : UInt8}
    (hmore : ((lit more).all fun c => isTarget c == true) = true)
    (hc : isEncoded more c = true ∨ c = '%'.toUInt8) : isTarget c = true := by
  obtain hc | rfl := hc
  · simp only [isEncoded, isUnreserved, Bool.or_eq_true, List.contains_iff_mem] at hc
    obtain (hc | hc) | hc | hc := hc
    · exact isTarget_of_alnum hc
    · exact forall_mem_of_all (s := lit "-._~") (by decide) c hc
    · exact forall_mem_of_all (s := lit "!$&'()*+,;=") (by decide) c hc
    · exact forall_mem_of_all hmore c hc
  · decide

theorem isTarget_of_units {more : String}
    (hmore : ((lit more).all fun c => isTarget c == true) = true)
    (h : Repeated (IsUnit (isEncoded more)) text) : ∀ c ∈ text, isTarget c = true := fun c hc =>
  isTarget_of_encoded hmore (h.forall_mem (fun _ hu => hu.mem fun _ => isEncoded_of_hexDigit) c hc)

theorem isTarget_of_isSegment (h : IsSegment text) : ∀ c ∈ text, isTarget c = true :=
  isTarget_of_units (by decide) h

theorem isTarget_of_isSegments (h : IsSegments text) : ∀ c ∈ text, isTarget c = true := by
  refine h.forall_mem ?_
  rintro u ⟨s, hs, rfl⟩ c hc
  obtain rfl | hc := List.mem_cons.mp hc
  · decide
  · exact isTarget_of_isSegment hs c hc

theorem isTarget_of_isRootless (h : IsRootless text) : ∀ c ∈ text, isTarget c = true := by
  obtain ⟨s, more, -, hs, hmore, rfl⟩ := h
  intro c hc
  obtain hc | hc := List.mem_append.mp hc
  · exact isTarget_of_isSegment hs c hc
  · exact isTarget_of_isSegments hmore c hc

theorem isTarget_of_isPath (h : IsPath text) : ∀ c ∈ text, isTarget c = true := by
  obtain rfl | h | rfl | ⟨s, hs, rfl⟩ := h
  · exact List.forall_mem_nil _
  · exact isTarget_of_isRootless h
  · exact forall_mem_of_all (by decide)
  · rw [List.forall_mem_cons]
    exact ⟨by decide, isTarget_of_isRootless hs⟩

theorem isTarget_of_isQuery (h : IsQuery text) : ∀ c ∈ text, isTarget c = true := by
  refine h.forall_mem ?_
  rintro u hu c hc
  obtain hc | rfl := hu.mem (fun c hc => by simp [isQueryChar, isEncoded_of_hexDigit hc]) c hc
  · obtain hc | hc := Bool.or_eq_true_iff.mp hc
    · exact isTarget_of_encoded (by decide) (.inl hc)
    · exact forall_mem_of_all (s := lit "/?") (by decide) c (by simpa using hc)
  · decide

theorem isTarget_of_isHost {octet : Rule UInt8} (ho : IsOctet octet) (h : IsHost octet text) :
    ∀ c ∈ text, isTarget c = true := by
  obtain ⟨t, ht, rfl⟩ | h := h
  · intro c hc
    simp only [List.mem_cons, List.mem_append, List.not_mem_nil, or_false] at hc
    obtain rfl | hc | rfl := hc
    · decide
    · obtain hc | hc := Bool.or_eq_true_iff.mp ((over_ipv6Leading ho).only ht c hc)
      · exact @isTarget_of_encoded "" c (by decide) (.inl (isEncoded_of_hexDigit hc))
      · exact forall_mem_of_all (s := lit ":.") (by decide) c (by simpa using hc)
    · decide
  · exact isTarget_of_units (by decide) (isName_of_isHost ho h)

theorem isTarget_of_hierPart {octet : Rule UInt8} (ho : IsOctet octet) {part : HierPart}
    (h : part.WellFormed octet) :
    (∀ c ∈ part.host, isTarget c = true) ∧ ∀ c ∈ part.path, isTarget c = true := by
  cases part with
  | authority u host port path =>
    exact ⟨isTarget_of_isHost ho h.2.1, isTarget_of_isSegments h.2.2.2⟩
  | noAuthority path => exact ⟨List.forall_mem_nil _, isTarget_of_isPath h⟩

theorem isTarget_of_optional {part : Option StdString} (h : ∀ text ∈ part, IsQuery text) :
    ∀ c ∈ part.getD [], isTarget c = true := by
  cases part with
  | none => exact List.forall_mem_nil _
  | some text => exact isTarget_of_isQuery (h text rfl)

/-- Whatever the URL was, its parts are made of characters of a request target. -/
theorem parse_characters (ho : IsOctet octet) (h : parse octet url = some u) :
    (∀ c ∈ u.host, isTarget c = true) ∧ (∀ c ∈ u.path, isTarget c = true) ∧
      (∀ c ∈ u.query, isTarget c = true) ∧ ∀ c ∈ u.fragment, isTarget c = true := by
  cases hstart : start octet url with
  | matched p rest =>
    have hp := (start_cases ho hstart).1
    rw [parse_of_matched hstart] at h
    obtain rfl := Option.some.inj h
    obtain ⟨hhost, hpath⟩ := isTarget_of_hierPart ho hp.hierPart
    exact ⟨hhost, hpath, isTarget_of_optional hp.query, isTarget_of_optional hp.fragment⟩
  | failed =>
    have hempty : u.host = [] ∧ u.path = [] ∧ u.query = [] ∧ u.fragment = [] := by
      rw [parse, hstart] at h
      simp only at h
      split at h
      · obtain rfl := Option.some.inj h
        exact ⟨rfl, rfl, rfl, rfl⟩
      · obtain rfl := Option.some.inj h
        exact ⟨rfl, rfl, rfl, rfl⟩
    obtain ⟨hhost, hpath, hquery, hfragment⟩ := hempty
    simp [hhost, hpath, hquery, hfragment]
  | diverges =>
    rw [parse, hstart] at h
    cases h

end Characters

section Request

open RequestParser ClientRequest

variable {uri : StdString → UriParts} {call : Call}

/-- A request to the parts of a URL is made of legal characters if its headers are. -/
theorem legal_of_parse (ho : IsOctet octet) (h : parse octet call.request.url = some u)
    (hparts : u.parts = .ok (uri call.request.url))
    (hheaders : ∀ h ∈ call.request.headers, h.2 ≠ [] → WellFormedHeader h)
    (hbodyType : ∀ c ∈ call.bodyType, isCtl c = false) : Legal uri call := by
  obtain ⟨hhost, hpath, hquery, hfragment⟩ := parse_characters ho h
  obtain ⟨port, hport⟩ : ∃ port, uri call.request.url =
      ⟨u.host, port, u.path, u.query, u.fragment⟩ := by
    rw [parts] at hparts
    cases hport : u.portUs with
    | error e =>
      rw [hport] at hparts
      cases hparts
    | ok port =>
      rw [hport] at hparts
      exact ⟨port, (Except.ok.inj hparts).symm⟩
  refine ⟨fun c hc => ?_, ?_, ?_, ?_, hheaders, hbodyType⟩
  · rw [hport] at hc
    have := hhost c hc
    simp only [isTarget, Bool.and_eq_true, Bool.not_eq_true'] at this
    exact this.1
  · rwa [hport]
  · rwa [hport]
  · rwa [hport]

/-- Whatever characters a URL has, the bytes written for it are one request: a server
reads the method, the target and the headers back that were meant, and leaves the
body. -/
theorem url_reads_back (ho : IsOctet octet) (h : parse octet call.request.url = some u)
    (hparts : u.parts = .ok (uri call.request.url))
    (hheaders : ∀ h ∈ call.request.headers, h.2 ≠ [] → WellFormedHeader h)
    (hbodyType : ∀ c ∈ call.bodyType, isCtl c = false) :
    parseHeaders {} (ofCall uri call).wire =
      ⟨.accepted, ⟨.expectingNewline3,
        meant (ofCall uri call).request (ofCall uri call).method, true⟩, call.body⟩ := by
  rw [← ofCall_body uri call]
  exact parse_linearize _ (ofCall_method uri call).1
    (wellFormed_ofCall (legal_of_parse ho h hparts hheaders hbodyType))

/-- The request ends where the URL would have gone on. -/
theorem url_reads_back_line :
    parseHeaders {} (ofCall (fun _ => { host := lit "h", path := lit "/a" })
      (.get ⟨lineUrl, []⟩)).wire =
      ⟨.accepted, ⟨.expectingNewline3, ⟨lit "GET", lit "/a", 1, 1,
        [(lit "Host", lit "h"), (lit "Accept", lit "*/*"),
          (lit "Accept-Encoding", lit "identity;q=1.0, *;q=0"),
          (lit "Connection", lit "Close")]⟩, true⟩, []⟩ :=
  url_reads_back isOctet_decimalOctet parse_lineUrl rfl (fun h hh => by cases hh)
    fun c hc => by cases hc

end Request

end Uri

end HttpBackground
