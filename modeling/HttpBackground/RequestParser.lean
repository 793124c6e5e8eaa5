import HttpBackground.RequestWriting
import HttpBackground.Scanning

/-!
# The request parser of the library's server

`basic_request_parser` reads a request head character by character into the fields
of a request. What it stores is well formed by the classes of its characters, and
it reads back what the client writes exactly where the client's fields are.
-/
namespace HttpBackground

namespace RequestParser

open Scanning

def isChar (c : UInt8) : Bool := decide (c.toNat ≤ 127)

def isCtl (c : UInt8) : Bool := decide (c.toNat ≤ 31) || c == 127

def isTspecial (c : UInt8) : Bool :=
  (lit "()<>@,;:\\\"/[]?=\x7b\x7d \t").contains c

def isDigit (c : UInt8) : Bool := decide (48 ≤ c.toNat) && decide (c.toNat ≤ 57)

/-- What a method or a header name is made of. -/
def isToken (c : UInt8) : Bool := isChar c && !isCtl c && !isTspecial c

inductive State
  | methodStart
  | method
  | uriStart
  | uri
  | httpVersionH
  | httpVersionT1
  | httpVersionT2
  | httpVersionP
  | httpVersionSlash
  | httpVersionMajorStart
  | httpVersionMajor
  | httpVersionMinorStart
  | httpVersionMinor
  | expectingNewline1
  | headerLineStart
  | headerLws
  | headerName
  | spaceBeforeHeaderValue
  | headerValue
  | expectingNewline2
  | expectingNewline3
  deriving DecidableEq, Repr

/-- The request of the server that the parser fills in. -/
structure ParsedRequest where
  method : StdString := []
  destination : StdString := []
  httpVersionMajor : UInt8 := 0
  httpVersionMinor : UInt8 := 0
  headers : List (StdString × StdString) := []
  deriving DecidableEq, Repr

namespace ParsedRequest

/-- `headers.back().name.push_back(c)` -/
def pushName (r : ParsedRequest) (c : UInt8) : ParsedRequest :=
  { r with headers := r.headers.modify (r.headers.length - 1) fun h => (h.1 ++ [c], h.2) }

def pushValue (r : ParsedRequest) (c : UInt8) : ParsedRequest :=
  { r with headers := r.headers.modify (r.headers.length - 1) fun h => (h.1, h.2 ++ [c]) }

end ParsedRequest

/-- The parser with its request; `complete` once a request head has been read. -/
structure Parser where
  state : State := .methodStart
  request : ParsedRequest := {}
  complete : Bool := false
  deriving DecidableEq, Repr

/-- `consume`: `none` for an invalid character. -/
def consume (p : Parser) (input : UInt8) : Option Parser :=
  let req := p.request
  match p.state with
  | .methodStart =>
    if !isToken input then none
    else some { p with state := .method, request := { req with method := req.method ++ [input] } }
  | .method =>
    if input = ' '.toUInt8 then some { p with state := .uri }
    else if !isToken input then none
    else some { p with request := { req with method := req.method ++ [input] } }
  | .uriStart =>
    if isCtl input then none
    else
      some { p with
        state := .uri, request := { req with destination := req.destination ++ [input] } }
  | .uri =>
    if input = ' '.toUInt8 then some { p with state := .httpVersionH }
    else if isCtl input then none
    else some { p with request := { req with destination := req.destination ++ [input] } }
  | .httpVersionH =>
    if input = 'H'.toUInt8 then some { p with state := .httpVersionT1 } else none
  | .httpVersionT1 =>
    if input = 'T'.toUInt8 then some { p with state := .httpVersionT2 } else none
  | .httpVersionT2 =>
    if input = 'T'.toUInt8 then some { p with state := .httpVersionP } else none
  | .httpVersionP =>
    if input = 'P'.toUInt8 then some { p with state := .httpVersionSlash } else none
  | .httpVersionSlash =>
    if input = '/'.toUInt8 then
      some { p with
        state := .httpVersionMajorStart
        request := { req with httpVersionMajor := 0, httpVersionMinor := 0 } }
    else none
  | .httpVersionMajorStart =>
    if isDigit input then
      some { p with
        state := .httpVersionMajor
        request := { req with httpVersionMajor := req.httpVersionMajor * 10 + input - 48 } }
    else none
  | .httpVersionMajor =>
    if input = '.'.toUInt8 then some { p with state := .httpVersionMinorStart }
    else if isDigit input then
      some { p with
        request := { req with httpVersionMajor := req.httpVersionMajor * 10 + input - 48 } }
    else none
  | .httpVersionMinorStart =>
    if isDigit input then
      some { p with
        state := .httpVersionMinor
        request := { req with httpVersionMinor := req.httpVersionMinor * 10 + input - 48 } }
    else none
  | .httpVersionMinor =>
    if input = '\r'.toUInt8 then some { p with state := .expectingNewline1 }
    else if isDigit input then
      some { p with
        request := { req with httpVersionMinor := req.httpVersionMinor * 10 + input - 48 } }
    else none
  | .expectingNewline1 =>
    if input = '\n'.toUInt8 then some { p with state := .headerLineStart } else none
  | .headerLineStart =>
    if input = '\r'.toUInt8 then some { p with state := .expectingNewline3 }
    else if !req.headers.isEmpty && (input == ' '.toUInt8 || input == '\t'.toUInt8) then
      some { p with state := .headerLws }
    else if !isToken input then none
    else
      some { p with
        state := .headerName, request := { req with headers := req.headers ++ [([input], [])] } }
  | .headerLws =>
    if input = '\r'.toUInt8 then some { p with state := .expectingNewline2 }
    else if input = ' '.toUInt8 ∨ input = '\t'.toUInt8 then some p
    else if isCtl input then none
    else some { p with state := .headerValue, request := req.pushValue input }
  | .headerName =>
    if input = ':'.toUInt8 then some { p with state := .spaceBeforeHeaderValue }
    else if !isToken input then none
    else some { p with request := req.pushName input }
  | .spaceBeforeHeaderValue =>
    if input = ' '.toUInt8 then some { p with state := .headerValue } else none
  | .headerValue =>
    if input = '\r'.toUInt8 then some { p with state := .expectingNewline2 }
    else if isCtl input then none
    else some { p with request := req.pushValue input }
  | .expectingNewline2 =>
    if input = '\n'.toUInt8 then some { p with state := .headerLineStart } else none
  | .expectingNewline3 =>
    if input = '\n'.toUInt8 then some { p with complete := true } else none

/-- `parse_headers`: it stops where `consume` says `true` or `false`, and hands back
what is behind the last character it has looked at. -/
def parseHeaders (p : Parser) (input : StdString) : Outcome Parser UInt8 :=
  let result := scan consume Parser.complete p input
  if result.verdict = .refused then { result with rest := result.rest.tail } else result

/-- What stands between the spaces of the request line. -/
def isTarget (c : UInt8) : Bool := !isCtl c && c != ' '.toUInt8

structure WellFormedHeader (h : StdString × StdString) : Prop where
  nonempty : h.1 ≠ []
  name : ∀ c ∈ h.1, isToken c = true
  value : ∀ c ∈ h.2, isCtl c = false

/-- A request whose parts are made of legal characters. -/
structure WellFormed (r : ParsedRequest) : Prop where
  method : ∀ c ∈ r.method, isToken c = true
  destination : ∀ c ∈ r.destination, isTarget c = true
  headers : ∀ h ∈ r.headers, WellFormedHeader h

namespace WellFormed

variable {r : ParsedRequest} {c : UInt8}

theorem modify_last {l : List (StdString × StdString)} {f : StdString × StdString → StdString × StdString}
    (hl : ∀ h ∈ l, WellFormedHeader h) (hf : ∀ h, WellFormedHeader h → WellFormedHeader (f h)) :
    ∀ h ∈ l.modify (l.length - 1) f, WellFormedHeader h := by
  intro h hh
  obtain ⟨i, hi, rfl⟩ := List.mem_iff_getElem.mp hh
  rw [List.getElem_modify]
  split
  · exact hf _ (hl _ (List.getElem_mem _))
  · exact hl _ (List.getElem_mem _)

theorem pushName (hr : WellFormed r) (hc : isToken c = true) : WellFormed (r.pushName c) where
  method := hr.method
  destination := hr.destination
  headers := modify_last hr.headers fun h hh =>
    { nonempty := by simp
      name := by
        intro d hd
        rcases List.mem_append.mp hd with hd | hd
        · exact hh.name d hd
        · rw [List.mem_singleton.mp hd]
          exact hc
      value := hh.value }

theorem pushValue (hr : WellFormed r) (hc : isCtl c = false) : WellFormed (r.pushValue c) where
  method := hr.method
  destination := hr.destination
  headers := modify_last hr.headers fun h hh =>
    { nonempty := hh.nonempty
      name := hh.name
      value := by
        intro d hd
        rcases List.mem_append.mp hd with hd | hd
        · exact hh.value d hd
        · rw [List.mem_singleton.mp hd]
          exact hc }

theorem pushMethod (hr : WellFormed r) (hc : isToken c = true) :
    WellFormed { r with method := r.method ++ [c] } where
  method := by
    intro d hd
    rcases List.mem_append.mp hd with hd | hd
    · exact hr.method d hd
    · rw [List.mem_singleton.mp hd]
      exact hc
  destination := hr.destination
  headers := hr.headers

theorem pushDestination (hr : WellFormed r) (hc : isTarget c = true) :
    WellFormed { r with destination := r.destination ++ [c] } where
  method := hr.method
  destination := by
    intro d hd
    rcases List.mem_append.mp hd with hd | hd
    · exact hr.destination d hd
    · rw [List.mem_singleton.mp hd]
      exact hc
  headers := hr.headers

theorem newHeader (hr : WellFormed r) (hc : isToken c = true) :
    WellFormed { r with headers := r.headers ++ [([c], [])] } where
  method := hr.method
  destination := hr.destination
  headers := by
    intro h hh
    rcases List.mem_append.mp hh with hh | hh
    · exact hr.headers h hh
    · rw [List.mem_singleton.mp hh]
      exact ⟨by simp, by simpa using hc, by simp⟩

theorem version (hr : WellFormed r) (major minor : UInt8) :
    WellFormed { r with httpVersionMajor := major, httpVersionMinor := minor } :=
  ⟨hr.method, hr.destination, hr.headers⟩

end WellFormed

/-- A parser that has started at the method. -/
structure Sound (p : Parser) : Prop where
  started : p.state ≠ .uriStart
  method : p.state = .methodStart ∧ p.complete = false ∨ p.request.method ≠ []
  request : WellFormed p.request

theorem sound_consume {p p' : Parser} {c : UInt8} (hp : Sound p) (h : consume p c = some p') :
    Sound p' := by
  obtain ⟨state, req, complete⟩ := p
  obtain ⟨hstarted, hmethod, hreq⟩ := hp
  -- behind the method a character is stored in another field, or nowhere
  have hkeep : ∀ state' req' complete', state ≠ .methodStart → state' ≠ .uriStart →
      req'.method = req.method → WellFormed req' → Sound ⟨state', req', complete'⟩ :=
    fun _ _ _ hstate hstate' hsame hreq' =>
      ⟨hstate', .inr (by simpa [hsame, hstate] using hmethod), hreq'⟩
  cases state with
  | uriStart => exact absurd rfl hstarted
  | methodStart =>
    simp only [consume] at h
    split at h
    · cases h
    · rename_i hc
      cases h
      exact ⟨by simp, .inr (by simp), hreq.pushMethod (by simpa using hc)⟩
  | method =>
    simp only [consume] at h
    split at h
    · cases h
      exact hkeep _ _ _ (by simp) (by simp) rfl hreq
    · split at h
      · cases h
      · rename_i hc
        cases h
        exact ⟨by simp, .inr (by simp), hreq.pushMethod (by simpa using hc)⟩
  | uri =>
    simp only [consume] at h
    split at h
    · cases h
      exact hkeep _ _ _ (by simp) (by simp) rfl hreq
    · rename_i hspace
      split at h
      · cases h
      · rename_i hc
        cases h
        exact hkeep _ _ _ (by simp) (by simp) rfl
          (hreq.pushDestination (by simpa [isTarget, hspace] using hc))
  | headerLineStart =>
    simp only [consume] at h
    split at h
    · cases h
      exact hkeep _ _ _ (by simp) (by simp) rfl hreq
    · split at h
      · cases h
        exact hkeep _ _ _ (by simp) (by simp) rfl hreq
      · split at h
        · cases h
        · rename_i hc
          cases h
          exact hkeep _ _ _ (by simp) (by simp) rfl (hreq.newHeader (by simpa using hc))
  | headerName =>
    simp only [consume] at h
    split at h
    · cases h
      exact hkeep _ _ _ (by simp) (by simp) rfl hreq
    · split at h
      · cases h
      · rename_i hc
        cases h
        exact hkeep _ _ _ (by simp) (by simp) rfl (hreq.pushName (by simpa using hc))
  | headerLws =>
    simp only [consume] at h
    split at h
    · cases h
      exact hkeep _ _ _ (by simp) (by simp) rfl hreq
    · split at h
      · cases h
        exact hkeep _ _ _ (by simp) (by simp) rfl hreq
      · split at h
        · cases h
        · rename_i hc
          cases h
          exact hkeep _ _ _ (by simp) (by simp) rfl (hreq.pushValue (by simpa using hc))
  | headerValue =>
    simp only [consume] at h
    split at h
    · cases h
      exact hkeep _ _ _ (by simp) (by simp) rfl hreq
    · split at h
      · cases h
      · rename_i hc
        cases h
        exact hkeep _ _ _ (by simp) (by simp) rfl (hreq.pushValue (by simpa using hc))
  | httpVersionMajor | httpVersionMinor =>
    simp only [consume] at h
    split at h
    · cases h
      exact hkeep _ _ _ (by simp) (by simp) rfl hreq
    · split at h
      · cases h
        exact hkeep _ _ _ (by simp) (by simp) rfl (hreq.version _ _)
      · cases h
  | httpVersionSlash | httpVersionMajorStart | httpVersionMinorStart =>
    simp only [consume] at h
    split at h
    · cases h
      exact hkeep _ _ _ (by simp) (by simp) rfl (hreq.version _ _)
    · cases h
  | _ =>
    simp only [consume] at h
    split at h
    · cases h
      exact hkeep _ _ _ (by simp) (by simp) rfl hreq
    · cases h

theorem sound_start : Sound {} :=
  ⟨by simp, .inl ⟨rfl, rfl⟩, ⟨by simp, by simp, by simp⟩⟩

/-- Whatever it is given, the parser accepts legal characters only. -/
theorem wellFormed_of_accepted {input : StdString}
    (h : (parseHeaders {} input).verdict = .accepted) :
    (parseHeaders {} input).state.request.method ≠ [] ∧
      WellFormed (parseHeaders {} input).state.request := by
  obtain ⟨w, -, hreads⟩ := exists_reads consume Parser.complete {} input
  have hsound := reads_invariant (fun _ _ _ => sound_consume) sound_start hreads
  have hstate : (parseHeaders {} input).state = (scan consume Parser.complete {} input).state := by
    simp only [parseHeaders]
    split <;> rfl
  have hverdict : (scan consume Parser.complete {} input).verdict = .accepted := by
    simp only [parseHeaders] at h
    split at h <;> exact h
  have hcomplete := accepted_iff.mp hverdict
  rw [hstate]
  exact ⟨hsound.method.resolve_left (by simp [hcomplete]), hsound.request⟩

section Writing

open ClientRequest StdString

theorem not_special_of_token {c d : UInt8} (hc : isToken c = true) (hd : isToken d = false) :
    c ≠ d := by
  rintro rfl
  rw [hc] at hd
  cases hd

theorem modify_append (hs : List (StdString × StdString)) (h : StdString × StdString)
    (f : StdString × StdString → StdString × StdString) :
    (hs ++ [h]).modify hs.length f = hs ++ [f h] := by
  induction hs with
  | nil => rfl
  | cons g hs ih => simp [ih]

theorem reads_method {method : StdString} (hne : method ≠ [])
    (htoken : ∀ c ∈ method, isToken c = true) :
    reads consume Parser.complete {} (method ++ lit " ") =
      some { state := .uri, request := { method := method } } := by
  obtain ⟨c, cs, rfl⟩ := List.exists_cons_of_ne_nil hne
  have hc := htoken c List.mem_cons_self
  have hfirst : consume {} c = some { state := .method, request := { method := [c] } } := by
    simp [consume, hc]
  have hmore : reads consume Parser.complete
      { state := .method, request := { method := [c] } } cs =
      some { state := .method, request := { method := [c] ++ cs } } := by
    refine reads_collect (f := fun acc => Parser.mk .method { method := acc } false)
      (fun _ => rfl) ?_ [c]
    intro acc d hd
    have hd := htoken d (List.mem_cons_of_mem c hd)
    have hspace : d ≠ ' '.toUInt8 := not_special_of_token hd (by decide)
    simp [consume, hd, hspace]
  rw [List.cons_append, reads_cons_some rfl hfirst]
  exact reads_trans hmore rfl

theorem reads_target {method target : StdString} (htarget : ∀ c ∈ target, isTarget c = true) :
    reads consume Parser.complete { state := .uri, request := { method := method } } target =
      some { state := .uri, request := { method := method, destination := target } } := by
  refine reads_collect
    (f := fun acc => Parser.mk .uri { method := method, destination := acc } false)
    (fun _ => rfl) ?_ []
  intro acc c hc
  have hc := htarget c hc
  simp only [isTarget, Bool.and_eq_true, Bool.not_eq_true', bne_iff_ne] at hc
  simp [consume, hc.1, hc.2]

theorem reads_version (method target : StdString) :
    reads consume Parser.complete
      { state := .uri, request := { method := method, destination := target } }
      (lit " HTTP/" ++ decimal 1 ++ lit "." ++ decimal 1 ++ lit "\r\n") =
      some { state := .headerLineStart, request := ⟨method, target, 1, 1, []⟩ } := by
  have htext : lit " HTTP/" ++ decimal 1 ++ lit "." ++ decimal 1 ++ lit "\r\n" =
      [32, 72, 84, 84, 80, 47] ++ [49, 46] ++ [49, 13, 10] := by
    simp [decimal]
    decide
  have hmajor : consume ⟨.httpVersionMajorStart, ⟨method, target, 0, 0, []⟩, false⟩ 49 =
      some ⟨.httpVersionMajor, ⟨method, target, 1, 0, []⟩, false⟩ := by
    simp [consume, isDigit]
  have hminor : consume ⟨.httpVersionMinorStart, ⟨method, target, 1, 0, []⟩, false⟩ 49 =
      some ⟨.httpVersionMinor, ⟨method, target, 1, 1, []⟩, false⟩ := by
    simp [consume, isDigit]
  rw [htext]
  have hslash : reads consume Parser.complete ⟨.uri, ⟨method, target, 0, 0, []⟩, false⟩
      [32, 72, 84, 84, 80, 47] =
      some ⟨.httpVersionMajorStart, ⟨method, target, 0, 0, []⟩, false⟩ := rfl
  refine reads_trans (t := ⟨.httpVersionMinorStart, ⟨method, target, 1, 0, []⟩, false⟩)
    (reads_trans hslash ?_) ?_
  · rw [reads_cons_some rfl hmajor]
    rfl
  · rw [reads_cons_some rfl hminor]
    rfl

theorem reads_headerLine {method target : StdString} {hs : List (StdString × StdString)}
    {h : StdString × StdString} (hh : WellFormedHeader h) :
    reads consume Parser.complete
      { state := .headerLineStart, request := ⟨method, target, 1, 1, hs⟩ } (headerLine h) =
      some { state := .headerLineStart, request := ⟨method, target, 1, 1, hs ++ [h]⟩ } := by
  obtain ⟨name, value⟩ := h
  obtain ⟨c, cs, rfl⟩ : ∃ c cs, name = c :: cs := List.exists_cons_of_ne_nil hh.nonempty
  have htoken : ∀ d ∈ c :: cs, isToken d = true := hh.name
  have hc := htoken c List.mem_cons_self
  have hfirst : consume ⟨.headerLineStart, ⟨method, target, 1, 1, hs⟩, false⟩ c =
      some ⟨.headerName, ⟨method, target, 1, 1, hs ++ [([c], [])]⟩, false⟩ := by
    have hcr : c ≠ '\r'.toUInt8 := not_special_of_token hc (by decide)
    have hspace : c ≠ ' '.toUInt8 := not_special_of_token hc (by decide)
    have htab : c ≠ '\t'.toUInt8 := not_special_of_token hc (by decide)
    simp [consume, hc, hcr, hspace, htab]
  have hname : reads consume Parser.complete
      ⟨.headerName, ⟨method, target, 1, 1, hs ++ [([c], [])]⟩, false⟩ cs =
      some ⟨.headerName, ⟨method, target, 1, 1, hs ++ [([c] ++ cs, [])]⟩, false⟩ := by
    refine reads_collect
      (f := fun acc => Parser.mk .headerName ⟨method, target, 1, 1, hs ++ [(acc, [])]⟩ false)
      (fun _ => rfl) ?_ [c]
    intro acc d hd
    have hd := htoken d (List.mem_cons_of_mem c hd)
    have hcolon : d ≠ ':'.toUInt8 := not_special_of_token hd (by decide)
    simp [consume, hd, hcolon, ParsedRequest.pushName, modify_append]
  have hvalue : reads consume Parser.complete
      ⟨.headerValue, ⟨method, target, 1, 1, hs ++ [(c :: cs, [])]⟩, false⟩ value =
      some ⟨.headerValue, ⟨method, target, 1, 1, hs ++ [(c :: cs, value)]⟩, false⟩ := by
    refine reads_collect
      (f := fun acc => Parser.mk .headerValue ⟨method, target, 1, 1, hs ++ [(c :: cs, acc)]⟩ false)
      (fun _ => rfl) ?_ []
    intro acc d hd
    have hd : isCtl d = false := hh.value d hd
    have hcr : d ≠ '\r'.toUInt8 := by
      rintro rfl
      exact absurd hd (by decide)
    simp [consume, hd, hcr, ParsedRequest.pushValue, modify_append]
  have hline : headerLine (c :: cs, value) = c :: (cs ++ (lit ": " ++ (value ++ lit "\r\n"))) := by
    simp [headerLine]
  rw [hline, reads_cons_some rfl hfirst]
  exact reads_trans hname (reads_trans rfl (reads_trans hvalue rfl))

theorem reads_headerLines {method target : StdString} {hs ls : List (StdString × StdString)}
    (hls : ∀ h ∈ ls, WellFormedHeader h) :
    reads consume Parser.complete
      { state := .headerLineStart, request := ⟨method, target, 1, 1, hs⟩ } (ls.flatMap headerLine) =
      some { state := .headerLineStart, request := ⟨method, target, 1, 1, hs ++ ls⟩ } := by
  induction ls generalizing hs with
  | nil => simp
  | cons h ls ih =>
    have hrest := @ih (hs ++ [h]) fun g hg => hls g (List.mem_cons_of_mem h hg)
    rw [List.flatMap_cons]
    simpa using reads_trans (reads_headerLine (hls h List.mem_cons_self)) hrest

/-- What the client means by a request with a method. -/
def meant (r : ClientRequest) (method : StdString) : ParsedRequest :=
  ⟨method, r.target, 1, 1, r.wireHeaders 1 1⟩

theorem reads_head (r : ClientRequest) {method : StdString} (hne : method ≠ [])
    (hr : WellFormed (meant r method)) :
    reads consume Parser.complete {} (method ++ lit " " ++ r.target ++
      (lit " HTTP/" ++ decimal 1 ++ lit "." ++ decimal 1 ++ lit "\r\n") ++
      (r.wireHeaders 1 1).flatMap headerLine ++ lit "\r\n") =
      some ⟨.expectingNewline3, meant r method, true⟩ := by
  have hheaders := @reads_headerLines method r.target [] _ hr.headers
  refine reads_trans (reads_trans (reads_trans (reads_trans (reads_method hne hr.method)
    (reads_target hr.destination)) (reads_version method r.target)) hheaders) ?_
  rw [List.nil_append]
  rfl

theorem parse_linearize (r : ClientRequest) {method : StdString} (hne : method ≠ [])
    (hr : WellFormed (meant r method)) :
    parseHeaders {} (r.linearize method 1 1) =
      ⟨.accepted, ⟨.expectingNewline3, meant r method, true⟩, r.body⟩ := by
  have htext : r.linearize method 1 1 = (method ++ lit " " ++ r.target ++
      (lit " HTTP/" ++ decimal 1 ++ lit "." ++ decimal 1 ++ lit "\r\n") ++
      (r.wireHeaders 1 1).flatMap headerLine ++ lit "\r\n") ++ r.body := by
    simp [linearize]
  simp only [parseHeaders]
  rw [htext, scan_of_reads (reads_head r hne hr), scan_stop rfl]
  rfl

/-- The parser of the server reads the fields of the client back, and leaves the
body, exactly where they are made of legal characters: a field with any other
character is refused or read as something else. -/
theorem parse_linearize_iff (r : ClientRequest) (method : StdString) :
    parseHeaders {} (r.linearize method 1 1) =
        ⟨.accepted, ⟨.expectingNewline3, meant r method, true⟩, r.body⟩ ↔
      method ≠ [] ∧ WellFormed (meant r method) := by
  constructor
  · intro h
    have hsound := wellFormed_of_accepted (congrArg Scanning.Outcome.verdict h)
    rw [h] at hsound
    exact hsound
  · rintro ⟨hne, hr⟩
    exact parse_linearize r hne hr

/-- A call whose parts are made of legal characters; headers without a value are
not written. -/
structure Legal (uri : StdString → UriParts) (call : Call) : Prop where
  host : ∀ c ∈ (uri call.request.url).host, isCtl c = false
  path : ∀ c ∈ (uri call.request.url).path, isTarget c = true
  query : ∀ c ∈ (uri call.request.url).query, isTarget c = true
  fragment : ∀ c ∈ (uri call.request.url).fragment, isTarget c = true
  headers : ∀ h ∈ call.request.headers, h.2 ≠ [] → WellFormedHeader h
  bodyType : ∀ c ∈ call.bodyType, isCtl c = false

theorem isCtl_of_digit {c : UInt8} (hc : 48 ≤ c.toNat ∧ c.toNat ≤ 57) : isCtl c = false := by
  have hne : c ≠ 127 := by
    rintro rfl
    simp at hc
  simp [isCtl, hne]
  omega

theorem wellFormed_field {name value : StdString} (hname : name ≠ [] ∧ name.all isToken = true)
    (hvalue : ∀ c ∈ value, isCtl c = false) : WellFormedHeader (name, value) :=
  ⟨hname.1, fun c hc => List.all_eq_true.mp hname.2 c hc, hvalue⟩

variable {uri : StdString → UriParts} {call : Call}

theorem ofCall_method (uri : StdString → UriParts) (call : Call) :
    (ofCall uri call).method ≠ [] ∧ (ofCall uri call).method.all isToken = true := by
  have hverb : ∀ verb ∈ [lit "GET", lit "POST", lit "PUT", lit "DELETE", lit "HEAD"],
      verb ≠ [] ∧ verb.all isToken = true := by decide
  apply hverb
  cases call <;> simp [ofCall, ClientRequest.get, post, put, delete, head]

theorem ofCall_uri (uri : StdString → UriParts) (call : Call) :
    (ofCall uri call).request.uri = uri call.request.url := by
  have hcompleted : ∀ (r : ClientRequest) (body contentType : StdString),
      (r.completed body contentType).uri = r.uri := by
    intro r body contentType
    have hlength : (r.withLength body).uri = r.uri := by
      rw [withLength]
      split <;> rfl
    rw [← hlength, completed]
    simp only [withType]
    split
    · split <;> rfl
    · split <;> rfl
  cases call with
  | post request body bodyType => exact hcompleted _ _ _
  | put request body bodyType => exact hcompleted _ _ _
  | _ => rfl

theorem wellFormed_ofCall_headers (hlegal : Legal uri call) :
    ∀ h ∈ (ofCall uri call).request.headers, h.2 ≠ [] → WellFormedHeader h := by
  have hdirective : ∀ h ∈ (ofRequest uri call.request).headers, h.2 ≠ [] → WellFormedHeader h := by
    intro h hh
    exact hlegal.headers h ((OrderedMultimap.perm_ofList _).mem_iff.mp hh)
  have hcompleted : ∀ body, ∀ h ∈
      ((ofRequest uri call.request).completed body call.bodyType).headers, h.2 ≠ [] →
      WellFormedHeader h := by
    intro body h hh hne
    rcases mem_completed hh with hh | rfl | rfl | rfl
    · exact hdirective h hh hne
    · exact wellFormed_field (by decide) fun c hc => isCtl_of_digit (decimal_digit hc)
    · exact wellFormed_field (by decide) hlegal.bodyType
    · exact wellFormed_field (by decide) (forall_mem_of_all (by decide))
  cases call with
  | post request body bodyType => exact hcompleted body
  | put request body bodyType => exact hcompleted body
  | _ => exact hdirective

theorem wellFormed_defaultHeaders {r : ClientRequest} (hhost : ∀ c ∈ r.uri.host, isCtl c = false) :
    ∀ h ∈ r.defaultHeaders 1 1, WellFormedHeader h := by
  have hvalue : ∀ c ∈ r.hostValue, isCtl c = false := by
    intro c hc
    rcases List.mem_append.mp hc with hc | hc
    · exact hhost c hc
    · cases hport : r.uri.port with
      | none => simp [hport] at hc
      | some port =>
        rw [hport] at hc
        rcases List.mem_cons.mp hc with rfl | hc
        · decide
        · exact isCtl_of_digit (decimal_digit hc)
  intro h hh
  simp only [defaultHeaders, List.mem_append] at hh
  rcases hh with ((hh | hh) | hh) | hh
  · split at hh
    · simp at hh
    · rw [List.mem_singleton.mp hh]
      exact wellFormed_field (by decide) hvalue
  · split at hh
    · simp at hh
    · rw [List.mem_singleton.mp hh]
      exact wellFormed_field (by decide) (forall_mem_of_all (by decide))
  · split at hh
    · rw [List.mem_singleton.mp hh]
      exact wellFormed_field (by decide) (forall_mem_of_all (by decide))
    · simp at hh
  · rw [List.mem_singleton.mp hh]
    exact wellFormed_field (by decide) (forall_mem_of_all (by decide))

theorem isTarget_target {r : ClientRequest} (hpath : ∀ c ∈ r.uri.path, isTarget c = true)
    (hquery : ∀ c ∈ r.uri.query, isTarget c = true)
    (hfragment : ∀ c ∈ r.uri.fragment, isTarget c = true) : ∀ c ∈ r.target, isTarget c = true := by
  intro c hc
  simp only [target, List.mem_append] at hc
  rcases hc with ((hc | hc) | hc) | hc
  · split at hc
    · simp at hc
    · rw [List.mem_singleton.mp hc]
      decide
  · exact hpath c hc
  · split at hc
    · simp at hc
    · rcases List.mem_cons.mp hc with rfl | hc
      · decide
      · exact hquery c hc
  · split at hc
    · simp at hc
    · rcases List.mem_cons.mp hc with rfl | hc
      · decide
      · exact hfragment c hc

theorem wellFormed_ofCall (hlegal : Legal uri call) :
    WellFormed (meant (ofCall uri call).request (ofCall uri call).method) where
  method := fun c hc => List.all_eq_true.mp (ofCall_method uri call).2 c hc
  destination := by
    have huri := ofCall_uri uri call
    exact isTarget_target (by rw [huri]; exact hlegal.path) (by rw [huri]; exact hlegal.query)
      (by rw [huri]; exact hlegal.fragment)
  headers := by
    intro h hh
    rcases List.mem_append.mp hh with hh | hh
    · obtain ⟨hmem, hvalue⟩ := List.mem_filter.mp hh
      exact wellFormed_ofCall_headers hlegal h hmem (by simpa using hvalue)
    · exact wellFormed_defaultHeaders (by rw [ofCall_uri]; exact hlegal.host) h hh

/-- The headers of one name on the wire, where the defaults have another. -/
theorem filter_wireHeaders {r : ClientRequest} {name : StdString}
    (hname : name ∉ [lit "Host", lit "Accept", lit "Accept-Encoding", lit "Connection"]) :
    (r.wireHeaders 1 1).filter (fun h => h.1 = name) =
      (OrderedMultimap.equalRange StdString.less name r.headers).filter fun h => !h.2.isEmpty := by
  have hdefault : (r.defaultHeaders 1 1).filter (fun h => h.1 = name) = [] := by
    rw [List.filter_eq_nil_iff]
    intro h hh he
    apply hname
    rw [← of_decide_eq_true he]
    simp only [defaultHeaders, List.mem_append] at hh
    rcases hh with ((hh | hh) | hh) | hh
    · split at hh
      · simp at hh
      · simp [List.mem_singleton.mp hh]
    · split at hh
      · simp at hh
      · simp [List.mem_singleton.mp hh]
    · split at hh
      · simp [List.mem_singleton.mp hh]
      · simp at hh
    · simp [List.mem_singleton.mp hh]
  rw [wireHeaders, List.filter_append, hdefault, List.append_nil, OrderedMultimap.equalRange,
    List.filter_filter, List.filter_filter]
  apply List.filter_congr
  intro h _
  simp only [StdString.equiv_less_iff, eq_comm, Bool.and_comm]

/-- A call made of legal characters reaches the server as it is meant: the parser
reads its method, its target and its headers back and leaves the body, and where
there is a body its length is the only `Content-Length`. -/
theorem call_reads_back (hlegal : Legal uri call) :
    parseHeaders {} (ofCall uri call).wire =
        ⟨.accepted, ⟨.expectingNewline3,
          meant (ofCall uri call).request (ofCall uri call).method, true⟩, call.body⟩ ∧
      (call.body ≠ [] → (meant (ofCall uri call).request (ofCall uri call).method).headers.filter
        (fun h => h.1 = lit "Content-Length") =
        [(lit "Content-Length", decimal call.body.length)]) := by
  refine ⟨?_, fun hbody => ?_⟩
  · rw [← ofCall_body uri call]
    exact parse_linearize _ (ofCall_method uri call).1 (wellFormed_ofCall hlegal)
  · have hcompleted : ∀ request body contentType, body ≠ [] →
        (OrderedMultimap.equalRange StdString.less (lit "Content-Length")
          ((ofRequest uri request).completed body contentType).headers).filter
          (fun h => !h.2.isEmpty) = [(lit "Content-Length", decimal body.length)] := by
      intro request body contentType hne
      rw [equalRange_completed_length (OrderedMultimap.sorted_ofList _) _ _ hne]
      simpa using decimal_ne_nil body.length
    rw [meant, filter_wireHeaders (by decide)]
    cases call with
    | post request body bodyType => exact hcompleted _ _ _ hbody
    | put request body bodyType => exact hcompleted _ _ _ hbody
    | _ => exact absurd rfl hbody

/-- A `POST` with a body. -/
theorem call_reads_back_post :
    (parseHeaders {} (ofCall (fun _ => { host := lit "h", path := lit "/p" })
      (.post ⟨lit "http://h/p", []⟩ (lit "abc") none)).wire).verdict = .accepted := by
  have hlegal : Legal (fun _ => { host := lit "h", path := lit "/p" })
      (.post ⟨lit "http://h/p", []⟩ (lit "abc") none) := by
    constructor
    · exact forall_mem_of_all (by decide)
    · exact forall_mem_of_all (by decide)
    · exact fun c hc => by cases hc
    · exact fun c hc => by cases hc
    · exact fun h hh => by cases hh
    · exact fun c hc => by cases hc
  rw [(call_reads_back hlegal).1]

theorem equalRange_ofCall {name : StdString} (htype : name ≠ lit "Content-Type")
    (hlength : name ≠ lit "Content-Length") :
    OrderedMultimap.equalRange StdString.less name (ofCall uri call).request.headers =
      call.request.headers.filter fun h => h.1 = name := by
  have hcaller : ∀ request, OrderedMultimap.equalRange StdString.less name
      (ofRequest uri request).headers = request.headers.filter fun h => h.1 = name := by
    intro request
    rw [ofRequest, OrderedMultimap.equalRange_ofList, OrderedMultimap.equalRange]
    apply List.filter_congr
    intro h _
    simp only [StdString.equiv_less_iff, eq_comm]
  have hsorted : ∀ request, OrderedMultimap.Sorted StdString.less (ofRequest uri request).headers :=
    fun request => OrderedMultimap.sorted_ofList request.headers
  cases call with
  | post request body bodyType =>
    exact (equalRange_completed_other (hsorted request) _ _ htype hlength).trans (hcaller request)
  | put request body bodyType =>
    exact (equalRange_completed_other (hsorted request) _ _ htype hlength).trans (hcaller request)
  | get request => exact hcaller request
  | delete request => exact hcaller request
  | head request => exact hcaller request

/-- The server finds the caller's headers of a name in the caller's order, without the
empty ones, where the client has no header of that name itself. -/
theorem call_headers_in_order (hlegal : Legal uri call) {name : StdString}
    (hname : name ∉ [lit "Host", lit "Accept", lit "Accept-Encoding", lit "Connection"])
    (htype : name ≠ lit "Content-Type") (hlength : name ≠ lit "Content-Length") :
    (parseHeaders {} (ofCall uri call).wire).state.request.headers.filter (fun h => h.1 = name) =
      call.request.headers.filter fun h => h.1 = name && !h.2.isEmpty := by
  have hread := parse_linearize _ (ofCall_method uri call).1 (wellFormed_ofCall hlegal)
  rw [Skeleton.wire, hread]
  rw [meant, filter_wireHeaders hname, equalRange_ofCall htype hlength, List.filter_filter]
  apply List.filter_congr
  intro h _
  exact Bool.and_comm _ _

/-- Two headers of one name, not in the order of their values. -/
theorem call_headers_in_order_get :
    (parseHeaders {} (ofCall (fun _ => { host := lit "h", path := lit "/p" })
      (.get ⟨lit "http://h/p", [(lit "X", lit "2"), (lit "A", lit "0"), (lit "X", lit "1"),
        (lit "X", [])]⟩)).wire).state.request.headers.filter (fun h => h.1 = lit "X") =
      [(lit "X", lit "2"), (lit "X", lit "1")] := by
  have hlegal : Legal (fun _ => { host := lit "h", path := lit "/p" })
      (.get ⟨lit "http://h/p", [(lit "X", lit "2"), (lit "A", lit "0"), (lit "X", lit "1"),
        (lit "X", [])]⟩) := by
    constructor
    · exact forall_mem_of_all (by decide)
    · exact forall_mem_of_all (by decide)
    · exact fun c hc => by cases hc
    · exact fun c hc => by cases hc
    · intro h hh hne
      simp only [Call.request, List.mem_cons, List.not_mem_nil, or_false] at hh
      obtain rfl | rfl | rfl | rfl := hh
      · exact wellFormed_field (by decide) (forall_mem_of_all (by decide))
      · exact wellFormed_field (by decide) (forall_mem_of_all (by decide))
      · exact wellFormed_field (by decide) (forall_mem_of_all (by decide))
      · exact absurd rfl hne
    · exact fun c hc => by cases hc
  rw [call_headers_in_order hlegal (by decide) (by decide) (by decide)]
  decide +kernel

end Writing

end RequestParser

end HttpBackground
