import HttpBackground.ResponseHead
import HttpBackground.OrderedMultimap

/-!
# The response headers

Once the parser has accepted the whole header text, `parse_headers_real` runs a
second parser over it that stops behind each colon and at each line end, trims
what is between and collects the pairs in a multimap ordered by
`std::less<std::string>`. On accepted text the second parser finds the header
lines of the first.
-/
namespace HttpBackground

abbrev Headers := List (StdString × StdString)

namespace StdString

theorem rdropWhile_append {p : UInt8 → Bool} (s t : StdString) :
    (s ++ t).rdropWhile p = if t.rdropWhile p = [] then s.rdropWhile p else s ++ t.rdropWhile p := by
  simp only [List.rdropWhile, List.reverse_append, List.dropWhile_append, List.isEmpty_iff,
    List.reverse_eq_nil_iff]
  split <;> simp_all

/-- Spaces around a text that starts with none go; so do those at its end. -/
theorem trim_eq {before after s : StdString} {c : UInt8} (hbefore : ∀ d ∈ before, isSpace d = true)
    (hc : isSpace c = false) (hafter : ∀ d ∈ after, isSpace d = true) :
    trim (before ++ (c :: s ++ after)) = (c :: s).rdropWhile isSpace := by
  have hnil : after.rdropWhile isSpace = [] := List.rdropWhile_eq_nil_iff.mpr hafter
  have hne : (c :: s).rdropWhile isSpace ≠ [] := by
    rw [Ne, List.rdropWhile_eq_nil_iff]
    intro h
    simp [h c List.mem_cons_self] at hc
  have hfirst : ∃ t, (c :: s).rdropWhile isSpace = c :: t := by
    rw [← List.singleton_append, rdropWhile_append]
    split
    · exact ⟨[], by simp [List.rdropWhile_singleton, hc]⟩
    · exact ⟨_, rfl⟩
  obtain ⟨t, ht⟩ := hfirst
  rw [trim, rdropWhile_append (s := before), rdropWhile_append (s := c :: s), if_pos hnil,
    if_neg hne, ht, List.dropWhile_append_of_pos hbefore]
  simp [hc]

/-- A text without spaces at its ends only loses what is behind it. -/
theorem trim_word {s after : StdString} (hne : s ≠ []) (hfirst : isSpace (s.head hne) = false)
    (hlast : isSpace (s.getLast hne) = false) (hafter : ∀ d ∈ after, isSpace d = true) :
    trim (s ++ after) = s := by
  cases s with
  | nil => exact absurd rfl hne
  | cons c s =>
    have hc : isSpace c = false := hfirst
    have h : trim ([] ++ (c :: s ++ after)) = (c :: s).rdropWhile isSpace :=
      trim_eq (by simp) hc hafter
    rw [List.nil_append] at h
    rw [h, List.rdropWhile_eq_self_iff]
    simp [hlast]

end StdString

namespace ResponseParser

open Scanning StdString State

/-- The loop of `parse_headers_real`; `none` where `fuel` passes leave some input. -/
def parseHeaderPairs : ℕ → State → StdString → Headers → Option Headers
  | 0, _, input, headers => if input.isEmpty then some headers else none
  | fuel + 1, state, input, headers =>
    if input.isEmpty then some headers
    else
      let name := parseUntil httpHeaderColon state input
      if name.state.1 ≠ httpHeaderColon then some headers
      else
        let value := parseUntil httpHeaderLineDone name.state.1 name.rest
        let first := trim name.state.2
        let first := if first.length > 1 then first.dropLast else first
        parseHeaderPairs fuel value.state.1 value.rest
          (OrderedMultimap.insert less (first, trim value.state.2) headers)

/-- `parse_headers_real`: a pass walks over a colon at least. -/
def parseHeadersReal (headersPart : StdString) : Option Headers :=
  parseHeaderPairs headersPart.length httpHeaderLineDone headersPart []

/-- Whether the body parser will need to handle chunked encoding. -/
def chunkEncoding (headers : Headers) : Bool :=
  match OrderedMultimap.equalRange less (lit "Transfer-Encoding") headers with
  | [] => false
  | e :: _ => iequals e.2 (lit "chunked")

/-- The pair a header line stands for. -/
def HeaderLine.entry (l : HeaderLine) : StdString × StdString :=
  (l.field, (l.first :: l.value).rdropWhile isSpace)

/-- The headers a head stands for. -/
def Head.headers (h : Head) : Headers :=
  OrderedMultimap.ofList less (h.lines.map HeaderLine.entry)

/-- Where the parser is past the `H`, it hands back the word up to the stop state. -/
theorem parseUntil_of_follows {stopState s : State} {w : StdString} (hs : s ≠ httpResponseBegin)
    (h : follows stopState s w = some stopState) (rest : StdString) :
    parseUntil stopState s (w ++ rest) = ⟨.accepted, (stopState, w), rest⟩ := by
  rw [parseUntil, scan_eq_accepted_iff]
  exact ⟨w, rfl, by simp [reads_advance hs, h], by simp⟩

theorem isSpace_of_alnum {c : UInt8} (h : isAlnum c = true) : isSpace c = false :=
  isSpace_of_valueStart (by simp [isValueStart, h])

/-- The name is trimmed with its colon on, so spaces in front of the colon stay. -/
theorem trim_nameText (l : HeaderLine) : trim l.nameText = l.nameText := by
  have hspace : isSpace ':'.toUInt8 = false := by decide
  have hlast : l.nameText.rdropWhile isSpace = l.nameText := by
    rw [HeaderLine.nameText]
    exact List.rdropWhile_concat_neg _ _ _ (by simp [hspace])
  rw [trim, hlast]
  simp [HeaderLine.nameText, HeaderLine.field, isSpace_of_alnum l.hinitial]

theorem trim_valueText (l : HeaderLine) :
    trim l.valueText = (l.first :: l.value).rdropWhile isSpace :=
  trim_eq l.hgap (isSpace_of_valueStart l.hfirst) (forall_mem_of_all (by decide))

/-- A pass over a header line inserts its pair. -/
theorem parseHeaderPairs_line (fuel : ℕ) (l : HeaderLine) (rest : StdString) (headers : Headers) :
    parseHeaderPairs (fuel + 1) httpHeaderLineDone (l.text ++ rest) headers =
      parseHeaderPairs fuel httpHeaderLineDone rest
        (OrderedMultimap.insert less l.entry headers) := by
  have hname : parseUntil httpHeaderColon httpHeaderLineDone (l.nameText ++ (l.valueText ++ rest)) =
      ⟨.accepted, (httpHeaderColon, l.nameText), l.valueText ++ rest⟩ :=
    parseUntil_of_follows (by decide) (follows_nameText l rfl (by decide) (by decide)) _
  have hvalue : parseUntil httpHeaderLineDone httpHeaderColon (l.valueText ++ rest) =
      ⟨.accepted, (httpHeaderLineDone, l.valueText), rest⟩ :=
    parseUntil_of_follows (by decide)
      (follows_valueText l (by decide) (by decide) (by decide)) _
  have hempty : (l.nameText ++ (l.valueText ++ rest)).isEmpty = false := by
    simp [HeaderLine.nameText, HeaderLine.field]
  have hlength : l.nameText.length > 1 := by
    simp [HeaderLine.nameText, HeaderLine.field]
  have hfield : l.nameText.dropLast = l.field := by simp [HeaderLine.nameText]
  rw [HeaderLine.text, List.append_assoc, parseHeaderPairs, hempty]
  simp only [Bool.false_eq_true, if_false, hname, ne_eq, not_true_eq_false, hvalue,
    trim_nameText, if_pos hlength, hfield, trim_valueText, HeaderLine.entry]

/-- The empty line ends the loop. -/
theorem parseHeaderPairs_end (fuel : ℕ) (headers : Headers) :
    parseHeaderPairs (fuel + 1) httpHeaderLineDone crlf headers = some headers := rfl

theorem parseHeaderPairs_lines (lines : List HeaderLine) (headers : Headers) {fuel : ℕ}
    (hfuel : (headerText lines).length ≤ fuel) :
    parseHeaderPairs fuel httpHeaderLineDone (headerText lines) headers =
      some (lines.foldl (fun m l => OrderedMultimap.insert less l.entry m) headers) := by
  induction lines generalizing fuel headers with
  | nil =>
    have hlen : (headerText []).length = 2 := rfl
    obtain ⟨fuel, rfl⟩ : ∃ n, fuel = n + 1 := ⟨fuel - 1, by omega⟩
    exact parseHeaderPairs_end fuel headers
  | cons l lines ih =>
    have htext : headerText (l :: lines) = l.text ++ headerText lines := by simp [headerText]
    have hl : 1 ≤ l.text.length := by
      simp only [HeaderLine.text, HeaderLine.nameText, List.length_append, List.length_cons]
      omega
    rw [htext, List.length_append] at hfuel
    obtain ⟨fuel, rfl⟩ : ∃ n, fuel = n + 1 := ⟨fuel - 1, by omega⟩
    rw [htext, parseHeaderPairs_line, ih _ (by omega), List.foldl_cons]

/-- The second parser ends on every header text the first one accepts, and
collects exactly the header lines, in key order and for one key in the order
they were sent. -/
theorem parseHeadersReal_headerText (lines : List HeaderLine) :
    parseHeadersReal (headerText lines) =
      some (OrderedMultimap.ofList less (lines.map HeaderLine.entry)) := by
  rw [parseHeadersReal, parseHeaderPairs_lines lines [] le_rfl, OrderedMultimap.ofList,
    List.foldl_map]

end ResponseParser

end HttpBackground
