import HttpBackground.ResponseHead
import Mathlib.Algebra.Group.Nat.Defs
import Mathlib.Algebra.Group.Int.Defs

/-!
# Bodies in chunked transfer coding

`parse_chunk_encoding` puts a chunked body together once the whole of it is
there: a line with a hexadecimal length, that many bytes, a line end, and so on
up to a length of zero. It trusts the lengths it reads. Where it would move an
iterator out of the string, or use a length that was never assigned, the result
is `none`.
-/
namespace HttpBackground

namespace ChunkedBody

open StdString ResponseParser

def isHexDigit (c : UInt8) : Bool :=
  isDigit c || decide (65 ≤ c) && decide (c ≤ 70) || decide (97 ≤ c) && decide (c ≤ 102)

def hexDigit (c : UInt8) : ℕ :=
  if isDigit c then c.toNat - 48 else if c ≤ 70 then c.toNat - 55 else c.toNat - 87

def hexValue (digits : StdString) : ℕ := digits.foldl (fun n c => 16 * n + hexDigit c) 0

/-- A sign in front of a number, and what follows it. -/
def sign : StdString → Bool × StdString
  | [] => (false, [])
  | c :: s =>
    if c = '-'.toUInt8 then (true, s)
    else if c = '+'.toUInt8 then (false, s)
    else (false, c :: s)

/-- `0x` in front of a number. -/
def skipBase : StdString → StdString
  | c :: d :: s =>
    if c = '0'.toUInt8 ∧ (d = 'x'.toUInt8 ∨ d = 'X'.toUInt8) then s else c :: d :: s
  | s => s

/-- `stream >> std::hex >> len` for an `int`; without a number in range `len` is
not assigned. -/
def readHex (line : StdString) : Option ℤ :=
  let (negative, s) := sign (line.dropWhile isSpace)
  let digits := (skipBase s).takeWhile isHexDigit
  if digits.isEmpty then none
  else
    let value : ℤ := if negative then -hexValue digits else hexValue digits
    if -2 ^ 31 ≤ value ∧ value < 2 ^ 31 then some value else none

/-- `std::search` for the line end: what is before it and what is behind it. -/
def splitLine : StdString → Option (StdString × StdString)
  | [] => none
  | c :: s =>
    if c = '\r'.toUInt8 ∧ s.head? = some '\n'.toUInt8 then some ([], s.tail)
    else (splitLine s).map fun p => (c :: p.1, p.2)

/-- The loop, from `begin` with the body so far. Every pass finds a line end, so
the length of the string is fuel enough. -/
def parseChunks : ℕ → StdString → StdString → Option StdString
  | 0, _, body => some body
  | fuel + 1, begin, body =>
    match splitLine begin with
    | none => some body
    | some (line, iter) =>
      if line.isEmpty then some body
      else
        match readHex line with
        | none => none
        | some len =>
          if len = 0 then some body
          else if len ≤ iter.length then
            if 0 ≤ len ∧ len.toNat + 2 ≤ iter.length then
              parseChunks fuel (iter.drop (len.toNat + 2)) (body ++ iter.take len.toNat)
            else none
          else parseChunks fuel iter body

def parseChunkEncoding (bodyString : StdString) : Option StdString :=
  parseChunks bodyString.length bodyString []

/-- A size line: the digits, and whatever else stands on the line. -/
structure SizeLine where
  digits : StdString
  extension : StdString
  hne : digits ≠ []
  hdigits : ∀ c ∈ digits, isHexDigit c = true
  hextension : '\r'.toUInt8 ∉ extension
  hdelimiter : ∀ c ∈ extension.head?, isHexDigit c = false ∧ c ≠ 'x'.toUInt8 ∧ c ≠ 'X'.toUInt8
  hint : hexValue digits < 2 ^ 31

def SizeLine.text (l : SizeLine) : StdString := l.digits ++ l.extension

/-- A chunk whose size line says how long it is. -/
structure Chunk where
  size : SizeLine
  data : StdString
  hne : data ≠ []
  hsize : hexValue size.digits = data.length

def Chunk.text (c : Chunk) : StdString := c.size.text ++ (crlf ++ (c.data ++ crlf))

theorem splitLine_append {line : StdString} (h : '\r'.toUInt8 ∉ line) (rest : StdString) :
    splitLine (line ++ (crlf ++ rest)) = some (line, rest) := by
  induction line with
  | nil => simp [splitLine, crlf]
  | cons c line ih =>
    have hc : c ≠ '\r'.toUInt8 := fun he => h (by simp [he])
    have hrest : '\r'.toUInt8 ∉ line := fun hm => h (List.mem_cons_of_mem c hm)
    simp [splitLine, hc, ih hrest]

theorem eq_of_splitLine {s line rest : StdString} (h : splitLine s = some (line, rest)) :
    s = line ++ (crlf ++ rest) := by
  induction s generalizing line with
  | nil => simp [splitLine] at h
  | cons c s ih =>
    simp only [splitLine] at h
    split at h
    · rename_i hc
      obtain ⟨rfl, rfl⟩ := by simpa using h
      cases s with
      | nil => simp at hc
      | cons d s => simpa [crlf] using hc
    · cases hs : splitLine s with
      | none => simp [hs] at h
      | some p =>
        obtain ⟨line', rest'⟩ := p
        simp only [hs, Option.map_some, Option.some.injEq, Prod.mk.injEq] at h
        obtain ⟨rfl, rfl⟩ := h
        simp [ih hs]

theorem isHexDigit_facts {c : UInt8} (h : isHexDigit c = true) :
    isSpace c = false ∧ c ≠ '-'.toUInt8 ∧ c ≠ '+'.toUInt8 ∧ c ≠ 'x'.toUInt8 ∧ c ≠ 'X'.toUInt8 ∧
      c ≠ '\r'.toUInt8 := by
  refine ⟨?_, ?_, ?_, ?_, ?_, ?_⟩
  · simp only [isHexDigit, isDigit, isSpace, UInt8.le_iff_toNat_le, Bool.or_eq_true,
      Bool.and_eq_true, decide_eq_true_eq, Bool.or_eq_false_iff, Bool.and_eq_false_iff,
      decide_eq_false_iff_not, beq_eq_false_iff_ne, ne_eq, ← UInt8.toNat_inj] at h ⊢
    simp only [UInt8.reduceToNat] at h ⊢
    omega
  all_goals
    rintro rfl
    revert h
    decide

/-- The number of a size line is read whatever follows its digits. -/
theorem readHex_text (l : SizeLine) : readHex l.text = some (hexValue l.digits : ℤ) := by
  obtain ⟨d, ds, hd⟩ := List.exists_cons_of_ne_nil l.hne
  have hfirst := isHexDigit_facts (l.hdigits d (by simp [hd]))
  have hspace : l.text.dropWhile isSpace = l.text := by
    simp [SizeLine.text, hd, hfirst.1]
  have hsign : sign l.text = (false, l.text) := by
    simp [SizeLine.text, hd, sign, hfirst.2.1, hfirst.2.2.1]
  have hbase : skipBase l.text = l.text := by
    have hnext : ∀ e ∈ (ds ++ l.extension).head?, e ≠ 'x'.toUInt8 ∧ e ≠ 'X'.toUInt8 := by
      intro e he
      cases ds with
      | nil => exact (l.hdelimiter e (by simpa using he)).2
      | cons e' ds =>
        obtain rfl : e' = e := by simpa using he
        have := isHexDigit_facts (l.hdigits e' (by simp [hd]))
        exact ⟨this.2.2.2.1, this.2.2.2.2.1⟩
    rw [SizeLine.text, hd, List.cons_append]
    cases hrest : ds ++ l.extension with
    | nil => rfl
    | cons e s =>
      have := hnext e (by simp [hrest])
      simp [skipBase, this.1, this.2]
  have htake : l.text.takeWhile isHexDigit = l.digits := by
    rw [SizeLine.text, List.takeWhile_append_of_pos l.hdigits]
    cases hext : l.extension with
    | nil => simp
    | cons c s =>
      have := (l.hdelimiter c (by simp [hext])).1
      simp [this]
  have hint := l.hint
  have hempty : l.digits.isEmpty = false := by simp [hd]
  simp only [readHex, hspace, hsign, hbase, htake, hempty, Bool.false_eq_true, if_false]
  rw [if_pos]
  omega

theorem SizeLine.text_spec (l : SizeLine) : l.text ≠ [] ∧ '\r'.toUInt8 ∉ l.text := by
  constructor
  · simp [SizeLine.text, l.hne]
  · intro hmem
    rcases List.mem_append.mp hmem with hmem | hmem
    · exact (isHexDigit_facts (l.hdigits _ hmem)).2.2.2.2.2 rfl
    · exact l.hextension hmem

/-- A pass over a chunk adds its data. -/
theorem parseChunks_chunk (fuel : ℕ) (c : Chunk) (rest body : StdString) :
    parseChunks (fuel + 1) (c.text ++ rest) body = parseChunks fuel rest (body ++ c.data) := by
  obtain ⟨htext, hcr⟩ := c.size.text_spec
  have hsplit : splitLine (c.text ++ rest) = some (c.size.text, c.data ++ (crlf ++ rest)) := by
    rw [Chunk.text, List.append_assoc, List.append_assoc, splitLine_append hcr,
      List.append_assoc]
  have hlen : 0 < c.data.length := List.length_pos_of_ne_nil c.hne
  have htake : (c.data ++ (crlf ++ rest)).take c.data.length = c.data := by simp
  have hdrop : (c.data ++ (crlf ++ rest)).drop (c.data.length + 2) = rest := by
    rw [← List.drop_drop, List.drop_left]
    rfl
  have hcrlf : crlf.length = 2 := rfl
  rw [parseChunks, hsplit]
  simp only [List.isEmpty_iff, htext, if_false, readHex_text, c.hsize, Int.natCast_eq_zero,
    List.length_append, hcrlf, Int.toNat_natCast, htake, hdrop]
  rw [if_neg (by omega), if_pos (by omega), if_pos (by omega)]

/-- The size line of length zero ends the loop, whatever comes after it. -/
theorem parseChunks_last (fuel : ℕ) (l : SizeLine) (hl : hexValue l.digits = 0)
    (trailer body : StdString) :
    parseChunks (fuel + 1) (l.text ++ (crlf ++ trailer)) body = some body := by
  obtain ⟨htext, hcr⟩ := l.text_spec
  rw [parseChunks, splitLine_append hcr]
  simp [htext, readHex_text, hl]

theorem parseChunks_text (chunks : List Chunk) (l : SizeLine) (hl : hexValue l.digits = 0)
    (trailer body : StdString) {fuel : ℕ}
    (hfuel : (chunks.flatMap Chunk.text ++ (l.text ++ (crlf ++ trailer))).length ≤ fuel) :
    parseChunks fuel (chunks.flatMap Chunk.text ++ (l.text ++ (crlf ++ trailer))) body =
      some (body ++ chunks.flatMap Chunk.data) := by
  induction chunks generalizing fuel body with
  | nil =>
    cases fuel with
    | zero => simp [crlf] at hfuel
    | succ fuel => simpa using parseChunks_last fuel l hl trailer body
  | cons c chunks ih =>
    rw [List.flatMap_cons, List.append_assoc] at hfuel ⊢
    have hc : 2 ≤ c.text.length := by
      simp only [Chunk.text, List.length_append, crlf, List.length_cons, List.length_nil]
      omega
    rw [List.length_append] at hfuel
    obtain ⟨fuel, rfl⟩ : ∃ n, fuel = n + 1 := ⟨fuel - 1, by omega⟩
    rw [parseChunks_chunk, ih (body ++ c.data) (by omega), List.flatMap_cons, List.append_assoc]

/-- A chunked body is put together from the data of its chunks: whatever case
its lengths are written in, whatever extensions the size lines carry, whatever
bytes the data holds and whatever trailer follows. -/
theorem parseChunkEncoding_chunks (chunks : List Chunk) (l : SizeLine)
    (hl : hexValue l.digits = 0) (trailer : StdString) :
    parseChunkEncoding (chunks.flatMap Chunk.text ++ (l.text ++ (crlf ++ trailer))) =
      some (chunks.flatMap Chunk.data) := by
  rw [parseChunkEncoding, parseChunks_text chunks l hl trailer [] le_rfl, List.nil_append]

/-- Two chunks, the first with an extension. -/
theorem parseChunkEncoding_chunks_two :
    parseChunkEncoding (lit "3;ext\r\nabc\r\n2\r\nde\r\n0\r\n\r\n") = some (lit "abcde") :=
  parseChunkEncoding_chunks
    [⟨⟨lit "3", lit ";ext", by decide, forall_mem_of_all (by decide), by decide,
        fun c hc => Option.some.inj hc ▸ by decide, by decide⟩, lit "abc", by decide, by decide⟩,
     ⟨⟨lit "2", [], by decide, forall_mem_of_all (by decide), by decide, nofun, by decide⟩,
      lit "de", by decide, by decide⟩]
    ⟨lit "0", [], by decide, forall_mem_of_all (by decide), by decide, nofun, by decide⟩
    (by decide) (lit "\r\n")

/-- More fuel than there are bytes changes nothing. -/
theorem parseChunks_fuel {fuel : ℕ} {rest : StdString} (hfuel : rest.length ≤ fuel)
    (body : StdString) : parseChunks (fuel + 1) rest body = parseChunks fuel rest body := by
  induction fuel generalizing rest body with
  | zero =>
    obtain rfl : rest = [] := List.length_eq_zero_iff.mp (by omega)
    rfl
  | succ fuel ih =>
    cases hsplit : splitLine rest with
    | none => simp [parseChunks, hsplit]
    | some p =>
      obtain ⟨line, iter⟩ := p
      have hlen := congrArg List.length (eq_of_splitLine hsplit)
      simp only [List.length_append, crlf, List.length_cons, List.length_nil] at hlen
      have hdrop : ∀ n, (iter.drop n).length ≤ fuel := by
        intro n
        rw [List.length_drop]
        omega
      have hiter : iter.length ≤ fuel := by omega
      rw [parseChunks, parseChunks, hsplit]
      simp only [ih hiter, ih (hdrop _)]

/-- Only bytes of the body come out, in their order. -/
theorem sublist_of_parseChunks {fuel : ℕ} {rest body out : StdString}
    (h : parseChunks fuel rest body = some out) : out.Sublist (body ++ rest) := by
  induction fuel generalizing rest body with
  | zero =>
    obtain rfl : body = out := by simpa [parseChunks] using h
    exact List.sublist_append_left body rest
  | succ fuel ih =>
    have hbody : body.Sublist (body ++ rest) := List.sublist_append_left body rest
    cases hsplit : splitLine rest with
    | none =>
      obtain rfl : body = out := by simpa [parseChunks, hsplit] using h
      exact hbody
    | some p =>
      obtain ⟨line, iter⟩ := p
      have hiter : iter.Sublist rest := by
        rw [eq_of_splitLine hsplit]
        exact (List.sublist_append_right crlf iter).trans (List.sublist_append_right line _)
      simp only [parseChunks, hsplit] at h
      split at h
      · obtain rfl := Option.some.inj h
        exact hbody
      · cases hread : readHex line with
        | none => simp [hread] at h
        | some len =>
          simp only [hread] at h
          split at h
          · obtain rfl := Option.some.inj h
            exact hbody
          · split at h
            · split at h
              · have hparts : (iter.take len.toNat ++ iter.drop (len.toNat + 2)).Sublist iter := by
                  rw [← List.drop_drop]
                  calc (iter.take len.toNat ++ (iter.drop len.toNat).drop 2)
                      |>.Sublist (iter.take len.toNat ++ iter.drop len.toNat) :=
                        List.Sublist.append_left (List.drop_sublist 2 _) _
                    _ = iter := List.take_append_drop _ iter
                have := ih h
                rw [List.append_assoc] at this
                exact this.trans ((hparts.trans hiter).append_left body)
              · cases h
            · exact (ih h).trans (hiter.append_left body)

/-- Whatever the bytes are, the decoded body is made of bytes of the encoded one, each
once and in their order: nothing is invented, repeated or moved. -/
theorem parseChunkEncoding_sublist {bodyString out : StdString}
    (h : parseChunkEncoding bodyString = some out) : out.Sublist bodyString := by
  simpa using sublist_of_parseChunks h

/-- There is no line end behind the first chunk, and the lengths of the next two are
more than there is. -/
theorem parseChunkEncoding_sublist_short :
    parseChunkEncoding (lit "3\r\nabcXY9\r\nde\r\n0\r\n") = some (lit "abc") ∧
      List.Sublist (lit "abc") (lit "3\r\nabcXY9\r\nde\r\n0\r\n") := by
  have h : parseChunkEncoding (lit "3\r\nabcXY9\r\nde\r\n0\r\n") = some (lit "abc") := by
    decide +kernel
  exact ⟨h, parseChunkEncoding_sublist h⟩

end ChunkedBody

end HttpBackground
