import HttpBackground.StdString
import HttpBackground.TextEncoding
import Mathlib.Data.Nat.Digits.Defs

/-!
# Lines of the constant table

A constant is defined by a resource string `[category~]name:number[:rest]`. Its name
is read twice: by `getEXTFldValFromConstant` in wide characters and by the scan in
`getIntFromEXTFldVal` in bytes. Both look for the first `~` anywhere in the line, so
one in the free text is taken for the end of a category.
-/
namespace HttpBackground

open TextEncoding

variable {ν : Type*}

/-- `std::string::npos` -/
def npos : ℕ := 18446744073709551615

/-- A `size_t` stored in an `int`. -/
def toInt (n : ℕ) : ℤ := (BitVec.ofNat 32 n).toInt

/-- An `int` passed as a `size_t`. -/
def toSize (i : ℤ) : ℕ := (BitVec.ofInt 64 i).toNat

/-- `std::basic_string::find` -/
def find [DecidableEq ν] (s : List ν) (c : ν) : ℕ := if c ∈ s then s.idxOf c else npos

/-- `std::basic_string::substr`, from a position that is not past the end. -/
def substr (s : List ν) (pos count : ℕ) : List ν := (s.drop pos).take count

section Positions

variable [DecidableEq ν]

/-- `int tildePos = find("~") + 1`, the sum being one of `size_t`. -/
def tildePos (tilde : ν) (s : List ν) : ℤ := toInt ((find s tilde + 1) % 18446744073709551616)

/-- `int colonPos = find(":")` -/
def colonPos (colon : ν) (s : List ν) : ℤ := toInt (find s colon)

/-- `substr(tildePos, colonPos-tildePos)`, in both functions. -/
def constantPart (tilde colon : ν) (s : List ν) : List ν :=
  substr s (toSize (tildePos tilde s)) (toSize (colonPos colon s - tildePos tilde s))

end Positions

/-- What lies behind constants in the Omnis SDK. `RESloadString` reads a resource
string into a string class of the capacity it is given, and `concat` appends to a
`str255`. -/
structure ConstantSdk where
  RESloadString : ℕ → ℤ → List Char
  RESloadString_length : ∀ cap id, (RESloadString cap id).length ≤ cap
  concat : List Char → List Char → List Char
  concat_of_le : ∀ s t, (s ++ t).length ≤ 255 → concat s t = s ++ t

/-- The `wchar_t`s of the platform, UTF-16 or UTF-32, and the way back from them. -/
structure WideText (ν : Type*) where
  units : Char → List ν
  units_length : ∀ c, (units c).length ≤ 2
  tilde : ν
  colon : ν
  tilde_delimiter : Delimiter units '~' tilde
  colon_delimiter : Delimiter units ':' colon
  fromWide : List ν → List Char
  fromWide_encode : ∀ s, fromWide (encode units s) = s

/-- `OmnisTools::getEXTFldValFromConstant`: the text it passes to `setConstant`. -/
def getEXTFldValFromConstant [DecidableEq ν] (sdk : ConstantSdk) (wide : WideText ν)
    (constID : ℤ) (prefixID : ℤ) : List Char :=
  let constantValue := if prefixID > 0 then sdk.concat [] (sdk.RESloadString 80 prefixID) else []
  let resourceString := encode wide.units (sdk.RESloadString 255 constID)
  let constantString := constantPart wide.tilde wide.colon resourceString
  sdk.concat constantValue (wide.fromWide constantString)

/-- The digits of a number, at least one. -/
def decimalDigits (s : StdString) : Option ℕ :=
  if !s.isEmpty && s.all fun c => decide (48 ≤ c ∧ c ≤ 57) then
    some (s.foldl (fun n c => 10 * n + (c.toNat - 48)) 0)
  else none

/-- `boost::lexical_cast<int>`, `none` where it throws `bad_lexical_cast`. -/
def lexicalCast (s : StdString) : Option ℤ :=
  let value : Option ℤ :=
    match s with
    | 45 :: digits => (decimalDigits digits).map fun n : ℕ => -(n : ℤ)
    | 43 :: digits => (decimalDigits digits).map fun n : ℕ => (n : ℤ)
    | digits => (decimalDigits digits).map fun n : ℕ => (n : ℤ)
  value.filter fun n => -2147483648 ≤ n ∧ n ≤ 2147483647

/-- The loop that collects `numString`, up to the next colon or the end. -/
def numString (s : StdString) (numPos : ℤ) : StdString := (s.drop numPos.toNat).takeWhile (· ≠ 58)

theorem tilde_utf8 : Delimiter String.utf8EncodeChar '~' 126 := delimiter_utf8 (by decide)

theorem colon_utf8 : Delimiter String.utf8EncodeChar ':' 58 := delimiter_utf8 (by decide)

/-- One pass of the scan in `getIntFromEXTFldVal`: the entry it writes into
`constCache`. A line without a colon is not interpreted. -/
def scanLine (sdk : ConstantSdk) (i : ℤ) : Option (StdString × ℤ) :=
  let resourceString := encode String.utf8EncodeChar (sdk.RESloadString 255 i)
  let colon := colonPos 58 resourceString
  if colon ≠ -1 then
    some (constantPart 126 58 resourceString,
      (lexicalCast (numString resourceString (colon + 1))).getD (-1))
  else none

section Positions

variable [DecidableEq ν] {tilde colon c : ν}

theorem toInt_of_lt {n : ℕ} (hn : n < 2147483648) : toInt n = n := by
  rw [toInt, BitVec.toInt_ofNat', Int.bmod]
  omega

theorem toSize_of_nonneg {i : ℤ} (h₀ : 0 ≤ i) (h₁ : i < 2147483648) : toSize i = i.toNat := by
  rw [toSize, BitVec.toNat_ofInt]
  omega

/-- A negative length is one beyond every string. -/
theorem toSize_of_neg {i : ℤ} (h₀ : -2147483648 ≤ i) (h₁ : i < 0) : 2147483648 ≤ toSize i := by
  rw [toSize, BitVec.toNat_ofInt]
  omega

theorem find_append {s r : List ν} (hs : c ∉ s) : find (s ++ c :: r) c = s.length := by
  rw [find, if_pos (List.mem_append_right s List.mem_cons_self), List.idxOf_append_of_notMem hs,
    List.idxOf_cons_self, Nat.add_zero]

theorem find_of_not_mem {s : List ν} (hs : c ∉ s) : find s c = npos := if_neg hs

theorem colonPos_append {s r : List ν} (hs : colon ∉ s)
    (hlength : (s ++ colon :: r).length < 2147483648) :
    colonPos colon (s ++ colon :: r) = s.length := by
  rw [List.length_append] at hlength
  rw [colonPos, find_append hs, toInt_of_lt (by omega)]

theorem tildePos_append {s r : List ν} (hs : tilde ∉ s)
    (hlength : (s ++ tilde :: r).length < 2147483648) :
    tildePos tilde (s ++ tilde :: r) = (s ++ [tilde]).length := by
  rw [List.length_append, List.length_cons] at hlength
  rw [tildePos, find_append hs, Nat.mod_eq_of_lt (by omega), toInt_of_lt (by omega),
    List.length_append, List.length_singleton]

/-- `npos + 1` is zero: without a tilde the name starts at the beginning. -/
theorem tildePos_of_not_mem {s : List ν} (hs : tilde ∉ s) : tildePos tilde s = 0 := by
  rw [tildePos, find_of_not_mem hs]
  rfl

/-- The part between the two positions, where they are in order. -/
theorem constantPart_of_le {s t r : List ν} (htilde : tildePos tilde (s ++ (t ++ r)) = s.length)
    (hcolon : colonPos colon (s ++ (t ++ r)) = (s ++ t).length)
    (hlength : (s ++ (t ++ r)).length < 2147483648) :
    constantPart tilde colon (s ++ (t ++ r)) = t := by
  simp only [List.length_append] at hlength hcolon
  have hcount : ((s.length + t.length : ℕ) - s.length : ℤ).toNat = t.length := by omega
  rw [constantPart, hcolon, htilde, toSize_of_nonneg (by omega) (by omega),
    toSize_of_nonneg (by omega) (by omega), Int.toNat_natCast, hcount, substr,
    List.drop_left' rfl, List.take_left' rfl]

/-- The rest of the string, where the length that is asked for is negative. -/
theorem constantPart_of_gt {s t : List ν} (htilde : tildePos tilde (s ++ t) = s.length)
    (hcolon : 0 ≤ colonPos colon (s ++ t)) (hlt : colonPos colon (s ++ t) < s.length)
    (hlength : (s ++ t).length < 2147483648) : constantPart tilde colon (s ++ t) = t := by
  rw [List.length_append] at hlength
  have hcount := toSize_of_neg (i := colonPos colon (s ++ t) - s.length) (by omega) (by omega)
  rw [constantPart, htilde, toSize_of_nonneg (by omega) (by omega), Int.toNat_natCast, substr,
    List.drop_left' rfl, List.take_of_length_le (by omega)]

theorem constantPart_category {s name r : List ν} (hs : tilde ∉ s) (hcolon : colon ∉ s)
    (hne : tilde ≠ colon) (hname : colon ∉ name)
    (hlength : (s ++ tilde :: (name ++ colon :: r)).length < 2147483648) :
    constantPart tilde colon (s ++ tilde :: (name ++ colon :: r)) = name := by
  have hregroup : s ++ tilde :: (name ++ colon :: r) = (s ++ [tilde]) ++ (name ++ colon :: r) :=
    List.append_cons s tilde _
  have hbefore : colon ∉ (s ++ [tilde]) ++ name := by
    simp only [List.mem_append, List.mem_singleton, not_or]
    exact ⟨⟨hcolon, hne.symm⟩, hname⟩
  have htildePos := tildePos_append hs hlength
  rw [hregroup] at hlength htildePos ⊢
  apply constantPart_of_le htildePos _ hlength
  rw [← List.append_assoc] at hlength ⊢
  exact colonPos_append hbefore hlength

theorem constantPart_plain {name r : List ν} (htilde : tilde ∉ name ++ colon :: r)
    (hname : colon ∉ name) (hlength : (name ++ colon :: r).length < 2147483648) :
    constantPart tilde colon (name ++ colon :: r) = name :=
  constantPart_of_le (s := []) (tildePos_of_not_mem htilde) (colonPos_append hname hlength) hlength

theorem constantPart_reversed {name r₁ r₂ : List ν} (hname : colon ∉ name)
    (htilde : tilde ∉ name ++ colon :: r₁)
    (hlength : ((name ++ colon :: r₁) ++ tilde :: r₂).length < 2147483648) :
    constantPart tilde colon ((name ++ colon :: r₁) ++ tilde :: r₂) = r₂ := by
  have htildePos := tildePos_append htilde hlength
  have hcolonPos : colonPos colon ((name ++ colon :: r₁) ++ tilde :: r₂) = name.length := by
    rw [List.append_assoc, List.cons_append] at hlength ⊢
    exact colonPos_append hname hlength
  rw [List.append_cons _ tilde r₂] at hlength htildePos hcolonPos ⊢
  apply constantPart_of_gt htildePos _ _ hlength
  · omega
  · rw [hcolonPos]
    simp only [List.length_append, List.length_cons, List.length_nil]
    omega

end Positions

inductive Sign
  | unsigned
  | plus
  | minus
  deriving DecidableEq, Repr

namespace Sign

def text : Sign → List Char
  | .unsigned => []
  | .plus => ['+']
  | .minus => ['-']

def apply : Sign → ℕ → ℤ
  | .minus, n => -n
  | _, n => n

end Sign

/-- A decimal integer in the range of `int`, in any of its spellings. -/
structure DecimalInt where
  sign : Sign
  digits : List (Fin 10)
  digits_ne_nil : digits ≠ []
  lower : -2147483648 ≤ sign.apply (Nat.ofDigits 10 (digits.reverse.map Fin.val))
  upper : sign.apply (Nat.ofDigits 10 (digits.reverse.map Fin.val)) ≤ 2147483647

namespace DecimalInt

def digitsText (digits : List (Fin 10)) : List Char := digits.map fun d : Fin 10 => Nat.digitChar d

def value (number : DecimalInt) : ℤ :=
  number.sign.apply (Nat.ofDigits 10 (number.digits.reverse.map Fin.val))

def text (number : DecimalInt) : List Char := number.sign.text ++ digitsText number.digits

/-- The digits in the order of the text, as the conversion takes them. -/
theorem ofDigits_reverse (digits : List (Fin 10)) :
    Nat.ofDigits 10 (digits.reverse.map Fin.val) =
      digits.foldl (fun n d => 10 * n + d.val) 0 := by
  rw [Nat.ofDigits_eq_foldr, List.foldr_map, List.foldr_reverse]
  congr 1
  funext n d
  exact Nat.add_comm _ _

theorem encode_digitsText (digits : List (Fin 10)) :
    encode String.utf8EncodeChar (digitsText digits) =
      digits.map fun d => UInt8.ofNat (48 + d.val) := by
  have hdigit : ∀ d : Fin 10, String.utf8EncodeChar (Nat.digitChar d) = [UInt8.ofNat (48 + d)] := by
    decide
  induction digits with
  | nil => rfl
  | cons d digits ih =>
    rw [digitsText, encode] at ih
    rw [digitsText, encode, List.map_cons, List.flatMap_cons, hdigit, ih]
    rfl

theorem decimalDigits_digitsText {digits : List (Fin 10)} (hne : digits ≠ []) :
    decimalDigits (encode String.utf8EncodeChar (digitsText digits)) =
      some (Nat.ofDigits 10 (digits.reverse.map Fin.val)) := by
  have hrange : ∀ d : Fin 10, 48 ≤ UInt8.ofNat (48 + d.val) ∧ UInt8.ofNat (48 + d.val) ≤ 57 := by
    decide
  have hvalue : ∀ d : Fin 10, (UInt8.ofNat (48 + d.val)).toNat - 48 = d.val := by decide
  rw [encode_digitsText, decimalDigits, if_pos]
  · rw [List.foldl_map, ofDigits_reverse]
    simp only [hvalue]
  · have hnotEmpty : (digits.map fun d : Fin 10 => UInt8.ofNat (48 + d.val)).isEmpty = false := by
      simpa using hne
    rw [hnotEmpty, Bool.not_false, Bool.true_and, List.all_eq_true]
    intro c hc
    obtain ⟨d, -, rfl⟩ := List.mem_map.mp hc
    exact decide_eq_true (hrange d)

/-- `lexical_cast` reads every spelling of every `int`. -/
theorem lexicalCast_text (number : DecimalInt) :
    lexicalCast (encode String.utf8EncodeChar number.text) = some number.value := by
  have hdigits := decimalDigits_digitsText number.digits_ne_nil
  have hrange : ((some number.value).filter fun n => -2147483648 ≤ n ∧ n ≤ 2147483647) =
      some number.value :=
    if_pos (decide_eq_true ⟨number.lower, number.upper⟩)
  have hvalue : number.value =
    number.sign.apply (Nat.ofDigits 10 (number.digits.reverse.map Fin.val)) := rfl
  rw [hvalue] at hrange ⊢
  rw [text, encode_append]
  revert hrange
  cases number.sign with
  | minus =>
    have hunits : encode String.utf8EncodeChar Sign.minus.text = [45] := by decide
    rw [hunits, List.singleton_append, lexicalCast, hdigits, Option.map_some]
    exact id
  | plus =>
    have hunits : encode String.utf8EncodeChar Sign.plus.text = [43] := by decide
    rw [hunits, List.singleton_append, lexicalCast, hdigits, Option.map_some]
    exact id
  | unsigned =>
    have hnotSign : ∀ d : Fin 10, UInt8.ofNat (48 + d.val) ≠ 45 ∧ UInt8.ofNat (48 + d.val) ≠ 43 := by
      decide
    obtain ⟨d, ds, hds⟩ := List.exists_cons_of_ne_nil number.digits_ne_nil
    have hhead := encode_digitsText number.digits
    rw [hds, List.map_cons, ← hds] at hhead
    have hunits : encode String.utf8EncodeChar Sign.unsigned.text = [] := rfl
    rw [hunits, List.nil_append, lexicalCast, hdigits, Option.map_some]
    · exact id
    · intro digits heq
      rw [hhead, List.cons.injEq] at heq
      exact (hnotSign d).1 heq.1
    · intro digits heq
      rw [hhead, List.cons.injEq] at heq
      exact (hnotSign d).2 heq.1

theorem delimiter_not_mem_text (number : DecimalInt) {c : Char} (hc : c = '~' ∨ c = ':') :
    c ∉ number.text := by
  have hdigit : ∀ d : Fin 10, Nat.digitChar d ≠ '~' ∧ Nat.digitChar d ≠ ':' := by decide
  have hsign : ∀ s : Sign, '~' ∉ s.text ∧ ':' ∉ s.text := by
    intro s
    cases s <;> decide
  intro hmem
  rcases List.mem_append.mp hmem with hmem | hmem
  · rcases hc with rfl | rfl
    · exact (hsign number.sign).1 hmem
    · exact (hsign number.sign).2 hmem
  · obtain ⟨d, -, hd⟩ := List.mem_map.mp hmem
    rcases hc with rfl | rfl
    · exact (hdigit d).1 hd
    · exact (hdigit d).2 hd

end DecimalInt

/-- A line `[category~]name:number[:rest]`. The rest is arbitrary text. -/
structure ConstantLine where
  category : Option (List Char)
  name : List Char
  number : DecimalInt
  rest : Option (List Char)
  category_plain : ∀ s, category = some s → '~' ∉ s ∧ ':' ∉ s
  name_plain : '~' ∉ name ∧ ':' ∉ name

namespace ConstantLine

/-- What comes before the name: the category with its tilde. -/
def lead (line : ConstantLine) : List Char := line.category.elim [] fun s => s ++ ['~']

/-- What comes after the number: the rest with its colon. -/
def trail (line : ConstantLine) : List Char := line.rest.elim [] fun s => ':' :: s

def text (line : ConstantLine) : List Char :=
  line.lead ++ (line.name ++ ':' :: (line.number.text ++ line.trail))

/-- What follows the first tilde. -/
def afterTilde (s : List Char) : List Char := (s.dropWhile (· ≠ '~')).tail

/-- What both functions take for the name. -/
def extracted (line : ConstantLine) : List Char :=
  if line.category = none ∧ '~' ∈ line.rest.getD [] then afterTilde (line.rest.getD [])
  else line.name

/-- The two functions read a line by its grammar: the constant's text is the name,
after the prefix if there is one, and the scan binds the name to the number. -/
structure ReadsAs [DecidableEq ν] (sdk : ConstantSdk) (wide : WideText ν) (constID : ℤ)
    (line : ConstantLine) : Prop where
  constant : getEXTFldValFromConstant sdk wide constID 0 = line.name
  prefixed : ∀ prefixID, prefixID > 0 → getEXTFldValFromConstant sdk wide constID prefixID =
    sdk.concat (sdk.concat [] (sdk.RESloadString 80 prefixID)) line.name
  binding : scanLine sdk constID =
    some (encode String.utf8EncodeChar line.name, line.number.value)

theorem afterTilde_append {s t : List Char} (hs : '~' ∉ s) : afterTilde (s ++ '~' :: t) = t := by
  have hall : ∀ c ∈ s, (decide (c ≠ '~')) = true := by
    intro c hc
    exact decide_eq_true fun heq => hs (heq ▸ hc)
  rw [afterTilde, List.dropWhile_append_of_pos hall, List.dropWhile_cons_of_neg (by simp),
    List.tail_cons]

theorem extracted_of_category {line : ConstantLine} (h : line.category ≠ none) :
    line.extracted = line.name := if_neg fun hboth => h hboth.1

theorem extracted_of_not_mem {line : ConstantLine} (h : '~' ∉ line.rest.getD []) :
    line.extracted = line.name := if_neg fun hboth => h hboth.2

theorem extracted_of_mem {line : ConstantLine} (hcategory : line.category = none)
    (h : '~' ∈ line.rest.getD []) : line.extracted = afterTilde (line.rest.getD []) :=
  if_pos ⟨hcategory, h⟩

/-- A tilde in the rest, at its first occurrence. -/
theorem tilde_split {line : ConstantLine} (h : '~' ∈ line.rest.getD []) :
    ∃ r₁ r₂, line.trail = ':' :: (r₁ ++ '~' :: r₂) ∧ '~' ∉ r₁ ∧
      afterTilde (line.rest.getD []) = r₂ := by
  obtain ⟨r₁, r₂, hr, hr₁⟩ := List.eq_append_cons_of_mem h
  cases hrest : line.rest with
  | none =>
    rw [hrest] at h
    exact absurd h List.not_mem_nil
  | some rest =>
    rw [hrest, Option.getD_some] at hr
    refine ⟨r₁, r₂, ?_, hr₁, ?_⟩
    · rw [trail, hrest, Option.elim_some, hr]
    · rw [Option.getD_some, hr, afterTilde_append hr₁]

theorem tilde_mem_trail_iff {line : ConstantLine} :
    '~' ∈ line.trail ↔ '~' ∈ line.rest.getD [] := by
  rw [trail]
  cases line.rest with
  | none => rfl
  | some rest => simp

section Encoded

variable {units : Char → List ν} {tilde colon : ν}

theorem colon_not_mem_name (line : ConstantLine) (hcolon : Delimiter units ':' colon) :
    colon ∉ encode units line.name := by
  rw [hcolon.mem_encode_iff]
  exact line.name_plain.2

/-- Up to the number and any further text without a tilde, there is none. -/
theorem tilde_not_mem (line : ConstantLine) (htilde : Delimiter units '~' tilde)
    {s : List Char} (hs : '~' ∉ s) :
    tilde ∉ encode units (line.name ++ ':' :: (line.number.text ++ s)) := by
  rw [htilde.mem_encode_iff]
  simp only [List.mem_append, List.mem_cons, not_or]
  exact ⟨line.name_plain.1, by decide, line.number.delimiter_not_mem_text (.inl rfl), hs⟩

variable [DecidableEq ν] (htilde : Delimiter units '~' tilde)
  (hcolon : Delimiter units ':' colon) (line : ConstantLine)

include htilde hcolon

theorem constantPart_of_category {category : List Char} (hcategory : line.category = some category)
    (hlength : (encode units line.text).length < 2147483648) :
    constantPart tilde colon (encode units line.text) = encode units line.name := by
  have hplain := line.category_plain category hcategory
  have htext : encode units line.text = encode units category ++ tilde ::
      (encode units line.name ++ colon :: encode units (line.number.text ++ line.trail)) := by
    rw [text, lead, hcategory, Option.elim_some, encode_append, encode_append, encode_append,
      hcolon.encode_cons, htilde.encode_cons, encode_nil, List.append_assoc, List.singleton_append]
  rw [htext] at hlength ⊢
  apply constantPart_category _ _ (htilde.ne hcolon (by decide))
    (line.colon_not_mem_name hcolon) hlength
  · rw [htilde.mem_encode_iff]
    exact hplain.1
  · rw [hcolon.mem_encode_iff]
    exact hplain.2

theorem constantPart_of_not_mem (htext : line.text = line.name ++ ':' ::
      (line.number.text ++ line.trail)) (hrest : '~' ∉ line.trail)
    (hlength : (encode units line.text).length < 2147483648) :
    constantPart tilde colon (encode units line.text) = encode units line.name := by
  have hsplit : encode units (line.name ++ ':' :: (line.number.text ++ line.trail)) =
      encode units line.name ++ colon :: encode units (line.number.text ++ line.trail) := by
    rw [encode_append, hcolon.encode_cons]
  have hnot := line.tilde_not_mem htilde hrest
  rw [htext, hsplit] at hlength ⊢
  rw [hsplit] at hnot
  exact constantPart_plain hnot (line.colon_not_mem_name hcolon) hlength

/-- The first tilde of the line stands in the rest. -/
theorem constantPart_of_mem {r₁ r₂ : List Char} (htext : line.text = line.name ++ ':' ::
      (line.number.text ++ ':' :: (r₁ ++ '~' :: r₂))) (hr₁ : '~' ∉ r₁)
    (hlength : (encode units line.text).length < 2147483648) :
    constantPart tilde colon (encode units line.text) = encode units r₂ := by
  have hsplit : encode units line.text = (encode units line.name ++ colon ::
      encode units (line.number.text ++ ':' :: r₁)) ++ tilde :: encode units r₂ := by
    rw [← hcolon.encode_cons, ← htilde.encode_cons, ← encode_append, ← encode_append, htext]
    simp only [List.append_assoc, List.cons_append]
  have hcolonTail : '~' ∉ ':' :: r₁ := by
    simp only [List.mem_cons, not_or]
    exact ⟨by decide, hr₁⟩
  have hnot := line.tilde_not_mem htilde hcolonTail
  rw [encode_append, hcolon.encode_cons] at hnot
  rw [hsplit] at hlength ⊢
  exact constantPart_reversed (line.colon_not_mem_name hcolon) hnot hlength

/-- In any encoding with the two delimiters, what is taken for the name. -/
theorem constantPart_text (hlength : (encode units line.text).length < 2147483648) :
    constantPart tilde colon (encode units line.text) = encode units line.extracted := by
  cases hcategory : line.category with
  | some category =>
    have hsome : line.category ≠ none := by
      rw [hcategory]
      exact Option.some_ne_none category
    rw [extracted_of_category hsome]
    exact line.constantPart_of_category htilde hcolon hcategory hlength
  | none =>
    have htext : line.text = line.name ++ ':' :: (line.number.text ++ line.trail) := by
      rw [text, lead, hcategory, Option.elim_none, List.nil_append]
    by_cases hrest : '~' ∈ line.rest.getD []
    · obtain ⟨r₁, r₂, htrail, hr₁, hafter⟩ := tilde_split hrest
      rw [htrail] at htext
      rw [extracted_of_mem hcategory hrest, hafter]
      exact line.constantPart_of_mem htilde hcolon htext hr₁ hlength
    · rw [extracted_of_not_mem hrest]
      rw [← tilde_mem_trail_iff] at hrest
      exact line.constantPart_of_not_mem htilde hcolon htext hrest hlength

end Encoded

theorem colon_not_mem (line : ConstantLine) : ':' ∉ line.lead ++ line.name := by
  have hlead : ':' ∉ line.lead := by
    rw [lead]
    cases hcategory : line.category with
    | none => exact List.not_mem_nil
    | some category =>
      simp only [Option.elim_some, List.mem_append, List.mem_singleton, not_or]
      exact ⟨(line.category_plain category hcategory).2, by decide⟩
  rw [List.mem_append, not_or]
  exact ⟨hlead, line.name_plain.2⟩

theorem text_length (line : ConstantLine) : line.text.length = line.lead.length +
    (line.name.length + (line.number.text.length + line.trail.length + 1)) := by
  rw [text, List.length_append, List.length_append, List.length_cons, List.length_append]

theorem extracted_length_le (line : ConstantLine) : line.extracted.length ≤ line.text.length := by
  rw [text_length, extracted]
  split_ifs with h
  · obtain ⟨r₁, r₂, htrail, -, hafter⟩ := tilde_split h.2
    rw [hafter, htrail, List.length_cons, List.length_append, List.length_cons]
    omega
  · omega

variable {sdk : ConstantSdk} {constID : ℤ} {line : ConstantLine}

theorem text_length_le (hline : sdk.RESloadString 255 constID = line.text) :
    line.text.length ≤ 255 := by
  rw [← hline]
  exact sdk.RESloadString_length 255 constID

/-- What `getEXTFldValFromConstant` appends to the prefix. -/
theorem getEXTFldValFromConstant_eq [DecidableEq ν] (wide : WideText ν)
    (hline : sdk.RESloadString 255 constID = line.text) (prefixID : ℤ) :
    getEXTFldValFromConstant sdk wide constID prefixID =
      sdk.concat (if prefixID > 0 then sdk.concat [] (sdk.RESloadString 80 prefixID) else [])
        line.extracted := by
  have hunits := encode_length_le wide.units_length line.text
  have htext := text_length_le hline
  rw [getEXTFldValFromConstant, hline,
    constantPart_text wide.tilde_delimiter wide.colon_delimiter line (by omega),
    wide.fromWide_encode]

theorem constant_eq [DecidableEq ν] (wide : WideText ν)
    (hline : sdk.RESloadString 255 constID = line.text) :
    getEXTFldValFromConstant sdk wide constID 0 = line.extracted := by
  have htext := text_length_le hline
  have hextracted := line.extracted_length_le
  rw [getEXTFldValFromConstant_eq wide hline, if_neg (by decide)]
  exact sdk.concat_of_le [] line.extracted (by rw [List.nil_append]; omega)

/-- The digits loop stops at the colon of the rest. -/
theorem numString_append {s t r : StdString} (ht : (58 : UInt8) ∉ t)
    (hr : r.takeWhile (· ≠ 58) = []) : numString (s ++ 58 :: (t ++ r)) (s.length + 1) = t := by
  have hpos : ((s.length : ℤ) + 1).toNat = (s ++ [58]).length := by
    rw [List.length_append, List.length_singleton]
    omega
  have hall : ∀ c ∈ t, decide (c ≠ 58) = true := by
    intro c hc
    exact decide_eq_true fun heq => ht (heq ▸ hc)
  have hregroup : s ++ 58 :: (t ++ r) = (s ++ [58]) ++ (t ++ r) := List.append_cons s 58 _
  rw [numString, hpos, hregroup, List.drop_left' rfl,
    List.takeWhile_append_of_pos hall, hr, List.append_nil]

/-- The bytes of a line at its first colon. -/
theorem encode_text (line : ConstantLine) : encode String.utf8EncodeChar line.text =
    encode String.utf8EncodeChar (line.lead ++ line.name) ++ 58 ::
      (encode String.utf8EncodeChar line.number.text ++
        encode String.utf8EncodeChar line.trail) := by
  rw [text, ← List.append_assoc, encode_append _ (':' :: _), colon_utf8.encode_cons,
    encode_append line.number.text]

theorem colonPos_text (hlength : (encode String.utf8EncodeChar line.text).length < 2147483648) :
    colonPos 58 (encode String.utf8EncodeChar line.text) =
      (encode String.utf8EncodeChar (line.lead ++ line.name)).length := by
  have hbefore : 58 ∉ encode String.utf8EncodeChar (line.lead ++ line.name) := by
    rw [colon_utf8.mem_encode_iff]
    exact line.colon_not_mem
  rw [encode_text] at hlength ⊢
  exact colonPos_append hbefore hlength

/-- What is collected after the first colon are the digits with their sign. -/
theorem numString_text (line : ConstantLine) : numString (encode String.utf8EncodeChar line.text)
      ((encode String.utf8EncodeChar (line.lead ++ line.name)).length + 1) =
    encode String.utf8EncodeChar line.number.text := by
  have hnumber : 58 ∉ encode String.utf8EncodeChar line.number.text := by
    rw [colon_utf8.mem_encode_iff]
    exact line.number.delimiter_not_mem_text (.inr rfl)
  have htrail : (encode String.utf8EncodeChar line.trail).takeWhile (· ≠ 58) = [] := by
    rw [trail]
    cases line.rest with
    | none => rfl
    | some rest =>
      rw [Option.elim_some, colon_utf8.encode_cons]
      exact List.takeWhile_cons_of_neg (by decide)
  rw [encode_text]
  exact numString_append hnumber htrail

/-- The scan takes the number from after the first colon, wherever a tilde stands. -/
theorem scanLine_eq (hline : sdk.RESloadString 255 constID = line.text) :
    scanLine sdk constID =
      some (encode String.utf8EncodeChar line.extracted, line.number.value) := by
  have hunits := encode_length_le utf8EncodeChar_length_le line.text
  have htext := text_length_le hline
  have hlength : (encode String.utf8EncodeChar line.text).length < 2147483648 := by omega
  rw [scanLine, hline]
  simp only [colonPos_text hlength]
  rw [if_pos (by omega), constantPart_text tilde_utf8 colon_utf8 line hlength, numString_text,
    line.number.lexicalCast_text, Option.getD_some]

/-- For every line and in both functions: the grammar is kept unless a line without a
category has a tilde in its rest, followed by something other than the name. -/
theorem reads_iff [DecidableEq ν] (sdk : ConstantSdk) (wide : WideText ν) (constID : ℤ)
    (line : ConstantLine) (hline : sdk.RESloadString 255 constID = line.text) :
    ReadsAs sdk wide constID line ↔ line.category ≠ none ∨ '~' ∉ line.rest.getD [] ∨
      afterTilde (line.rest.getD []) = line.name := by
  have hextracted : line.extracted = line.name ↔ line.category ≠ none ∨
      '~' ∉ line.rest.getD [] ∨ afterTilde (line.rest.getD []) = line.name := by
    rw [extracted]
    split_ifs with h
    · simp [h]
    · tauto
  rw [← hextracted]
  constructor
  · intro h
    rw [← constant_eq wide hline, h.constant]
  · intro h
    constructor
    · rw [constant_eq wide hline, h]
    · intro prefixID hprefix
      rw [getEXTFldValFromConstant_eq wide hline, if_pos hprefix, h]
    · rw [scanLine_eq hline, h]

end ConstantLine

/-- `wchar_t` where it takes four bytes. -/
def WideText.utf32 : WideText UInt32 where
  units c := [c.val]
  units_length c := Nat.le_succ 1
  tilde := 126
  colon := 58
  tilde_delimiter := ⟨rfl, fun b hb => Char.ext (List.mem_singleton.mp hb).symm⟩
  colon_delimiter := ⟨rfl, fun b hb => Char.ext (List.mem_singleton.mp hb).symm⟩
  fromWide s := s.map fun u => Char.ofNat u.toNat
  fromWide_encode s := by
    induction s with
    | nil => rfl
    | cons c s ih =>
      rw [encode, List.flatMap_cons, List.singleton_append, List.map_cons]
      exact congrArg₂ List.cons (Char.ofNat_toNat c) ih

/-- The resource strings of a table, cut where the string class ends. -/
def ConstantSdk.ofTable (table : ℤ → List Char) : ConstantSdk where
  RESloadString cap id := (table id).take cap
  RESloadString_length cap id := List.length_take_le cap (table id)
  concat s t := (s ++ t).take 255
  concat_of_le _ _ h := List.take_of_length_le h

namespace ConstantLine

/-- The line of `ErrNone` in the component's own table. -/
def errNone : ConstantLine where
  category := some "Errors".toList
  name := "ErrNone".toList
  number := ⟨.unsigned, [0], by decide, by decide, by decide⟩
  rest := some "ErrNone:No error".toList
  category_plain := by simp
  name_plain := by decide

theorem reads_iff_errNone :
    ReadsAs (ConstantSdk.ofTable fun _ => errNone.text) WideText.utf32 23100 errNone :=
  (reads_iff _ _ 23100 errNone (by decide)).mpr (.inl (by decide))

/-- A line without a category whose free text has a tilde. -/
def tildeInRest : ConstantLine where
  category := none
  name := "ErrMemory".toList
  number := ⟨.minus, [1, 0, 3], by decide, by decide, by decide⟩
  rest := some "Heap ~ out of memory".toList
  category_plain := by simp
  name_plain := by decide

/-- The end of its description becomes the constant's name. -/
theorem description_read_as_name :
    ¬ ∀ (sdk : ConstantSdk) (wide : WideText UInt32) (constID : ℤ) (line : ConstantLine),
      sdk.RESloadString 255 constID = line.text → ReadsAs sdk wide constID line := by
  intro hall
  let sdk := ConstantSdk.ofTable fun _ => tildeInRest.text
  have hline : sdk.RESloadString 255 23103 = tildeInRest.text := by decide
  have hname := (hall sdk WideText.utf32 23103 tildeInRest hline).constant
  rw [constant_eq WideText.utf32 hline] at hname
  exact absurd hname (by decide)

end ConstantLine

end HttpBackground
