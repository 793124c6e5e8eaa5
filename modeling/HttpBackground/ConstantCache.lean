import HttpBackground.ConstantLine
import HttpBackground.ParamConversion
import HttpBackground.Transition
import Mathlib.Data.Int.Range

/-!
# The constant cache

`getIntFromEXTFldVal` with a range of IDs looks a name up in `constCache` and scans
the lines of the range only where it finds nothing there. The cache is keyed by the
name alone and keeps what every earlier scan has put into it, so a call also answers
from lines outside its own range.
-/
namespace HttpBackground

/-- `std::map<std::string,int>` -/
abbrev ConstCache := List (StdString × ℤ)

namespace ConstCache

def find? (cache : ConstCache) (name : StdString) : Option ℤ :=
  OrderedMap.find? StdString.less name cache

def assign (cache : ConstCache) (name : StdString) (n : ℤ) : ConstCache :=
  OrderedMap.assign StdString.less name n cache

theorem find?_assign (cache : ConstCache) (j k : StdString) (n : ℤ) :
    (cache.assign k n).find? j = if j = k then some n else cache.find? j := by
  simp only [find?, assign, OrderedMap.find?_assign, StdString.equiv_less_iff]

end ConstCache

/-- The type of a value, as `getType` gives it. -/
def FldVal.valType : FldVal → FFT
  | .empty => .fftNone
  | .character _ => .fftCharacter
  | .integer _ => .fftInteger
  | .number _ => .fftNumber
  | .boolean _ => .fftBoolean
  | .binary _ => .fftBinary
  | .list _ _ => .fftList
  | .row _ _ => .fftRow
  | .other fft => fft

/-- What `EXTfldval` gives for a value as a number and as text. -/
structure ValueSdk where
  getLong : FldVal → ℤ
  getString : FldVal → StdString
  getString_character : ∀ s, getString (.character s) = s

/-- The loop over the IDs: every line with a colon is put into the cache. -/
def scanRange (sdk : ConstantSdk) (cache : ConstCache) (ids : List ℤ) : ConstCache :=
  ids.foldl (fun cache i => (scanLine sdk i).elim cache fun e => cache.assign e.1 e.2) cache

/-- `OmnisTools::getIntFromEXTFldVal` with a range of IDs: the cache after the call, and
the number it returns. -/
def getIntFromRange (sdk : ConstantSdk) (values : ValueSdk) (cache : ConstCache) (fVal : FldVal)
    (firstID lastID : ℤ) : ConstCache × ℤ :=
  if fVal.valType = .fftInteger then (cache, getIntFromEXTFldVal (values.getLong fVal))
  else if fVal.valType = .fftConstant then (cache, getIntFromEXTFldVal (values.getLong fVal))
  else
    let matchString := values.getString fVal
    match cache.find? matchString with
    | some n => (cache, n)
    | none =>
      let cache' := scanRange sdk cache (Int.range firstID (lastID + 1))
      (cache', (cache'.find? matchString).getD (-1))

/-- A call with a character value. -/
structure ConstantCall where
  value : StdString
  firstID : ℤ
  lastID : ℤ
  deriving DecidableEq, Repr

namespace ConstantCall

variable (sdk : ConstantSdk) (values : ValueSdk)

/-- The IDs of the range. -/
def ids (call : ConstantCall) : List ℤ := Int.range call.firstID (call.lastID + 1)

def invoke (cache : ConstCache) (call : ConstantCall) : ConstCache × ℤ :=
  getIntFromRange sdk values cache (.character call.value) call.firstID call.lastID

/-- The process-wide cache from call to call. -/
def step (cache : ConstCache) (call : ConstantCall) : Option ConstCache :=
  some (call.invoke sdk values cache).1

/-- The call returns what it would return if the cache were empty. -/
def Transparent (cache : ConstCache) (call : ConstantCall) : Prop :=
  (call.invoke sdk values cache).2 = (call.invoke sdk values []).2

/-- The number on the last of some lines that define a name. -/
def lastNumber (ids : List ℤ) (name : StdString) : Option ℤ :=
  ((ids.filterMap (scanLine sdk)).reverse.find? fun e => decide (name = e.1)).map Prod.snd

/-- The IDs that the scans of a sequence of calls have read. A call whose name is
defined by a line read before it reads none. -/
def readBefore : List ConstantCall → List ℤ
  | [] => []
  | call :: earlier =>
    if (lastNumber sdk (readBefore earlier) call.value).isSome then readBefore earlier
    else readBefore earlier ++ call.ids

/-- If a line read before defines the name, its number is that of the call's own range. -/
def Agrees (earlier : List ConstantCall) (call : ConstantCall) : Prop :=
  ∀ n ∈ lastNumber sdk (readBefore sdk earlier) call.value,
    n = (lastNumber sdk call.ids call.value).getD (-1)

instance (earlier : List ConstantCall) (call : ConstantCall) :
    Decidable (Agrees sdk earlier call) :=
  inferInstanceAs (Decidable (∀ n ∈ lastNumber sdk (readBefore sdk earlier) call.value,
    n = (lastNumber sdk call.ids call.value).getD (-1)))

/-- So it is for each call of a sequence, newest first. -/
def AllAgree : List ConstantCall → Prop
  | [] => True
  | call :: earlier => Agrees sdk earlier call ∧ AllAgree earlier

/-- The cache holds of each name what the last line read has to say of it. -/
def Holds (cache : ConstCache) (ids : List ℤ) : Prop :=
  ∀ name, cache.find? name = lastNumber sdk ids name

variable {sdk values} {cache : ConstCache} {call : ConstantCall}

theorem lastNumber_append (ids ids' : List ℤ) (name : StdString) :
    lastNumber sdk (ids ++ ids') name =
      (lastNumber sdk ids' name).or (lastNumber sdk ids name) := by
  rw [lastNumber, List.filterMap_append, List.reverse_append, List.find?_append, Option.map_or]
  rfl

theorem find?_scanRange (ids : List ℤ) (cache : ConstCache) (name : StdString) :
    (scanRange sdk cache ids).find? name = (lastNumber sdk ids name).or (cache.find? name) := by
  have hentries : scanRange sdk cache ids = (ids.filterMap (scanLine sdk)).foldl
      (fun cache e => OrderedMap.assign StdString.less e.1 e.2 cache) cache := by
    rw [List.foldl_filterMap, scanRange]
    congr 1
    funext cache i
    cases scanLine sdk i <;> rfl
  rw [hentries, ConstCache.find?, OrderedMap.find?_foldl_assign, lastNumber]
  simp only [StdString.equiv_less_iff]
  rfl

/-- What a call does, by what it finds in the cache. -/
theorem invoke_eq (sdk : ConstantSdk) (values : ValueSdk) (cache : ConstCache)
    (call : ConstantCall) : call.invoke sdk values cache =
      if (cache.find? call.value).isSome then (cache, (cache.find? call.value).getD (-1))
      else (scanRange sdk cache call.ids, (lastNumber sdk call.ids call.value).getD (-1)) := by
  have hinteger : (FldVal.character call.value).valType ≠ .fftInteger := nofun
  have hconstant : (FldVal.character call.value).valType ≠ .fftConstant := nofun
  rw [invoke, getIntFromRange, if_neg hinteger, if_neg hconstant, values.getString_character]
  cases hfound : cache.find? call.value with
  | some n =>
    simp only [hfound]
    rfl
  | none =>
    have hlast : (scanRange sdk cache call.ids).find? call.value =
        (lastNumber sdk call.ids call.value).or (cache.find? call.value) :=
      find?_scanRange call.ids cache call.value
    rw [hfound, Option.or_none] at hlast
    simp only [hfound]
    rw [Option.isSome_none, if_neg Bool.false_ne_true]
    exact congrArg (fun found : Option ℤ => (scanRange sdk cache call.ids, found.getD (-1))) hlast

/-- With an empty cache the lines of the range alone decide, and -1 stands for none. -/
theorem invoke_nil (sdk : ConstantSdk) (values : ValueSdk) (call : ConstantCall) :
    (call.invoke sdk values []).2 = (lastNumber sdk call.ids call.value).getD (-1) := by
  have hempty : (ConstCache.find? [] call.value).isSome ≠ true := nofun
  rw [invoke_eq, if_neg hempty]

theorem transparent_iff_found : Transparent sdk values cache call ↔
    ∀ n ∈ cache.find? call.value, n = (lastNumber sdk call.ids call.value).getD (-1) := by
  rw [Transparent, invoke_nil, invoke_eq]
  cases cache.find? call.value with
  | some n => simp
  | none => simp

/-- A call keeps the cache in step with the lines that have been read. -/
theorem step_holds {cache' : ConstCache} {earlier : List ConstantCall}
    (h : step sdk values cache call = some cache') (hc : Holds sdk cache (readBefore sdk earlier)) :
    Holds sdk cache' (readBefore sdk (call :: earlier)) := by
  have hcache := Option.some.inj h
  rw [invoke_eq] at hcache
  rw [readBefore, ← hc call.value]
  split_ifs at hcache ⊢ with hfound
  · rw [← hcache]
    exact hc
  · intro name
    rw [← hcache, find?_scanRange, lastNumber_append, hc name]

/-- After any sequence of calls. -/
theorem run_holds {tr : List (ConstCache × ConstantCall)}
    (run : Transition.Run (step sdk values) [] tr cache) :
    Holds sdk cache (readBefore sdk (tr.map Prod.snd)) := by
  apply run.holds (fun tr s => Holds sdk s (readBefore sdk (tr.map Prod.snd)))
  · intro name
    rfl
  · intro tr s a s' _ hc h
    exact step_holds h hc

theorem transparent_iff_agrees {earlier : List ConstantCall}
    (hc : Holds sdk cache (readBefore sdk earlier)) :
    Transparent sdk values cache call ↔ Agrees sdk earlier call := by
  rw [transparent_iff_found, hc call.value]
  rfl

/-- In every sequence of calls over any ranges, every call returns what it would with
an empty cache exactly if at every call the number which the lines read before have
for the name, if any, is the number which its own range has for it. -/
theorem always_transparent_iff (sdk : ConstantSdk) (values : ValueSdk)
    (tr : List (ConstCache × ConstantCall)) (cache : ConstCache)
    (run : Transition.Run (step sdk values) [] tr cache) :
    Transition.Always (Transparent sdk values) tr ↔ AllAgree sdk (tr.map Prod.snd) := by
  induction run with
  | start => exact iff_of_true (fun p hp => absurd hp List.not_mem_nil) trivial
  | @next tr s call s' run hstep ih =>
    have hcall : Transparent sdk values s call ↔ Agrees sdk (tr.map Prod.snd) call :=
      transparent_iff_agrees (run_holds run)
    rw [List.map_cons, AllAgree, ← ih, ← hcall]
    constructor
    · intro h
      exact ⟨h.head, h.tail⟩
    · rintro ⟨hhead, htail⟩ p hp
      rcases List.mem_cons.mp hp with rfl | hp
      · exact hhead
      · exact htail p hp

/-- A table with the component's own line for `ErrNone` and no other. -/
def errNoneTable : ConstantSdk :=
  ConstantSdk.ofTable fun id => if id = 23100 then ConstantLine.errNone.text else []

def textOnly : ValueSdk where
  getLong _ := 0
  getString
    | .character s => s
    | _ => []
  getString_character _ := rfl

/-- The same call twice. -/
theorem always_transparent_iff_twice :
    ∃ tr cache, Transition.replay (step errNoneTable textOnly) [] []
        [⟨lit "ErrNone", 23100, 23104⟩, ⟨lit "ErrNone", 23100, 23104⟩] = some (tr, cache) ∧
      Transition.Always (Transparent errNoneTable textOnly) tr := by
  have h : Transition.replay (step errNoneTable textOnly) [] []
    [⟨lit "ErrNone", 23100, 23104⟩, ⟨lit "ErrNone", 23100, 23104⟩] = some (_, _) := rfl
  have run := Transition.replay_run .start h
  refine ⟨_, _, h, (always_transparent_iff errNoneTable textOnly _ _ run).mpr ?_⟩
  exact ⟨by decide +kernel, by decide +kernel, trivial⟩

/-- A range that does not define the name answers with a number from another. -/
theorem answered_from_other_range :
    ¬ ∀ (sdk : ConstantSdk) (values : ValueSdk) (tr : List (ConstCache × ConstantCall))
      (cache : ConstCache), Transition.Run (step sdk values) [] tr cache →
        Transition.Always (Transparent sdk values) tr := by
  intro hall
  have h : Transition.replay (step errNoneTable textOnly) [] []
    [⟨lit "ErrNone", 23100, 23100⟩, ⟨lit "ErrNone", 23101, 23104⟩] = some (_, _) := rfl
  have hsecond := (hall _ _ _ _ (Transition.replay_run .start h)).head
  rw [transparent_iff_found] at hsecond
  exact absurd hsecond (by decide +kernel)

end ConstantCall

end HttpBackground
