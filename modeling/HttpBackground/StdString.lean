import HttpBackground.OrderedMap
import Mathlib.Data.Int.Order.Basic

/-!
# Byte strings and the names compared without regard to case

A `std::string` is a list of bytes; character fields of Omnis are carried in
UTF-8, the form in which the component reads and writes them. Boost folds case
with `std::toupper` under the classic locale, so only the ASCII letters move,
and it compares the folded characters as signed `char`s.
-/
namespace HttpBackground

abbrev StdString := List UInt8

/-- A string literal of the source. -/
def lit (s : String) : StdString := s.toList.map fun c => c.toNat.toUInt8

namespace StdString

theorem forall_mem_of_all {p : UInt8 → Bool} {b : Bool} {s : StdString}
    (h : (s.all fun c => p c == b) = true) : ∀ c ∈ s, p c = b :=
  fun c hc => eq_of_beq (List.all_eq_true.mp h c hc)

def toupper (c : UInt8) : UInt8 := if 97 ≤ c ∧ c ≤ 122 then c - 32 else c

/-- The folded character as a signed `char`. -/
def foldKey (c : UInt8) : ℤ := (toupper c).toInt8.toInt

def isIless (a b : UInt8) : Bool := decide (foldKey a < foldKey b)

def isIequal (a b : UInt8) : Bool := toupper a == toupper b

/-- `boost::iequals` -/
def iequals : StdString → StdString → Bool
  | [], [] => true
  | a :: s, b :: t => isIequal a b && iequals s t
  | _, _ => false

/-- `OmnisTools::CaseInsensitiveLess` -/
def CaseInsensitiveLess (s₁ s₂ : StdString) : Bool := OrderedMap.lexCompare isIless s₁ s₂

instance : StrictWeakOrder isIless :=
  StrictWeakOrder.comap (fun a b : ℤ => decide (a < b)) foldKey

instance : StrictWeakOrder CaseInsensitiveLess :=
  inferInstanceAs (StrictWeakOrder (OrderedMap.lexCompare isIless))

/-- `std::less<std::string>`, which compares characters as unsigned. -/
def less (s t : StdString) : Bool :=
  OrderedMap.lexCompare (fun a b : UInt8 => decide (a.toNat < b.toNat)) s t

instance : StrictWeakOrder fun a b : UInt8 => decide (a.toNat < b.toNat) :=
  StrictWeakOrder.comap (fun a b : ℕ => decide (a < b)) UInt8.toNat

instance : StrictWeakOrder less :=
  inferInstanceAs (StrictWeakOrder
    (OrderedMap.lexCompare fun a b : UInt8 => decide (a.toNat < b.toNat)))

theorem foldKey_inj {a b : UInt8} : foldKey a = foldKey b ↔ toupper a = toupper b := by
  simp only [foldKey, Int8.toInt_inj]
  constructor
  · intro h
    simpa using congrArg Int8.toUInt8 h
  · intro h
    rw [h]

theorem equiv_isIless_iff {a b : UInt8} :
    OrderedMap.Equiv isIless a b ↔ isIequal a b = true := by
  simp only [OrderedMap.Equiv, isIless, isIequal, decide_eq_false_iff_not, not_lt, beq_iff_eq]
  rw [← foldKey_inj]
  exact ⟨fun h => le_antisymm h.2 h.1, fun h => ⟨le_of_eq h.symm, le_of_eq h⟩⟩

/-- The map's notion of the same key is exactly `boost::iequals`. -/
theorem equiv_caseInsensitiveLess_iff {s t : StdString} :
    OrderedMap.Equiv CaseInsensitiveLess s t ↔ iequals s t = true := by
  change OrderedMap.Equiv (OrderedMap.lexCompare isIless) s t ↔ _
  rw [OrderedMap.equiv_lexCompare_iff]
  induction s generalizing t with
  | nil => cases t <;> simp [iequals]
  | cons a s ih =>
    cases t with
    | nil => simp [iequals]
    | cons b t => simp [iequals, ih, equiv_isIless_iff]

theorem equiv_less_iff {s t : StdString} : OrderedMap.Equiv less s t ↔ s = t := by
  have hbyte : OrderedMap.Equiv (fun a b : UInt8 => decide (a.toNat < b.toNat)) = Eq := by
    funext a b
    apply propext
    simp only [OrderedMap.Equiv, decide_eq_false_iff_not, not_lt, ← UInt8.toNat_inj]
    omega
  change OrderedMap.Equiv (OrderedMap.lexCompare fun a b : UInt8 => decide (a.toNat < b.toNat)) s t
    ↔ _
  rw [OrderedMap.equiv_lexCompare_iff, hbyte, List.forall₂_eq_eq_eq]

end StdString

end HttpBackground
