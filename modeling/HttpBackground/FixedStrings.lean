import HttpBackground.CppNetlibDelegate

/-!
# The string constructors of fixed capacity

`initStr15`, `initStr31`, `initStr80` and `initStr255` test the length of their
argument after it has been narrowed to a `qshort`, and then pass on the string
with its full length. A length that is above the capacity by a multiple of
65536 gets past the test.
-/
namespace HttpBackground

def initStr15 (sdk : OmnisSdk) (inp : StdString) : StdString := initStr sdk 15 inp

def initStr31 (sdk : OmnisSdk) (inp : StdString) : StdString := initStr sdk 31 inp

def initStr80 (sdk : OmnisSdk) (inp : StdString) : StdString := initStr sdk 80 inp

/-- The string classes that have such a constructor. -/
inductive FixedString
  | str15
  | str31
  | str80
  | str255
  deriving DecidableEq, Repr

namespace FixedString

def capacity : FixedString → ℕ
  | .str15 => 15
  | .str31 => 31
  | .str80 => 80
  | .str255 => 255

/-- Its constructor. -/
def construct (sdk : OmnisSdk) : FixedString → StdString → StdString
  | .str15 => initStr15 sdk
  | .str31 => initStr31 sdk
  | .str80 => initStr80 sdk
  | .str255 => initStr255 sdk

/-- The bytes the constructor passes to `setUtf8`, if it calls it. -/
def setUtf8Arg (k : FixedString) (inp : StdString) : Option StdString :=
  if qshort (cStr inp).length > 0 ∧ qshort (cStr inp).length ≤ k.capacity then some (cStr inp)
  else none

/-- The constructor takes exactly the strings that fit and is empty for the others. -/
structure Guarded (sdk : OmnisSdk) (k : FixedString) (inp : StdString) : Prop where
  called : (k.setUtf8Arg inp).isSome ↔ 1 ≤ (cStr inp).length ∧ (cStr inp).length ≤ k.capacity
  fits : ∀ bytes, k.setUtf8Arg inp = some bytes → bytes.length ≤ k.capacity
  empty : ¬ (1 ≤ (cStr inp).length ∧ (cStr inp).length ≤ k.capacity) → k.construct sdk inp = []

theorem capacity_lt (k : FixedString) : k.capacity < 32768 := by
  cases k <;> decide

/-- All four are the one body at their capacities. -/
theorem construct_eq (sdk : OmnisSdk) (k : FixedString) (inp : StdString) :
    k.construct sdk inp = initStr sdk k.capacity inp := by
  cases k <;> rfl

theorem construct_eq_setUtf8Arg (sdk : OmnisSdk) (k : FixedString) (inp : StdString) :
    k.construct sdk inp = (k.setUtf8Arg inp).elim [] (sdk.setUtf8 k.capacity) := by
  rw [construct_eq, initStr, setUtf8Arg]
  split_ifs with h
  · rfl
  · rfl

/-- The test sees the length modulo 65536. -/
theorem qshort_guard_iff {n cap : ℕ} (hcap : cap < 32768) :
    qshort n > 0 ∧ qshort n ≤ cap ↔ 0 < n % 65536 ∧ n % 65536 ≤ cap := by
  rw [qshort, BitVec.toInt_ofNat', Int.bmod]
  omega

theorem setUtf8Arg_eq (k : FixedString) (inp : StdString) :
    k.setUtf8Arg inp =
      if 0 < (cStr inp).length % 65536 ∧ (cStr inp).length % 65536 ≤ k.capacity then
        some (cStr inp)
      else none := by
  rw [setUtf8Arg]
  exact if_congr (qshort_guard_iff k.capacity_lt) rfl rfl

/-- For strings of every length: the constructor keeps its promise unless the length
is 65536 or more and yet, modulo 65536, one that would fit. -/
theorem guarded_iff (sdk : OmnisSdk) (k : FixedString) (inp : StdString) :
    Guarded sdk k inp ↔ ¬ (65536 ≤ (cStr inp).length ∧ 0 < (cStr inp).length % 65536 ∧
      (cStr inp).length % 65536 ≤ k.capacity) := by
  have hcap := k.capacity_lt
  constructor
  · rintro h ⟨hlong, hguard⟩
    have hsome : (k.setUtf8Arg inp).isSome = true := by
      rw [setUtf8Arg_eq, if_pos hguard]
      rfl
    have hfits := h.called.mp hsome
    omega
  · intro hnot
    have hiff : 0 < (cStr inp).length % 65536 ∧ (cStr inp).length % 65536 ≤ k.capacity ↔
        1 ≤ (cStr inp).length ∧ (cStr inp).length ≤ k.capacity := by
      omega
    have harg : k.setUtf8Arg inp =
        if 1 ≤ (cStr inp).length ∧ (cStr inp).length ≤ k.capacity then some (cStr inp)
        else none := by
      rw [setUtf8Arg_eq]
      exact if_congr hiff rfl rfl
    constructor
    · rw [harg]
      split_ifs with h
      · exact iff_of_true rfl h
      · exact iff_of_false (by decide) h
    · intro bytes hbytes
      rw [harg] at hbytes
      split_ifs at hbytes with h
      cases hbytes
      exact h.2
    · intro h
      rw [construct_eq_setUtf8Arg, harg, if_neg h]
      rfl

/-- A header name of 65537 bytes goes to `setUtf8` with its full length. -/
theorem overlong_accepted :
    ¬ ∀ (sdk : OmnisSdk) (k : FixedString) (inp : StdString), Guarded sdk k inp := by
  intro hall
  let sdk : OmnisSdk := ⟨fun cap s => s.take cap, fun cap s h => List.take_of_length_le h,
    fun cap s => (by rw [List.length_take]; omega), fun l => l⟩
  have hlength : (cStr (List.replicate 65537 97)).length = 65537 := by
    rw [cStr, List.takeWhile_replicate, if_pos (by decide), List.length_replicate]
  have harg : FixedString.str255.setUtf8Arg (List.replicate 65537 97) =
      some (cStr (List.replicate 65537 97)) := by
    rw [setUtf8Arg_eq, hlength]
    rfl
  have hfits := (hall sdk .str255 (List.replicate 65537 97)).fits _ harg
  rw [hlength] at hfits
  exact absurd hfits (by decide)

end FixedString

end HttpBackground
