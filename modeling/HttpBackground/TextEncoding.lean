import Mathlib.Data.List.Basic
import Mathlib.Data.Char

/-!
# Texts, their units and delimiters

A text is a list of characters and is stored as the units of an encoding, a few to
each character. A delimiter is a character of one unit which the units of no other
character contain, so it stands in what is stored exactly where it stands in the
text. In UTF-8 every ASCII character is one.
-/
namespace HttpBackground

namespace TextEncoding

variable {α ν : Type*}

/-- The units of a text. -/
def encode (units : α → List ν) (s : List α) : List ν := s.flatMap units

structure Delimiter (units : α → List ν) (a : α) (d : ν) : Prop where
  single : units a = [d]
  only : ∀ b, d ∈ units b → b = a

variable {units : α → List ν} {a : α} {d : ν}

@[simp] theorem encode_nil : encode units [] = [] := rfl

@[simp] theorem encode_append (s t : List α) :
    encode units (s ++ t) = encode units s ++ encode units t := List.flatMap_append

theorem encode_length_le {k : ℕ} (hk : ∀ a, (units a).length ≤ k) (s : List α) :
    (encode units s).length ≤ k * s.length := by
  induction s with
  | nil => simp
  | cons a s ih =>
    have ha := hk a
    rw [encode] at ih
    rw [encode, List.flatMap_cons, List.length_append, List.length_cons, Nat.mul_add_one]
    omega

namespace Delimiter

theorem encode_cons (h : Delimiter units a d) (s : List α) :
    encode units (a :: s) = d :: encode units s := by
  rw [encode, List.flatMap_cons, h.single, List.singleton_append, encode]

theorem mem_encode_iff (h : Delimiter units a d) (s : List α) : d ∈ encode units s ↔ a ∈ s := by
  rw [encode, List.mem_flatMap]
  constructor
  · rintro ⟨b, hb, hd⟩
    rwa [← h.only b hd]
  · intro ha
    exact ⟨a, ha, by rw [h.single]; exact List.mem_singleton_self d⟩

theorem ne (h : Delimiter units a d) {b : α} {e : ν} (h' : Delimiter units b e) (hab : a ≠ b) :
    d ≠ e := by
  intro heq
  apply hab
  apply h'.only
  rw [h.single, heq]
  exact List.mem_singleton_self e

end Delimiter

/-- The bytes of a character outside ASCII all have their high bit set. -/
theorem le_of_mem_utf8EncodeChar {c : Char} (hc : 128 ≤ c.toNat) {b : UInt8}
    (hb : b ∈ String.utf8EncodeChar c) : 128 ≤ b.toNat := by
  have hv : 128 ≤ c.val.toNat := hc
  unfold String.utf8EncodeChar at hb
  dsimp only at hb
  split_ifs at hb <;> simp only [List.mem_cons, List.not_mem_nil, or_false] at hb
  · omega
  · rcases hb with rfl | rfl <;> rw [UInt8.toNat_ofNat'] <;> omega
  · rcases hb with rfl | rfl | rfl <;> rw [UInt8.toNat_ofNat'] <;> omega
  · rcases hb with rfl | rfl | rfl | rfl <;> rw [UInt8.toNat_ofNat'] <;> omega

theorem utf8EncodeChar_ascii {c : Char} (hc : c.toNat < 128) :
    String.utf8EncodeChar c = [UInt8.ofNat c.toNat] := if_pos (Nat.le_of_lt_succ hc)

theorem utf8EncodeChar_length_le (c : Char) : (String.utf8EncodeChar c).length ≤ 4 := by
  rw [String.length_utf8EncodeChar]
  exact c.utf8Size_le_four

theorem delimiter_utf8 {c : Char} (hc : c.toNat < 128) :
    Delimiter String.utf8EncodeChar c (UInt8.ofNat c.toNat) where
  single := utf8EncodeChar_ascii hc
  only b hb := by
    have hcode : (UInt8.ofNat c.toNat).toNat = c.toNat := by
      rw [UInt8.toNat_ofNat']
      omega
    by_cases hascii : b.toNat < 128
    · rw [utf8EncodeChar_ascii hascii, List.mem_singleton] at hb
      have heq := congrArg UInt8.toNat hb
      rw [hcode, UInt8.toNat_ofNat'] at heq
      have hsame : c.toNat = b.toNat := by omega
      exact Char.toNat_inj.mp hsame.symm
    · have hlarge := le_of_mem_utf8EncodeChar (by omega) hb
      omega

end TextEncoding

end HttpBackground
