import HttpBackground.OmnisValue

/-!
# Binary fields of a plain type

`getEXTfldvalFromBinary` is given a pointer and takes its size for that of the
object, divided by the size of the type. What it stores is therefore as long as
the size of a pointer goes into the size of the type, and begins with the bytes of
the object, or of whatever lies behind it.
-/
namespace HttpBackground

/-- An object of a plain type of size `n`: its bytes, and those in memory after it. -/
structure PlainObject (n : ℕ) where
  bytes : Vector UInt8 n
  beyond : ℕ → UInt8

namespace PlainObject

variable {n : ℕ}

/-- The byte at an offset from the object's address. -/
def byteAt (obj : PlainObject n) (i : ℕ) : UInt8 := (obj.bytes[i]?).getD (obj.beyond (i - n))

/-- What `MEMmovel` copies from the object's address. -/
def load (obj : PlainObject n) (size : ℕ) : List UInt8 := (List.range size).map obj.byteAt

theorem load_length (obj : PlainObject n) (size : ℕ) : (obj.load size).length = size := by
  rw [load, List.length_map, List.length_range]

/-- A copy of the object's own size is the object. -/
theorem load_self (obj : PlainObject n) : obj.load n = obj.bytes.toList := by
  apply List.ext_getElem
  · rw [load_length, Vector.length_toList]
  · intro i hi hi'
    have hlt : i < n := by rwa [load_length] at hi
    simp [load, byteAt, hlt]

end PlainObject

/-- `OmnisTools::getEXTfldvalFromBinary<T>`, where a pointer takes `width` bytes and
`T` takes `n`. The field is its binary content. A null pointer stores nothing, nor
does a failed allocation. -/
def getEXTfldvalFromBinary {n : ℕ} (memMalloc : ℕ → Bool) (width : ℕ) (fVal : List UInt8)
    (data : Option (PlainObject n)) : List UInt8 :=
  match data with
  | none => fVal
  | some obj =>
    let binSize := width / n
    if memMalloc binSize then obj.load binSize else fVal

/-- `OmnisTools::getBinaryFromEXTfldval<T>`: the bytes behind the pointer it returns,
and the length it reports. -/
def getBinaryFromEXTfldval (fVal : List UInt8) : List UInt8 × ℕ :=
  let binSize := fVal.length
  (fVal.take binSize, binSize)

namespace PlainObject

variable {n : ℕ}

/-- What is read back from a field the object has been stored in. -/
theorem getBinaryFromEXTfldval_stored {memMalloc : ℕ → Bool} {width : ℕ}
    (hm : memMalloc (width / n) = true) (fVal : List UInt8) (obj : PlainObject n) :
    getBinaryFromEXTfldval (getEXTfldvalFromBinary memMalloc width fVal (some obj)) =
      (obj.load (width / n), width / n) := by
  have hstored : getEXTfldvalFromBinary memMalloc width fVal (some obj) = obj.load (width / n) :=
    if_pos hm
  rw [hstored, getBinaryFromEXTfldval, load_length]
  have hlength := obj.load_length (width / n)
  exact Prod.ext (List.take_of_length_le (Nat.le_of_eq hlength)) rfl

theorem div_self_iff {width : ℕ} (hn : 1 ≤ n) :
    width / n = n ↔ n * n ≤ width ∧ width < n * (n + 1) := by
  have hlt : width < (n + 1) * n ↔ width < n * (n + 1) := by rw [Nat.mul_comm]
  rw [← hlt, ← Nat.le_div_iff_mul_le hn, ← Nat.div_lt_iff_lt_mul hn]
  omega

/-- For a plain type of any size and a pointer of any width: an object that has been
stored is read back exactly if the pointer is as wide as the square of the size, or
wider by less than the size. -/
theorem stored_read_iff (memMalloc : ℕ → Bool) (width : ℕ) (hn : 1 ≤ n)
    (hm : memMalloc (width / n) = true) (fVal : List UInt8) (obj : PlainObject n) :
    getBinaryFromEXTfldval (getEXTfldvalFromBinary memMalloc width fVal (some obj)) =
      (obj.bytes.toList, n) ↔ n * n ≤ width ∧ width < n * (n + 1) := by
  rw [getBinaryFromEXTfldval_stored hm, ← div_self_iff hn]
  constructor
  · intro h
    exact (Prod.mk.inj h).2
  · intro h
    rw [h, load_self]

/-- A two-byte object where a pointer takes four bytes. -/
theorem stored_read_iff_short :
    getBinaryFromEXTfldval (getEXTfldvalFromBinary (fun _ => true) 4 []
      (some ⟨#v[1, 2], fun _ => 0⟩)) = ([1, 2], 2) :=
  (stored_read_iff (fun _ => true) 4 (by decide) rfl [] ⟨#v[1, 2], fun _ => 0⟩).mpr
    ⟨by decide, by decide⟩

/-- Of a four-byte object two bytes are stored where a pointer takes eight. -/
theorem stored_bytes_dropped :
    ¬ ∀ (n width : ℕ) (memMalloc : ℕ → Bool) (fVal : List UInt8) (obj : PlainObject n), 1 ≤ n →
      memMalloc (width / n) = true →
        getBinaryFromEXTfldval (getEXTfldvalFromBinary memMalloc width fVal (some obj)) =
          (obj.bytes.toList, n) := by
  intro hall
  have hread := hall 4 8 (fun _ => true) [] ⟨#v[1, 2, 3, 4], fun _ => 0⟩ (by decide) rfl
  revert hread
  decide

end PlainObject

end HttpBackground
