import HttpBackground.OrderedMap

/-!
# Ordered multimaps

A multimap is the list of its entries in key order. A new entry goes behind the
entries with an equivalent key, so the entries of one key stand in the order of
their insertion, whatever is inserted in between.
-/
namespace HttpBackground

namespace OrderedMultimap

open OrderedMap

variable {κ ν : Type*} {lt : κ → κ → Bool}

/-- Entries in key order, equivalent keys allowed. -/
def Sorted (lt : κ → κ → Bool) (m : List (κ × ν)) : Prop :=
  m.Pairwise (fun a b => lt b.1 a.1 = false)

/-- Insertion at the upper bound of the key. -/
def insert (lt : κ → κ → Bool) (e : κ × ν) : List (κ × ν) → List (κ × ν)
  | [] => [e]
  | f :: m => if lt e.1 f.1 then e :: f :: m else f :: insert lt e m

/-- The entries with an equivalent key; in key order they stand together. -/
def equalRange (lt : κ → κ → Bool) (k : κ) (m : List (κ × ν)) : List (κ × ν) :=
  m.filter fun e => decide (Equiv lt k e.1)

/-- `erase` by key. -/
def erase (lt : κ → κ → Bool) (k : κ) (m : List (κ × ν)) : List (κ × ν) :=
  m.filter fun e => !decide (Equiv lt k e.1)

/-- The multimap of a list of insertions. -/
def ofList (lt : κ → κ → Bool) (es : List (κ × ν)) : List (κ × ν) :=
  es.foldl (fun m e => insert lt e m) []

theorem mem_insert {e f : κ × ν} {m : List (κ × ν)} : f ∈ insert lt e m ↔ f = e ∨ f ∈ m := by
  induction m with
  | nil => simp [insert]
  | cons g m ih =>
    simp only [insert]
    split
    · simp
    · simp only [List.mem_cons, ih]
      tauto

theorem perm_insert (e : κ × ν) (m : List (κ × ν)) : (insert lt e m).Perm (e :: m) := by
  induction m with
  | nil => rfl
  | cons f m ih =>
    simp only [insert]
    split
    · rfl
    · exact (ih.cons f).trans (List.Perm.swap e f m)

theorem sorted_insert [StrictWeakOrder lt] (e : κ × ν) {m : List (κ × ν)} (hm : Sorted lt m) :
    Sorted lt (insert lt e m) := by
  induction m with
  | nil => exact List.pairwise_singleton _ e
  | cons f m ih =>
    obtain ⟨hf, hrest⟩ := List.pairwise_cons.mp hm
    simp only [insert]
    split
    · rename_i hlt
      refine List.pairwise_cons.mpr ⟨?_, hm⟩
      intro g hg
      rcases List.mem_cons.mp hg with rfl | hg
      · exact lt_asymm hlt
      · cases hge : lt g.1 e.1 with
        | false => rfl
        | true =>
          have := StrictWeakOrder.trans hge hlt
          rw [hf g hg] at this
          cases this
    · rename_i hnlt
      refine List.pairwise_cons.mpr ⟨?_, ih hrest⟩
      intro g hg
      rcases mem_insert.mp hg with rfl | hg
      · simpa using hnlt
      · exact hf g hg

/-- An entry joins the end of its key's range. -/
theorem equalRange_insert_self [StrictWeakOrder lt] {k : κ} {e : κ × ν} {m : List (κ × ν)}
    (hm : Sorted lt m) (hk : Equiv lt k e.1) :
    equalRange lt k (insert lt e m) = equalRange lt k m ++ [e] := by
  induction m with
  | nil => simp [equalRange, insert, hk]
  | cons f m ih =>
    obtain ⟨hf, hrest⟩ := List.pairwise_cons.mp hm
    simp only [insert]
    split
    · rename_i hlt
      -- from `f` on every key is above the inserted one
      have hnone : equalRange lt k (f :: m) = [] := by
        rw [equalRange, List.filter_eq_nil_iff]
        intro g hg
        have hlt' : lt k g.1 = true := by
          rw [hk.lt_left]
          rcases List.mem_cons.mp hg with rfl | hg
          · exact hlt
          · rcases StrictWeakOrder.lt_or_lt g.1 hlt with h | h
            · exact h
            · rw [hf g hg] at h
              cases h
        simp [OrderedMap.Equiv, hlt']
      rw [hnone]
      rw [equalRange] at hnone ⊢
      rw [List.filter_cons_of_pos (by simpa using hk), hnone]
      rfl
    · simp only [equalRange] at ih ⊢
      by_cases hkf : Equiv lt k f.1
      · simp [hkf, ih hrest]
      · simp [hkf, ih hrest]

theorem equalRange_insert_of_not_equiv {k : κ} {e : κ × ν} {m : List (κ × ν)}
    (hk : ¬ Equiv lt k e.1) : equalRange lt k (insert lt e m) = equalRange lt k m := by
  induction m with
  | nil => simp [equalRange, insert, hk]
  | cons f m ih =>
    simp only [insert, equalRange] at ih ⊢
    split
    · simp [hk]
    · by_cases hkf : Equiv lt k f.1 <;> simp [hkf, ih]

theorem sorted_erase (k : κ) {m : List (κ × ν)} (hm : Sorted lt m) : Sorted lt (erase lt k m) :=
  hm.sublist List.filter_sublist

theorem equalRange_erase_self (k : κ) (m : List (κ × ν)) :
    equalRange lt k (erase lt k m) = [] := by
  simp [equalRange, erase, List.filter_filter]

theorem equalRange_erase_of_ne {j k : κ} (h : ∀ l, Equiv lt j l → ¬ Equiv lt k l)
    (m : List (κ × ν)) : equalRange lt j (erase lt k m) = equalRange lt j m := by
  rw [equalRange, equalRange, erase, List.filter_filter]
  apply List.filter_congr
  intro e _
  by_cases hj : Equiv lt j e.1
  · simp [hj, h e.1 hj]
  · simp [hj]

theorem sorted_foldl_insert [StrictWeakOrder lt] (es : List (κ × ν)) {m : List (κ × ν)}
    (hm : Sorted lt m) : Sorted lt (es.foldl (fun m e => insert lt e m) m) := by
  induction es generalizing m with
  | nil => exact hm
  | cons e es ih => exact ih (sorted_insert e hm)

theorem sorted_ofList [StrictWeakOrder lt] (es : List (κ × ν)) : Sorted lt (ofList lt es) :=
  sorted_foldl_insert es List.Pairwise.nil

theorem perm_foldl_insert (es m : List (κ × ν)) :
    (es.foldl (fun m e => insert lt e m) m).Perm (m ++ es) := by
  induction es generalizing m with
  | nil => simp
  | cons e es ih =>
    rw [List.foldl_cons]
    calc es.foldl (fun m e => insert lt e m) (insert lt e m)
        |>.Perm (insert lt e m ++ es) := ih _
      _ |>.Perm (e :: m ++ es) := (perm_insert e m).append_right es
      _ |>.Perm (m ++ e :: es) := List.perm_middle.symm

/-- Nothing is lost, whatever keys coincide. -/
theorem perm_ofList (es : List (κ × ν)) : (ofList lt es).Perm es := perm_foldl_insert es []

theorem equalRange_foldl_insert [StrictWeakOrder lt] (k : κ) (es : List (κ × ν))
    {m : List (κ × ν)} (hm : Sorted lt m) :
    equalRange lt k (es.foldl (fun m e => insert lt e m) m) =
      equalRange lt k m ++ equalRange lt k es := by
  induction es generalizing m with
  | nil => simp [equalRange]
  | cons e es ih =>
    rw [List.foldl_cons, ih (sorted_insert e hm)]
    by_cases hk : Equiv lt k e.1
    · rw [equalRange_insert_self hm hk]
      simp [equalRange, hk]
    · rw [equalRange_insert_of_not_equiv hk]
      simp [equalRange, hk]

/-- The entries of one key are those inserted under it, in that order. -/
theorem equalRange_ofList [StrictWeakOrder lt] (k : κ) (es : List (κ × ν)) :
    equalRange lt k (ofList lt es) = equalRange lt k es := by
  rw [ofList, equalRange_foldl_insert k es List.Pairwise.nil]
  rfl

end OrderedMultimap

end HttpBackground
