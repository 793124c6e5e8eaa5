import Mathlib.Data.List.Forall2
import Mathlib.Data.List.Pairwise
import Mathlib.Order.Lattice
import Mathlib.Tactic.SplitIfs

/-!
# Ordered maps under a comparator

An ordered map is an association list kept strictly sorted by a Boolean
comparator. Two keys are the same key when neither is less than the other, so
the comparator need not separate distinct values. Assigning under a key that is
already bound keeps the stored spelling of the key. `next` is the cursor step
of an in-order traversal: it searches for the first key above the cursor, so it
stays meaningful while entries come and go on both sides.
-/
namespace HttpBackground

/-- The laws a comparator must obey for its map to be a map. -/
class StrictWeakOrder {κ : Type*} (lt : κ → κ → Bool) : Prop where
  irrefl : ∀ a, lt a a = false
  trans : ∀ {a b c}, lt a b = true → lt b c = true → lt a c = true
  lt_or_lt : ∀ {a c} (b), lt a c = true → lt a b = true ∨ lt b c = true

instance {κ : Type*} [LinearOrder κ] [DecidableLT κ] :
    StrictWeakOrder (fun a b : κ => decide (a < b)) where
  irrefl a := decide_eq_false (lt_irrefl a)
  trans h₁ h₂ := decide_eq_true (lt_trans (of_decide_eq_true h₁) (of_decide_eq_true h₂))
  lt_or_lt {a c} b h := by
    rcases lt_or_ge a b with hab | hba
    · exact Or.inl (decide_eq_true hab)
    · exact Or.inr (decide_eq_true (lt_of_le_of_lt hba (of_decide_eq_true h)))

/-- Comparing through a key keeps the laws. -/
theorem StrictWeakOrder.comap {κ ι : Type*} (lt : ι → ι → Bool) [StrictWeakOrder lt]
    (f : κ → ι) : StrictWeakOrder (fun a b => lt (f a) (f b)) where
  irrefl a := StrictWeakOrder.irrefl (f a)
  trans h₁ h₂ := StrictWeakOrder.trans h₁ h₂
  lt_or_lt b h := StrictWeakOrder.lt_or_lt (f b) h

namespace OrderedMap

variable {κ ν : Type*} {lt : κ → κ → Bool}

/-- Equivalence of keys: neither is less than the other. -/
def Equiv (lt : κ → κ → Bool) (a b : κ) : Prop := lt a b = false ∧ lt b a = false

instance (a b : κ) : Decidable (Equiv lt a b) := inferInstanceAs (Decidable (_ ∧ _))

/-- Entries in strictly increasing key order. -/
def Sorted (lt : κ → κ → Bool) (m : List (κ × ν)) : Prop :=
  m.Pairwise (fun a b => lt a.1 b.1 = true)

def find? (lt : κ → κ → Bool) (k : κ) : List (κ × ν) → Option ν
  | [] => none
  | (k', v) :: m =>
    if lt k k' then none
    else if lt k' k then find? lt k m
    else some v

/-- `m[k] = v`. -/
def assign (lt : κ → κ → Bool) (k : κ) (v : ν) : List (κ × ν) → List (κ × ν)
  | [] => [(k, v)]
  | (k', v') :: m =>
    if lt k k' then (k, v) :: (k', v') :: m
    else if lt k' k then (k', v') :: assign lt k v m
    else (k', v) :: m

def erase (lt : κ → κ → Bool) (k : κ) : List (κ × ν) → List (κ × ν)
  | [] => []
  | (k', v') :: m =>
    if lt k k' then (k', v') :: m
    else if lt k' k then (k', v') :: erase lt k m
    else m

/-- The first entry whose key is above `k`. -/
def next (lt : κ → κ → Bool) (k : κ) : List (κ × ν) → Option (κ × ν)
  | [] => none
  | (k', v) :: m => if lt k k' then some (k', v) else next lt k m

theorem Equiv.symm {a b : κ} (h : Equiv lt a b) : Equiv lt b a := ⟨h.2, h.1⟩

/-- Equivalent keys compare alike with every third key, on the left. -/
theorem Equiv.lt_left [StrictWeakOrder lt] {a b : κ} (h : Equiv lt a b) (c : κ) :
    lt a c = lt b c := by
  rw [Bool.eq_iff_iff]
  constructor
  · intro hac
    rcases StrictWeakOrder.lt_or_lt b hac with hab | hbc
    · simp [h.1] at hab
    · exact hbc
  · intro hbc
    rcases StrictWeakOrder.lt_or_lt a hbc with hba | hac
    · simp [h.2] at hba
    · exact hac

theorem Equiv.lt_right [StrictWeakOrder lt] {a b : κ} (h : Equiv lt a b) (c : κ) :
    lt c a = lt c b := by
  rw [Bool.eq_iff_iff]
  constructor
  · intro hca
    rcases StrictWeakOrder.lt_or_lt b hca with hcb | hba
    · exact hcb
    · simp [h.2] at hba
  · intro hcb
    rcases StrictWeakOrder.lt_or_lt a hcb with hca | hab
    · exact hca
    · simp [h.1] at hab

theorem Equiv.trans [StrictWeakOrder lt] {a b c : κ} (h₁ : Equiv lt a b) (h₂ : Equiv lt b c) :
    Equiv lt a c := ⟨by rw [h₁.lt_left]; exact h₂.1, by rw [h₁.lt_right]; exact h₂.2⟩

theorem lt_asymm [StrictWeakOrder lt] {a b : κ} (h : lt a b = true) : lt b a = false := by
  cases hba : lt b a with
  | false => rfl
  | true => simpa [StrictWeakOrder.irrefl] using StrictWeakOrder.trans h hba

/-- A lookup sees only the key's equivalence class. -/
theorem find?_congr [StrictWeakOrder lt] {j k : κ} (h : Equiv lt j k) (m : List (κ × ν)) :
    find? lt j m = find? lt k m := by
  induction m with
  | nil => rfl
  | cons e m ih =>
    obtain ⟨k', v'⟩ := e
    simp only [find?, h.lt_left, h.lt_right, ih]

@[simp] theorem find?_assign_self [StrictWeakOrder lt] (k : κ) (v : ν) (m : List (κ × ν)) :
    find? lt k (assign lt k v m) = some v := by
  induction m with
  | nil => simp [assign, find?, StrictWeakOrder.irrefl]
  | cons e m ih =>
    obtain ⟨k', v'⟩ := e
    simp only [assign]
    split_ifs with h₁ h₂
    · simp [find?, StrictWeakOrder.irrefl]
    · simp [find?, h₁, h₂, ih]
    · simp [find?, h₁, h₂]

/-- Assigning under one key leaves every other key's binding alone. -/
theorem find?_assign_of_not_equiv [StrictWeakOrder lt] {j k : κ} (h : ¬ Equiv lt j k) (v : ν)
    (m : List (κ × ν)) : find? lt j (assign lt k v m) = find? lt j m := by
  induction m with
  | nil => cases h₁ : lt j k <;> cases h₂ : lt k j <;> simp_all [assign, find?, Equiv]
  | cons e m ih =>
    obtain ⟨k', v'⟩ := e
    simp only [assign]
    split_ifs with h₁ h₂
    · cases hjk : lt j k with
      | true => simp [find?, hjk, StrictWeakOrder.trans hjk h₁]
      | false =>
        have hkj : lt k j = true := by
          by_contra hkj
          exact h ⟨hjk, by simpa using hkj⟩
        simp [find?, hjk, hkj]
    · simp [find?, ih]
    · have hkk : Equiv lt k k' := ⟨by simpa using h₁, by simpa using h₂⟩
      have hjk : ¬ (lt j k' = false ∧ lt k' j = false) := fun hj => h (Equiv.trans hj hkk.symm)
      cases h₃ : lt j k' <;> cases h₄ : lt k' j <;> simp_all [find?]

theorem find?_assign [StrictWeakOrder lt] (j k : κ) (v : ν) (m : List (κ × ν)) :
    find? lt j (assign lt k v m) = if Equiv lt j k then some v else find? lt j m := by
  split_ifs with h
  · rw [find?_congr h, find?_assign_self]
  · exact find?_assign_of_not_equiv h v m

/-- Of a list of assignments the last one under the key counts. -/
theorem find?_foldl_assign [StrictWeakOrder lt] {β : Type*} (key : β → κ) (value : β → ν) (j : κ)
    (bs : List β) (m : List (κ × ν)) :
    find? lt j (bs.foldl (fun m b => assign lt (key b) (value b) m) m) =
      ((bs.reverse.find? fun b => decide (Equiv lt j (key b))).map value).or (find? lt j m) := by
  induction bs generalizing m with
  | nil => rfl
  | cons b bs ih =>
    rw [List.foldl_cons, ih, find?_assign, List.reverse_cons, List.find?_append]
    cases hlater : bs.reverse.find? fun b => decide (Equiv lt j (key b)) with
    | some later => rfl
    | none =>
      by_cases hb : Equiv lt j (key b)
      · simp [hb]
      · simp [hb]

theorem mem_assign {k : κ} {v : ν} {m : List (κ × ν)} {e : κ × ν} (h : e ∈ assign lt k v m) :
    Equiv lt k e.1 ∧ e.2 = v ∨ e = (k, v) ∨ e ∈ m := by
  induction m with
  | nil => simp_all [assign]
  | cons e' m ih =>
    obtain ⟨k', v'⟩ := e'
    simp only [assign] at h
    split_ifs at h with h₁ h₂
    · rcases List.mem_cons.mp h with rfl | h
      · exact Or.inr (Or.inl rfl)
      · exact Or.inr (Or.inr h)
    · rcases List.mem_cons.mp h with rfl | h
      · exact Or.inr (Or.inr List.mem_cons_self)
      · rcases ih h with h | h | h
        · exact Or.inl h
        · exact Or.inr (Or.inl h)
        · exact Or.inr (Or.inr (List.mem_cons_of_mem _ h))
    · rcases List.mem_cons.mp h with rfl | h
      · exact Or.inl ⟨⟨by simpa using h₁, by simpa using h₂⟩, rfl⟩
      · exact Or.inr (Or.inr (List.mem_cons_of_mem _ h))

theorem sorted_assign [StrictWeakOrder lt] (k : κ) (v : ν) {m : List (κ × ν)}
    (hm : Sorted lt m) : Sorted lt (assign lt k v m) := by
  induction m with
  | nil => simp [assign, Sorted]
  | cons e m ih =>
    obtain ⟨k', v'⟩ := e
    obtain ⟨hhead, htail⟩ := List.pairwise_cons.mp hm
    simp only [assign]
    split_ifs with h₁ h₂
    · refine List.pairwise_cons.mpr ⟨fun e he => ?_, hm⟩
      rcases List.mem_cons.mp he with rfl | he
      · exact h₁
      · exact StrictWeakOrder.trans h₁ (hhead e he)
    · refine List.pairwise_cons.mpr ⟨fun e he => ?_, ih htail⟩
      rcases mem_assign he with ⟨hk, -⟩ | rfl | he
      · rwa [← hk.lt_right]
      · exact h₂
      · exact hhead e he
    · exact List.pairwise_cons.mpr ⟨hhead, htail⟩

/-- Below the head of a sorted map there is nothing to find. -/
theorem find?_eq_none_of_lt [StrictWeakOrder lt] {j k : κ} (hjk : lt j k = true)
    {m : List (κ × ν)} (hm : ∀ e ∈ m, lt k e.1 = true) : find? lt j m = none := by
  cases m with
  | nil => rfl
  | cons e m =>
    obtain ⟨k', v'⟩ := e
    simp [find?, StrictWeakOrder.trans hjk (hm (k', v') List.mem_cons_self)]

theorem find?_eq_none_of_equiv [StrictWeakOrder lt] {j k : κ} (hjk : Equiv lt j k)
    {m : List (κ × ν)} (hm : ∀ e ∈ m, lt k e.1 = true) : find? lt j m = none := by
  cases m with
  | nil => rfl
  | cons e m =>
    obtain ⟨k', v'⟩ := e
    simp [find?, hjk.lt_left, hm (k', v') List.mem_cons_self]

@[simp] theorem find?_erase_self [StrictWeakOrder lt] (k : κ) {m : List (κ × ν)}
    (hm : Sorted lt m) : find? lt k (erase lt k m) = none := by
  induction m with
  | nil => rfl
  | cons e m ih =>
    obtain ⟨k', v'⟩ := e
    obtain ⟨hhead, htail⟩ := List.pairwise_cons.mp hm
    simp only [erase]
    split_ifs with h₁ h₂
    · simp [find?, h₁]
    · simp [find?, h₁, h₂, ih htail]
    · exact find?_eq_none_of_equiv ⟨by simpa using h₁, by simpa using h₂⟩ hhead

/-- There is nothing to erase under a key that is not found. -/
theorem erase_of_find? {k : κ} {m : List (κ × ν)} (h : find? lt k m = none) : erase lt k m = m := by
  induction m with
  | nil => rfl
  | cons e m ih =>
    obtain ⟨k', v⟩ := e
    rw [find?] at h
    rw [erase]
    by_cases h₁ : lt k k' = true
    · rw [if_pos h₁]
    · rw [if_neg h₁] at h ⊢
      by_cases h₂ : lt k' k = true
      · rw [if_pos h₂] at h ⊢
        rw [ih h]
      · rw [if_neg h₂] at h
        cases h

/-- Erasing one key leaves every other key's binding alone. -/
theorem find?_erase_of_not_equiv [StrictWeakOrder lt] {j k : κ} (h : ¬ Equiv lt j k)
    {m : List (κ × ν)} (hm : Sorted lt m) : find? lt j (erase lt k m) = find? lt j m := by
  induction m with
  | nil => rfl
  | cons e m ih =>
    obtain ⟨k', v'⟩ := e
    obtain ⟨hhead, htail⟩ := List.pairwise_cons.mp hm
    simp only [erase]
    split_ifs with h₁ h₂
    · rfl
    · simp [find?, ih htail]
    · have hkk : Equiv lt k k' := ⟨by simpa using h₁, by simpa using h₂⟩
      cases hjk : lt j k' with
      | true => simp [find?, hjk, find?_eq_none_of_lt hjk hhead]
      | false =>
        have hkj : lt k' j = true := by
          by_contra hkj
          exact h (Equiv.trans ⟨hjk, by simpa using hkj⟩ hkk.symm)
        simp [find?, hjk, hkj]

theorem mem_of_mem_erase {k : κ} {m : List (κ × ν)} {e : κ × ν} (h : e ∈ erase lt k m) :
    e ∈ m := by
  induction m with
  | nil => exact h
  | cons e' m ih =>
    obtain ⟨k', v'⟩ := e'
    simp only [erase] at h
    split_ifs at h with h₁ h₂
    · exact h
    · rcases List.mem_cons.mp h with rfl | h
      · exact List.mem_cons_self
      · exact List.mem_cons_of_mem _ (ih h)
    · exact List.mem_cons_of_mem _ h

theorem sorted_erase (k : κ) {m : List (κ × ν)} (hm : Sorted lt m) :
    Sorted lt (erase lt k m) := by
  induction m with
  | nil => exact hm
  | cons e m ih =>
    obtain ⟨k', v'⟩ := e
    obtain ⟨hhead, htail⟩ := List.pairwise_cons.mp hm
    simp only [erase]
    split_ifs with h₁ h₂
    · exact hm
    · exact List.pairwise_cons.mpr ⟨fun e he => hhead e (mem_of_mem_erase he), ih htail⟩
    · exact htail

theorem find?_of_mem [StrictWeakOrder lt] {k : κ} {v : ν} {m : List (κ × ν)}
    (hm : Sorted lt m) (h : (k, v) ∈ m) : find? lt k m = some v := by
  induction m with
  | nil => simp at h
  | cons e m ih =>
    obtain ⟨k', v'⟩ := e
    obtain ⟨hhead, htail⟩ := List.pairwise_cons.mp hm
    rcases List.mem_cons.mp h with heq | h
    · cases heq
      simp [find?, StrictWeakOrder.irrefl]
    · have hlt := hhead (k, v) h
      simp [find?, lt_asymm hlt, hlt, ih htail h]

/-- A pass over a sorted map that reacts to one key only comes upon it once. -/
theorem foldl_find? [StrictWeakOrder lt] {σ β : Type*} {k : κ} {step : σ → κ × ν → σ} {f : σ → β}
    (g : ν → β → β)
    (hstep : ∀ s e, f (step s e) = if Equiv lt k e.1 then g e.2 (f s) else f s)
    {m : List (κ × ν)} (hm : Sorted lt m) (s : σ) :
    f (m.foldl step s) = (find? lt k m).elim (f s) fun v => g v (f s) := by
  induction m generalizing s with
  | nil => rfl
  | cons e m ih =>
    obtain ⟨k', v'⟩ := e
    obtain ⟨hhead, htail⟩ := List.pairwise_cons.mp hm
    rw [List.foldl_cons, ih htail, hstep]
    by_cases heq : Equiv lt k k'
    · have hrest : find? lt k m = none := find?_eq_none_of_equiv heq hhead
      rw [if_pos heq, hrest, find?, heq.1, heq.2]
      rfl
    · rw [if_neg heq, find?]
      by_cases hlt : lt k k' = true
      · rw [if_pos hlt, find?_eq_none_of_lt hlt hhead]
      · have hgt : lt k' k = true := by
          by_contra hge
          exact heq ⟨by simpa using hlt, by simpa using hge⟩
        rw [if_neg hlt, if_pos hgt]

theorem mem_of_next {k : κ} {m : List (κ × ν)} {e : κ × ν} (h : next lt k m = some e) :
    e ∈ m ∧ lt k e.1 = true := by
  induction m with
  | nil => simp [next] at h
  | cons e' m ih =>
    obtain ⟨k', v'⟩ := e'
    simp only [next] at h
    split_ifs at h with h₁
    · cases h
      exact ⟨List.mem_cons_self, h₁⟩
    · exact ⟨List.mem_cons_of_mem _ (ih h).1, (ih h).2⟩

/-- The first entry of a map is not above any other key in it. -/
theorem head_of_find? {k : κ} {v : ν} {m : List (κ × ν)} (h : find? lt k m = some v) :
    ∃ e, m.head? = some e ∧ lt k e.1 = false := by
  cases m with
  | nil => simp [find?] at h
  | cons e m =>
    obtain ⟨k', v'⟩ := e
    simp only [find?] at h
    split_ifs at h with h₁
    all_goals exact ⟨(k', v'), rfl, by simpa using h₁⟩

/-- The cursor does not step over a key. -/
theorem next_of_find? [StrictWeakOrder lt] {j k : κ} {v : ν} {m : List (κ × ν)}
    (h : find? lt k m = some v) (hjk : lt j k = true) :
    ∃ e, next lt j m = some e ∧ lt k e.1 = false := by
  induction m with
  | nil => simp [find?] at h
  | cons e m ih =>
    obtain ⟨k', v'⟩ := e
    simp only [find?, next] at h ⊢
    by_cases h₁ : lt k k' = true
    · rw [if_pos h₁] at h
      cases h
    have h₁ : lt k k' = false := by simpa using h₁
    by_cases h₂ : lt j k' = true
    · exact ⟨(k', v'), if_pos h₂, h₁⟩
    · rw [if_neg h₂]
      apply ih
      have hk : lt k' k = true := by
        by_contra hk
        have hequiv : Equiv lt k k' := ⟨h₁, by simpa using hk⟩
        exact h₂ (hequiv.lt_right j ▸ hjk)
      simpa [h₁, hk] using h

/-- Compare element by element; a proper prefix comes first. -/
def lexCompare (lt : κ → κ → Bool) : List κ → List κ → Bool
  | _, [] => false
  | [], _ :: _ => true
  | a :: s, b :: t =>
    if lt a b then true
    else if lt b a then false
    else lexCompare lt s t

theorem lexCompare_cons_iff {a b : κ} {s t : List κ} :
    lexCompare lt (a :: s) (b :: t) = true ↔
      lt a b = true ∨ Equiv lt a b ∧ lexCompare lt s t = true := by
  simp only [lexCompare, Equiv]
  split_ifs with h₁ h₂ <;> simp_all

instance [StrictWeakOrder lt] : StrictWeakOrder (lexCompare lt) where
  irrefl s := by
    induction s with
    | nil => rfl
    | cons a s ih => simp [lexCompare, StrictWeakOrder.irrefl, ih]
  trans {s t u} h₁ h₂ := by
    induction s generalizing t u with
    | nil => cases t <;> cases u <;> simp_all [lexCompare]
    | cons a s ih =>
      cases t with
      | nil => simp [lexCompare] at h₁
      | cons b t =>
        cases u with
        | nil => simp [lexCompare] at h₂
        | cons c u =>
          rw [lexCompare_cons_iff] at *
          rcases h₁ with hab | ⟨hab, hst⟩ <;> rcases h₂ with hbc | ⟨hbc, htu⟩
          · exact Or.inl (StrictWeakOrder.trans hab hbc)
          · exact Or.inl (by rwa [← hbc.lt_right])
          · exact Or.inl (by rwa [hab.lt_left])
          · exact Or.inr ⟨hab.trans hbc, ih hst htu⟩
  lt_or_lt {s u} t h := by
    induction s generalizing t u with
    | nil => cases t <;> cases u <;> simp_all [lexCompare]
    | cons a s ih =>
      cases u with
      | nil => simp [lexCompare] at h
      | cons c u =>
        cases t with
        | nil => exact Or.inr rfl
        | cons b t =>
          simp only [lexCompare_cons_iff] at *
          rcases h with hac | ⟨hac, hsu⟩
          · rcases StrictWeakOrder.lt_or_lt b hac with hab | hbc
            · exact Or.inl (Or.inl hab)
            · exact Or.inr (Or.inl hbc)
          · cases hab : lt a b with
            | true => exact Or.inl (Or.inl rfl)
            | false =>
              cases hbc : lt b c with
              | true => exact Or.inr (Or.inl rfl)
              | false =>
                have heab : Equiv lt a b := ⟨hab, by rw [hac.lt_right]; exact hbc⟩
                have hebc : Equiv lt b c := heab.symm.trans hac
                exact (ih t hsu).imp (fun hst => Or.inr ⟨heab, hst⟩)
                  (fun htu => Or.inr ⟨hebc, htu⟩)

/-- Lists are the same key exactly when they are element by element. -/
theorem equiv_lexCompare_iff {s t : List κ} :
    Equiv (lexCompare lt) s t ↔ List.Forall₂ (Equiv lt) s t := by
  induction s generalizing t with
  | nil => cases t <;> simp [Equiv, lexCompare, List.forall₂_nil_left_iff]
  | cons a s ih =>
    cases t with
    | nil => simp [Equiv, lexCompare, List.forall₂_nil_right_iff]
    | cons b t =>
      rw [List.forall₂_cons, ← ih]
      simp only [Equiv, lexCompare]
      cases lt a b <;> cases lt b a <;> simp

end OrderedMap

end HttpBackground
