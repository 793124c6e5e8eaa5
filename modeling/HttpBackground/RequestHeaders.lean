import HttpBackground.ParamPickup
import Mathlib.Data.List.Chain

/-!
# The header directives of a request

`headKey` and `headValue` are declared before the loop over the header maps, so a
map that lacks an entry takes over what the map before it has left there. The
directives depend on their own maps alone where nothing is left behind.
-/
namespace HttpBackground

namespace CppNetlibDelegate

/-- The string under a name, if the map has such an entry. -/
def headerEntry (m : ParamMap) (name : StdString) : Option StdString :=
  (m.find? name).bind Any.string?

/-- The directive a map describes by itself, with an absent entry as empty. -/
def ownHeader (m : ParamMap) : StdString × StdString :=
  ((headerEntry m (lit "key")).getD [], (headerEntry m (lit "value")).getD [])

/-- A header map as `run` is given it: sorted, and its key and value are strings. -/
structure HeaderMap (m : ParamMap) : Prop where
  sorted : m.Sorted
  strings : ∀ e ∈ m, StdString.iequals e.1 (lit "key") = true ∨
    StdString.iequals e.1 (lit "value") = true → e.2.string?.isSome = true

/-- What one item does where no cast fails. -/
def headerItem (acc : StdString × StdString) (item : StdString × Any) : StdString × StdString :=
  if StdString.iequals item.1 (lit "key") then (item.2.string?.getD acc.1, acc.2)
  else if StdString.iequals item.1 (lit "value") then (acc.1, item.2.string?.getD acc.2)
  else acc

/-- What the variables hold after a map, given what they held before it. -/
def carried (acc : StdString × StdString) (m : ParamMap) : StdString × StdString :=
  ((headerEntry m (lit "key")).getD acc.1, (headerEntry m (lit "value")).getD acc.2)

theorem headerItems_eq_foldl {m : ParamMap}
    (hstrings : ∀ e ∈ m, StdString.iequals e.1 (lit "key") = true ∨
      StdString.iequals e.1 (lit "value") = true → e.2.string?.isSome = true)
    (acc : StdString × StdString) : headerItems acc m = .ok (m.foldl headerItem acc) := by
  induction m generalizing acc with
  | nil => rfl
  | cons item m ih =>
    obtain ⟨k, v⟩ := item
    have hrest := ih fun e he => hstrings e (List.mem_cons_of_mem _ he)
    have hcast : ∀ s, v.string? = some s → castString v = .ok s := by
      intro s hs
      rw [castString, hs]
    rw [List.foldl_cons, headerItems, headerItem]
    by_cases hk : StdString.iequals k (lit "key") = true
    · obtain ⟨s, hs⟩ := Option.isSome_iff_exists.mp (hstrings (k, v) List.mem_cons_self (.inl hk))
      rw [if_pos hk, if_pos hk, hcast s hs, hs]
      exact hrest _
    · rw [if_neg hk, if_neg hk]
      by_cases hv : StdString.iequals k (lit "value") = true
      · obtain ⟨s, hs⟩ := Option.isSome_iff_exists.mp (hstrings (k, v) List.mem_cons_self (.inr hv))
        rw [if_pos hv, if_pos hv, hcast s hs, hs]
        exact hrest _
      · rw [if_neg hv, if_neg hv]
        exact hrest _

/-- A map's own entries replace what is in the variables, and nothing else does. -/
theorem headerItems_carried {m : ParamMap} (hm : HeaderMap m) (acc : StdString × StdString) :
    headerItems acc m = .ok (carried acc m) := by
  have hfield : ∀ (name : StdString) (f : StdString × StdString → StdString),
      (∀ acc item, f (headerItem acc item) =
        if StdString.iequals item.1 name then item.2.string?.getD (f acc) else f acc) →
      f (m.foldl headerItem acc) = (headerEntry m name).getD (f acc) := by
    intro name f hstep
    have hreacts : ∀ acc item, f (headerItem acc item) =
        if OrderedMap.Equiv StdString.CaseInsensitiveLess name item.1 then
          item.2.string?.getD (f acc) else f acc := by
      intro acc item
      simp only [hstep, StdString.equiv_caseInsensitiveLess_iff, StdString.iequals_comm name]
    rw [OrderedMap.foldl_find? (fun v old => v.string?.getD old) hreacts hm.sorted, headerEntry,
      ParamMap.find?]
    cases OrderedMap.find? StdString.CaseInsensitiveLess name m <;> rfl
  have hkey := hfield (lit "key") Prod.fst fun acc item => by
    unfold headerItem
    split_ifs <;> rfl
  have hvalue := hfield (lit "value") Prod.snd fun acc item => by
    by_cases hv : StdString.iequals item.1 (lit "value") = true
    · have hk := StdString.iequals_other
        (by decide : StdString.iequals (lit "key") (lit "value") = false) hv
      simp [headerItem, hk, hv]
    · rw [headerItem, if_neg hv, if_neg hv]
      split_ifs <;> rfl
  rw [headerItems_eq_foldl hm.strings]
  exact congrArg Except.ok (Prod.ext hkey hvalue)

/-- The directives: what the variables hold after each map. -/
def directives (acc : StdString × StdString) : List ParamMap → List (StdString × StdString)
  | [] => []
  | m :: ms => carried acc m :: directives (carried acc m) ms

theorem requestHeaders_directives {ms : List ParamMap} (hms : ∀ m ∈ ms, HeaderMap m)
    (acc : StdString × StdString) : requestHeaders acc ms = .ok (directives acc ms) := by
  induction ms generalizing acc with
  | nil => rfl
  | cons m ms ih =>
    rw [requestHeaders, headerItems_carried (hms m List.mem_cons_self)]
    show (requestHeaders (carried acc m) ms >>= _) = _
    rw [ih fun m' hm' => hms m' (List.mem_cons_of_mem _ hm')]
    rfl

theorem requestHeaders_eq_ok_iff {ms : List ParamMap} (hms : ∀ m ∈ ms, HeaderMap m)
    {acc : StdString × StdString} {out : List (StdString × StdString)} :
    requestHeaders acc ms = .ok out ↔ directives acc ms = out := by
  rw [requestHeaders_directives hms, Except.ok.injEq]

/-- What a map lacks, the map before it leaves empty. -/
def LeavesNothing (m m' : ParamMap) : Prop :=
  (headerEntry m' (lit "key") = none → (ownHeader m).1 = []) ∧
    (headerEntry m' (lit "value") = none → (ownHeader m).2 = [])

theorem carried_eq_ownHeader_iff (acc : StdString × StdString) (m : ParamMap) :
    carried acc m = ownHeader m ↔ (headerEntry m (lit "key") = none → acc.1 = []) ∧
      (headerEntry m (lit "value") = none → acc.2 = []) := by
  rw [carried, ownHeader, Prod.mk.injEq]
  cases headerEntry m (lit "key") <;> cases headerEntry m (lit "value") <;> simp

theorem directives_own_iff (ms : List ParamMap) (acc : StdString × StdString) :
    directives acc ms = ms.map ownHeader ↔
      (∀ m ∈ ms.head?, carried acc m = ownHeader m) ∧ ms.IsChain LeavesNothing := by
  induction ms generalizing acc with
  | nil => simp [directives]
  | cons m ms ih =>
    rw [directives, List.map_cons, List.cons.injEq, List.isChain_cons]
    simp only [List.head?_cons, Option.mem_some_iff, forall_eq']
    refine and_congr_right fun hm => ?_
    rw [hm, ih]
    simp only [carried_eq_ownHeader_iff, LeavesNothing]

/-- A map with both entries. -/
def fullMap (key value : StdString) : ParamMap :=
  [(lit "key", .string key), (lit "value", .string value)]

theorem headerMap_fullMap (key value : StdString) : HeaderMap (fullMap key value) where
  sorted := by
    refine List.pairwise_cons.mpr ⟨fun e he => ?_, List.pairwise_singleton _ _⟩
    rw [List.mem_singleton] at he
    rw [he]
    show StdString.CaseInsensitiveLess (lit "key") (lit "value") = true
    decide
  strings e he _ := by
    obtain rfl | he := List.mem_cons.mp he
    · rfl
    · rw [List.mem_singleton] at he
      rw [he]
      rfl

theorem carried_fullMap (acc : StdString × StdString) (key value : StdString) :
    carried acc (fullMap key value) = (key, value) := rfl

/-- A map that takes nothing over from the variables has both entries. -/
theorem entries_of_carried_const {m : ParamMap}
    (h : ∀ acc acc', carried acc m = carried acc' m) :
    (headerEntry m (lit "key")).isSome ∧ (headerEntry m (lit "value")).isSome := by
  have heq := h ([], []) (lit "x", lit "x")
  rw [carried, carried, Prod.mk.injEq] at heq
  constructor
  · cases hkey : headerEntry m (lit "key") with
    | none =>
      rw [hkey] at heq
      exact absurd heq.1 (by decide)
    | some key => rfl
  · cases hvalue : headerEntry m (lit "value") with
    | none =>
      rw [hvalue] at heq
      exact absurd heq.2 (by decide)
    | some value => rfl

theorem directives_self {ms : List ParamMap} {i : ℕ} {m : ParamMap} (hm : ms[i]? = some m)
    (acc : StdString × StdString) :
    ∃ before, (directives acc ms)[i]? = some (carried before m) := by
  induction ms generalizing acc i with
  | nil => cases hm
  | cons m₀ ms ih =>
    cases i with
    | zero =>
      cases hm
      exact ⟨acc, rfl⟩
    | succ i => exact ih hm (carried acc m₀)

/-- The variables pass from one map to the next. -/
theorem directives_succ {ms : List ParamMap} {i : ℕ} {m : ParamMap}
    {out acc : StdString × StdString} (hout : (directives acc ms)[i]? = some out)
    (hm : ms[i + 1]? = some m) : (directives acc ms)[i + 1]? = some (carried out m) := by
  induction ms generalizing acc i with
  | nil => cases hm
  | cons m₀ ms ih =>
    cases i with
    | zero =>
      cases hout
      cases ms with
      | nil => cases hm
      | cons m₁ ms =>
        cases hm
        rfl
    | succ i => exact ih hout hm

/-- Maps that have both entries do not notice what comes before them. -/
theorem directives_full {ms : List ParamMap}
    (hfull : ∀ m ∈ ms, (headerEntry m (lit "key")).isSome ∧ (headerEntry m (lit "value")).isSome)
    (acc : StdString × StdString) : directives acc ms = ms.map ownHeader := by
  induction ms generalizing acc with
  | nil => rfl
  | cons m ms ih =>
    obtain ⟨hkey, hvalue⟩ := hfull m List.mem_cons_self
    have hown : carried acc m = ownHeader m := by
      rw [carried_eq_ownHeader_iff]
      constructor
      · intro hnone
        rw [hnone] at hkey
        cases hkey
      · intro hnone
        rw [hnone] at hvalue
        cases hvalue
    rw [directives, ih fun m' hm' => hfull m' (List.mem_cons_of_mem _ hm'), hown, List.map_cons]

theorem directives_set {ms : List ParamMap}
    (hfull : ∀ m ∈ ms.tail,
      (headerEntry m (lit "key")).isSome ∧ (headerEntry m (lit "value")).isSome)
    (acc : StdString × StdString) (i : ℕ) (m' : ParamMap) {j : ℕ} (hj : j ≠ i) :
    (directives acc (ms.set i m'))[j]? = (directives acc ms)[j]? := by
  induction ms generalizing acc i j with
  | nil => rfl
  | cons m ms ih =>
    cases i with
    | zero =>
      obtain ⟨j, rfl⟩ := Nat.exists_eq_succ_of_ne_zero hj
      have hrest : ∀ before, directives before ms = ms.map ownHeader := directives_full hfull
      show (directives (carried acc m') ms)[j]? = (directives (carried acc m) ms)[j]?
      rw [hrest, hrest]
    | succ i =>
      cases j with
      | zero => rfl
      | succ j =>
        exact ih (fun m₁ hm₁ => hfull m₁ (List.mem_of_mem_tail hm₁)) _ i fun hji => hj (by rw [hji])

/-- For header maps whose keys and values are strings: every directive comes from its
own map exactly if a map only lacks what the one before it leaves empty, and changing
one map, whichever it is, changes its own directive at most exactly if every map but
the first has both entries. -/
theorem headers_independent_iff (ms : List ParamMap) (hms : ∀ m ∈ ms, HeaderMap m) :
    (requestHeaders ([], []) ms = .ok (ms.map ownHeader) ↔ ms.IsChain LeavesNothing) ∧
      ((∀ i m', HeaderMap m' → ∀ out out', requestHeaders ([], []) ms = .ok out →
          requestHeaders ([], []) (ms.set i m') = .ok out' → ∀ j, j ≠ i → out'[j]? = out[j]?) ↔
        ∀ m ∈ ms.tail,
          (headerEntry m (lit "key")).isSome ∧ (headerEntry m (lit "value")).isSome) := by
  have hset : ∀ i m', HeaderMap m' → ∀ m ∈ ms.set i m', HeaderMap m := by
    intro i m' hm' m hm
    obtain hm | rfl := List.mem_or_eq_of_mem_set hm
    · exact hms m hm
    · exact hm'
  refine ⟨?_, fun hall m hm => ?_, fun hfull i m' hm' out out' hout hout' j hj => ?_⟩
  · rw [requestHeaders_eq_ok_iff hms, directives_own_iff]
    exact and_iff_right fun m _ => (carried_eq_ownHeader_iff ([], []) m).mpr ⟨fun _ => rfl, fun _ => rfl⟩
  · -- whatever stands in the map before it, this map's directive is the same
    obtain ⟨i, hi⟩ := List.mem_iff_getElem?.mp hm
    rw [List.getElem?_tail] at hi
    have hlt := (List.getElem?_eq_some_iff.mp hi).1
    have hsame : ∀ key value, (directives ([], []) ms)[i + 1]? = some (carried (key, value) m) := by
      intro key value
      have hm' := headerMap_fullMap key value
      have hself : (ms.set i (fullMap key value))[i]? = some (fullMap key value) :=
        List.getElem?_set_self (by omega)
      have hnext : (ms.set i (fullMap key value))[i + 1]? = some m := by
        rw [List.getElem?_set_ne (by omega), hi]
      obtain ⟨before, hbefore⟩ := directives_self hself ([], [])
      rw [carried_fullMap] at hbefore
      have hchanged := hall i _ hm' _ _ (requestHeaders_directives hms _)
        (requestHeaders_directives (hset i _ hm') _) (i + 1) (by omega)
      rw [← hchanged]
      exact directives_succ hbefore hnext
    exact entries_of_carried_const fun acc acc' =>
      Option.some.inj ((hsame acc.1 acc.2).symm.trans (hsame acc'.1 acc'.2))
  · rw [requestHeaders_eq_ok_iff hms] at hout
    rw [requestHeaders_eq_ok_iff (hset i m' hm')] at hout'
    rw [← hout, ← hout']
    exact directives_set hfull _ i m' hj

/-- Two maps with both entries. -/
theorem headers_independent_iff_full :
    requestHeaders ([], []) [fullMap (lit "Accept") (lit "text/plain"), fullMap (lit "Host") []] =
      .ok [(lit "Accept", lit "text/plain"), (lit "Host", [])] := by
  refine (headers_independent_iff _ fun m hm => ?_).1.mpr ?_
  · obtain rfl | hm := List.mem_cons.mp hm
    · exact headerMap_fullMap _ _
    · rw [List.mem_singleton] at hm
      rw [hm]
      exact headerMap_fullMap _ _
  · have hnext : LeavesNothing (fullMap (lit "Accept") (lit "text/plain"))
        (fullMap (lit "Host") []) := ⟨fun h => (by cases h), fun h => (by cases h)⟩
    exact List.isChain_pair.mpr hnext

/-- The second map has no value, and its header gets the first one's. -/
theorem header_value_leaks :
    ¬ ∀ ms : List ParamMap, (∀ m ∈ ms, HeaderMap m) →
      requestHeaders ([], []) ms = .ok (ms.map ownHeader) := by
  intro hall
  let named : ParamMap := [(lit "key", .string (lit "X-Name"))]
  have hmaps : ∀ m ∈ [fullMap (lit "Authorization") (lit "secret"), named], HeaderMap m := by
    intro m hm
    obtain rfl | hm := List.mem_cons.mp hm
    · exact headerMap_fullMap _ _
    · rw [List.mem_singleton] at hm
      subst hm
      refine ⟨List.pairwise_singleton _ _, fun e he _ => ?_⟩
      rw [List.mem_singleton] at he
      rw [he]
      rfl
  have hown := (requestHeaders_eq_ok_iff hmaps).mp (hall _ hmaps)
  revert hown
  decide

end CppNetlibDelegate

end HttpBackground
