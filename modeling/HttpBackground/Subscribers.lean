import HttpBackground.OrderedMap
import Mathlib.Data.Nat.Basic

/-!
# The timer's subscribers

`subscribers` maps the address of an object to what the next tick does about it.
An iterator points at a node of the map: a node goes when its entry is erased,
and an entry inserted under the same address later is another node, so every
entry carries the number of its node.
-/
namespace HttpBackground

/-- `ThreadTimer::nextTimer` -/
inductive NextTimer
  | kTimerContinue
  | kTimerStop
  deriving DecidableEq, Repr

structure Entry where
  node : ℕ
  next : NextTimer
  deriving DecidableEq, Repr

/-- An iterator other than `end()`: the address there and the node. -/
structure Iter where
  key : ℕ
  node : ℕ
  deriving DecidableEq, Repr

/-- `std::less` on addresses -/
def addressLess (a b : ℕ) : Bool := decide (a < b)

instance : StrictWeakOrder addressLess :=
  inferInstanceAs (StrictWeakOrder fun a b : ℕ => decide (a < b))

theorem equiv_addressLess_iff {a b : ℕ} : OrderedMap.Equiv addressLess a b ↔ a = b := by
  unfold OrderedMap.Equiv addressLess
  simp only [decide_eq_false_iff_not]
  omega

/-- `std::map<NVObjBase*,nextTimer>`, with the numbers of the nodes handed out so far. -/
structure Subscribers where
  entries : List (ℕ × Entry)
  nextNode : ℕ
  sorted : OrderedMap.Sorted addressLess entries
  node_lt : ∀ e ∈ entries, e.2.node < nextNode

namespace Subscribers

def empty : Subscribers := ⟨[], 0, List.Pairwise.nil, fun _ h => by cases h⟩

def find? (m : Subscribers) (o : ℕ) : Option Entry := OrderedMap.find? addressLess o m.entries

/-- Write to the entry under `o`. -/
def assign (m : Subscribers) (o : ℕ) (e : Entry) : Subscribers where
  entries := OrderedMap.assign addressLess o e m.entries
  nextNode := max m.nextNode (e.node + 1)
  sorted := OrderedMap.sorted_assign o e m.sorted
  node_lt e' he' := by
    rcases OrderedMap.mem_assign he' with ⟨-, h⟩ | rfl | h
    · rw [h]
      omega
    · show e.node < max m.nextNode (e.node + 1)
      omega
    · have := m.node_lt e' h
      omega

/-- `subscribers[o] = kTimerContinue`: a new node where there is none. -/
def subscribe (m : Subscribers) (o : ℕ) : Subscribers :=
  m.assign o ⟨((m.find? o).map Entry.node).getD m.nextNode, .kTimerContinue⟩

/-- `it->second = ret` -/
def setNext (m : Subscribers) (it : Iter) (ret : NextTimer) : Subscribers :=
  m.assign it.key ⟨it.node, ret⟩

def erase (m : Subscribers) (o : ℕ) : Subscribers where
  entries := OrderedMap.erase addressLess o m.entries
  nextNode := m.nextNode
  sorted := OrderedMap.sorted_erase o m.sorted
  node_lt e he := m.node_lt e (OrderedMap.mem_of_mem_erase he)

/-- `begin()` -/
def first (m : Subscribers) : Option Iter := m.entries.head?.map fun e => ⟨e.1, e.2.node⟩

/-- The iterator after the one at address `o`. -/
def after (m : Subscribers) (o : ℕ) : Option Iter :=
  (OrderedMap.next addressLess o m.entries).map fun e => ⟨e.1, e.2.node⟩

/-- The node the iterator points at is in the map. -/
def holds (m : Subscribers) (it : Iter) : Bool := (m.find? it.key).map Entry.node == some it.node

theorem find?_assign (m : Subscribers) (o j : ℕ) (e : Entry) :
    (m.assign o e).find? j = if j = o then some e else m.find? j := by
  unfold find? assign
  simp only [OrderedMap.find?_assign, equiv_addressLess_iff]

theorem find?_subscribe (m : Subscribers) (o j : ℕ) :
    (m.subscribe o).find? j =
      if j = o then some ⟨((m.find? o).map Entry.node).getD m.nextNode, .kTimerContinue⟩
      else m.find? j := find?_assign m o j _

theorem find?_setNext (m : Subscribers) (it : Iter) (ret : NextTimer) (j : ℕ) :
    (m.setNext it ret).find? j = if j = it.key then some ⟨it.node, ret⟩ else m.find? j :=
  find?_assign m it.key j _

theorem find?_erase (m : Subscribers) (o j : ℕ) :
    (m.erase o).find? j = if j = o then none else m.find? j := by
  unfold find? erase
  by_cases h : j = o
  · subst h
    rw [if_pos rfl]
    exact OrderedMap.find?_erase_self j m.sorted
  · rw [if_neg h]
    exact OrderedMap.find?_erase_of_not_equiv (fun he => h (equiv_addressLess_iff.mp he)) m.sorted

/-- What is found after an erasure was there before, under another key. -/
theorem find?_of_erase {m : Subscribers} {o j : ℕ} {e : Entry}
    (h : (m.erase o).find? j = some e) : j ≠ o ∧ m.find? j = some e := by
  rw [find?_erase] at h
  by_cases hj : j = o
  · rw [if_pos hj] at h
    cases h
  · rw [if_neg hj] at h
    exact ⟨hj, h⟩

theorem isSome_of_erase {m : Subscribers} {o j : ℕ} (h : ((m.erase o).find? j).isSome) :
    j ≠ o ∧ (m.find? j).isSome := by
  obtain ⟨e, he⟩ := Option.isSome_iff_exists.mp h
  obtain ⟨hne, hfind⟩ := find?_of_erase he
  exact ⟨hne, by rw [hfind]; rfl⟩

theorem erase_of_find? {m : Subscribers} {o : ℕ} (h : m.find? o = none) : m.erase o = m := by
  have hentries : OrderedMap.erase addressLess o m.entries = m.entries :=
    OrderedMap.erase_of_find? h
  unfold erase
  congr 1

theorem find?_of_mem {m : Subscribers} {e : ℕ × Entry} (h : e ∈ m.entries) :
    m.find? e.1 = some e.2 := OrderedMap.find?_of_mem m.sorted h

theorem holds_iff {m : Subscribers} {it : Iter} :
    m.holds it = true ↔ ∃ e, m.find? it.key = some e ∧ e.node = it.node := by
  unfold holds
  rw [beq_iff_eq, Option.map_eq_some_iff]

theorem holds_first {m : Subscribers} {it : Iter} (h : m.first = some it) : m.holds it = true := by
  obtain ⟨e, he, rfl⟩ := Option.map_eq_some_iff.mp h
  exact holds_iff.mpr ⟨e.2, find?_of_mem (List.mem_of_head? he), rfl⟩

theorem holds_after {m : Subscribers} {o : ℕ} {it : Iter} (h : m.after o = some it) :
    m.holds it = true ∧ o < it.key := by
  obtain ⟨e, he, rfl⟩ := Option.map_eq_some_iff.mp h
  obtain ⟨hmem, hlt⟩ := OrderedMap.mem_of_next he
  exact ⟨holds_iff.mpr ⟨e.2, find?_of_mem hmem, rfl⟩, of_decide_eq_true hlt⟩

/-- The loop begins no later than at a key of the map. -/
theorem first_le {m : Subscribers} {o : ℕ} {e : Entry} (h : m.find? o = some e) :
    ∃ it, m.first = some it ∧ it.key ≤ o := by
  obtain ⟨e', he', hle⟩ := OrderedMap.head_of_find? h
  have : ¬ o < e'.1 := of_decide_eq_false hle
  exact ⟨⟨e'.1, e'.2.node⟩, by rw [first, he']; rfl, by show e'.1 ≤ o; omega⟩

/-- Nor does it step over one. -/
theorem after_le {m : Subscribers} {k o : ℕ} {e : Entry} (h : m.find? o = some e) (hk : k < o) :
    ∃ it, m.after k = some it ∧ it.key ≤ o := by
  obtain ⟨e', he', hle⟩ := OrderedMap.next_of_find? h (decide_eq_true hk)
  have : ¬ o < e'.1 := of_decide_eq_false hle
  exact ⟨⟨e'.1, e'.2.node⟩, by rw [after, he']; rfl, by show e'.1 ≤ o; omega⟩

end Subscribers

end HttpBackground
