import Mathlib.Data.List.Basic

/-!
# Runs of a labelled step function

A system is a partial step function: `step s a` is the state after label `a`
in state `s`, or `none` where `a` is not enabled. A run keeps the pairs of a
state and the label taken there, newest first, so a property of a run is a
property of that list. Invariants are proved once here, for all runs or for the
runs whose steps all meet a condition, and a run can be cut at any of its steps.
-/
namespace HttpBackground

namespace Transition

variable {σ α : Type*}

/-- The runs of `step` from `s₀`: the steps taken, newest first, and the end. -/
inductive Run (step : σ → α → Option σ) (s₀ : σ) : List (σ × α) → σ → Prop
  | start : Run step s₀ [] s₀
  | next {tr s a s'} : Run step s₀ tr s → step s a = some s' → Run step s₀ ((s, a) :: tr) s'

/-- Every step of the run meets the condition, in the state where it is taken. -/
def Always (ok : σ → α → Prop) (tr : List (σ × α)) : Prop := ∀ p ∈ tr, ok p.1 p.2

variable {step : σ → α → Option σ} {s₀ s : σ} {tr : List (σ × α)}

theorem Always.tail {ok : σ → α → Prop} {p : σ × α} (h : Always ok (p :: tr)) : Always ok tr :=
  fun q hq => h q (List.mem_cons_of_mem _ hq)

theorem Always.head {ok : σ → α → Prop} {p : σ × α} (h : Always ok (p :: tr)) : ok p.1 p.2 :=
  h p List.mem_cons_self

theorem Always.of_append {ok : σ → α → Prop} {tr₁ tr₂ : List (σ × α)}
    (h : Always ok (tr₁ ++ tr₂)) :
    Always ok tr₁ ∧ Always ok tr₂ :=
  ⟨fun p hp => h p (List.mem_append_left _ hp), fun p hp => h p (List.mem_append_right _ hp)⟩

instance {ok : σ → α → Prop} [∀ s a, Decidable (ok s a)] : Decidable (Always ok tr) :=
  inferInstanceAs (Decidable (∀ p ∈ tr, ok p.1 p.2))

/-- What holds of the empty run and survives every admissible step holds of
every admissible run. The invariant may speak of the steps already taken. -/
theorem Run.invariant (ok : σ → α → Prop) (I : List (σ × α) → σ → Prop) (init : I [] s₀)
    (preserve : ∀ tr s a s', Run step s₀ tr s → Always ok tr → I tr s → ok s a →
      step s a = some s' → I ((s, a) :: tr) s')
    (run : Run step s₀ tr s) (hok : Always ok tr) : I tr s := by
  induction run with
  | start => exact init
  | @next tr s a s' run hstep ih =>
    exact preserve tr s a s' run hok.tail (ih hok.tail) hok.head hstep

/-- The rule for invariants of the state alone. -/
theorem Run.stateInvariant (ok : σ → α → Prop) (I : σ → Prop) (init : I s₀)
    (preserve : ∀ s a s', I s → ok s a → step s a = some s' → I s')
    (run : Run step s₀ tr s) (hok : Always ok tr) : I s :=
  run.invariant ok (fun _ => I) init (fun _ s a s' _ _ => preserve s a s') hok

/-- The rule where no step needs a condition. -/
theorem Run.holds (I : List (σ × α) → σ → Prop) (init : I [] s₀)
    (preserve : ∀ tr s a s', Run step s₀ tr s → I tr s → step s a = some s' →
      I ((s, a) :: tr) s') (run : Run step s₀ tr s) : I tr s :=
  run.invariant (fun _ _ => True) I init
    (fun tr s a s' hrun _ hI _ h => preserve tr s a s' hrun hI h) fun _ _ => trivial

theorem Run.stateHolds (I : σ → Prop) (init : I s₀)
    (preserve : ∀ s a s', I s → step s a = some s' → I s') (run : Run step s₀ tr s) : I s :=
  run.holds (fun _ => I) init fun _ s a s' _ => preserve s a s'

/-- A run may be cut just before any of its steps. -/
theorem Run.split {later earlier : List (σ × α)} {x : σ} {a : α}
    (run : Run step s₀ (later ++ (x, a) :: earlier) s) :
    Run step s₀ earlier x ∧ ∃ y, step x a = some y ∧ Run step y later s := by
  induction later generalizing s with
  | nil =>
    cases run with
    | next run hstep => exact ⟨run, s, hstep, .start⟩
  | cons p later ih =>
    cases run with
    | next run hstep =>
      obtain ⟨hpre, y, hy, hpost⟩ := ih run
      exact ⟨hpre, y, hy, hpost.next hstep⟩

theorem Run.append {tr' : List (σ × α)} {s' : σ} (run : Run step s₀ tr s)
    (run' : Run step s tr' s') : Run step s₀ (tr' ++ tr) s' := by
  induction run' with
  | start => exact run
  | next _ hstep ih => exact ih.next hstep

/-- Execute a list of labels, oldest first, collecting the run. -/
def replay (step : σ → α → Option σ) (s : σ) (tr : List (σ × α)) :
    List α → Option (List (σ × α) × σ)
  | [] => some (tr, s)
  | a :: as => (step s a).bind fun s' => replay step s' ((s, a) :: tr) as

theorem replay_run {as : List α} {tr' : List (σ × α)} {s' : σ} (run : Run step s₀ tr s)
    (h : replay step s tr as = some (tr', s')) : Run step s₀ tr' s' := by
  induction as generalizing s tr with
  | nil =>
    cases h
    exact run
  | cons a as ih =>
    obtain ⟨s₁, hs₁, h⟩ := Option.bind_eq_some_iff.mp h
    exact ih (run.next hs₁) h

/-- A condition on labels holds along a run if it holds of the labels executed. -/
theorem always_of_replay {ok : α → Prop} {as : List α} {tr' : List (σ × α)} {s' : σ}
    (has : ∀ a ∈ as, ok a) (htr : Always (fun _ => ok) tr)
    (h : replay step s tr as = some (tr', s')) : Always (fun _ => ok) tr' := by
  induction as generalizing s tr with
  | nil =>
    cases h
    exact htr
  | cons a as ih =>
    obtain ⟨s₁, -, h⟩ := Option.bind_eq_some_iff.mp h
    refine ih (fun b hb => has b (List.mem_cons_of_mem a hb)) ?_ h
    intro p hp
    obtain rfl | hp := List.mem_cons.mp hp
    · exact has a List.mem_cons_self
    · exact htr p hp

end Transition

end HttpBackground
