import Mathlib.Data.List.Basic

/-!
# Parsing expressions

A rule takes a beginning of its input, fails or never returns. Choice is ordered and
a repetition takes all it can; neither is taken back later. A repetition whose rule
takes nothing stays where it is for ever. What a rule does is said by `Takes`,
`Fails` and `Diverges`, and each way of building rules has a lemma for them.
-/
namespace HttpBackground

namespace ParsingExpression

/-- What a parser has read, and the input it leaves. -/
inductive Outcome (α β : Type*) where
  | matched (value : β) (rest : List α)
  | failed
  | diverges
  deriving DecidableEq, Repr

variable {α β γ : Type*}

namespace Outcome

def bind (o : Outcome α β) (next : β → List α → Outcome α γ) : Outcome α γ :=
  match o with
  | .matched value rest => next value rest
  | .failed => .failed
  | .diverges => .diverges

def orElse (o other : Outcome α β) : Outcome α β :=
  match o with
  | .failed => other
  | o => o

variable {o other : Outcome α β} {next : β → List α → Outcome α γ} {value : β} {result : γ}
  {rest : List α}

theorem bind_eq_matched_iff : o.bind next = .matched result rest ↔
    ∃ value middle, o = .matched value middle ∧ next value middle = .matched result rest := by
  cases o <;> simp [bind]

theorem bind_eq_failed_iff : o.bind next = .failed ↔
    o = .failed ∨ ∃ value middle, o = .matched value middle ∧ next value middle = .failed := by
  cases o <;> simp [bind]

theorem bind_eq_diverges_iff : o.bind next = .diverges ↔
    o = .diverges ∨ ∃ value middle, o = .matched value middle ∧ next value middle = .diverges := by
  cases o <;> simp [bind]

theorem orElse_eq_matched_iff : o.orElse other = .matched value rest ↔
    o = .matched value rest ∨ o = .failed ∧ other = .matched value rest := by
  cases o <;> simp [orElse]

theorem orElse_eq_failed_iff : o.orElse other = .failed ↔ o = .failed ∧ other = .failed := by
  cases o <;> simp [orElse]

theorem orElse_eq_diverges_iff : o.orElse other = .diverges ↔
    o = .diverges ∨ o = .failed ∧ other = .diverges := by
  cases o <;> simp [orElse]

end Outcome

/-- A rule reads its text off the front of its input. -/
structure Rule (α : Type*) where
  run : List α → Outcome α (List α)
  splits : ∀ {input text rest}, run input = .matched text rest → text ++ rest = input

/-- The rule reads this text when this is behind it. -/
def Takes (r : Rule α) (text rest : List α) : Prop := r.run (text ++ rest) = .matched text rest

def Fails (r : Rule α) (input : List α) : Prop := r.run input = .failed

def Diverges (r : Rule α) (input : List α) : Prop := r.run input = .diverges

/-- The rule always returns. -/
def Total (r : Rule α) : Prop := ∀ input, ¬ Diverges r input

variable {r s : Rule α} {input text rest : List α}

theorem run_eq_matched_iff : r.run input = .matched text rest ↔
    input = text ++ rest ∧ Takes r text rest := by
  constructor
  · intro h
    have hinput := r.splits h
    exact ⟨hinput.symm, by rw [Takes, hinput, h]⟩
  · rintro ⟨rfl, h⟩
    exact h

theorem outcome_cases (r : Rule α) (input : List α) :
    (∃ text rest, input = text ++ rest ∧ Takes r text rest) ∨ Fails r input ∨
      Diverges r input := by
  cases h : r.run input with
  | matched text rest => exact .inl ⟨text, rest, run_eq_matched_iff.mp h⟩
  | failed => exact .inr (.inl h)
  | diverges => exact .inr (.inr h)

theorem Takes.not_fails (h : Takes r text rest) : ¬ Fails r (text ++ rest) := by
  intro hf
  rw [Takes, hf] at h
  cases h

theorem Takes.not_diverges (h : Takes r text rest) : ¬ Diverges r (text ++ rest) := by
  intro hd
  rw [Takes, hd] at h
  cases h

theorem Diverges.not_fails (h : Diverges r input) : ¬ Fails r input := by
  intro hf
  rw [Diverges, hf] at h
  cases h

theorem Total.takes_or_fails (hr : Total r) (input : List α) :
    (∃ text rest, input = text ++ rest ∧ Takes r text rest) ∨ Fails r input := by
  obtain h | h | h := outcome_cases r input
  · exact .inl h
  · exact .inr h
  · exact absurd h (hr input)

/-- The empty text. -/
def eps : Rule α := ⟨fun input => .matched [] input, by simp⟩

/-- One symbol. -/
def satisfy (p : α → Bool) : Rule α where
  run
    | [] => .failed
    | c :: input => if p c then .matched [c] input else .failed
  splits {input text rest} h := by
    cases input with
    | nil => cases h
    | cons c input =>
      by_cases hc : p c = true
      · simp only [hc, if_true, Outcome.matched.injEq] at h
        obtain ⟨rfl, rfl⟩ := h
        rfl
      · simp [hc] at h

/-- One text. -/
def exactly [DecidableEq α] (word : List α) : Rule α where
  run input := if word <+: input then .matched word (input.drop word.length) else .failed
  splits {input text rest} h := by
    by_cases hw : word <+: input
    · simp only [hw, if_true, Outcome.matched.injEq] at h
      obtain ⟨rfl, rfl⟩ := h
      exact (List.prefix_iff_eq_append.mp hw)
    · simp [hw] at h

/-- One rule, then another. -/
def seq (r s : Rule α) : Rule α where
  run input := (r.run input).bind fun text rest =>
    (s.run rest).bind fun more rest' => .matched (text ++ more) rest'
  splits {input text rest} h := by
    obtain ⟨t, m, hr, h⟩ := Outcome.bind_eq_matched_iff.mp h
    obtain ⟨u, n, hs, h⟩ := Outcome.bind_eq_matched_iff.mp h
    obtain ⟨rfl, rfl⟩ := Outcome.matched.inj h
    rw [List.append_assoc, s.splits hs, r.splits hr]

/-- One rule, and another where it fails. -/
def choice (r s : Rule α) : Rule α where
  run input := (r.run input).orElse (s.run input)
  splits {input text rest} h := by
    obtain h | ⟨-, h⟩ := Outcome.orElse_eq_matched_iff.mp h
    · exact r.splits h
    · exact s.splits h

/-- The empty text where the rule fails, and nothing where it reads something. -/
def notAt (r : Rule α) : Rule α where
  run input :=
    match r.run input with
    | .matched _ _ => .failed
    | .failed => .matched [] input
    | .diverges => .diverges
  splits {input text rest} h := by
    cases hr : r.run input with
    | failed =>
      simp only [hr, Outcome.matched.injEq] at h
      obtain ⟨rfl, rfl⟩ := h
      rfl
    | matched _ _ => simp [hr] at h
    | diverges => simp [hr] at h

def opt (r : Rule α) : Rule α := choice r eps

def times : ℕ → Rule α → Rule α
  | 0, _ => eps
  | n + 1, r => seq r (times n r)

/-- As often as it goes, up to a number of times. -/
def upTo : ℕ → Rule α → Rule α
  | 0, _ => eps
  | n + 1, r => opt (seq r (upTo n r))

/-- As often as it goes; a rule that has taken nothing would take nothing again. -/
def starFuel (r : Rule α) : ℕ → List α → Outcome α (List α)
  | 0, _ => .diverges
  | fuel + 1, input =>
    match r.run input with
    | .matched text rest =>
      if text.isEmpty then .diverges
      else (starFuel r fuel rest).bind fun more rest' => .matched (text ++ more) rest'
    | .failed => .matched [] input
    | .diverges => .diverges

theorem splits_starFuel {fuel : ℕ} (h : starFuel r fuel input = .matched text rest) :
    text ++ rest = input := by
  induction fuel generalizing input text with
  | zero => cases h
  | succ fuel ih =>
    rw [starFuel] at h
    cases hr : r.run input with
    | matched t m =>
      by_cases ht : t.isEmpty = true
      · simp [hr, ht] at h
      · simp only [hr, ht, Bool.false_eq_true, if_false] at h
        obtain ⟨u, n, hstar, h⟩ := Outcome.bind_eq_matched_iff.mp h
        obtain ⟨rfl, rfl⟩ := Outcome.matched.inj h
        rw [List.append_assoc, ih hstar, r.splits hr]
    | failed =>
      simp only [hr, Outcome.matched.injEq] at h
      obtain ⟨rfl, rfl⟩ := h
      rfl
    | diverges => simp [hr] at h

def star (r : Rule α) : Rule α := ⟨fun input => starFuel r (input.length + 1) input, splits_starFuel⟩

def plus (r : Rule α) : Rule α := seq r (star r)

theorem takes_eps_iff : Takes eps text rest ↔ text = [] := by
  simp [Takes, eps, eq_comm]

theorem total_eps : Total (eps : Rule α) := by
  intro input h
  cases h

theorem takes_satisfy_iff {p : α → Bool} :
    Takes (satisfy p) text rest ↔ ∃ c, p c = true ∧ text = [c] := by
  constructor
  · intro h
    cases text with
    | nil =>
      cases rest with
      | nil => cases h
      | cons c rest => by_cases hc : p c = true <;> simp [Takes, satisfy, hc] at h
    | cons c text =>
      by_cases hc : p c = true
      · simp only [Takes, satisfy, List.cons_append, hc, if_true, Outcome.matched.injEq,
          List.cons.injEq, true_and] at h
        exact ⟨c, hc, by rw [← h.1]⟩
      · simp [Takes, satisfy, hc] at h
  · rintro ⟨c, hc, rfl⟩
    simp [Takes, satisfy, hc]

theorem total_satisfy (p : α → Bool) : Total (satisfy p) := by
  intro input h
  cases input with
  | nil => cases h
  | cons c input => by_cases hc : p c = true <;> simp [Diverges, satisfy, hc] at h

theorem takes_exactly_iff [DecidableEq α] {word : List α} :
    Takes (exactly word) text rest ↔ text = word := by
  constructor
  · intro h
    by_cases hw : word <+: text ++ rest
    · simp only [Takes, exactly, hw, if_true, Outcome.matched.injEq] at h
      exact h.1.symm
    · simp [Takes, exactly, hw] at h
  · rintro rfl
    simp [Takes, exactly]

theorem fails_exactly_iff [DecidableEq α] {word : List α} :
    Fails (exactly word) input ↔ ¬ word <+: input := by
  by_cases hw : word <+: input <;> simp [Fails, exactly, hw]

theorem total_exactly [DecidableEq α] (word : List α) : Total (exactly word) := by
  intro input h
  by_cases hw : word <+: input <;> simp [Diverges, exactly, hw] at h

theorem takes_seq_iff : Takes (seq r s) text rest ↔
    ∃ t u, text = t ++ u ∧ Takes r t (u ++ rest) ∧ Takes s u rest := by
  constructor
  · intro h
    obtain ⟨t, m, hr, h⟩ := Outcome.bind_eq_matched_iff.mp h
    obtain ⟨u, n, hs, h⟩ := Outcome.bind_eq_matched_iff.mp h
    obtain ⟨rfl, rfl⟩ := Outcome.matched.inj h
    obtain ⟨rfl, hs⟩ := run_eq_matched_iff.mp hs
    exact ⟨t, u, rfl, (run_eq_matched_iff.mp hr).2, hs⟩
  · rintro ⟨t, u, rfl, hr, hs⟩
    rw [Takes] at hr hs
    simp [Takes, seq, List.append_assoc, hr, hs, Outcome.bind]

theorem fails_seq_iff : Fails (seq r s) input ↔
    Fails r input ∨ ∃ t m, input = t ++ m ∧ Takes r t m ∧ Fails s m := by
  constructor
  · intro h
    obtain hr | ⟨t, m, hr, hs⟩ := Outcome.bind_eq_failed_iff.mp h
    · exact .inl hr
    · obtain ⟨rfl, hr⟩ := run_eq_matched_iff.mp hr
      obtain hs | ⟨u, n, -, hs⟩ := Outcome.bind_eq_failed_iff.mp hs
      · exact .inr ⟨t, m, rfl, hr, hs⟩
      · cases hs
  · rintro (h | ⟨t, m, rfl, hr, hs⟩)
    · exact Outcome.bind_eq_failed_iff.mpr (.inl h)
    · exact Outcome.bind_eq_failed_iff.mpr (.inr ⟨t, m, hr,
        Outcome.bind_eq_failed_iff.mpr (.inl hs)⟩)

theorem diverges_seq_iff : Diverges (seq r s) input ↔
    Diverges r input ∨ ∃ t m, input = t ++ m ∧ Takes r t m ∧ Diverges s m := by
  constructor
  · intro h
    obtain hr | ⟨t, m, hr, hs⟩ := Outcome.bind_eq_diverges_iff.mp h
    · exact .inl hr
    · obtain ⟨rfl, hr⟩ := run_eq_matched_iff.mp hr
      obtain hs | ⟨u, n, -, hs⟩ := Outcome.bind_eq_diverges_iff.mp hs
      · exact .inr ⟨t, m, rfl, hr, hs⟩
      · cases hs
  · rintro (h | ⟨t, m, rfl, hr, hs⟩)
    · exact Outcome.bind_eq_diverges_iff.mpr (.inl h)
    · exact Outcome.bind_eq_diverges_iff.mpr (.inr ⟨t, m, hr,
        Outcome.bind_eq_diverges_iff.mpr (.inl hs)⟩)

theorem Total.seq (hr : Total r) (hs : Total s) : Total (seq r s) := by
  intro input h
  obtain h | ⟨_, m, -, -, h⟩ := diverges_seq_iff.mp h
  · exact hr input h
  · exact hs m h

theorem takes_choice_iff : Takes (choice r s) text rest ↔
    Takes r text rest ∨ Fails r (text ++ rest) ∧ Takes s text rest :=
  Outcome.orElse_eq_matched_iff

theorem fails_choice_iff : Fails (choice r s) input ↔ Fails r input ∧ Fails s input :=
  Outcome.orElse_eq_failed_iff

theorem diverges_choice_iff : Diverges (choice r s) input ↔
    Diverges r input ∨ Fails r input ∧ Diverges s input :=
  Outcome.orElse_eq_diverges_iff

theorem Total.choice (hr : Total r) (hs : Total s) : Total (choice r s) := by
  intro input h
  obtain h | ⟨-, h⟩ := diverges_choice_iff.mp h
  · exact hr input h
  · exact hs input h

theorem takes_notAt_iff : Takes (notAt r) text rest ↔ text = [] ∧ Fails r rest := by
  constructor
  · intro h
    cases hr : r.run (text ++ rest) with
    | failed =>
      simp only [Takes, notAt, hr, Outcome.matched.injEq] at h
      obtain ⟨rfl, -⟩ := h
      exact ⟨rfl, hr⟩
    | matched _ _ => simp [Takes, notAt, hr] at h
    | diverges => simp [Takes, notAt, hr] at h
  · rintro ⟨rfl, h⟩
    rw [Fails] at h
    simp [Takes, notAt, h]

theorem Total.notAt (hr : Total r) : Total (notAt r) := by
  intro input h
  cases hrun : r.run input with
  | diverges => exact hr input hrun
  | matched _ _ => simp [Diverges, ParsingExpression.notAt, hrun] at h
  | failed => simp [Diverges, ParsingExpression.notAt, hrun] at h

theorem takes_opt_iff : Takes (opt r) text rest ↔
    Takes r text rest ∨ Fails r rest ∧ text = [] := by
  rw [opt, takes_choice_iff, takes_eps_iff]
  constructor
  · rintro (h | ⟨h, rfl⟩)
    · exact .inl h
    · exact .inr ⟨h, rfl⟩
  · rintro (h | ⟨h, rfl⟩)
    · exact .inl h
    · exact .inr ⟨h, rfl⟩

theorem Total.opt (hr : Total r) : Total (opt r) := hr.choice total_eps

theorem Total.times (hr : Total r) (n : ℕ) : Total (times n r) := by
  induction n with
  | zero => exact total_eps
  | succ n ih => exact hr.seq ih

theorem Total.upTo (hr : Total r) (n : ℕ) : Total (upTo n r) := by
  induction n with
  | zero => exact total_eps
  | succ n ih => exact (hr.seq ih).opt

theorem starFuel_congr {fuel fuel' : ℕ} (h : input.length < fuel) (h' : input.length < fuel') :
    starFuel r fuel input = starFuel r fuel' input := by
  induction fuel generalizing input fuel' with
  | zero => omega
  | succ fuel ih =>
    obtain ⟨fuel', rfl⟩ : ∃ n, fuel' = n + 1 := ⟨fuel' - 1, by omega⟩
    rw [starFuel, starFuel]
    cases hr : r.run input with
    | matched t m =>
      by_cases ht : t.isEmpty = true
      · simp [ht]
      · have hlength : m.length < input.length := by
          rw [← r.splits hr, List.length_append]
          have : t.length ≠ 0 := fun h0 => ht (by simpa using h0)
          omega
        simp only [ht, Bool.false_eq_true, if_false]
        rw [ih (by omega) (show m.length < fuel' by omega)]
    | failed => rfl
    | diverges => rfl

theorem star_run (r : Rule α) (input : List α) :
    (star r).run input = starFuel r (input.length + 1) input := rfl

theorem star_of_takes (h : Takes r text rest) (hne : text ≠ []) :
    (star r).run (text ++ rest) =
      ((star r).run rest).bind fun more rest' => .matched (text ++ more) rest' := by
  have hlength : rest.length < (text ++ rest).length := by
    have : text.length ≠ 0 := fun h0 => hne (by simpa using h0)
    simp only [List.length_append]
    omega
  have hempty : text.isEmpty = false := by simpa using hne
  rw [Takes] at h
  rw [star_run, starFuel, h]
  simp only [hempty, Bool.false_eq_true, if_false]
  rw [starFuel_congr hlength (Nat.lt_succ_self _), star_run]

theorem star_of_fails (h : Fails r input) : (star r).run input = .matched [] input := by
  rw [Fails] at h
  simp [star, starFuel, h]

theorem diverges_star_of_takes_nil (h : Takes r [] input) : Diverges (star r) input := by
  rw [Takes, List.nil_append] at h
  simp [Diverges, star, starFuel, h]

theorem not_fails_star : ¬ Fails (star r) input := by
  intro h
  induction hn : input.length using Nat.strongRecOn generalizing input with
  | ind n ih =>
    obtain ⟨t, m, rfl, hr⟩ | hr | hr := outcome_cases r input
    · by_cases ht : t = []
      · subst ht
        have := diverges_star_of_takes_nil hr
        rw [Diverges] at this
        rw [Fails, List.nil_append, this] at h
        cases h
      · rw [Fails, star_of_takes hr ht] at h
        obtain hm | ⟨_, _, -, hm⟩ := Outcome.bind_eq_failed_iff.mp h
        · have : t.length ≠ 0 := fun h0 => ht (by simpa using h0)
          exact ih m.length (by simp at hn; omega) hm rfl
        · cases hm
    · rw [Fails, star_of_fails hr] at h
      cases h
    · rw [Diverges] at hr
      simp [Fails, star, starFuel, hr] at h

/-- A repetition of a repetition never returns. -/
theorem diverges_star_star : Diverges (star (star r)) input := by
  induction hn : input.length using Nat.strongRecOn generalizing input with
  | ind n ih =>
    obtain ⟨t, m, rfl, hr⟩ | hr | hr := outcome_cases (star r) input
    · by_cases ht : t = []
      · subst ht
        exact diverges_star_of_takes_nil hr
      · have : t.length ≠ 0 := fun h0 => ht (by simpa using h0)
        have hm := ih m.length (by simp at hn; omega) rfl
        rw [Diverges, star_of_takes hr ht]
        exact Outcome.bind_eq_diverges_iff.mpr (.inl hm)
    · exact absurd hr not_fails_star
    · rw [Diverges] at hr
      rw [Diverges, star_run, starFuel, hr]

theorem diverges_plus_star : Diverges (plus (star r)) input := by
  rw [plus, diverges_seq_iff]
  obtain ⟨t, m, rfl, hr⟩ | hr | hr := outcome_cases (star r) input
  · exact .inr ⟨t, m, rfl, hr, diverges_star_star⟩
  · exact absurd hr not_fails_star
  · exact .inl hr

/-- A rule each of whose texts is known by itself and by what is behind it: the
texts follow one another, and what is behind the last is no text. -/
theorem takes_star_iff {P S : List α → Prop} (hr : ∀ t x, Takes r t x ↔ P t ∧ S x)
    (hne : ∀ t, P t → t ≠ []) (hS : ∀ t x, P t → S (t ++ x)) :
    Takes (star r) text rest ↔ Fails r rest ∧
      ∃ ts, (∀ t ∈ ts, P t) ∧ text = ts.flatten ∧ (ts ≠ [] → S rest) := by
  constructor
  · intro h
    induction hn : text.length using Nat.strongRecOn generalizing text with
    | ind n ih =>
      obtain ⟨t, m, hinput, htakes⟩ | hfails | hdiverges := outcome_cases r (text ++ rest)
      · have ht := hne t ((hr t m).mp htakes).1
        rw [Takes, hinput, star_of_takes htakes ht] at h
        obtain ⟨u, n, hu, h⟩ := Outcome.bind_eq_matched_iff.mp h
        obtain ⟨rfl, rfl⟩ := Outcome.matched.inj h
        obtain ⟨rfl, hu⟩ := run_eq_matched_iff.mp hu
        have : t.length ≠ 0 := fun h0 => ht (by simpa using h0)
        obtain ⟨hlast, ts, hts, rfl, hS'⟩ := ih u.length (by simp at hn; omega) hu rfl
        refine ⟨hlast, t :: ts, ?_, rfl, fun _ => ?_⟩
        · intro v hv
          obtain rfl | hv := List.mem_cons.mp hv
          · exact ((hr v _).mp htakes).1
          · exact hts v hv
        · by_cases hnil : ts = []
          · subst hnil
            simpa using ((hr t _).mp htakes).2
          · exact hS' hnil
      · rw [Takes, star_of_fails hfails] at h
        obtain ⟨rfl, -⟩ := Outcome.matched.inj h
        exact ⟨hfails, [], by simp, rfl, by simp⟩
      · rw [Diverges] at hdiverges
        simp [Takes, star, starFuel, hdiverges] at h
  · rintro ⟨hlast, ts, hts, rfl, hS'⟩
    induction ts with
    | nil => exact star_of_fails hlast
    | cons t ts ih =>
      have htail := ih (fun v hv => hts v (List.mem_cons_of_mem t hv)) fun _ => hS' (by simp)
      have hP := hts t List.mem_cons_self
      have hSt : S (ts.flatten ++ rest) := by
        cases ts with
        | nil => exact hS' (by simp)
        | cons u ts =>
          rw [List.flatten_cons, List.append_assoc]
          exact hS u _ (hts u (by simp))
      rw [Takes] at htail
      rw [Takes, List.flatten_cons, List.append_assoc,
        star_of_takes ((hr t _).mpr ⟨hP, hSt⟩) (hne t hP), htail]
      rfl

theorem Total.star (hr : Total r) (hne : ∀ t x, Takes r t x → t ≠ []) : Total (star r) := by
  intro input h
  induction hn : input.length using Nat.strongRecOn generalizing input with
  | ind n ih =>
    obtain ⟨t, m, rfl, htakes⟩ | hfails := hr.takes_or_fails input
    · have ht := hne t m htakes
      rw [Diverges, star_of_takes htakes ht] at h
      obtain hm | ⟨_, _, -, hm⟩ := Outcome.bind_eq_diverges_iff.mp h
      · have : t.length ≠ 0 := fun h0 => ht (by simpa using h0)
        exact ih m.length (by simp at hn; omega) m hm rfl
      · cases hm
    · rw [Diverges, star_of_fails hfails] at h
      cases h

/-- The texts of the rule are these, whatever is behind them. -/
structure Reads (r : Rule α) (P : List α → Prop) : Prop where
  total : Total r
  takes : ∀ text rest, Takes r text rest ↔ P text

/-- No such text stands here. -/
def Stops (P : List α → Prop) (input : List α) : Prop := ∀ text rest, P text → input ≠ text ++ rest

/-- One such text after the other. -/
def Repeated (P : List α → Prop) (text : List α) : Prop :=
  ∃ texts : List (List α), (∀ t ∈ texts, P t) ∧ text = texts.flatten

section Reads

variable {P Q : List α → Prop}

theorem Reads.fails_iff (hr : Reads r P) : Fails r input ↔ Stops P input := by
  constructor
  · rintro h text rest hP rfl
    exact ((hr.takes text rest).mpr hP).not_fails h
  · intro h
    obtain ⟨text, rest, hinput, htakes⟩ | hfails := hr.total.takes_or_fails input
    · exact absurd hinput (h text rest ((hr.takes text rest).mp htakes))
    · exact hfails

/-- One symbol of a class. -/
def IsChar (p : α → Bool) (text : List α) : Prop := ∃ c, p c = true ∧ text = [c]

theorem reads_satisfy (p : α → Bool) : Reads (satisfy p) (IsChar p) :=
  ⟨total_satisfy p, fun _ _ => takes_satisfy_iff⟩

theorem Reads.congr (hr : Reads r P) (h : ∀ text, P text ↔ Q text) : Reads r Q :=
  ⟨hr.total, fun text rest => (hr.takes text rest).trans (h text)⟩

/-- A choice between texts of which none starts another one. -/
theorem Reads.choice (hr : Reads r P) (hs : Reads s Q)
    (hapart : ∀ t u x y, P t → Q u → t ++ x = u ++ y → t = u) :
    Reads (choice r s) fun text => P text ∨ Q text := by
  refine ⟨hr.total.choice hs.total, fun text rest => ?_⟩
  rw [takes_choice_iff, hr.takes, hs.takes, hr.fails_iff]
  constructor
  · rintro (h | ⟨-, h⟩)
    · exact .inl h
    · exact .inr h
  · rintro (h | h)
    · exact .inl h
    · by_cases hstops : Stops P (text ++ rest)
      · exact .inr ⟨hstops, h⟩
      · obtain ⟨t, x, hP, heq⟩ : ∃ t x, P t ∧ text ++ rest = t ++ x := by
          simpa [Stops] using hstops
        obtain rfl := hapart t text x rest hP h heq.symm
        exact .inl hP

theorem Reads.seq (hr : Reads r P) (hs : Reads s Q) :
    Reads (seq r s) fun text => ∃ t u, P t ∧ Q u ∧ text = t ++ u := by
  refine ⟨hr.total.seq hs.total, fun text rest => ?_⟩
  rw [takes_seq_iff]
  constructor
  · rintro ⟨t, u, rfl, ht, hu⟩
    exact ⟨t, u, (hr.takes _ _).mp ht, (hs.takes _ _).mp hu, rfl⟩
  · rintro ⟨t, u, ht, hu, rfl⟩
    exact ⟨t, u, rfl, (hr.takes _ _).mpr ht, (hs.takes _ _).mpr hu⟩

theorem Reads.takes_star_iff (hr : Reads r P) (hne : ∀ t, P t → t ≠ []) :
    Takes (star r) text rest ↔ Repeated P text ∧ Stops P rest := by
  rw [ParsingExpression.takes_star_iff (P := P) (S := fun _ => True) (by simp [hr.takes]) hne
    (by simp), hr.fails_iff, and_comm]
  simp [Repeated]

theorem Reads.total_star (hr : Reads r P) (hne : ∀ t, P t → t ≠ []) : Total (star r) :=
  hr.total.star fun t x h => hne t ((hr.takes t x).mp h)

theorem Reads.takes_plus_iff (hr : Reads r P) (hne : ∀ t, P t → t ≠ []) :
    Takes (plus r) text rest ↔ text ≠ [] ∧ Repeated P text ∧ Stops P rest := by
  rw [plus, takes_seq_iff]
  constructor
  · rintro ⟨t, u, rfl, ht, hu⟩
    rw [hr.takes] at ht
    obtain ⟨⟨us, hus, rfl⟩, hstops⟩ := (hr.takes_star_iff hne).mp hu
    refine ⟨?_, ⟨t :: us, ?_, rfl⟩, hstops⟩
    · simp [hne t ht]
    · simpa [ht] using hus
  · rintro ⟨hnil, ⟨ts, hts, rfl⟩, hstops⟩
    cases ts with
    | nil => exact absurd rfl hnil
    | cons t ts =>
      rw [List.forall_mem_cons] at hts
      exact ⟨t, ts.flatten, rfl, (hr.takes _ _).mpr hts.1,
        (hr.takes_star_iff hne).mpr ⟨⟨ts, hts.2, rfl⟩, hstops⟩⟩

theorem IsChar.ne_nil {p : α → Bool} (h : IsChar p text) : text ≠ [] := by
  obtain ⟨c, -, rfl⟩ := h
  simp

theorem repeated_char_iff {p : α → Bool} : Repeated (IsChar p) text ↔ ∀ c ∈ text, p c = true := by
  constructor
  · rintro ⟨ts, hts, rfl⟩ c hc
    obtain ⟨t, ht, hc⟩ := List.mem_flatten.mp hc
    obtain ⟨d, hd, rfl⟩ := hts t ht
    rwa [List.mem_singleton.mp hc]
  · intro h
    refine ⟨text.map fun c => [c], ?_, by rw [← List.flatMap_def, List.flatMap_singleton']⟩
    intro t ht
    obtain ⟨c, hc, rfl⟩ := List.mem_map.mp ht
    exact ⟨c, h c hc, rfl⟩

theorem Repeated.nil : Repeated P [] := ⟨[], by simp, rfl⟩

theorem Repeated.append {t u : List α} (ht : Repeated P t) (hu : Repeated P u) :
    Repeated P (t ++ u) := by
  obtain ⟨ts, hts, rfl⟩ := ht
  obtain ⟨us, hus, rfl⟩ := hu
  refine ⟨ts ++ us, fun v hv => ?_, by simp⟩
  obtain hv | hv := List.mem_append.mp hv
  · exact hts v hv
  · exact hus v hv

theorem Repeated.mono {t : List α} (ht : Repeated P t) (h : ∀ u, P u → Q u) : Repeated Q t := by
  obtain ⟨ts, hts, rfl⟩ := ht
  exact ⟨ts, fun u hu => h u (hts u hu), rfl⟩

/-- A property of the symbols of every text is one of the symbols of all of them. -/
theorem Repeated.forall_mem {t : List α} {D : α → Prop} (ht : Repeated P t)
    (h : ∀ u, P u → ∀ c ∈ u, D c) : ∀ c ∈ t, D c := by
  obtain ⟨ts, hts, rfl⟩ := ht
  intro c hc
  obtain ⟨u, hu, hc⟩ := List.mem_flatten.mp hc
  exact h u (hts u hu) c hc

theorem stops_nil (hne : ∀ t, P t → t ≠ []) : Stops P [] := by
  intro text rest hP h
  exact hne text hP (List.append_eq_nil_iff.mp h.symm).1

theorem Stops.of_append {x : List α} (h : Stops P (input ++ x)) : Stops P input := by
  rintro text rest hP rfl
  exact h text (rest ++ x) hP (List.append_assoc text rest x)

end Reads

/-- Whatever this starts with is none of those symbols. -/
def Ends (D : α → Bool) (input : List α) : Prop := ∀ c ∈ input.head?, D c = false

/-- More input behind the one that is there. -/
def Outcome.append (o : Outcome α β) (more : List α) : Outcome α β :=
  o.bind fun value rest => .matched value (rest ++ more)

/-- The rule takes symbols of `D` only, and what comes behind them makes no difference
to it. -/
structure Over (D : α → Bool) (r : Rule α) : Prop where
  only : ∀ {text rest}, Takes r text rest → ∀ c ∈ text, D c = true
  run : ∀ input more, Ends D more → r.run (input ++ more) = (r.run input).append more

section Over

variable {D : α → Bool} {more : List α}

theorem ends_nil : Ends D [] := by
  intro c hc
  cases hc

theorem ends_cons_iff {c : α} : Ends D (c :: input) ↔ D c = false := by
  simp [Ends]

theorem Ends.mono {E : α → Bool} (h : Ends E input) (hDE : ∀ c, D c = true → E c = true) :
    Ends D input := by
  intro c hc
  by_contra hD
  have hE := hDE c (by simpa using hD)
  rw [h c hc] at hE
  cases hE

theorem append_eq_matched_iff {o : Outcome α β} {value : β} :
    o.append more = .matched value (rest ++ more) ↔ o = .matched value rest := by
  cases o <;> simp [Outcome.append, Outcome.bind]

theorem append_eq_failed_iff {o : Outcome α β} : o.append more = .failed ↔ o = .failed := by
  cases o <;> simp [Outcome.append, Outcome.bind]

theorem Over.takes_iff (hr : Over D r) (hmore : Ends D more) :
    Takes r text more ↔ Takes r text [] := by
  have h : (r.run text).append more = .matched text ([] ++ more) ↔ r.run text = .matched text [] :=
    append_eq_matched_iff
  rw [Takes, hr.run _ _ hmore, Takes, List.append_nil, ← h, List.nil_append]

theorem Over.fails_iff (hr : Over D r) (hmore : Ends D more) :
    Fails r (input ++ more) ↔ Fails r input := by
  rw [Fails, hr.run _ _ hmore, append_eq_failed_iff, Fails]

theorem Over.mono {E : α → Bool} (hr : Over D r) (hDE : ∀ c, D c = true → E c = true) : Over E r :=
  ⟨fun h c hc => hDE c (hr.only h c hc), fun input more hmore => hr.run input more (hmore.mono hDE)⟩

theorem over_eps : Over D (eps : Rule α) := by
  refine ⟨fun h => ?_, fun _ _ _ => rfl⟩
  rw [takes_eps_iff.mp h]
  exact List.forall_mem_nil _

theorem over_satisfy {p : α → Bool} (hp : ∀ c, p c = true → D c = true) : Over D (satisfy p) := by
  refine ⟨fun h => ?_, fun input more hmore => ?_⟩
  · obtain ⟨c, hc, rfl⟩ := takes_satisfy_iff.mp h
    simpa using hp c hc
  · cases input with
    | nil =>
      cases more with
      | nil => rfl
      | cons c more =>
        have hc : p c = false := by
          by_contra hc
          rw [ends_cons_iff, hp c (by simpa using hc)] at hmore
          cases hmore
        simp [satisfy, hc, Outcome.append, Outcome.bind]
    | cons c input => by_cases hc : p c = true <;> simp [satisfy, hc, Outcome.append, Outcome.bind]

theorem prefix_append_iff {word : List α} (hword : ∀ c ∈ word, D c = true) (hmore : Ends D more) :
    word <+: input ++ more ↔ word <+: input := by
  induction word generalizing input with
  | nil => simp
  | cons c word ih =>
    cases input with
    | nil =>
      cases more with
      | nil => simp
      | cons d more =>
        have hne : c ≠ d := by
          rintro rfl
          rw [ends_cons_iff, hword c List.mem_cons_self] at hmore
          cases hmore
        simp [hne]
    | cons d input => simp [ih fun e he => hword e (List.mem_cons_of_mem c he)]

theorem over_exactly [DecidableEq α] {word : List α} (hword : ∀ c ∈ word, D c = true) :
    Over D (exactly word) := by
  refine ⟨fun h => ?_, fun input more hmore => ?_⟩
  · rwa [takes_exactly_iff.mp h]
  · by_cases hw : word <+: input
    · have hw' := (prefix_append_iff hword hmore).mpr hw
      simp only [exactly, hw, hw', if_true, Outcome.append, Outcome.bind]
      rw [List.drop_append_of_le_length hw.length_le]
    · have hw' : ¬ word <+: input ++ more := fun h => hw ((prefix_append_iff hword hmore).mp h)
      simp [exactly, hw, hw', Outcome.append, Outcome.bind]

theorem Over.seq (hr : Over D r) (hs : Over D s) : Over D (seq r s) := by
  refine ⟨fun h c hc => ?_, fun input more hmore => ?_⟩
  · obtain ⟨t, u, rfl, ht, hu⟩ := takes_seq_iff.mp h
    obtain hc | hc := List.mem_append.mp hc
    · exact hr.only ht c hc
    · exact hs.only hu c hc
  · simp only [ParsingExpression.seq, hr.run input more hmore]
    cases r.run input with
    | matched t m =>
      simp only [Outcome.append, Outcome.bind, hs.run m more hmore]
      cases s.run m <;> rfl
    | failed => rfl
    | diverges => rfl

theorem Over.choice (hr : Over D r) (hs : Over D s) : Over D (choice r s) := by
  refine ⟨fun h => ?_, fun input more hmore => ?_⟩
  · obtain h | ⟨-, h⟩ := takes_choice_iff.mp h
    · exact hr.only h
    · exact hs.only h
  · simp only [ParsingExpression.choice, hr.run input more hmore, hs.run input more hmore]
    cases r.run input <;> rfl

theorem Over.notAt (hr : Over D r) : Over D (notAt r) := by
  refine ⟨fun h => ?_, fun input more hmore => ?_⟩
  · rw [(takes_notAt_iff.mp h).1]
    exact List.forall_mem_nil _
  · simp only [ParsingExpression.notAt, hr.run input more hmore]
    cases r.run input <;> rfl

theorem Over.opt (hr : Over D r) : Over D (opt r) := hr.choice over_eps

theorem Over.times (hr : Over D r) (n : ℕ) : Over D (times n r) := by
  induction n with
  | zero => exact over_eps
  | succ n ih => exact hr.seq ih

theorem Over.upTo (hr : Over D r) (n : ℕ) : Over D (upTo n r) := by
  induction n with
  | zero => exact over_eps
  | succ n ih => exact (hr.seq ih).opt

end Over

end ParsingExpression

end HttpBackground
