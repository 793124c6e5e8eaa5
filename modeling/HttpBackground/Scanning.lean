import Mathlib.Data.List.Basic

/-!
# Scanners

A scanner reads symbols one at a time in a state of its own until it stands in a
stop state, refuses a symbol or has no input left. Where the input runs out the
scan is pending and goes on with the next piece, so a scan of pieces is the scan
of their concatenation. `reads` follows a word that never meets a stop state on
the way: every scan splits its input into such a word and the rest.
-/
namespace HttpBackground

namespace Scanning

variable {σ α : Type*}

inductive Verdict
  | accepted
  | refused
  | pending
  deriving DecidableEq, Repr

/-- How a scan ended, in which state, and the input it has left. -/
structure Outcome (σ α : Type*) where
  verdict : Verdict
  state : σ
  rest : List α
  deriving DecidableEq, Repr

/-- The stop state is looked for before a symbol is read and once more at the
end of the input. -/
def scan (step : σ → α → Option σ) (stop : σ → Bool) (s : σ) : List α → Outcome σ α
  | [] => ⟨if stop s then .accepted else .pending, s, []⟩
  | a :: as =>
    if stop s then ⟨.accepted, s, a :: as⟩
    else
      match step s a with
      | none => ⟨.refused, s, a :: as⟩
      | some s' => scan step stop s' as

/-- The state after a word, none of whose symbols is read in a stop state. -/
def reads (step : σ → α → Option σ) (stop : σ → Bool) (s : σ) : List α → Option σ
  | [] => some s
  | a :: as => if stop s then none else (step s a).bind fun s' => reads step stop s' as

variable {step : σ → α → Option σ} {stop : σ → Bool} {s t : σ} {w as bs : List α}

@[simp] theorem reads_nil : reads step stop s [] = some s := rfl

theorem reads_cons {a : α} (hs : stop s = false) :
    reads step stop s (a :: as) = (step s a).bind fun s' => reads step stop s' as := by
  simp [reads, hs]

theorem reads_cons_some {a : α} {s' : σ} (hs : stop s = false) (h : step s a = some s') :
    reads step stop s (a :: as) = reads step stop s' as := by
  rw [reads_cons hs, h, Option.bind_some]

theorem reads_append (u : List α) :
    reads step stop s (u ++ w) = (reads step stop s u).bind fun t => reads step stop t w := by
  induction u generalizing s with
  | nil => rfl
  | cons a u ih =>
    simp only [List.cons_append, reads]
    by_cases hs : stop s = true
    · simp [hs]
    · cases step s a <;> simp [hs, ih]

/-- The words of two readings, one after the other. -/
theorem reads_trans {u v : List α} {r : σ} (hu : reads step stop s u = some t)
    (hv : reads step stop t v = some r) : reads step stop s (u ++ v) = some r := by
  rw [reads_append, hu, Option.bind_some, hv]

/-- A stop state reads nothing. -/
theorem reads_of_stop (hs : stop s = true) : reads step stop s w = some t ↔ w = [] ∧ s = t := by
  cases w <;> simp [reads, hs]

/-- A run of symbols that all lead back to the state. -/
theorem reads_loop (hs : stop s = false) (h : ∀ a ∈ w, step s a = some s) :
    reads step stop s w = some s := by
  induction w with
  | nil => rfl
  | cons a w ih =>
    rw [reads_cons_some hs (h a List.mem_cons_self)]
    exact ih fun b hb => h b (List.mem_cons_of_mem a hb)

/-- A run of symbols that are collected one after the other. -/
theorem reads_collect {f : List α → σ} (hs : ∀ acc, stop (f acc) = false)
    (h : ∀ acc, ∀ a ∈ w, step (f acc) a = some (f (acc ++ [a])))
    (acc : List α) : reads step stop (f acc) w = some (f (acc ++ w)) := by
  induction w generalizing acc with
  | nil => simp
  | cons a w ih =>
    rw [reads_cons_some (hs acc) (h acc a List.mem_cons_self),
      ih (fun acc b hb => h acc b (List.mem_cons_of_mem a hb)), List.append_assoc,
      List.singleton_append]

/-- A property that every symbol read keeps holds where a word leads. -/
theorem reads_invariant {P : σ → Prop} (hstep : ∀ s a s', P s → step s a = some s' → P s')
    (hs : P s) (h : reads step stop s w = some t) : P t := by
  induction w generalizing s with
  | nil =>
    obtain rfl : s = t := by simpa using h
    exact hs
  | cons a w ih =>
    by_cases hstop : stop s = true
    · simp [reads, hstop] at h
    · simp only [Bool.not_eq_true] at hstop
      rw [reads_cons hstop, Option.bind_eq_some_iff] at h
      obtain ⟨s', ha, hrest⟩ := h
      exact ih (hstep s a s' hs ha) hrest

/-- A word that leads on to a stop state has a first symbol. -/
theorem exists_next (hs : stop s = false) (ht : stop t = true)
    (h : reads step stop s w = some t) :
    ∃ a v s', w = a :: v ∧ step s a = some s' ∧ reads step stop s' v = some t := by
  cases w with
  | nil =>
    obtain rfl : s = t := by simpa using h
    simp [hs] at ht
  | cons a v =>
    rw [reads_cons hs, Option.bind_eq_some_iff] at h
    obtain ⟨s', hstep, hrest⟩ := h
    exact ⟨a, v, s', rfl, hstep, hrest⟩

/-- A word that leads to a stop state leaves the state it starts in: first the
symbols that stay there, then the one that leaves. -/
theorem exists_leave [DecidableEq σ] (hs : stop s = false) (ht : stop t = true)
    (h : reads step stop s w = some t) :
    ∃ u a v s', w = u ++ a :: v ∧ (∀ b ∈ u, step s b = some s) ∧ step s a = some s' ∧ s' ≠ s ∧
      reads step stop s' v = some t := by
  induction w with
  | nil =>
    obtain rfl : s = t := by simpa using h
    simp [hs] at ht
  | cons a w ih =>
    rw [reads_cons hs, Option.bind_eq_some_iff] at h
    obtain ⟨s', hstep, hrest⟩ := h
    by_cases hne : s' = s
    · subst hne
      obtain ⟨u, b, v, s'', rfl, hu, hb, hne, hv⟩ := ih hrest
      refine ⟨a :: u, b, v, s'', rfl, ?_, hb, hne, hv⟩
      intro c hc
      rcases List.mem_cons.mp hc with rfl | hc
      · exact hstep
      · exact hu c hc
    · exact ⟨[], a, w, s', rfl, by simp, hstep, hne, hrest⟩

theorem scan_stop (hs : stop s = true) (as : List α) :
    scan step stop s as = ⟨.accepted, s, as⟩ := by
  cases as <;> simp [scan, hs]

/-- Reading a word first changes nothing but the state to go on from. -/
theorem scan_of_reads (h : reads step stop s w = some t) (as : List α) :
    scan step stop s (w ++ as) = scan step stop t as := by
  induction w generalizing s with
  | nil =>
    obtain rfl : s = t := by simpa using h
    rfl
  | cons a w ih =>
    have hs : stop s = false := by
      by_contra hs
      simp [reads, hs] at h
    rw [reads_cons hs, Option.bind_eq_some_iff] at h
    obtain ⟨s', hstep, hrest⟩ := h
    simp only [List.cons_append, scan, hs, Bool.false_eq_true, if_false, hstep]
    exact ih hrest

/-- Every scan has read a word of its input and leaves the rest. -/
theorem exists_reads (step : σ → α → Option σ) (stop : σ → Bool) (s : σ) (as : List α) :
    ∃ w, as = w ++ (scan step stop s as).rest ∧
      reads step stop s w = some (scan step stop s as).state := by
  induction as generalizing s with
  | nil => exact ⟨[], rfl, rfl⟩
  | cons a as ih =>
    by_cases hs : stop s = true
    · exact ⟨[], by simp [scan_stop hs], by simp [scan_stop hs]⟩
    · simp only [Bool.not_eq_true] at hs
      cases hstep : step s a with
      | none => exact ⟨[], by simp [scan, hs, hstep], by simp [scan, hs, hstep]⟩
      | some s' =>
        obtain ⟨w, hw, hreads⟩ := ih s'
        refine ⟨a :: w, ?_, ?_⟩
        · simpa [scan, hs, hstep] using hw
        · simpa [scan, hs, hstep, reads] using hreads

theorem accepted_iff : (scan step stop s as).verdict = .accepted ↔
    stop (scan step stop s as).state = true := by
  induction as generalizing s with
  | nil => by_cases hs : stop s = true <;> simp [scan, hs]
  | cons a as ih =>
    by_cases hs : stop s = true
    · simp [scan_stop hs, hs]
    · cases hstep : step s a <;> simp [scan, hs, hstep, ih]

theorem rest_of_pending (h : (scan step stop s as).verdict = .pending) :
    (scan step stop s as).rest = [] := by
  induction as generalizing s with
  | nil => rfl
  | cons a as ih =>
    by_cases hs : stop s = true
    · simp [scan_stop hs] at h
    · cases hstep : step s a with
      | none => simp [scan, hs, hstep] at h
      | some s' =>
        simp only [scan, hs, Bool.false_eq_true, if_false, hstep] at h ⊢
        exact ih h

/-- A scan that accepts is a word to a stop state, and the rest. -/
theorem scan_eq_accepted_iff {rest : List α} : scan step stop s as = ⟨.accepted, t, rest⟩ ↔
    ∃ w, as = w ++ rest ∧ reads step stop s w = some t ∧ stop t = true := by
  constructor
  · intro h
    obtain ⟨w, hw, hreads⟩ := exists_reads step stop s as
    have hstop := accepted_iff.mp (congrArg Outcome.verdict h)
    rw [h] at hw hreads hstop
    exact ⟨w, hw, hreads, hstop⟩
  · rintro ⟨w, rfl, hreads, hstop⟩
    rw [scan_of_reads hreads, scan_stop hstop]

/-- A pending scan goes on with the next piece. -/
theorem scan_append_pending (h : (scan step stop s as).verdict = .pending) :
    scan step stop s (as ++ bs) = scan step stop (scan step stop s as).state bs := by
  obtain ⟨w, hw, hreads⟩ := exists_reads step stop s as
  rw [rest_of_pending h, List.append_nil] at hw
  rw [← hw] at hreads
  exact scan_of_reads hreads bs

/-- A scan that has ended only has more input left. -/
theorem scan_append_settled (h : (scan step stop s as).verdict ≠ .pending) :
    scan step stop s (as ++ bs) =
      { scan step stop s as with rest := (scan step stop s as).rest ++ bs } := by
  induction as generalizing s with
  | nil =>
    have hs : stop s = true := by
      by_contra hs
      simp [scan, hs] at h
    simp [scan_stop hs]
  | cons a as ih =>
    by_cases hs : stop s = true
    · simp [scan_stop hs]
    · cases hstep : step s a with
      | none => simp [scan, hs, hstep]
      | some s' =>
        simp only [List.cons_append, scan, hs, Bool.false_eq_true, if_false, hstep] at h ⊢
        exact ih h

end Scanning

end HttpBackground
