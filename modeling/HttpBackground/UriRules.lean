import HttpBackground.UriGrammar

/-!
# What the rules of the grammar accept

For each rule the texts it takes, and what has to be behind them: the rules are
greedy, so a text ends where no character of it could come next. The classes of
characters come first, then the parts of a URL, and last the host.
-/
namespace HttpBackground

namespace UriGrammar

open ParsingExpression StdString ChunkedBody

def isUnreserved (c : UInt8) : Bool := isAlnum c || (lit "-._~").contains c

/-- The characters of `encodedOr`. -/
def isEncoded (more : String) (c : UInt8) : Bool :=
  isUnreserved c || ((lit "!$&'()*+,;=").contains c || (lit more).contains c)

/-- The characters of a query and of a fragment. -/
def isQueryChar (c : UInt8) : Bool := isEncoded ":@" c || (lit "/?").contains c

/-- A character, or an escape of one. -/
def IsUnit (p : UInt8 → Bool) (text : StdString) : Prop :=
  IsChar p text ∨ ∃ a b, isHexDigit a = true ∧ isHexDigit b = true ∧ text = ['%'.toUInt8, a, b]

theorem IsUnit.ne_nil {p : UInt8 → Bool} {text : StdString} (h : IsUnit p text) : text ≠ [] := by
  obtain ⟨c, -, rfl⟩ | ⟨a, b, -, -, rfl⟩ := h
  · simp
  · simp

theorem IsUnit.mono {p q : UInt8 → Bool} {text : StdString} (h : IsUnit p text)
    (hpq : ∀ c, p c = true → q c = true) : IsUnit q text := by
  obtain ⟨c, hc, rfl⟩ | h := h
  · exact .inl ⟨c, hpq c hc, rfl⟩
  · exact .inr h

/-- No unit starts another one. -/
theorem IsUnit.apart {p q : UInt8 → Bool} (hp : p '%'.toUInt8 = false)
    (hq : q '%'.toUInt8 = false) (t u x y : StdString) (ht : IsUnit p t) (hu : IsUnit q u)
    (h : t ++ x = u ++ y) : t = u := by
  obtain ⟨c, hc, rfl⟩ | ⟨a, b, -, -, rfl⟩ := ht
  · obtain ⟨d, -, rfl⟩ | ⟨a, b, -, -, rfl⟩ := hu
    · simpa using (List.cons.inj h).1
    · rw [(List.cons.inj h).1, hp] at hc
      cases hc
  · obtain ⟨d, hd, rfl⟩ | ⟨a', b', -, -, rfl⟩ := hu
    · rw [← (List.cons.inj h).1, hq] at hd
      cases hd
    · simp only [List.cons_append, List.nil_append, List.cons.injEq, true_and] at h
      rw [h.1, h.2.1]

theorem IsUnit.char {p : UInt8 → Bool} {t : StdString} (h : IsChar p t) : IsUnit p t := .inl h

theorem IsUnit.mem {p : UInt8 → Bool} {t : StdString} (ht : IsUnit p t)
    (hhex : ∀ c, isHexDigit c = true → p c = true) :
    ∀ c ∈ t, p c = true ∨ c = '%'.toUInt8 := by
  obtain ⟨c, hc, rfl⟩ | ⟨a, b, ha, hb, rfl⟩ := ht
  · simp [hc]
  · simp [hhex a ha, hhex b hb]

theorem isEncoded_of_hexDigit {more : String} {c : UInt8} (h : isHexDigit c = true) :
    isEncoded more c = true := by
  have halnum : isAlnum c = true := by
    simp only [isHexDigit, isAlnum, isAlpha, Bool.or_eq_true, Bool.and_eq_true,
      decide_eq_true_eq] at h ⊢
    obtain (h | ⟨h, h'⟩) | ⟨h, h'⟩ := h
    · exact .inl h
    · exact .inr (.inl ⟨h, UInt8.le_trans h' (by decide)⟩)
    · exact .inr (.inr ⟨h, UInt8.le_trans h' (by decide)⟩)
  simp [isEncoded, isUnreserved, halnum]

theorem reads_charIn (set : String) : Reads (charIn set) (IsChar fun c => (lit set).contains c) :=
  reads_satisfy _

/-- A choice of two classes of characters. -/
theorem reads_choice_char {r s : Rule UInt8} {p q : UInt8 → Bool} (hr : Reads r (IsChar p))
    (hs : Reads s (IsChar q)) : Reads (choice r s) (IsChar fun c => p c || q c) := by
  refine (hr.choice hs ?_).congr fun text => ?_
  · rintro t u x y ⟨c, -, rfl⟩ ⟨d, -, rfl⟩ h
    simpa using (List.cons.inj h).1
  · simp only [IsChar, Bool.or_eq_true]
    constructor
    · rintro (⟨c, hc, rfl⟩ | ⟨c, hc, rfl⟩)
      · exact ⟨c, .inl hc, rfl⟩
      · exact ⟨c, .inr hc, rfl⟩
    · rintro ⟨c, hc | hc, rfl⟩
      · exact .inl ⟨c, hc, rfl⟩
      · exact .inr ⟨c, hc, rfl⟩

theorem reads_unreserved : Reads unreserved (IsChar isUnreserved) :=
  reads_choice_char (reads_satisfy _) (reads_charIn _)

theorem reads_pctEncoded : Reads pctEncoded fun text =>
    ∃ a b, isHexDigit a = true ∧ isHexDigit b = true ∧ text = ['%'.toUInt8, a, b] := by
  have hempty : Reads (times 0 (satisfy isHexDigit)) (· = []) :=
    ⟨total_eps, fun _ _ => takes_eps_iff⟩
  refine ((reads_charIn "%").seq ((reads_satisfy isHexDigit).seq
    ((reads_satisfy isHexDigit).seq hempty))).congr fun text => ?_
  have hpercent : lit "%" = ['%'.toUInt8] := by decide
  constructor
  · rintro ⟨t, u, ⟨c, hc, rfl⟩, ⟨v, w, ⟨a, ha, rfl⟩, ⟨x, y, ⟨b, hb, rfl⟩, rfl, rfl⟩, rfl⟩, rfl⟩
    obtain rfl : c = '%'.toUInt8 := by simpa [hpercent] using hc
    exact ⟨a, b, ha, hb, rfl⟩
  · rintro ⟨a, b, ha, hb, rfl⟩
    exact ⟨['%'.toUInt8], [a, b], ⟨_, by simp [hpercent], rfl⟩,
      ⟨[a], [b], ⟨a, ha, rfl⟩, ⟨[b], [], ⟨b, hb, rfl⟩, rfl, rfl⟩, rfl⟩, rfl⟩

theorem reads_encodedOr {more : String} (hmore : (lit more).contains '%'.toUInt8 = false) :
    Reads (encodedOr more) (IsUnit (isEncoded more)) := by
  have hsub : (lit "!$&'()*+,;=").contains '%'.toUInt8 = false := by decide
  have hunreserved : isUnreserved '%'.toUInt8 = false := by decide
  have hplain := reads_choice_char (reads_charIn "!$&'()*+,;=") (reads_charIn more)
  have hescaped := reads_pctEncoded.choice hplain fun t u x y ht hu =>
    IsUnit.apart hunreserved (Bool.or_eq_false_iff.mpr ⟨hsub, hmore⟩) t u x y (.inr ht) (.inl hu)
  have hapart : ∀ t u x y, IsChar isUnreserved t →
      (∃ a b, isHexDigit a = true ∧ isHexDigit b = true ∧ u = ['%'.toUInt8, a, b]) ∨
        IsChar (fun c => (lit "!$&'()*+,;=").contains c || (lit more).contains c) u →
      t ++ x = u ++ y → t = u := fun t u x y ht hu =>
    IsUnit.apart hunreserved (Bool.or_eq_false_iff.mpr ⟨hsub, hmore⟩) t u x y (.inl ht) hu.symm
  refine (reads_unreserved.choice hescaped hapart).congr fun text => ?_
  simp only [IsUnit, IsChar, isEncoded, Bool.or_eq_true]
  constructor
  · rintro (⟨c, hc, rfl⟩ | h | ⟨c, hc, rfl⟩)
    · exact .inl ⟨c, .inl hc, rfl⟩
    · exact .inr h
    · exact .inl ⟨c, .inr hc, rfl⟩
  · rintro (⟨c, hc | hc, rfl⟩ | h)
    · exact .inl ⟨c, hc, rfl⟩
    · exact .inr (.inr ⟨c, hc, rfl⟩)
    · exact .inr (.inl h)

theorem reads_pchar : Reads pchar (IsUnit (isEncoded ":@")) := reads_encodedOr (by decide)

theorem reads_queryUnit : Reads (choice pchar (charIn "/?")) (IsUnit isQueryChar) := by
  have hpchar : isEncoded ":@" '%'.toUInt8 = false := by decide
  have hmore : (lit "/?").contains '%'.toUInt8 = false := by decide
  refine (reads_pchar.choice (reads_charIn "/?") fun t u x y ht hu =>
    IsUnit.apart hpchar hmore t u x y ht (.inl hu)).congr fun text => ?_
  simp only [IsUnit, IsChar, isQueryChar, Bool.or_eq_true]
  constructor
  · rintro ((⟨c, hc, rfl⟩ | h) | ⟨c, hc, rfl⟩)
    · exact .inl ⟨c, .inl hc, rfl⟩
    · exact .inr h
    · exact .inl ⟨c, .inr hc, rfl⟩
  · rintro (⟨c, hc | hc, rfl⟩ | h)
    · exact .inl (.inl ⟨c, hc, rfl⟩)
    · exact .inr ⟨c, hc, rfl⟩
    · exact .inl (.inr h)

/-- What is left is empty or starts with one of these characters. -/
def Next (set : String) (input : StdString) : Prop :=
  ∀ c ∈ input.head?, (lit set).contains c = true

section Next

variable {set : String} {input : StdString} {p : UInt8 → Bool}

theorem Next.of_empty : Next set [] := by
  intro c hc
  cases hc

theorem Next.of_cons {c : UInt8} (hc : (lit set).contains c = true) : Next set (c :: input) := by
  intro d hd
  obtain rfl : c = d := by simpa using hd
  exact hc

theorem Next.ends (h : Next set input) (hp : ((lit set).all fun c => p c == false) = true) :
    Ends p input := by
  intro c hc
  exact forall_mem_of_all hp c (by simpa using h c hc)

theorem stops_char_iff : Stops (IsChar p) input ↔ Ends p input := by
  cases input with
  | nil => exact ⟨fun _ => ends_nil, fun _ => stops_nil fun _ ht => ht.ne_nil⟩
  | cons c input =>
    rw [ends_cons_iff]
    constructor
    · intro h
      by_contra hc
      exact h [c] input ⟨c, by simpa using hc, rfl⟩ rfl
    · rintro hc text rest ⟨d, hd, rfl⟩ h
      rw [(List.cons.inj h).1, hd] at hc
      cases hc

theorem stops_unit (h : Ends p input) (hpercent : Ends (· == '%'.toUInt8) input) :
    Stops (IsUnit p) input := by
  rintro text rest (ht | ⟨a, b, -, -, rfl⟩) rfl
  · exact stops_char_iff.mpr h text rest ht rfl
  · have := hpercent '%'.toUInt8 rfl
    simp at this

theorem ends_of_stops_unit (h : Stops (IsUnit p) input) : Ends p input :=
  stops_char_iff.mp fun text rest ht => h text rest (.inl ht)

theorem Next.stops (h : Next set input) (hp : ((lit set).all fun c => p c == false) = true)
    (hpercent : ((lit set).all fun c => (c == '%'.toUInt8) == false) = true) :
    Stops (IsUnit p) input :=
  stops_unit (h.ends hp) (h.ends hpercent)

end Next

/-- A letter, and letters, digits and `+.-`. -/
def IsScheme (text : StdString) : Prop :=
  ∃ c more, isAlpha c = true ∧ (∀ d ∈ more, (isAlnum d || (lit "+.-").contains d) = true) ∧
    text = c :: more

/-- A segment of a path. -/
def IsSegment (text : StdString) : Prop := Repeated (IsUnit (isEncoded ":@")) text

/-- Segments, each behind a slash. -/
def IsSegments (text : StdString) : Prop :=
  Repeated (fun t => ∃ s, IsSegment s ∧ t = '/'.toUInt8 :: s) text

/-- A segment that is not empty, and segments behind it. -/
def IsRootless (text : StdString) : Prop :=
  ∃ s more, s ≠ [] ∧ IsSegment s ∧ IsSegments more ∧ text = s ++ more

/-- A path without an authority in front of it. -/
def IsPath (text : StdString) : Prop :=
  text = [] ∨ IsRootless text ∨ text = ['/'.toUInt8] ∨
    ∃ s, IsRootless s ∧ text = '/'.toUInt8 :: s

def IsQuery (text : StdString) : Prop := Repeated (IsUnit isQueryChar) text

section Parts

variable {text rest : StdString}

theorem takes_charIn_one {set : String} {d : UInt8} (hset : lit set = [d]) :
    Takes (charIn set) text rest ↔ text = [d] := by
  rw [(reads_charIn set).takes, IsChar, hset]
  simp

theorem fails_charIn_one {set : String} {d : UInt8} (hset : lit set = [d]) {input : StdString} :
    Fails (charIn set) input ↔ Ends (· == d) input := by
  rw [(reads_charIn set).fails_iff, stops_char_iff, hset]
  have hclass : (fun c => [d].contains c) = (· == d) := by
    funext c
    exact Bool.eq_iff_iff.mpr (by simp)
  rw [hclass]

theorem takes_scheme_iff : Takes scheme text rest ↔
    IsScheme text ∧ Ends (fun d => isAlnum d || (lit "+.-").contains d) rest := by
  have hstar : ∀ t x, Takes (star (choice (satisfy isAlnum) (charIn "+.-"))) t x ↔
      Repeated (IsChar fun d => isAlnum d || (lit "+.-").contains d) t ∧
        Stops (IsChar fun d => isAlnum d || (lit "+.-").contains d) x := fun t x =>
    (reads_choice_char (reads_satisfy isAlnum) (reads_charIn "+.-")).takes_star_iff
      fun _ => IsChar.ne_nil
  rw [scheme, takes_seq_iff]
  constructor
  · rintro ⟨t, u, rfl, ht, hu⟩
    obtain ⟨c, hc, rfl⟩ := takes_satisfy_iff.mp ht
    obtain ⟨hu, hends⟩ := (hstar _ _).mp hu
    exact ⟨⟨c, u, hc, repeated_char_iff.mp hu, rfl⟩, stops_char_iff.mp hends⟩
  · rintro ⟨⟨c, more, hc, hmore, rfl⟩, hends⟩
    exact ⟨[c], more, rfl, takes_satisfy_iff.mpr ⟨c, hc, rfl⟩,
      (hstar _ _).mpr ⟨repeated_char_iff.mpr hmore, stops_char_iff.mpr hends⟩⟩

theorem takes_port_iff : Takes port text rest ↔
    (∀ c ∈ text, isDigit c = true) ∧ Ends isDigit rest := by
  rw [port, (reads_satisfy isDigit).takes_star_iff fun t ht => ht.ne_nil, repeated_char_iff,
    stops_char_iff]

theorem takes_segment_iff : Takes segment text rest ↔
    IsSegment text ∧ Stops (IsUnit (isEncoded ":@")) rest :=
  reads_pchar.takes_star_iff fun _ => IsUnit.ne_nil

theorem takes_segmentNz_iff : Takes segmentNz text rest ↔
    text ≠ [] ∧ IsSegment text ∧ Stops (IsUnit (isEncoded ":@")) rest :=
  reads_pchar.takes_plus_iff fun _ => IsUnit.ne_nil

theorem takes_query_iff : Takes query text rest ↔
    IsQuery text ∧ Stops (IsUnit isQueryChar) rest :=
  reads_queryUnit.takes_star_iff fun _ => IsUnit.ne_nil

theorem lit_slash : lit "/" = ['/'.toUInt8] := by decide

theorem stops_slash {p : UInt8 → Bool} (hp : p '/'.toUInt8 = false) (input : StdString) :
    Stops (IsUnit p) ('/'.toUInt8 :: input) :=
  stops_unit (ends_cons_iff.mpr hp) (ends_cons_iff.mpr (by decide))

theorem takes_segments_iff : Takes segments text rest ↔ IsSegments text ∧
    Ends (· == '/'.toUInt8) rest ∧ (text ≠ [] → Stops (IsUnit (isEncoded ":@")) rest) := by
  have hone : ∀ t x, Takes (seq (charIn "/") segment) t x ↔
      (∃ s, IsSegment s ∧ t = '/'.toUInt8 :: s) ∧ Stops (IsUnit (isEncoded ":@")) x := by
    intro t x
    rw [takes_seq_iff]
    constructor
    · rintro ⟨u, s, rfl, hu, hs⟩
      obtain rfl := (takes_charIn_one lit_slash).mp hu
      obtain ⟨hs, hstops⟩ := takes_segment_iff.mp hs
      exact ⟨⟨s, hs, rfl⟩, hstops⟩
    · rintro ⟨⟨s, hs, rfl⟩, hstops⟩
      exact ⟨['/'.toUInt8], s, rfl, (takes_charIn_one lit_slash).mpr rfl,
        takes_segment_iff.mpr ⟨hs, hstops⟩⟩
  have hfails : ∀ x, Fails (seq (charIn "/") segment) x ↔ Ends (· == '/'.toUInt8) x := by
    intro x
    rw [fails_seq_iff, fails_charIn_one lit_slash]
    constructor
    · rintro (h | ⟨_, m, -, -, h⟩)
      · exact h
      · exact absurd h not_fails_star
    · exact .inl
  rw [segments, ParsingExpression.takes_star_iff hone, hfails]
  · constructor
    · rintro ⟨hends, ts, hts, rfl, hstops⟩
      exact ⟨⟨ts, hts, rfl⟩, hends, fun hne => hstops fun hnil => hne (by rw [hnil]; rfl)⟩
    · rintro ⟨⟨ts, hts, rfl⟩, hends, hstops⟩
      refine ⟨hends, ts, hts, rfl, fun hne => hstops ?_⟩
      obtain ⟨t, ts, rfl⟩ := List.exists_cons_of_ne_nil hne
      obtain ⟨s, -, rfl⟩ := hts t List.mem_cons_self
      simp
  · rintro t ⟨s, -, rfl⟩
    simp
  · rintro t x ⟨s, -, rfl⟩
    exact stops_slash (by decide) _

theorem IsSegment.mem {c : UInt8} (ht : IsSegment text) (hc : c ∈ text) :
    isEncoded ":@" c = true ∨ c = '%'.toUInt8 :=
  ht.forall_mem (fun _ hu => hu.mem fun _ => isEncoded_of_hexDigit) c hc

/-- A segment does not start with a slash. -/
theorem ends_slash_of_segment (ht : IsSegment text) (hne : text ≠ []) (rest : StdString) :
    Ends (· == '/'.toUInt8) (text ++ rest) := by
  obtain ⟨c, text, rfl⟩ := List.exists_cons_of_ne_nil hne
  rw [List.cons_append, ends_cons_iff, beq_eq_false_iff_ne]
  rintro rfl
  have := ht.mem List.mem_cons_self
  revert this
  decide

theorem isRootless_of_takes (h : Takes pathRootless text rest) : IsRootless text := by
  obtain ⟨s, more, rfl, hs, hmore⟩ := takes_seq_iff.mp h
  obtain ⟨hne, hs, -⟩ := takes_segmentNz_iff.mp hs
  exact ⟨s, more, hne, hs, (takes_segments_iff.mp hmore).1, rfl⟩

theorem takes_segments (h : IsSegments text) (hrest : Next "?#" rest) :
    Takes segments text rest :=
  takes_segments_iff.mpr ⟨h, hrest.ends (by decide), fun _ => hrest.stops (by decide) (by decide)⟩

theorem stops_segments {p : UInt8 → Bool} (hp : p '/'.toUInt8 = false) (ht : IsSegments text)
    (hrest : Stops (IsUnit p) rest) : Stops (IsUnit p) (text ++ rest) := by
  obtain ⟨ts, hts, rfl⟩ := ht
  cases ts with
  | nil => exact hrest
  | cons t ts =>
    obtain ⟨s, -, rfl⟩ := hts t List.mem_cons_self
    exact stops_slash hp _

theorem takes_pathRootless (h : IsRootless text) (hrest : Next "?#" rest) :
    Takes pathRootless text rest := by
  obtain ⟨s, more, hne, hs, hmore, rfl⟩ := h
  exact takes_seq_iff.mpr ⟨s, more, rfl, takes_segmentNz_iff.mpr ⟨hne, hs,
    stops_segments (by decide) hmore (hrest.stops (by decide) (by decide))⟩,
    takes_segments hmore hrest⟩

theorem fails_pathRootless_iff {input : StdString} :
    Fails pathRootless input ↔ Stops (IsUnit (isEncoded ":@")) input := by
  rw [pathRootless, fails_seq_iff, segmentNz, plus, fails_seq_iff, reads_pchar.fails_iff]
  constructor
  · rintro ((h | ⟨_, _, -, -, h⟩) | ⟨_, _, -, -, h⟩)
    · exact h
    · exact absurd h not_fails_star
    · exact absurd h not_fails_star
  · exact fun h => .inl (.inl h)

theorem not_fails_opt {r : Rule UInt8} {input : StdString} : ¬ Fails (opt r) input := by
  intro h
  have := (fails_choice_iff.mp h).2
  cases this

theorem fails_pathAbsolute_iff {input : StdString} :
    Fails pathAbsolute input ↔ Ends (· == '/'.toUInt8) input := by
  rw [pathAbsolute, fails_seq_iff, fails_charIn_one lit_slash]
  constructor
  · rintro (h | ⟨_, _, -, -, h⟩)
    · exact h
    · exact absurd h not_fails_opt
  · exact .inl

theorem isPath_of_takes (h : Takes anyPath text rest) : IsPath text := by
  obtain h | ⟨-, h⟩ := takes_choice_iff.mp h
  · obtain ⟨t, s, rfl, ht, hs⟩ := takes_seq_iff.mp h
    obtain rfl := (takes_charIn_one lit_slash).mp ht
    obtain hs | ⟨-, rfl⟩ := takes_opt_iff.mp hs
    · exact .inr (.inr (.inr ⟨s, isRootless_of_takes hs, rfl⟩))
    · exact .inr (.inr (.inl rfl))
  · obtain h | ⟨-, h⟩ := takes_choice_iff.mp h
    · exact .inr (.inl (isRootless_of_takes h))
    · exact .inl (takes_eps_iff.mp h)

theorem takes_anyPath (h : IsPath text) (hrest : Next "?#" rest) : Takes anyPath text rest := by
  have hstops : Stops (IsUnit (isEncoded ":@")) rest := hrest.stops (by decide) (by decide)
  have habsolute : ∀ s, Takes (opt pathRootless) s rest →
      Takes anyPath ('/'.toUInt8 :: s) rest := fun s hs =>
    takes_choice_iff.mpr (.inl (takes_seq_iff.mpr
      ⟨['/'.toUInt8], s, rfl, (takes_charIn_one lit_slash).mpr rfl, hs⟩))
  obtain rfl | h | rfl | ⟨s, hs, rfl⟩ := h
  · exact takes_choice_iff.mpr (.inr ⟨fails_pathAbsolute_iff.mpr (hrest.ends (by decide)),
      takes_choice_iff.mpr (.inr ⟨fails_pathRootless_iff.mpr hstops, takes_eps_iff.mpr rfl⟩)⟩)
  · obtain ⟨s, more, hne, hs, -, htext⟩ := id h
    refine takes_choice_iff.mpr (.inr ⟨fails_pathAbsolute_iff.mpr ?_,
      takes_choice_iff.mpr (.inl (takes_pathRootless h hrest))⟩)
    rw [htext, List.append_assoc]
    exact ends_slash_of_segment hs hne _
  · exact habsolute [] (takes_opt_iff.mpr (.inr ⟨fails_pathRootless_iff.mpr hstops, rfl⟩))
  · exact habsolute s (takes_opt_iff.mpr (.inl (takes_pathRootless hs hrest)))

theorem total_segments : Total segments := by
  refine ((reads_charIn "/").total.seq (reads_pchar.total_star fun _ => IsUnit.ne_nil)).star ?_
  intro t x h
  obtain ⟨u, s, rfl, hu, -⟩ := takes_seq_iff.mp h
  rw [(takes_charIn_one lit_slash).mp hu]
  simp

theorem total_pathRootless : Total pathRootless :=
  (reads_pchar.total.seq (reads_pchar.total_star fun _ => IsUnit.ne_nil)).seq total_segments

theorem total_anyPath : Total anyPath :=
  ((reads_charIn "/").total.seq total_pathRootless.opt).choice
    (total_pathRootless.choice total_eps)

theorem not_fails_anyPath {input : StdString} : ¬ Fails anyPath input := by
  intro h
  have := (fails_choice_iff.mp (fails_choice_iff.mp h).2).2
  cases this

/-- A path without an authority never looks like one with an authority. -/
theorem IsPath.not_slashes (h : IsPath text) (hrest : Next "?#" rest) :
    ¬ lit "//" <+: text ++ rest := by
  have hlit : lit "//" = ['/'.toUInt8, '/'.toUInt8] := by decide
  have hends : ∀ x, Ends (· == '/'.toUInt8) x → ¬ lit "//" <+: '/'.toUInt8 :: x := by
    rintro x hx hprefix
    rw [hlit, List.cons_prefix_cons] at hprefix
    cases x with
    | nil => simp at hprefix
    | cons c x =>
      rw [ends_cons_iff] at hx
      rw [List.cons_prefix_cons] at hprefix
      simp [← hprefix.2.1] at hx
  have hnot : ∀ x, Ends (· == '/'.toUInt8) x → ¬ lit "//" <+: x := by
    rintro x hx hprefix
    cases x with
    | nil => simp [hlit] at hprefix
    | cons c x =>
      rw [hlit, List.cons_prefix_cons] at hprefix
      rw [ends_cons_iff] at hx
      simp [← hprefix.1] at hx
  obtain rfl | ⟨s, more, hne, hs, -, rfl⟩ | rfl | ⟨_, ⟨s, more, hne, hs, -, rfl⟩, rfl⟩ := h
  · exact hnot _ (hrest.ends (by decide))
  · rw [List.append_assoc]
    exact hnot _ (ends_slash_of_segment hs hne _)
  · exact hends _ (hrest.ends (by decide))
  · rw [List.cons_append, List.append_assoc]
    exact hends _ (ends_slash_of_segment hs hne _)

end Parts

/-- What the parser of a decimal number is relied on for: it returns, it takes digits
and looks at nothing behind them, and it takes its digits when they stand alone. -/
structure IsOctet (octet : Rule UInt8) : Prop where
  total : Total octet
  digits : Over isDigit octet
  alone : ∀ {text rest}, Takes octet text rest → Takes octet text []

/-- The digits a parser of an octet looks at. -/
def octetDigits (input : StdString) : StdString := (input.takeWhile isDigit).take 3

/-- Such a parser, which fails above 255. -/
def decimalOctet : Rule UInt8 where
  run input :=
    let digits := octetDigits input
    if digits.isEmpty || decide (255 < digits.foldl (fun n c => 10 * n + (c.toNat - 48)) 0) then
      .failed
    else .matched digits (input.drop digits.length)
  splits {input text rest} h := by
    have hprefix : octetDigits input <+: input :=
      (List.take_prefix _ _).trans (List.takeWhile_prefix _)
    simp only at h
    split at h
    · cases h
    · obtain ⟨rfl, rfl⟩ := Outcome.matched.inj h
      exact List.prefix_iff_eq_append.mp hprefix

theorem octetDigits_append {input more : StdString} (hmore : Ends isDigit more) :
    octetDigits (input ++ more) = octetDigits input := by
  have hnone : more.takeWhile isDigit = [] := by
    cases more with
    | nil => rfl
    | cons c more => simp [ends_cons_iff.mp hmore]
  rw [octetDigits, List.takeWhile_append, hnone, List.append_nil, octetDigits]
  split
  · rename_i hlength
    rw [(List.takeWhile_prefix isDigit).eq_of_length hlength]
  · rfl

theorem takes_decimalOctet {text rest : StdString} (h : Takes decimalOctet text rest) :
    text = octetDigits (text ++ rest) ∧ (text.isEmpty ||
      decide (255 < text.foldl (fun n c => 10 * n + (c.toNat - 48)) 0)) = false := by
  simp only [Takes, decimalOctet] at h
  split at h
  · cases h
  · rename_i hdigits
    obtain ⟨heq, -⟩ := Outcome.matched.inj h
    rw [heq] at hdigits
    exact ⟨heq.symm, by simpa using hdigits⟩

theorem isOctet_decimalOctet : IsOctet decimalOctet := by
  have hdigits : ∀ input, ∀ c ∈ octetDigits input, isDigit c = true := fun input c hc =>
    List.mem_takeWhile_imp (List.mem_of_mem_take hc)
  refine ⟨fun input h => ?_, ⟨fun {text rest} h c hc => ?_, fun input more hmore => ?_⟩,
    fun {text rest} h => ?_⟩
  · simp only [Diverges, decimalOctet] at h
    split at h <;> cases h
  · rw [(takes_decimalOctet h).1] at hc
    exact hdigits _ c hc
  · have hprefix : octetDigits input <+: input :=
      (List.take_prefix _ _).trans (List.takeWhile_prefix _)
    simp only [decimalOctet, octetDigits_append hmore]
    split
    · rfl
    · rw [List.drop_append_of_le_length hprefix.length_le]
      rfl
  · obtain ⟨heq, hvalue⟩ := takes_decimalOctet h
    have hself : octetDigits text = text := by
      have hall : text.takeWhile isDigit = text :=
        List.takeWhile_eq_self_iff.mpr fun c hc => hdigits _ c (heq ▸ hc)
      have hlength : text.length ≤ 3 := by
        rw [heq]
        exact List.length_take_le 3 _
      rw [octetDigits, hall, List.take_of_length_le hlength]
    simp only [Takes, List.append_nil, decimalOctet, hself, hvalue, Bool.false_eq_true, if_false,
      List.drop_length]

/-- A host is an address in brackets, a dotted address, or a name that does not start
with a dotted address. -/
def IsHost (octet : Rule UInt8) (text : StdString) : Prop :=
  (∃ t, Takes (ipv6Leading octet) t [] ∧ text = '['.toUInt8 :: (t ++ [']'.toUInt8])) ∨
    Takes (ipv4address octet) text [] ∨
    Repeated (IsUnit (isEncoded "")) text ∧ Fails (ipv4address octet) text

section Host

variable {octet : Rule UInt8} {text rest input : StdString}

def isDotted (c : UInt8) : Bool := isDigit c || c == '.'.toUInt8

def isIpv6Char (c : UInt8) : Bool := isHexDigit c || (lit ":.").contains c

theorem lit_dot : lit "." = ['.'.toUInt8] := by decide

theorem over_charIn {D : UInt8 → Bool} {set : String}
    (hset : ((lit set).all fun c => D c == true) = true) : Over D (charIn set) :=
  over_satisfy fun c hc => forall_mem_of_all hset c (by simpa using hc)

theorem over_decOctet (ho : IsOctet octet) : Over isDigit (decOctet octet) :=
  ((over_charIn (by decide)).seq (over_satisfy fun _ hc => hc)).notAt.seq ho.digits

theorem total_decOctet (ho : IsOctet octet) : Total (decOctet octet) :=
  ((reads_charIn "0").total.seq (total_satisfy _)).notAt.seq ho.total

theorem total_ipv4address (ho : IsOctet octet) : Total (ipv4address octet) :=
  (total_decOctet ho).seq (((reads_charIn ".").total.seq (total_decOctet ho)).times 3)

theorem decOctet_alone (ho : IsOctet octet) (h : Takes (decOctet octet) text rest) :
    Takes (decOctet octet) text [] := by
  have hzero := (reads_charIn "0").seq (reads_satisfy isDigit)
  obtain ⟨t, u, rfl, ht, hu⟩ := takes_seq_iff.mp h
  obtain ⟨rfl, hfails⟩ := takes_notAt_iff.mp ht
  rw [hzero.fails_iff] at hfails
  refine takes_seq_iff.mpr ⟨[], u, rfl, takes_notAt_iff.mpr ⟨rfl, ?_⟩, ho.alone hu⟩
  rw [hzero.fails_iff, List.append_nil]
  exact hfails.of_append

/-- Further octets, each behind a dot, stand alone too. -/
theorem moreOctets (ho : IsOctet octet) {n : ℕ}
    (h : Takes (times n (seq (charIn ".") (decOctet octet))) text rest) :
    Takes (times n (seq (charIn ".") (decOctet octet))) text [] ∧ Ends isDigit text := by
  induction n generalizing text with
  | zero =>
    obtain rfl := takes_eps_iff.mp h
    exact ⟨takes_eps_iff.mpr rfl, ends_nil⟩
  | succ n ih =>
    obtain ⟨t, u, rfl, ht, hu⟩ := takes_seq_iff.mp h
    obtain ⟨d, o, rfl, hd, ho'⟩ := takes_seq_iff.mp ht
    obtain rfl := (takes_charIn_one lit_dot).mp hd
    obtain ⟨halone, hends⟩ := ih hu
    refine ⟨takes_seq_iff.mpr ⟨_, u, rfl, takes_seq_iff.mpr ⟨_, o, rfl, ?_, ?_⟩, halone⟩, ?_⟩
    · exact (takes_charIn_one lit_dot).mpr rfl
    · rw [List.append_nil]
      exact ((over_decOctet ho).takes_iff hends).mpr (decOctet_alone ho ho')
    · exact ends_cons_iff.mpr (by decide)

theorem ipv4address_alone (ho : IsOctet octet) (h : Takes (ipv4address octet) text rest) :
    Takes (ipv4address octet) text [] := by
  obtain ⟨t, u, rfl, ht, hu⟩ := takes_seq_iff.mp h
  obtain ⟨halone, hends⟩ := moreOctets ho hu
  refine takes_seq_iff.mpr ⟨t, u, rfl, ?_, halone⟩
  rw [List.append_nil]
  exact ((over_decOctet ho).takes_iff hends).mpr (decOctet_alone ho ht)

theorem isDotted_of_digit {c : UInt8} (h : isDigit c = true) : isDotted c = true := by
  simp [isDotted, h]

theorem over_ipv4address (ho : IsOctet octet) : Over isDotted (ipv4address octet) := by
  have hoctet := (over_decOctet ho).mono fun _ => isDotted_of_digit
  exact hoctet.seq (((over_charIn (by decide)).seq hoctet).times 3)

theorem isIpv6Char_of_digit {c : UInt8} (h : isDigit c = true) : isIpv6Char c = true := by
  simp [isIpv6Char, isHexDigit, h]

theorem isIpv6Char_of_dotted {c : UInt8} (h : isDotted c = true) : isIpv6Char c = true := by
  obtain h | h := Bool.or_eq_true_iff.mp h
  · exact isIpv6Char_of_digit h
  · rw [eq_of_beq h]
    decide

theorem over_h16 : Over isIpv6Char h16 := by
  have hdigit : Over isIpv6Char (satisfy isHexDigit) :=
    over_satisfy fun c hc => by simp [isIpv6Char, hc]
  exact hdigit.seq (hdigit.upTo 3)

theorem over_group : Over isIpv6Char group := over_h16.seq (over_charIn (by decide))

theorem over_ls32 (ho : IsOctet octet) : Over isIpv6Char (ls32 octet) :=
  (over_h16.seq ((over_charIn (by decide)).seq over_h16)).choice
    ((over_ipv4address ho).mono fun _ => isIpv6Char_of_dotted)

theorem over_ipv6Leading (ho : IsOctet octet) : Over isIpv6Char (ipv6Leading octet) := by
  have hcolons : Over isIpv6Char (exactly (lit "::")) :=
    over_exactly (forall_mem_of_all (by decide))
  have hrest : ∀ n, Over isIpv6Char (seq (times n group) (ls32 octet)) := fun n =>
    (over_group.times n).seq (over_ls32 ho)
  exact (hrest 6).choice ((hcolons.seq (hrest 5)).choice (over_h16.seq (hcolons.seq (hrest 4))))

theorem total_h16 : Total h16 := (total_satisfy _).seq ((total_satisfy _).upTo 3)

theorem total_ls32 (ho : IsOctet octet) : Total (ls32 octet) :=
  (total_h16.seq ((reads_charIn ":").total.seq total_h16)).choice (total_ipv4address ho)

theorem total_ipv6Leading (ho : IsOctet octet) : Total (ipv6Leading octet) := by
  have hrest : ∀ n, Total (seq (times n group) (ls32 octet)) := fun n =>
    ((total_h16.seq (reads_charIn ":").total).times n).seq (total_ls32 ho)
  exact (hrest 6).choice (((total_exactly _).seq (hrest 5)).choice
    (total_h16.seq ((total_exactly _).seq (hrest 4))))

/-- Behind the first three forms the rule for an address never returns. -/
theorem diverges_ipv6address (h : Fails (ipv6Leading octet) input) :
    Diverges (ipv6address octet) input :=
  diverges_choice_iff.mpr (.inr ⟨h, diverges_choice_iff.mpr (.inl
    (diverges_seq_iff.mpr (.inl (diverges_seq_iff.mpr (.inl diverges_plus_star)))))⟩)

theorem takes_ipv6address_iff :
    Takes (ipv6address octet) text rest ↔ Takes (ipv6Leading octet) text rest := by
  constructor
  · intro h
    obtain hleading | ⟨hfails, -⟩ := takes_choice_iff.mp h
    · exact hleading
    · exact absurd (diverges_ipv6address hfails) h.not_diverges
  · exact fun h => takes_choice_iff.mpr (.inl h)

theorem not_fails_ipv6address : ¬ Fails (ipv6address octet) input := by
  intro h
  exact (diverges_ipv6address (fails_choice_iff.mp h).1).not_fails h

theorem diverges_ipv6address_iff (ho : IsOctet octet) :
    Diverges (ipv6address octet) input ↔ Fails (ipv6Leading octet) input := by
  constructor
  · intro h
    obtain h | ⟨hfails, -⟩ := diverges_choice_iff.mp h
    · exact absurd h (total_ipv6Leading ho input)
    · exact hfails
  · exact diverges_ipv6address

theorem lit_open : lit "[" = ['['.toUInt8] := by decide

theorem lit_close : lit "]" = [']'.toUInt8] := by decide

theorem takes_ipLiteral_iff (ho : IsOctet octet) : Takes (ipLiteral octet) text rest ↔
    ∃ t, Takes (ipv6Leading octet) t [] ∧ text = '['.toUInt8 :: (t ++ [']'.toUInt8]) := by
  have halone : ∀ t x, Takes (ipv6Leading octet) t (']'.toUInt8 :: x) ↔
      Takes (ipv6Leading octet) t [] := fun t x =>
    (over_ipv6Leading ho).takes_iff (ends_cons_iff.mpr (by decide))
  constructor
  · intro h
    obtain ⟨b, u, rfl, hb, hu⟩ := takes_seq_iff.mp h
    obtain ⟨t, b', rfl, ht, hb'⟩ := takes_seq_iff.mp hu
    obtain rfl := (takes_charIn_one lit_open).mp hb
    obtain rfl := (takes_charIn_one lit_close).mp hb'
    obtain ht | ⟨hfails, -⟩ := takes_choice_iff.mp ht
    · exact ⟨t, (halone t rest).mp (takes_ipv6address_iff.mp ht), rfl⟩
    · exact absurd hfails not_fails_ipv6address
  · rintro ⟨t, ht, rfl⟩
    exact takes_seq_iff.mpr ⟨['['.toUInt8], t ++ [']'.toUInt8], rfl,
      (takes_charIn_one lit_open).mpr rfl, takes_seq_iff.mpr ⟨t, [']'.toUInt8], rfl,
        takes_choice_iff.mpr (.inl (takes_ipv6address_iff.mpr ((halone t rest).mpr ht))),
        (takes_charIn_one lit_close).mpr rfl⟩⟩

theorem fails_ipLiteral (h : Ends (· == '['.toUInt8) input) : Fails (ipLiteral octet) input :=
  fails_seq_iff.mpr (.inl ((fails_charIn_one lit_open).mpr h))

theorem diverges_ipLiteral_iff (ho : IsOctet octet) : Diverges (ipLiteral octet) input ↔
    ∃ rest, input = '['.toUInt8 :: rest ∧ Fails (ipv6Leading octet) rest := by
  rw [ipLiteral, diverges_seq_iff]
  constructor
  · rintro (h | ⟨t, m, rfl, ht, hm⟩)
    · exact absurd h ((reads_charIn "[").total _)
    · obtain rfl := (takes_charIn_one lit_open).mp ht
      refine ⟨m, rfl, ?_⟩
      obtain hm | ⟨_, m', -, -, hm⟩ := diverges_seq_iff.mp hm
      · obtain hm | ⟨hfails, -⟩ := diverges_choice_iff.mp hm
        · exact (diverges_ipv6address_iff ho).mp hm
        · exact absurd hfails not_fails_ipv6address
      · exact absurd hm ((reads_charIn "]").total m')
  · rintro ⟨rest, rfl, h⟩
    exact .inr ⟨['['.toUInt8], rest, rfl, (takes_charIn_one lit_open).mpr rfl,
      diverges_seq_iff.mpr (.inl (diverges_choice_iff.mpr (.inl (diverges_ipv6address h))))⟩

theorem reads_regChar : Reads (encodedOr "") (IsUnit (isEncoded "")) := reads_encodedOr (by decide)

theorem total_regName : Total regName := reads_regChar.total_star fun _ => IsUnit.ne_nil

theorem isEncoded_of_dotted {more : String} {c : UInt8} (h : isDotted c = true) :
    isEncoded more c = true := by
  obtain h | h := Bool.or_eq_true_iff.mp h
  · exact isEncoded_of_hexDigit (by simp [isHexDigit, h])
  · rw [eq_of_beq h]
    have hdot : isUnreserved '.'.toUInt8 = true := by decide
    simp [isEncoded, hdot]

theorem isHost_of_takes (ho : IsOctet octet) (h : Takes (host octet) text rest) :
    IsHost octet text := by
  obtain h | ⟨-, h⟩ := takes_choice_iff.mp h
  · exact .inl ((takes_ipLiteral_iff ho).mp h)
  · obtain h | ⟨hfails, h⟩ := takes_choice_iff.mp h
    · exact .inr (.inl (ipv4address_alone ho h))
    · obtain ⟨htext, hstops⟩ := (reads_regChar.takes_star_iff fun _ => IsUnit.ne_nil).mp h
      have hends : Ends isDotted rest :=
        (ends_of_stops_unit hstops).mono fun _ => isEncoded_of_dotted
      exact .inr (.inr ⟨htext, ((over_ipv4address ho).fails_iff hends).mp hfails⟩)

/-- A host that is not in brackets is made of the characters of a name. -/
theorem isName_of_isHost (ho : IsOctet octet) (h : Takes (ipv4address octet) text [] ∨
    Repeated (IsUnit (isEncoded "")) text ∧ Fails (ipv4address octet) text) :
    Repeated (IsUnit (isEncoded "")) text := by
  obtain h | ⟨h, -⟩ := h
  · refine (repeated_char_iff.mpr ((over_ipv4address ho).only h)).mono ?_
    rintro u ⟨c, hc, rfl⟩
    exact .inl ⟨c, isEncoded_of_dotted hc, rfl⟩
  · exact h

theorem ends_open_of_name (h : Repeated (IsUnit (isEncoded "")) text) (hrest : Next ":/?#" rest) :
    Ends (· == '['.toUInt8) (text ++ rest) := by
  cases text with
  | nil => exact hrest.ends (by decide)
  | cons c text =>
    rw [List.cons_append, ends_cons_iff, beq_eq_false_iff_ne]
    rintro rfl
    have := h.forall_mem (fun _ hu => hu.mem fun _ => isEncoded_of_hexDigit) _ List.mem_cons_self
    revert this
    decide

theorem takes_host (ho : IsOctet octet) (h : IsHost octet text) (hrest : Next ":/?#" rest) :
    Takes (host octet) text rest := by
  have hdotted : Ends isDotted rest := hrest.ends (by decide)
  obtain h | h := h
  · exact takes_choice_iff.mpr (.inl ((takes_ipLiteral_iff ho).mpr h))
  · refine takes_choice_iff.mpr (.inr
      ⟨fails_ipLiteral (ends_open_of_name (isName_of_isHost ho h) hrest), ?_⟩)
    obtain h | ⟨htext, hfails⟩ := h
    · exact takes_choice_iff.mpr (.inl (((over_ipv4address ho).takes_iff hdotted).mpr h))
    · exact takes_choice_iff.mpr (.inr ⟨((over_ipv4address ho).fails_iff hdotted).mpr hfails,
        (reads_regChar.takes_star_iff fun _ => IsUnit.ne_nil).mpr
          ⟨htext, hrest.stops (by decide) (by decide)⟩⟩)

theorem not_fails_host : ¬ Fails (host octet) input := fun h =>
  not_fails_star (fails_choice_iff.mp (fails_choice_iff.mp h).2).2

/-- The host is never found where a bracket is not one of the first three forms. -/
theorem diverges_host_iff (ho : IsOctet octet) : Diverges (host octet) input ↔
    ∃ rest, input = '['.toUInt8 :: rest ∧ Fails (ipv6Leading octet) rest := by
  rw [← diverges_ipLiteral_iff ho, host, diverges_choice_iff]
  constructor
  · rintro (h | ⟨-, h⟩)
    · exact h
    · exact absurd h ((total_ipv4address ho).choice total_regName input)
  · exact .inl

end Host

end UriGrammar

end HttpBackground
