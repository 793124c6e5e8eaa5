import HttpBackground.UriRules

/-!
# What the grammar of a URL accepts

The parts of a URL that is accepted are each of their own characters, and the URL is
those parts put together again. Parts that are well formed are read back. A URL that
is not accepted is read up to where its grammar ends.
-/
namespace HttpBackground

namespace UriGrammar

open ParsingExpression StdString ChunkedBody

/-- A part behind its delimiter, if it is there. -/
def optionText (delimiter : UInt8) (part : Option StdString) : StdString :=
  part.elim [] fun text => delimiter :: text

/-- A user in front of its delimiter, if there is one. -/
def userText (userInfo : Option StdString) : StdString :=
  userInfo.elim [] fun text => text ++ ['@'.toUInt8]

/-- The text of an alternative of `hier_part`. -/
def HierPart.text : HierPart → StdString
  | .authority userInfo host port path =>
    lit "//" ++ userText userInfo ++ host ++ optionText ':'.toUInt8 port ++ path
  | .noAuthority path => path

/-- The parts put together again. -/
def Parts.text (p : Parts) : StdString :=
  p.scheme ++ ':'.toUInt8 :: (p.hierPart.text ++
    (optionText '?'.toUInt8 p.query ++ optionText '#'.toUInt8 p.fragment))

def HierPart.WellFormed (octet : Rule UInt8) : HierPart → Prop
  | .authority userInfo host port path =>
    (∀ text ∈ userInfo, Repeated (IsUnit (isEncoded ":")) text) ∧ IsHost octet host ∧
      (∀ text ∈ port, ∀ c ∈ text, isDigit c = true) ∧ IsSegments path
  | .noAuthority path => IsPath path

/-- Each part is made of its own characters. -/
structure Parts.WellFormed (octet : Rule UInt8) (p : Parts) : Prop where
  scheme : IsScheme p.scheme
  hierPart : p.hierPart.WellFormed octet
  query : ∀ text ∈ p.query, IsQuery text
  fragment : ∀ text ∈ p.fragment, IsQuery text

section Optional

variable {set : String} {d : UInt8} {r : Rule UInt8} {text rest input : StdString}
  {part : Option StdString}

theorem optional_of_takes (hset : lit set = [d]) (h : Takes r text rest) :
    optional set r (d :: (text ++ rest)) = .matched (some text) rest := by
  have hd : (charIn set).run (d :: (text ++ rest)) = .matched [d] (text ++ rest) :=
    (takes_charIn_one hset).mpr rfl
  rw [Takes] at h
  simp [optional, hd, h, Outcome.bind, Outcome.orElse]

theorem optional_of_ends (hset : lit set = [d]) (h : Ends (· == d) input) :
    optional set r input = .matched none input := by
  have hd : (charIn set).run input = .failed := (fails_charIn_one hset).mpr h
  simp [optional, hd, Outcome.bind, Outcome.orElse]

theorem optional_cases (hset : lit set = [d]) (h : optional set r input = .matched part rest) :
    input = optionText d part ++ rest ∧ ∀ text ∈ part, Takes r text rest := by
  obtain h | ⟨-, h⟩ := Outcome.orElse_eq_matched_iff.mp h
  · obtain ⟨c, m, hc, h⟩ := Outcome.bind_eq_matched_iff.mp h
    obtain ⟨text, n, ht, h⟩ := Outcome.bind_eq_matched_iff.mp h
    obtain ⟨rfl, rfl⟩ := Outcome.matched.inj h
    obtain ⟨rfl, hc⟩ := run_eq_matched_iff.mp hc
    obtain ⟨rfl, ht⟩ := run_eq_matched_iff.mp ht
    obtain rfl := (takes_charIn_one hset).mp hc
    refine ⟨rfl, fun u hu => ?_⟩
    obtain rfl := Option.some.inj hu
    exact ht
  · obtain ⟨rfl, rfl⟩ := Outcome.matched.inj h
    exact ⟨rfl, nofun⟩

theorem optional_ne_failed : optional set r input ≠ .failed := by
  intro h
  have := (Outcome.orElse_eq_failed_iff.mp h).2
  cases this

theorem optional_ne_diverges (hr : Total r) : optional set r input ≠ .diverges := by
  intro h
  obtain h | ⟨-, h⟩ := Outcome.orElse_eq_diverges_iff.mp h
  · obtain h | ⟨_, m, -, h⟩ := Outcome.bind_eq_diverges_iff.mp h
    · exact (reads_charIn set).total _ h
    · obtain h | ⟨_, _, -, h⟩ := Outcome.bind_eq_diverges_iff.mp h
      · exact hr m h
      · cases h
  · cases h

end Optional

theorem Next.mono {set set' : String} {input : StdString} (h : Next set input)
    (hsub : ((lit set).all fun c => (lit set').contains c == true) = true) : Next set' input := by
  intro c hc
  exact forall_mem_of_all hsub c (by simpa using h c hc)

theorem next_optionText {set : String} {d : UInt8} {rest : StdString}
    (hd : (lit set).contains d = true) (hrest : Next set rest) (part : Option StdString) :
    Next set (optionText d part ++ rest) := by
  cases part with
  | none => exact hrest
  | some text => exact .of_cons hd

theorem next_segments {set : String} {path rest : StdString} (hset : (lit set).contains '/'.toUInt8)
    (hpath : IsSegments path) (hrest : Next set rest) : Next set (path ++ rest) := by
  obtain ⟨ts, hts, rfl⟩ := hpath
  cases ts with
  | nil => exact hrest
  | cons t ts =>
    obtain ⟨s, -, rfl⟩ := hts t List.mem_cons_self
    exact .of_cons hset

section Authority

variable {octet : Rule UInt8} {text rest input : StdString} {u : Option StdString}

theorem lit_at : lit "@" = ['@'.toUInt8] := by decide

theorem lit_colon : lit ":" = [':'.toUInt8] := by decide

theorem reads_userChar : Reads (encodedOr ":") (IsUnit (isEncoded ":")) := reads_encodedOr (by decide)

theorem takes_userInfo_iff : Takes userInfo text rest ↔
    Repeated (IsUnit (isEncoded ":")) text ∧ Stops (IsUnit (isEncoded ":")) rest :=
  reads_userChar.takes_star_iff fun _ => IsUnit.ne_nil

theorem total_userInfo : Total userInfo := reads_userChar.total_star fun _ => IsUnit.ne_nil

theorem run_slashes (rest : StdString) :
    (exactly (lit "//")).run (lit "//" ++ rest) = .matched (lit "//") rest :=
  takes_exactly_iff.mpr rfl

/-- A user in front of an `@`. -/
theorem authorityStart_some (h : Repeated (IsUnit (isEncoded ":")) text) (rest : StdString) :
    authorityStart (lit "//" ++ (text ++ '@'.toUInt8 :: rest)) = .matched (some text) rest := by
  have hstops : Stops (IsUnit (isEncoded ":")) ('@'.toUInt8 :: rest) :=
    stops_unit (ends_cons_iff.mpr (by decide)) (ends_cons_iff.mpr (by decide))
  have huser := takes_userInfo_iff.mpr ⟨h, hstops⟩
  have hat : (charIn "@").run ('@'.toUInt8 :: rest) = .matched ['@'.toUInt8] rest :=
    (takes_charIn_one lit_at).mpr rfl
  rw [Takes] at huser
  simp only [authorityStart, run_slashes, Outcome.bind, huser, hat, Outcome.orElse]

/-- What the rule for a user would take is not in front of an `@`. -/
theorem authorityStart_none (h : Takes userInfo text rest) (hrest : Ends (· == '@'.toUInt8) rest) :
    authorityStart (lit "//" ++ (text ++ rest)) = .matched none (text ++ rest) := by
  have hat : (charIn "@").run rest = .failed := (fails_charIn_one lit_at).mpr hrest
  rw [Takes] at h
  simp only [authorityStart, run_slashes, Outcome.bind, h, hat, Outcome.orElse]

theorem authorityStart_failed (h : ¬ lit "//" <+: input) : authorityStart input = .failed := by
  have hfails := fails_exactly_iff.mpr h
  rw [Fails] at hfails
  simp only [authorityStart, hfails, Outcome.bind, Outcome.orElse]

theorem authorityStart_cases (h : authorityStart input = .matched u rest) :
    input = lit "//" ++ userText u ++ rest ∧
      ∀ text ∈ u, Repeated (IsUnit (isEncoded ":")) text := by
  obtain h | ⟨-, h⟩ := Outcome.orElse_eq_matched_iff.mp h
  · obtain ⟨w, m, hw, h⟩ := Outcome.bind_eq_matched_iff.mp h
    obtain ⟨t, n, ht, h⟩ := Outcome.bind_eq_matched_iff.mp h
    obtain ⟨c, k, hc, h⟩ := Outcome.bind_eq_matched_iff.mp h
    obtain ⟨rfl, rfl⟩ := Outcome.matched.inj h
    obtain ⟨rfl, hw⟩ := run_eq_matched_iff.mp hw
    obtain ⟨rfl, ht⟩ := run_eq_matched_iff.mp ht
    obtain ⟨rfl, hc⟩ := run_eq_matched_iff.mp hc
    obtain rfl := takes_exactly_iff.mp hw
    obtain rfl := (takes_charIn_one lit_at).mp hc
    refine ⟨by simp [userText], fun v hv => ?_⟩
    obtain rfl := Option.some.inj hv
    exact (takes_userInfo_iff.mp ht).1
  · obtain ⟨w, m, hw, h⟩ := Outcome.bind_eq_matched_iff.mp h
    obtain ⟨rfl, rfl⟩ := Outcome.matched.inj h
    obtain ⟨rfl, hw⟩ := run_eq_matched_iff.mp hw
    obtain rfl := takes_exactly_iff.mp hw
    exact ⟨by simp [userText], nofun⟩

theorem authorityStart_ne_diverges : authorityStart input ≠ .diverges := by
  intro h
  obtain h | ⟨-, h⟩ := Outcome.orElse_eq_diverges_iff.mp h
  · obtain h | ⟨_, m, -, h⟩ := Outcome.bind_eq_diverges_iff.mp h
    · exact total_exactly _ _ h
    · obtain h | ⟨_, n, -, h⟩ := Outcome.bind_eq_diverges_iff.mp h
      · exact total_userInfo m h
      · obtain h | ⟨_, _, -, h⟩ := Outcome.bind_eq_diverges_iff.mp h
        · exact (reads_charIn "@").total n h
        · cases h
  · obtain h | ⟨_, _, -, h⟩ := Outcome.bind_eq_diverges_iff.mp h
    · exact total_exactly _ _ h
    · cases h

/-- The rule for a user takes no `@` from a host, a port and a path. -/
theorem exists_takes_userInfo (ho : IsOctet octet) {host path : StdString}
    {port : Option StdString} (hhost : IsHost octet host)
    (hport : ∀ text ∈ port, ∀ c ∈ text, isDigit c = true) (hpath : IsSegments path)
    (hrest : Next "?#" rest) : ∃ z w, host ++ (optionText ':'.toUInt8 port ++ (path ++ rest)) =
      z ++ w ∧ Takes userInfo z w ∧ Ends (· == '@'.toUInt8) w := by
  obtain ⟨t, -, rfl⟩ | hname := hhost
  · refine ⟨[], _, rfl, takes_userInfo_iff.mpr ⟨.nil, ?_⟩, ends_cons_iff.mpr (by decide)⟩
    exact stops_unit (ends_cons_iff.mpr (by decide)) (ends_cons_iff.mpr (by decide))
  · refine ⟨host ++ optionText ':'.toUInt8 port, path ++ rest, by simp, ?_, ?_⟩
    · refine takes_userInfo_iff.mpr ⟨.append ?_ ?_,
        stops_segments (by decide) hpath (hrest.stops (by decide) (by decide))⟩
      · refine (isName_of_isHost ho hname).mono fun v hv => hv.mono fun c hc => ?_
        simp only [isEncoded, Bool.or_eq_true] at hc ⊢
        obtain hc | hc | hc := hc
        · exact .inl hc
        · exact .inr (.inl hc)
        · exact absurd hc (by simp [lit])
      · cases port with
        | none => exact .nil
        | some text =>
          refine (repeated_char_iff.mpr ?_).mono fun v hv => IsUnit.char hv
          intro c hc
          obtain rfl | hc := List.mem_cons.mp hc
          · decide
          · exact isEncoded_of_hexDigit (by simp [isHexDigit, hport text rfl c hc])
    · have hslash : Next "/?#" (path ++ rest) :=
        next_segments (by decide) hpath (hrest.mono (by decide))
      exact hslash.ends (by decide)

/-- A well-formed authority and its path are read back. -/
theorem authority_text (ho : IsOctet octet) {host path : StdString} {port : Option StdString}
    (h : (HierPart.authority u host port path).WellFormed octet) (hrest : Next "?#" rest) :
    authority octet ((HierPart.authority u host port path).text ++ rest) =
      .matched (.authority u host port path) rest := by
  obtain ⟨huser, hhost, hport, hpath⟩ := h
  have hpathRest : Next "/?#" (path ++ rest) :=
    next_segments (by decide) hpath (hrest.mono (by decide))
  have hportRest : Next ":/?#" (optionText ':'.toUInt8 port ++ (path ++ rest)) :=
    next_optionText (by decide) (hpathRest.mono (by decide)) port
  have hstart : authorityStart ((HierPart.authority u host port path).text ++ rest) =
      .matched u (host ++ (optionText ':'.toUInt8 port ++ (path ++ rest))) := by
    cases u with
    | none =>
      obtain ⟨z, w, heq, hz, hw⟩ := exists_takes_userInfo ho hhost hport hpath hrest
      rw [heq, ← authorityStart_none hz hw, ← heq]
      simp [HierPart.text, userText]
    | some text =>
      rw [← authorityStart_some (huser text rfl)]
      simp [HierPart.text, userText]
  have hhostRun := takes_host ho hhost hportRest
  have hpathRun : pathAbempty.run (path ++ rest) = .matched path rest :=
    takes_segments hpath hrest
  have hportRun : optional ":" UriGrammar.port (optionText ':'.toUInt8 port ++ (path ++ rest)) =
      .matched port (path ++ rest) := by
    cases port with
    | none => exact optional_of_ends lit_colon (hpathRest.ends (by decide))
    | some text =>
      exact optional_of_takes lit_colon
        (takes_port_iff.mpr ⟨hport text rfl, hpathRest.ends (by decide)⟩)
  rw [Takes] at hhostRun
  simp only [authority, hstart, Outcome.bind, hhostRun, hportRun, hpathRun]

theorem authority_cases (ho : IsOctet octet) {part : HierPart}
    (h : authority octet input = .matched part rest) :
    part.WellFormed octet ∧ input = part.text ++ rest := by
  obtain ⟨u, m, hu, h⟩ := Outcome.bind_eq_matched_iff.mp h
  obtain ⟨host, n, hh, h⟩ := Outcome.bind_eq_matched_iff.mp h
  obtain ⟨port, k, hp, h⟩ := Outcome.bind_eq_matched_iff.mp h
  obtain ⟨path, l, hl, h⟩ := Outcome.bind_eq_matched_iff.mp h
  obtain ⟨rfl, rfl⟩ := Outcome.matched.inj h
  obtain ⟨rfl, hpath⟩ := run_eq_matched_iff.mp hl
  obtain ⟨rfl, hport⟩ := optional_cases lit_colon hp
  obtain ⟨rfl, hhost⟩ := run_eq_matched_iff.mp hh
  obtain ⟨rfl, huser⟩ := authorityStart_cases hu
  exact ⟨⟨huser, isHost_of_takes ho hhost, fun text ht => (takes_port_iff.mp (hport text ht)).1,
    (takes_segments_iff.mp hpath).1⟩, by simp [HierPart.text]⟩

theorem authority_eq_failed_iff : authority octet input = .failed ↔ ¬ lit "//" <+: input := by
  constructor
  · intro h hslashes
    obtain ⟨x, rfl⟩ := hslashes
    obtain h | ⟨u, m, -, h⟩ := Outcome.bind_eq_failed_iff.mp h
    · have := (Outcome.orElse_eq_failed_iff.mp h).2
      rw [run_slashes] at this
      cases this
    · obtain h | ⟨_, n, -, h⟩ := Outcome.bind_eq_failed_iff.mp h
      · exact not_fails_host h
      · obtain h | ⟨_, k, -, h⟩ := Outcome.bind_eq_failed_iff.mp h
        · exact optional_ne_failed h
        · obtain h | ⟨_, _, -, h⟩ := Outcome.bind_eq_failed_iff.mp h
          · exact not_fails_star h
          · cases h
  · intro h
    rw [authority, authorityStart_failed h]
    rfl

/-- Reading an authority does not return where its host starts with a bracket that is
none of the first three forms. -/
theorem authority_eq_diverges_iff (ho : IsOctet octet) : authority octet input = .diverges ↔
    ∃ u rest, (∀ text ∈ u, Repeated (IsUnit (isEncoded ":")) text) ∧
      Fails (ipv6Leading octet) rest ∧ input = lit "//" ++ userText u ++ '['.toUInt8 :: rest := by
  constructor
  · intro h
    obtain h | ⟨u, m, hu, h⟩ := Outcome.bind_eq_diverges_iff.mp h
    · exact absurd h authorityStart_ne_diverges
    · obtain ⟨hinput, huser⟩ := authorityStart_cases hu
      obtain h | ⟨_, n, -, h⟩ := Outcome.bind_eq_diverges_iff.mp h
      · obtain ⟨rest, rfl, hfails⟩ := (diverges_host_iff ho).mp h
        exact ⟨u, rest, huser, hfails, hinput⟩
      · obtain h | ⟨_, k, -, h⟩ := Outcome.bind_eq_diverges_iff.mp h
        · exact absurd h (optional_ne_diverges ((reads_satisfy _).total_star fun _ => IsChar.ne_nil))
        · obtain h | ⟨_, _, -, h⟩ := Outcome.bind_eq_diverges_iff.mp h
          · exact absurd h (total_segments k)
          · cases h
  · rintro ⟨u, rest, huser, hfails, rfl⟩
    have hstart : authorityStart (lit "//" ++ userText u ++ '['.toUInt8 :: rest) =
        .matched u ('['.toUInt8 :: rest) := by
      cases u with
      | none =>
        have htakes : Takes userInfo [] ('['.toUInt8 :: rest) := takes_userInfo_iff.mpr ⟨.nil,
          stops_unit (ends_cons_iff.mpr (by decide)) (ends_cons_iff.mpr (by decide))⟩
        exact authorityStart_none htakes (ends_cons_iff.mpr (by decide))
      | some text =>
        rw [← authorityStart_some (huser text rfl)]
        simp [userText]
    exact Outcome.bind_eq_diverges_iff.mpr (.inr ⟨u, _, hstart,
      Outcome.bind_eq_diverges_iff.mpr (.inl ((diverges_host_iff ho).mpr ⟨rest, rfl, hfails⟩))⟩)

end Authority

section Start

variable {octet : Rule UInt8} {input rest : StdString} {part : HierPart} {p q : Parts}

theorem hierPart_text (ho : IsOctet octet) (h : part.WellFormed octet) (hrest : Next "?#" rest) :
    hierPart octet (part.text ++ rest) = .matched part rest := by
  cases part with
  | authority u host port path =>
    rw [hierPart, authority_text ho h hrest]
    rfl
  | noAuthority path =>
    have hauthority : authority octet (path ++ rest) = .failed :=
      authority_eq_failed_iff.mpr (h.not_slashes hrest)
    have hpath := takes_anyPath h hrest
    rw [Takes] at hpath
    simp only [HierPart.text, hierPart, hauthority, Outcome.orElse, hpath, Outcome.bind]

theorem hierPart_cases (ho : IsOctet octet) (h : hierPart octet input = .matched part rest) :
    part.WellFormed octet ∧ input = part.text ++ rest := by
  obtain h | ⟨-, h⟩ := Outcome.orElse_eq_matched_iff.mp h
  · exact authority_cases ho h
  · obtain ⟨path, m, hpath, h⟩ := Outcome.bind_eq_matched_iff.mp h
    obtain ⟨rfl, rfl⟩ := Outcome.matched.inj h
    obtain ⟨rfl, hpath⟩ := run_eq_matched_iff.mp hpath
    exact ⟨isPath_of_takes hpath, rfl⟩

theorem hierPart_ne_failed : hierPart octet input ≠ .failed := by
  intro h
  obtain h | ⟨_, _, -, h⟩ := Outcome.bind_eq_failed_iff.mp (Outcome.orElse_eq_failed_iff.mp h).2
  · exact not_fails_anyPath h
  · cases h

theorem hierPart_eq_diverges_iff :
    hierPart octet input = .diverges ↔ authority octet input = .diverges := by
  rw [hierPart, Outcome.orElse_eq_diverges_iff]
  constructor
  · rintro (h | ⟨-, h⟩)
    · exact h
    · obtain h | ⟨_, _, -, h⟩ := Outcome.bind_eq_diverges_iff.mp h
      · exact absurd h (total_anyPath input)
      · cases h
  · exact .inl

theorem total_query : Total query := reads_queryUnit.total_star fun _ => IsUnit.ne_nil

theorem total_scheme : Total scheme := (total_satisfy _).seq
  ((reads_choice_char (reads_satisfy _) (reads_charIn _)).total_star fun _ => IsChar.ne_nil)

theorem lit_question : lit "?" = ['?'.toUInt8] := by decide

theorem lit_hash : lit "#" = ['#'.toUInt8] := by decide

/-- A scheme and its colon. -/
theorem run_scheme {s : StdString} (hs : IsScheme s) (rest : StdString) :
    scheme.run (s ++ ':'.toUInt8 :: rest) = .matched s (':'.toUInt8 :: rest) :=
  takes_scheme_iff.mpr ⟨hs, ends_cons_iff.mpr (by decide)⟩

theorem run_colon (rest : StdString) :
    (charIn ":").run (':'.toUInt8 :: rest) = .matched [':'.toUInt8] rest :=
  (takes_charIn_one lit_colon).mpr rfl

theorem start_of_scheme {s : StdString} (hs : IsScheme s) (rest : StdString) :
    start octet (s ++ ':'.toUInt8 :: rest) = (hierPart octet rest).bind fun hierPart rest =>
      (optional "?" query rest).bind fun query rest =>
        (optional "#" fragment rest).bind fun fragment rest =>
          .matched ⟨s, hierPart, query, fragment⟩ rest := by
  rw [start, run_scheme hs]
  simp only [Outcome.bind, run_colon]

theorem start_text (ho : IsOctet octet) (h : p.WellFormed octet) :
    start octet p.text = .matched p [] := by
  obtain ⟨s, part, q, f⟩ := p
  have hfragment : Next "#" (optionText '#'.toUInt8 f) := by
    have h : Next "#" (optionText '#'.toUInt8 f ++ []) := next_optionText (by decide) .of_empty f
    rwa [List.append_nil] at h
  have hquery : Next "?#" (optionText '?'.toUInt8 q ++ optionText '#'.toUInt8 f) :=
    next_optionText (by decide) (hfragment.mono (by decide)) q
  have hqueryRun : optional "?" query (optionText '?'.toUInt8 q ++ optionText '#'.toUInt8 f) =
      .matched q (optionText '#'.toUInt8 f) := by
    cases q with
    | none => exact optional_of_ends lit_question (hfragment.ends (by decide))
    | some text =>
      exact optional_of_takes lit_question
        (takes_query_iff.mpr ⟨h.query text rfl, hfragment.stops (by decide) (by decide)⟩)
  have hfragmentRun : optional "#" fragment (optionText '#'.toUInt8 f) = .matched f [] := by
    cases f with
    | none => exact optional_of_ends lit_hash ends_nil
    | some text =>
      have htakes : Takes fragment text [] :=
        takes_query_iff.mpr ⟨h.fragment text rfl, stops_nil fun _ => IsUnit.ne_nil⟩
      simpa [optionText] using optional_of_takes lit_hash htakes
  rw [Parts.text, start_of_scheme h.scheme, hierPart_text ho h.hierPart hquery]
  simp only [Outcome.bind, hqueryRun, hfragmentRun]

theorem start_cases (ho : IsOctet octet) (h : start octet input = .matched p rest) :
    p.WellFormed octet ∧ input = p.text ++ rest := by
  obtain ⟨s, m, hs, h⟩ := Outcome.bind_eq_matched_iff.mp h
  obtain ⟨c, n, hc, h⟩ := Outcome.bind_eq_matched_iff.mp h
  obtain ⟨part, k, hpart, h⟩ := Outcome.bind_eq_matched_iff.mp h
  obtain ⟨q, l, hq, h⟩ := Outcome.bind_eq_matched_iff.mp h
  obtain ⟨f, j, hf, h⟩ := Outcome.bind_eq_matched_iff.mp h
  obtain ⟨rfl, rfl⟩ := Outcome.matched.inj h
  obtain ⟨rfl, hfragment⟩ := optional_cases lit_hash hf
  obtain ⟨rfl, hquery⟩ := optional_cases lit_question hq
  obtain ⟨hwell, rfl⟩ := hierPart_cases ho hpart
  obtain ⟨rfl, hcolon⟩ := run_eq_matched_iff.mp hc
  obtain ⟨rfl, hscheme⟩ := run_eq_matched_iff.mp hs
  obtain rfl := (takes_charIn_one lit_colon).mp hcolon
  refine ⟨⟨(takes_scheme_iff.mp hscheme).1, hwell, fun text ht => ?_, fun text ht => ?_⟩, ?_⟩
  · exact (takes_query_iff.mp (hquery text ht)).1
  · exact (takes_query_iff.mp (hfragment text ht)).1
  · simp [Parts.text]

/-- The URLs that are accepted are the texts of well-formed parts, and each is the
text of its own parts only. -/
theorem start_eq_matched_iff (ho : IsOctet octet) :
    start octet input = .matched p [] ↔ p.WellFormed octet ∧ input = p.text := by
  constructor
  · intro h
    simpa using start_cases ho h
  · rintro ⟨h, rfl⟩
    exact start_text ho h

def fullParts : Parts where
  scheme := lit "http"
  hierPart := .authority (some (lit "u")) (lit "h") (some (lit "80")) (lit "/a")
  query := some (lit "b")
  fragment := some (lit "c")

/-- A URL with all its parts. -/
theorem start_eq_matched_iff_full : fullParts.WellFormed decimalOctet ∧
    lit "http://u@h:80/a?b#c" = fullParts.text :=
  (start_eq_matched_iff isOctet_decimalOctet).mp (by decide +kernel)

/-- The grammar of a URL is never left where the host starts with a bracket that is
none of the first three forms of an address. -/
theorem start_eq_diverges_iff (ho : IsOctet octet) : start octet input = .diverges ↔
    ∃ s u rest, IsScheme s ∧ (∀ text ∈ u, Repeated (IsUnit (isEncoded ":")) text) ∧
      Fails (ipv6Leading octet) rest ∧
      input = s ++ ':'.toUInt8 :: (lit "//" ++ userText u ++ '['.toUInt8 :: rest) := by
  constructor
  · intro h
    obtain h | ⟨s, m, hs, h⟩ := Outcome.bind_eq_diverges_iff.mp h
    · exact absurd h (total_scheme _)
    · obtain ⟨hinput, hs⟩ := run_eq_matched_iff.mp hs
      obtain h | ⟨c, n, hc, h⟩ := Outcome.bind_eq_diverges_iff.mp h
      · exact absurd h ((reads_charIn ":").total m)
      · obtain h | ⟨_, k, -, h⟩ := Outcome.bind_eq_diverges_iff.mp h
        · obtain ⟨u, rest, huser, hfails, rfl⟩ :=
            (authority_eq_diverges_iff ho).mp (hierPart_eq_diverges_iff.mp h)
          obtain ⟨rfl, hcolon⟩ := run_eq_matched_iff.mp hc
          obtain rfl := (takes_charIn_one lit_colon).mp hcolon
          exact ⟨s, u, rest, (takes_scheme_iff.mp hs).1, huser, hfails, hinput⟩
        · obtain h | ⟨_, _, -, h⟩ := Outcome.bind_eq_diverges_iff.mp h
          · exact absurd h (optional_ne_diverges total_query)
          · obtain h | ⟨_, _, -, h⟩ := Outcome.bind_eq_diverges_iff.mp h
            · exact absurd h (optional_ne_diverges total_query)
            · cases h
  · rintro ⟨s, u, rest, hs, huser, hfails, rfl⟩
    rw [start_of_scheme hs, hierPart_eq_diverges_iff.mpr
      ((authority_eq_diverges_iff ho).mpr ⟨u, rest, huser, hfails, rfl⟩)]
    rfl

/-- The address of the local host. -/
theorem start_eq_diverges_iff_loopback :
    start decimalOctet (lit "http://[::1]/") = .diverges := by
  have hscheme : IsScheme (lit "http") :=
    ⟨'h'.toUInt8, lit "ttp", by decide, forall_mem_of_all (by decide), rfl⟩
  have hfails : (ipv6Leading decimalOctet).run (lit "::1]/") = .failed := by decide +kernel
  exact (start_eq_diverges_iff isOctet_decimalOctet).mpr
    ⟨lit "http", none, lit "::1]/", hscheme, nofun, hfails, rfl⟩

end Start

end UriGrammar

end HttpBackground
