import HttpBackground.CppNetlibDelegate
import HttpBackground.ParamConversion

/-!
# Which column a parameter comes from

`getParamsFromRow` writes the columns of the row into a map one after another,
and `run` goes through the map. The map takes two names for the same exactly when
`run` does, so each parameter comes from the last column of its name, whatever
its case, and from no other.
-/
namespace HttpBackground

namespace StdString

theorem iequals_comm (s t : StdString) : iequals s t = iequals t s := by
  rw [Bool.eq_iff_iff, ← equiv_caseInsensitiveLess_iff, ← equiv_caseInsensitiveLess_iff]
  exact ⟨OrderedMap.Equiv.symm, OrderedMap.Equiv.symm⟩

/-- A name that equals one of two different names does not equal the other. -/
theorem iequals_other {s a b : StdString} (hab : iequals a b = false) (h : iequals s b = true) :
    iequals s a = false := by
  by_contra hsa
  have ha := equiv_caseInsensitiveLess_iff.mpr (show iequals s a = true by simpa using hsa)
  have hb := equiv_caseInsensitiveLess_iff.mpr h
  have := equiv_caseInsensitiveLess_iff.mp (ha.symm.trans hb)
  rw [hab] at this
  cases this

end StdString

namespace QList

/-- The last of the columns with that name, ignoring case. -/
def lastColumn (l : QList) (name : StdString) : Option ℕ :=
  (forLess 1 (l.colCnt + 1)).reverse.find? fun col => StdString.iequals name (l.getCol col)

/-- The conversion of its cell in the first row. -/
def columnValue (l : QList) (name : StdString) : Option Any :=
  (l.lastColumn name).map fun col => getAnyFromEXTFldVal (l.getColVal 1 col)

end QList

/-- A later column replaces what an earlier one of the same name has put there. -/
theorem find?_assignColumns (l : QList) (name : StdString) (cols : List ℕ) (params : ParamMap) :
    (cols.foldl (fun params col =>
      params.assign (l.getCol col) (getAnyFromEXTFldVal (l.getColVal 1 col))) params).find? name =
    ((cols.reverse.find? fun col => StdString.iequals name (l.getCol col)).map fun col =>
      getAnyFromEXTFldVal (l.getColVal 1 col)).or (params.find? name) := by
  have hkey : ∀ col, decide (OrderedMap.Equiv StdString.CaseInsensitiveLess name (l.getCol col)) =
      StdString.iequals name (l.getCol col) := by
    intro col
    simp only [StdString.equiv_caseInsensitiveLess_iff, Bool.decide_eq_true]
  simp only [ParamMap.find?, ParamMap.assign]
  rw [OrderedMap.find?_foldl_assign]
  simp only [hkey]

theorem sorted_assignColumns (l : QList) (cols : List ℕ) {params : ParamMap}
    (h : params.Sorted) :
    (cols.foldl (fun params col =>
      params.assign (l.getCol col) (getAnyFromEXTFldVal (l.getColVal 1 col))) params).Sorted := by
  induction cols generalizing params with
  | nil => exact h
  | cons col cols ih => exact ih (ParamMap.sorted_assign h _ _)

/-- What the map holds under a name. -/
theorem getParamsFromRow_find? {row : FldVal} {params : ParamMap}
    (h : getParamsFromRow row = some params) : ∃ l, row.qlist? = some l ∧ params.Sorted ∧
      ∀ name, params.find? name = l.columnValue name := by
  obtain ⟨l, hl, rfl⟩ := Option.map_eq_some_iff.mp h
  refine ⟨l, hl, sorted_assignColumns l _ List.Pairwise.nil, fun name => ?_⟩
  rw [find?_assignColumns]
  exact Option.or_none

namespace CppNetlibDelegate

section readParam

variable (p : RunParams) (it : StdString × Any)

theorem readParam_url : (readParam p it).url =
    if StdString.iequals it.1 (lit "url") then it.2.string?.getD p.url else p.url := by
  unfold readParam
  split_ifs <;> rfl

theorem readParam_method : (readParam p it).method =
    if StdString.iequals it.1 (lit "method") then it.2.string?.getD p.method else p.method := by
  by_cases h : StdString.iequals it.1 (lit "method") = true
  · have hurl := StdString.iequals_other (by decide : StdString.iequals (lit "url") _ = false) h
    simp [readParam, h, hurl]
  · unfold readParam
    rw [if_neg h, if_neg h]
    split_ifs <;> rfl

theorem readParam_headers : (readParam p it).headers =
    if StdString.iequals it.1 (lit "headers") then it.2.paramMaps?.getD p.headers
    else p.headers := by
  by_cases h : StdString.iequals it.1 (lit "headers") = true
  · have hurl := StdString.iequals_other (by decide : StdString.iequals (lit "url") _ = false) h
    have hmethod := StdString.iequals_other (by decide : StdString.iequals (lit "method") _ = false) h
    simp [readParam, h, hurl, hmethod]
  · unfold readParam
    rw [if_neg h, if_neg h]
    split_ifs <;> rfl

theorem readParam_requestBodyType : (readParam p it).requestBodyType =
    if StdString.iequals it.1 (lit "body_type") then it.2.string?.getD p.requestBodyType
    else p.requestBodyType := by
  by_cases h : StdString.iequals it.1 (lit "body_type") = true
  · have hurl := StdString.iequals_other (by decide : StdString.iequals (lit "url") _ = false) h
    have hmethod := StdString.iequals_other (by decide : StdString.iequals (lit "method") _ = false) h
    have hheaders := StdString.iequals_other (by decide : StdString.iequals (lit "headers") _ = false) h
    simp [readParam, h, hurl, hmethod, hheaders]
  · unfold readParam
    rw [if_neg h, if_neg h]
    split_ifs <;> rfl

theorem readParam_requestBody : (readParam p it).requestBody =
    if StdString.iequals it.1 (lit "body") then it.2.string?.getD p.requestBody
    else p.requestBody := by
  by_cases h : StdString.iequals it.1 (lit "body") = true
  · have hurl := StdString.iequals_other (by decide : StdString.iequals (lit "url") _ = false) h
    have hmethod := StdString.iequals_other (by decide : StdString.iequals (lit "method") _ = false) h
    have hheaders := StdString.iequals_other (by decide : StdString.iequals (lit "headers") _ = false) h
    have htype := StdString.iequals_other (by decide : StdString.iequals (lit "body_type") _ = false) h
    simp [readParam, h, hurl, hmethod, hheaders, htype]
  · unfold readParam
    rw [if_neg h]
    split_ifs <;> rfl

end readParam

/-- A local of `run` that one parameter fills is filled from the map's entry under
its name, where the cast succeeds. -/
theorem readParams_field {β : Type} {f : RunParams → β} {name : StdString} {cast : Any → Option β}
    (hstep : ∀ p it, f (readParam p it) =
      if StdString.iequals it.1 name then (cast it.2).getD (f p) else f p)
    {params : ParamMap} (hp : params.Sorted) :
    f (readParams params) = ((params.find? name).bind cast).getD (f {}) := by
  have hreacts : ∀ p it, f (readParam p it) =
      if OrderedMap.Equiv StdString.CaseInsensitiveLess name it.1 then (cast it.2).getD (f p)
      else f p := by
    intro p it
    simp only [hstep, StdString.equiv_caseInsensitiveLess_iff, StdString.iequals_comm name]
  have hfold := OrderedMap.foldl_find? (fun v old => (cast v).getD old) hreacts hp {}
  rw [readParams, hfold, ParamMap.find?]
  cases OrderedMap.find? StdString.CaseInsensitiveLess name params <;> rfl

/-- For every row, each parameter is the conversion of the last column of its name,
ignoring case, where that has the right type, and its default everywhere else. -/
theorem readParams_columns (row : FldVal) (params : ParamMap)
    (h : getParamsFromRow row = some params) : ∃ l, row.qlist? = some l ∧
      (readParams params).url = ((l.columnValue (lit "url")).bind Any.string?).getD [] ∧
      (readParams params).method =
        ((l.columnValue (lit "method")).bind Any.string?).getD (lit "GET") ∧
      (readParams params).headers =
        ((l.columnValue (lit "headers")).bind Any.paramMaps?).getD [] ∧
      (readParams params).requestBodyType =
        ((l.columnValue (lit "body_type")).bind Any.string?).getD [] ∧
      (readParams params).requestBody = ((l.columnValue (lit "body")).bind Any.string?).getD [] := by
  obtain ⟨l, hl, hsorted, hfind⟩ := getParamsFromRow_find? h
  refine ⟨l, hl, ?_⟩
  simp only [← hfind]
  exact ⟨readParams_field readParam_url hsorted, readParams_field readParam_method hsorted,
    readParams_field readParam_headers hsorted,
    readParams_field readParam_requestBodyType hsorted,
    readParams_field readParam_requestBody hsorted⟩

/-- Two columns for the URL and a method of the wrong type. -/
theorem readParams_columns_twice :
    ∃ params, getParamsFromRow (.row [⟨lit "URL", .fftCharacter⟩, ⟨lit "Method", .fftInteger⟩,
        ⟨lit "url", .fftCharacter⟩] [[.character (lit "first"), .integer 5,
          .character (lit "second")]]) = some params ∧
      (readParams params).url = lit "second" ∧ (readParams params).method = lit "GET" := by
  refine ⟨_, rfl, ?_⟩
  obtain ⟨l, hl, hurl, hmethod, -⟩ := readParams_columns (.row [⟨lit "URL", .fftCharacter⟩,
    ⟨lit "Method", .fftInteger⟩, ⟨lit "url", .fftCharacter⟩] [[.character (lit "first"), .integer 5,
      .character (lit "second")]]) _ rfl
  cases hl
  exact ⟨hurl.trans rfl, hmethod.trans rfl⟩

end CppNetlibDelegate

end HttpBackground
