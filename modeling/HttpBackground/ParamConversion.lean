import HttpBackground.OmnisValue
import Mathlib.Data.List.Range

/-!
# From Omnis values to parameters

`getAnyFromEXTFldVal` turns a field into a `boost::any`, a list or row becoming
a vector of parameter maps. Its two loops stop below the counts, where
`getParamsFromRow` runs up to and including them, so that every list loses its
last row and its last column.
-/
namespace HttpBackground

/-- The values of `i` in `for (i = lo; i < hi; ++i)`. -/
def forLess (lo hi : ℕ) : List ℕ := List.range' lo (hi - lo)

/-- `getIntFromEXTFldVal`: numbers outside the range of `int` become zero. -/
def getIntFromEXTFldVal (n : ℤ) : ℤ := if n < -2147483648 ∨ n > 2147483647 then 0 else n

def getBoolFromEXTFldVal (b : ℕ) : Bool :=
  match b with
  | 2 => true
  | 1 => false
  | _ => false

/-- One map of the vector: `row[name] = value` for `curCol` from 1 below the
column count, with the values of the row already converted. -/
def rowMap (l : QList) (table : ℕ → ℕ → Any) (curRow : ℕ) : ParamMap :=
  (forLess 1 l.colCnt).foldl
    (fun row curCol => row.assign (l.getCol curCol) (table curRow curCol)) []

/-- The vector: one map for `curRow` from 1 below the row count. -/
def listVector (l : QList) (table : ℕ → ℕ → Any) : List ParamMap :=
  (forLess 1 l.rowCnt).map (rowMap l table)

/-- The converted cell at a row and a column, both numbered from 1. -/
def tableAt (table : List (List Any)) (row col : ℕ) : Any :=
  ((table[row - 1]?).bind fun cells => cells[col - 1]?).getD .empty

mutual

/-- `OmnisTools::getAnyFromEXTFldVal` -/
def getAnyFromEXTFldVal : FldVal → Any
  | .character s => .string s
  | .integer n => .int (getIntFromEXTFldVal n)
  | .number bits => .double bits
  | .boolean b => .bool (getBoolFromEXTFldVal b)
  | .binary bytes => .binary bytes
  | .row cols rows => .paramMaps (listVector ⟨cols, rows⟩ (tableAt (getAnyRows rows)))
  | .list cols rows => .paramMaps (listVector ⟨cols, rows⟩ (tableAt (getAnyRows rows)))
  | .empty => .empty
  | .other _ => .empty

def getAnyRows : List (List FldVal) → List (List Any)
  | [] => []
  | cells :: rows => getAnyCells cells :: getAnyRows rows

def getAnyCells : List FldVal → List Any
  | [] => []
  | v :: cells => getAnyFromEXTFldVal v :: getAnyCells cells

end

/-- `OmnisTools::getParamsFromRow`, `none` where it returns `false`. -/
def getParamsFromRow (row : FldVal) : Option ParamMap :=
  row.qlist?.map fun rowData =>
    (forLess 1 (rowData.colCnt + 1)).foldl
      (fun params col =>
        params.assign (rowData.getCol col) (getAnyFromEXTFldVal (rowData.getColVal 1 col))) []

theorem getAnyCells_eq_map (cells : List FldVal) :
    getAnyCells cells = cells.map getAnyFromEXTFldVal := by
  induction cells with
  | nil => rfl
  | cons v cells ih => simp [getAnyCells, ih]

theorem getAnyRows_eq_map (rows : List (List FldVal)) :
    getAnyRows rows = rows.map (List.map getAnyFromEXTFldVal) := by
  induction rows with
  | nil => rfl
  | cons cells rows ih => simp [getAnyRows, getAnyCells_eq_map, ih]

/-- The table holds the conversion of each cell. -/
theorem tableAt_getAnyRows (l : QList) (row col : ℕ) :
    tableAt (getAnyRows l.rows) row col = getAnyFromEXTFldVal (l.getColVal row col) := by
  simp only [tableAt, QList.getColVal, getAnyRows_eq_map, List.getElem?_map]
  cases l.rows[row - 1]? with
  | none => rfl
  | some cells =>
    simp only [Option.map_some, Option.bind_some, List.getElem?_map]
    cases cells[col - 1]? with
    | none => rfl
    | some v => rfl

/-- The conversion of a list or row is the vector over its converted cells. -/
theorem getAnyFromEXTFldVal_of_qlist {v : FldVal} {l : QList} (h : v.qlist? = some l) :
    getAnyFromEXTFldVal v =
      .paramMaps (listVector l fun row col => getAnyFromEXTFldVal (l.getColVal row col)) := by
  have htable : tableAt (getAnyRows l.rows) =
      fun row col => getAnyFromEXTFldVal (l.getColVal row col) := by
    funext row col
    exact tableAt_getAnyRows l row col
  cases v with
  | list cols rows =>
    cases h
    rw [← htable, getAnyFromEXTFldVal]
  | row cols rows =>
    cases h
    rw [← htable, getAnyFromEXTFldVal]
  | _ => simp [FldVal.qlist?] at h

/-- Column names of one list, pairwise distinct ignoring case. -/
def DistinctNames (cols : List Column) : Prop :=
  cols.Pairwise fun a b => StdString.iequals a.name b.name = false

/-- The vector has one map fewer than the list has rows. -/
theorem listVector_length (l : QList) (table : ℕ → ℕ → Any) :
    (listVector l table).length = l.rowCnt - 1 := by simp [listVector, forLess]

/-- A conversion that loses nothing: a list becomes one map per row, in row
order, each binding exactly the column names, and each of them to a complete
conversion of the cell there. Other values become what the code makes of them. -/
inductive Complete : FldVal → Any → Prop
  | scalar {v : FldVal} (hv : v.qlist? = none) : Complete v (getAnyFromEXTFldVal v)
  | list {v : FldVal} {l : QList} {maps : List ParamMap} (cell : ℕ → ℕ → Any)
      (hv : v.qlist? = some l) (hlength : maps.length = l.rowCnt)
      (hbinds : ∀ (i : ℕ) (m : ParamMap), maps[i]? = some m → ∀ j, j < l.colCnt →
        m.find? (l.getCol (j + 1)) = some (cell i j))
      (honly : ∀ (i : ℕ) (m : ParamMap), maps[i]? = some m → ∀ k x, m.find? k = some x →
        ∃ j, j < l.colCnt ∧ StdString.iequals k (l.getCol (j + 1)) = true)
      (hcells : ∀ i j, i < l.rowCnt → j < l.colCnt →
        Complete (l.getColVal (i + 1) (j + 1)) (cell i j)) :
      Complete v (.paramMaps maps)

theorem Complete.length {v : FldVal} {l : QList} {maps : List ParamMap}
    (hv : v.qlist? = some l) (h : Complete v (.paramMaps maps)) : maps.length = l.rowCnt := by
  generalize ha : Any.paramMaps maps = a at h
  cases h with
  | scalar hnone => simp [hv] at hnone
  | list cell hv' hlength =>
    cases ha
    rw [hv] at hv'
    cases hv'
    exact hlength

/-- A conversion of a list is complete only where there was nothing to convert. -/
theorem complete_iff_of_qlist {v : FldVal} {l : QList} (hv : v.qlist? = some l) :
    Complete v (getAnyFromEXTFldVal v) ↔ l.rowCnt = 0 := by
  rw [getAnyFromEXTFldVal_of_qlist hv]
  constructor
  · intro h
    have hlength := h.length hv
    rw [listVector_length] at hlength
    omega
  · intro h
    have hnil : listVector l (fun row col => getAnyFromEXTFldVal (l.getColVal row col)) = [] := by
      rw [← List.length_eq_zero_iff, listVector_length, h]
    rw [hnil]
    exact .list (fun _ _ => .empty) hv (by simp [h]) (by simp) (by simp)
      (fun i j hi _ => by omega)

/-- Every list and row value converts completely exactly when it has no rows. -/
theorem getAnyFromEXTFldVal_complete_iff (l : QList) :
    (Complete (.list l.cols l.rows) (getAnyFromEXTFldVal (.list l.cols l.rows)) ↔ l.rowCnt = 0) ∧
    (Complete (.row l.cols l.rows) (getAnyFromEXTFldVal (.row l.cols l.rows)) ↔ l.rowCnt = 0) :=
  ⟨complete_iff_of_qlist rfl, complete_iff_of_qlist rfl⟩

/-- A `headers` list of one key/value row reaches the delegate as no map at all. -/
theorem headers_row_lost :
    ¬ ∀ l : QList, DistinctNames l.cols →
      Complete (.list l.cols l.rows) (getAnyFromEXTFldVal (.list l.cols l.rows)) := by
  intro h
  let headers : QList :=
    ⟨[⟨lit "key", .fftCharacter⟩, ⟨lit "value", .fftCharacter⟩],
      [[.character (lit "Accept"), .character (lit "text/plain")]]⟩
  have hnames : DistinctNames headers.cols := by
    simp only [headers, DistinctNames, List.pairwise_cons]
    exact ⟨by simpa using by decide, by simp, List.Pairwise.nil⟩
  have hcomplete : Complete _ (.paramMaps []) := h headers hnames
  exact absurd (hcomplete.length rfl) (by decide)

end HttpBackground
