import HttpBackground.StdString

/-!
# Omnis field values, lists and the C++ values they turn into

`FldVal` is the content of an `EXTfldval`; a list or row holds its column
definitions and its rows of cells, nested to any depth. `Any` is what the
component keeps in a `boost::any`, and a `ParamMap` is a row of such values
under names compared without regard to case. Omnis numbers rows and columns
from 1. Numbers are carried by their IEEE bits, since they are only passed on.
-/
namespace HttpBackground

/-- `ffttype`, the field types the component tells apart. -/
inductive FFT
  | fftNone | fftCharacter | fftBoolean | fftDate | fftNumber | fftInteger | fftBinary
  | fftList | fftRow | fftConstant | fftObject | fftObjref
  deriving DecidableEq, Repr

structure Column where
  name : StdString
  fft : FFT
  deriving DecidableEq, Repr

/-- `boolean` holds the number `EXTfldval::getBool` returns: 2 is true, 1 is
false. `other` is a value of any further type, which no conversion reads. -/
inductive FldVal
  | empty
  | character (s : StdString)
  | integer (n : ℤ)
  | number (bits : UInt64)
  | boolean (b : ℕ)
  | binary (bytes : List UInt8)
  | list (cols : List Column) (rows : List (List FldVal))
  | row (cols : List Column) (rows : List (List FldVal))
  | other (fft : FFT)
  deriving Repr

/-- `EXTqlist` -/
structure QList where
  cols : List Column
  rows : List (List FldVal)
  deriving Repr

/-- The result list of a request travels as `boost::shared_ptr<EXTqlist>`; `qlist` has
the list pointed to as it was when the value was made. What becomes of it afterwards is
kept in `DeliveredRow`. -/
inductive Any
  | empty
  | string (s : StdString)
  | int (n : ℤ)
  | double (bits : UInt64)
  | bool (b : Bool)
  | binary (bytes : List UInt8)
  | paramMaps (rows : List (List (StdString × Any)))
  | qlist (l : QList)
  deriving Repr

/-- `OmnisTools::ParamMap` -/
abbrev ParamMap := List (StdString × Any)

namespace ParamMap

def find? (m : ParamMap) (k : StdString) : Option Any :=
  OrderedMap.find? StdString.CaseInsensitiveLess k m

def assign (m : ParamMap) (k : StdString) (v : Any) : ParamMap :=
  OrderedMap.assign StdString.CaseInsensitiveLess k v m

def Sorted (m : ParamMap) : Prop := OrderedMap.Sorted StdString.CaseInsensitiveLess m

theorem find?_assign (m : ParamMap) (j k : StdString) (v : Any) :
    (m.assign k v).find? j = if StdString.iequals j k then some v else m.find? j := by
  simp only [find?, assign, OrderedMap.find?_assign, StdString.equiv_caseInsensitiveLess_iff]

theorem sorted_assign {m : ParamMap} (hm : m.Sorted) (k : StdString) (v : Any) :
    (m.assign k v).Sorted := OrderedMap.sorted_assign k v hm

end ParamMap

namespace FldVal

/-- The list behind a list or row value. -/
def qlist? : FldVal → Option QList
  | .list cols rows => some ⟨cols, rows⟩
  | .row cols rows => some ⟨cols, rows⟩
  | _ => none

end FldVal

namespace Any

/-- `boost::any_cast<std::string>` -/
def string? : Any → Option StdString
  | .string s => some s
  | _ => none

/-- `boost::any_cast<std::vector<ParamMap> >` -/
def paramMaps? : Any → Option (List ParamMap)
  | .paramMaps rows => some rows
  | _ => none

/-- `boost::any_cast<boost::shared_ptr<EXTqlist> >` -/
def qlist? : Any → Option QList
  | .qlist l => some l
  | _ => none

end Any

namespace QList

/-- A list as `new EXTqlist(listVlen)` leaves it. -/
def new : QList := ⟨[], []⟩

def rowCnt (l : QList) : ℕ := l.rows.length

def colCnt (l : QList) : ℕ := l.cols.length

/-- The name of a column, numbered from 1. -/
def getCol (l : QList) (col : ℕ) : StdString := ((l.cols[col - 1]?).map Column.name).getD []

/-- The cell at a row and a column, both numbered from 1. -/
def getColVal (l : QList) (row col : ℕ) : FldVal :=
  ((l.rows[row - 1]?).bind fun cells => cells[col - 1]?).getD .empty

/-- A new last column; the rows there are get an empty cell under it. -/
def addCol (l : QList) (fft : FFT) (name : StdString) : QList :=
  ⟨l.cols ++ [⟨name, fft⟩], l.rows.map fun cells => cells ++ [.empty]⟩

/-- A new last row of empty cells. -/
def insertRow (l : QList) : QList :=
  ⟨l.cols, l.rows ++ [List.replicate l.colCnt .empty]⟩

/-- Write through the reference `getColValRef` hands out. -/
def setColVal (l : QList) (row col : ℕ) (v : FldVal) : QList :=
  ⟨l.cols, l.rows.modify (row - 1) fun cells => cells.set (col - 1) v⟩

theorem setColVal_cols (l : QList) (row col : ℕ) (v : FldVal) :
    (l.setColVal row col v).cols = l.cols := rfl

@[simp] theorem setColVal_length (l : QList) (row col : ℕ) (v : FldVal) :
    (l.setColVal row col v).rows.length = l.rows.length := by simp [setColVal]

@[simp] theorem addCol_length (l : QList) (fft : FFT) (name : StdString) :
    (l.addCol fft name).rows.length = l.rows.length := by simp [addCol]

@[simp] theorem insertRow_length (l : QList) :
    l.insertRow.rows.length = l.rows.length + 1 := by simp [insertRow]

end QList

end HttpBackground
