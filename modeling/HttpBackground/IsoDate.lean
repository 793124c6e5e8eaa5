import HttpBackground.OmnisValue

/-!
# Dates and times as ISO 8601 strings

`getEXTFldValFromTime` stores a C time as a date and time with a century, and
`getISO8601DateStringFromEXTFldVal` leaves out the date part of some subtypes and the
time part of others. Every subtype for a date with a time is on both of its lists.
-/
namespace HttpBackground

/-- The subtypes of a date field that the component names, and the rest. -/
inductive DateSubType
  | dpFdate1900 | dpFdate1980 | dpFdate2000
  | dpFdtime1900 | dpFdtime1980 | dpFdtime2000 | dpFdtimeC
  | dpFtime
  | other (dp : ℕ)
  deriving DecidableEq, Repr

/-- `datestamptype`, as far as the component uses it. -/
structure DateStamp where
  mYear : ℤ
  mMonth : ℤ
  mDay : ℤ
  mDateOk : ℤ
  mHour : ℤ
  mMin : ℤ
  mSec : ℤ
  mTimeOk : ℤ
  mSecOk : ℤ
  mHunOk : ℤ
  deriving DecidableEq, Repr

/-- `struct tm`, with the year counted from 1900 and the month from 0. -/
structure Tm where
  tm_sec : ℤ
  tm_min : ℤ
  tm_hour : ℤ
  tm_mday : ℤ
  tm_mon : ℤ
  tm_year : ℤ
  deriving DecidableEq, Repr

/-- An `EXTfldval` with its type, its subtype and its date. -/
structure DateFldVal where
  valType : FFT
  valSubType : DateSubType
  date : DateStamp
  deriving DecidableEq, Repr

def qtrue : ℤ := 1

def qfalse : ℤ := 0

/-- `static_cast<char>` -/
def charCast (n : ℤ) : ℤ := (BitVec.ofInt 8 n).toInt

/-- `static_cast<qshort>` -/
def qshortCast (n : ℤ) : ℤ := (BitVec.ofInt 16 n).toInt

/-- `OmnisTools::getEXTFldValFromTime`. `convDate` is what the local variable of that
name holds before its fields are assigned; `mSecOk` is not among them. -/
def getEXTFldValFromTime (convDate : DateStamp) (cTime : Tm) : DateFldVal where
  valType := .fftDate
  valSubType := .dpFdtimeC
  date := { convDate with
    mYear := qshortCast (cTime.tm_year + 1900)
    mMonth := charCast (cTime.tm_mon + 1)
    mDay := charCast cTime.tm_mday
    mDateOk := charCast qtrue
    mHour := charCast cTime.tm_hour
    mMin := charCast cTime.tm_min
    mSec := charCast cTime.tm_sec
    mTimeOk := charCast qtrue
    mHunOk := charCast qfalse }

/-- A number written to a `std::stringstream`. -/
def decimalText (n : ℤ) : StdString := lit (toString n)

/-- One field after its separator, with a zero before a single digit. -/
def paddedField (sep : String) (n : ℤ) : StdString :=
  if n < 10 then lit sep ++ lit "0" ++ decimalText n else lit sep ++ decimalText n

namespace DateSubType

/-- The subtypes whose date part is left out. -/
def withoutDate : List DateSubType :=
  [.dpFdtime1900, .dpFdtime1980, .dpFdtime2000, .dpFdtimeC, .dpFtime]

/-- The subtypes whose time part is left out, as the source lists them. -/
def withoutTime : List DateSubType :=
  [.dpFdate1900, .dpFdate1900, .dpFdate1980, .dpFdate2000,
    .dpFdtime1900, .dpFdtime1980, .dpFdtime2000, .dpFdtimeC]

end DateSubType

namespace DateFldVal

def datePart (fVal : DateFldVal) : StdString :=
  if fVal.date.mDateOk = qtrue ∧ fVal.valSubType ∉ DateSubType.withoutDate then
    decimalText fVal.date.mYear ++ paddedField "-" fVal.date.mMonth ++
      paddedField "-" fVal.date.mDay
  else []

def timePart (fVal : DateFldVal) : StdString :=
  if fVal.date.mTimeOk = qtrue ∧ fVal.valSubType ∉ DateSubType.withoutTime then
    lit "T" ++ paddedField "" fVal.date.mHour ++ paddedField ":" fVal.date.mMin ++
      if fVal.date.mSecOk ≠ 0 then paddedField ":" fVal.date.mSec else []
  else []

end DateFldVal

/-- `OmnisTools::getISO8601DateStringFromEXTFldVal` -/
def getISO8601DateStringFromEXTFldVal (fVal : DateFldVal) : StdString :=
  if fVal.valType ≠ .fftDate then [] else fVal.datePart ++ fVal.timePart

namespace Tm

/-- The fields are in their ranges and the year is one of four digits. -/
structure Valid (t : Tm) : Prop where
  year : 0 ≤ t.tm_year + 1900 ∧ t.tm_year + 1900 ≤ 9999
  month : 0 ≤ t.tm_mon ∧ t.tm_mon ≤ 11
  day : 1 ≤ t.tm_mday ∧ t.tm_mday ≤ 31
  hour : 0 ≤ t.tm_hour ∧ t.tm_hour ≤ 23
  min : 0 ≤ t.tm_min ∧ t.tm_min ≤ 59
  sec : 0 ≤ t.tm_sec ∧ t.tm_sec ≤ 60

/-- A number with zeros before it up to a width. -/
def zeroPadded (width : ℕ) (n : ℤ) : StdString :=
  List.replicate (width - (decimalText n).length) 48 ++ decimalText n

/-- `YYYY-MM-DDTHH:MM:SS` -/
def isoString (t : Tm) : StdString :=
  zeroPadded 4 (t.tm_year + 1900) ++ lit "-" ++ zeroPadded 2 (t.tm_mon + 1) ++ lit "-" ++
    zeroPadded 2 t.tm_mday ++ lit "T" ++ zeroPadded 2 t.tm_hour ++ lit ":" ++
    zeroPadded 2 t.tm_min ++ lit ":" ++ zeroPadded 2 t.tm_sec

theorem isoString_ne_nil (t : Tm) : t.isoString ≠ [] := by
  have hmem : (84 : UInt8) ∈ t.isoString := by
    have hT : (84 : UInt8) ∈ lit "T" := by decide
    simp only [isoString, List.mem_append]
    simp [hT]
  intro hnil
  rw [hnil] at hmem
  cases hmem

end Tm

/-- A date of a subtype on both lists comes out empty. -/
theorem getISO8601_of_excluded {fVal : DateFldVal}
    (hdate : fVal.valSubType ∈ DateSubType.withoutDate)
    (htime : fVal.valSubType ∈ DateSubType.withoutTime) :
    getISO8601DateStringFromEXTFldVal fVal = [] := by
  have hdatePart : fVal.datePart = [] := if_neg fun h => h.2 hdate
  have htimePart : fVal.timePart = [] := if_neg fun h => h.2 htime
  rw [getISO8601DateStringFromEXTFldVal, hdatePart, htimePart]
  split_ifs <;> rfl

/-- The writer's subtype is on both lists. -/
theorem getISO8601_stored (convDate : DateStamp) (t : Tm) :
    getISO8601DateStringFromEXTFldVal (getEXTFldValFromTime convDate t) = [] :=
  getISO8601_of_excluded (by decide : DateSubType.dpFdtimeC ∈ _)
    (by decide : DateSubType.dpFdtimeC ∈ _)

/-- No time survives the trip: whatever the uninitialised fields hold, what is read
back is empty, never the time's string, and the same for every two times. -/
theorem time_never_survives (convDate convDate' : DateStamp) (t t' : Tm) :
    getISO8601DateStringFromEXTFldVal (getEXTFldValFromTime convDate t) ≠ t.isoString ∧
      getISO8601DateStringFromEXTFldVal (getEXTFldValFromTime convDate t) =
        getISO8601DateStringFromEXTFldVal (getEXTFldValFromTime convDate' t') := by
  rw [getISO8601_stored, getISO8601_stored]
  exact ⟨(Tm.isoString_ne_nil t).symm, rfl⟩

/-- Noon on the first of January 2011. -/
theorem new_year_lost :
    ¬ ∀ (convDate : DateStamp) (t : Tm), t.Valid →
      getISO8601DateStringFromEXTFldVal (getEXTFldValFromTime convDate t) = t.isoString := by
  intro hall
  have hvalid : Tm.Valid ⟨0, 0, 12, 1, 0, 111⟩ := by
    constructor <;> decide
  have hread := hall ⟨0, 0, 0, 0, 0, 0, 0, 0, 1, 0⟩ _ hvalid
  rw [getISO8601_stored] at hread
  exact Tm.isoString_ne_nil _ hread.symm

end HttpBackground
