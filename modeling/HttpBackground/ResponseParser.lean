import HttpBackground.Scanning
import HttpBackground.StdString
import Mathlib.Data.List.DropRight

/-!
# The incremental response parser

`response_parser` walks over the head of a response byte by byte. One call of
`parse_until` goes on from the state of the last one until the given state is
reached, and hands back the bytes it has walked over. Characters are classified
under the classic locale, so bytes from 128 on are in no class.
-/
namespace HttpBackground

namespace StdString

def isDigit (c : UInt8) : Bool := decide (48 ≤ c) && decide (c ≤ 57)

def isAlpha (c : UInt8) : Bool :=
  decide (65 ≤ c) && decide (c ≤ 90) || decide (97 ≤ c) && decide (c ≤ 122)

def isAlnum (c : UInt8) : Bool := isDigit c || isAlpha c

def isSpace (c : UInt8) : Bool := decide (9 ≤ c) && decide (c ≤ 13) || c == 32

def isCntrl (c : UInt8) : Bool := decide (c < 32) || c == 127

def isPunct (c : UInt8) : Bool := decide (33 ≤ c) && decide (c ≤ 126) && !isAlnum c

/-- `boost::trim` -/
def trim (s : StdString) : StdString := (s.rdropWhile isSpace).dropWhile isSpace

end StdString

namespace ResponseParser

open Scanning StdString

inductive State
  | httpResponseBegin
  | httpVersionH
  | httpVersionT1
  | httpVersionT2
  | httpVersionP
  | httpVersionSlash
  | httpVersionMajor
  | httpVersionDot
  | httpVersionMinor
  | httpVersionDone
  | httpStatusDigit
  | httpStatusDone
  | httpStatusMessageChar
  | httpStatusMessageCr
  | httpStatusMessageDone
  | httpHeaderNameChar
  | httpHeaderColon
  | httpHeaderValueChar
  | httpHeaderLineCr
  | httpHeaderLineDone
  | httpHeadersEndCr
  | httpHeadersDone
  deriving DecidableEq, Repr

open State

/-- The `switch` of `parse_until`; `none` is `parsed_ok = false`. -/
def next (state : State) (c : UInt8) : Option State :=
  match state with
  | httpResponseBegin =>
    if c = ' '.toUInt8 ∨ c = '\r'.toUInt8 ∨ c = '\n'.toUInt8 then some httpResponseBegin
    else if c = 'H'.toUInt8 then some httpVersionH
    else none
  | httpVersionH => if c = 'T'.toUInt8 then some httpVersionT1 else none
  | httpVersionT1 => if c = 'T'.toUInt8 then some httpVersionT2 else none
  | httpVersionT2 => if c = 'P'.toUInt8 then some httpVersionP else none
  | httpVersionP => if c = '/'.toUInt8 then some httpVersionSlash else none
  | httpVersionSlash => if isDigit c then some httpVersionMajor else none
  | httpVersionMajor => if c = '.'.toUInt8 then some httpVersionDot else none
  | httpVersionDot => if isDigit c then some httpVersionMinor else none
  | httpVersionMinor => if c = ' '.toUInt8 then some httpVersionDone else none
  | httpVersionDone => if isDigit c then some httpStatusDigit else none
  | httpStatusDigit =>
    if isDigit c then some httpStatusDigit
    else if c = ' '.toUInt8 then some httpStatusDone
    else none
  | httpStatusDone => if isAlnum c then some httpStatusMessageChar else none
  | httpStatusMessageChar =>
    if isAlnum c || isPunct c || c == ' '.toUInt8 then some httpStatusMessageChar
    else if c = '\r'.toUInt8 then some httpStatusMessageCr
    else none
  | httpStatusMessageCr => if c = '\n'.toUInt8 then some httpStatusMessageDone else none
  | httpStatusMessageDone | httpHeaderLineDone =>
    if isAlnum c then some httpHeaderNameChar
    else if c = '\r'.toUInt8 then some httpHeadersEndCr
    else none
  | httpHeaderNameChar =>
    if c = ':'.toUInt8 then some httpHeaderColon
    else if isAlnum c || isSpace c || isPunct c then some httpHeaderNameChar
    else none
  | httpHeaderColon =>
    if isSpace c then some httpHeaderColon
    else if isAlnum c || isPunct c then some httpHeaderValueChar
    else none
  | httpHeaderValueChar =>
    if c = '\r'.toUInt8 then some httpHeaderLineCr
    else if isCntrl c then none
    else some httpHeaderValueChar
  | httpHeaderLineCr => if c = '\n'.toUInt8 then some httpHeaderLineDone else none
  | httpHeadersEndCr => if c = '\n'.toUInt8 then some httpHeadersDone else none
  | httpHeadersDone => none

/-- One byte, and the bytes between `start` and `current` after it: `start` moves
along with `current` over what comes before the `H`. -/
def advance (p : State × StdString) (c : UInt8) : Option (State × StdString) :=
  (next p.1 c).map fun state =>
    (state,
      if p.1 = httpResponseBegin then
        if state = httpResponseBegin then p.2 else [c]
      else p.2 ++ [c])

/-- `parse_until`, from a parser in the given state: the verdict, the state with
the range it hands back, and the input after that range. -/
def parseUntil (stopState state : State) (range : StdString) : Outcome (State × StdString) UInt8 :=
  scan advance (fun p => p.1 == stopState) (state, []) range

/-- The parser alone, without the range. -/
def follows (stopState : State) : State → StdString → Option State :=
  reads next (· == stopState)

theorem next_ne_begin {s s' : State} {c : UInt8} (hs : s ≠ httpResponseBegin)
    (h : next s c = some s') : s' ≠ httpResponseBegin := by
  cases s <;> simp only [next] at h <;> grind

/-- Once the `H` is there, the range is what has been read. -/
theorem reads_advance {stopState s : State} (hs : s ≠ httpResponseBegin) (token w : StdString) :
    reads advance (fun p => p.1 == stopState) (s, token) w =
      (follows stopState s w).map fun t => (t, token ++ w) := by
  induction w generalizing s token with
  | nil => simp [follows]
  | cons c w ih =>
    simp only [follows, reads, advance, hs, if_false] at ih ⊢
    by_cases hstop : s = stopState
    · simp [hstop]
    · cases hnext : next s c with
      | none => simp [hstop]
      | some s' => simp [hstop, ih (next_ne_begin hs hnext)]

/-- What was in the range before stays in front of what is read. -/
theorem scan_token {stopState s : State} (token input : StdString)
    (hs : s = httpResponseBegin → token = []) :
    scan advance (fun p => p.1 == stopState) (s, token) input =
      { scan advance (fun p => p.1 == stopState) (s, []) input with
        state := ((scan advance (fun p => p.1 == stopState) (s, []) input).state.1,
          token ++ (scan advance (fun p => p.1 == stopState) (s, []) input).state.2) } := by
  induction input generalizing s token with
  | nil => simp [scan]
  | cons c input ih =>
    by_cases hbegin : s = httpResponseBegin
    · simp [hs hbegin]
    · by_cases hstop : s = stopState
      · simp [scan, hstop]
      · cases hnext : next s c with
        | none => simp [scan, advance, hstop, hnext]
        | some s' =>
          have hs' : s' ≠ httpResponseBegin := next_ne_begin hbegin hnext
          simp only [scan, advance, hbegin, if_false, hnext, Option.map_some, beq_iff_eq, hstop,
            List.nil_append]
          rw [ih (token ++ [c]) (fun h => absurd h hs'), ih [c] (fun h => absurd h hs')]
          simp

/-- As long as the `H` is missing the range is empty. -/
theorem token_of_begin {stopState s : State} {token : StdString} (input : StdString)
    (hs : s = httpResponseBegin → token = [])
    (h : (scan advance (fun p => p.1 == stopState) (s, token) input).state.1 =
      httpResponseBegin) :
    (scan advance (fun p => p.1 == stopState) (s, token) input).state.2 = [] := by
  induction input generalizing s token with
  | nil => exact hs h
  | cons c input ih =>
    by_cases hstop : s = stopState
    · simp only [scan, hstop, beq_self_eq_true, if_true] at h ⊢
      exact hs (hstop.trans h)
    · cases hnext : next s c with
      | none =>
        simp only [scan, advance, hnext, beq_iff_eq, hstop, if_false, Option.map_none] at h ⊢
        exact hs h
      | some s' =>
        simp only [scan, advance, hnext, beq_iff_eq, hstop, if_false, Option.map_some] at h ⊢
        refine ih (fun hs' => ?_) h
        subst hs'
        by_cases hbegin : s = httpResponseBegin
        · simp [hs hbegin, hbegin]
        · exact absurd rfl (next_ne_begin hbegin hnext)

variable {stopState s : State} {xs : StdString}

/-- The next piece continues the range of a pending parser. -/
theorem parseUntil_append_pending (h : (parseUntil stopState s xs).verdict = .pending)
    (ys : StdString) :
    parseUntil stopState s (xs ++ ys) =
      { parseUntil stopState (parseUntil stopState s xs).state.1 ys with
        state := ((parseUntil stopState (parseUntil stopState s xs).state.1 ys).state.1,
          (parseUntil stopState s xs).state.2 ++
            (parseUntil stopState (parseUntil stopState s xs).state.1 ys).state.2) } := by
  have hbegin : (parseUntil stopState s xs).state.1 = httpResponseBegin →
      (parseUntil stopState s xs).state.2 = [] := token_of_begin xs fun _ => rfl
  exact (scan_append_pending h).trans (scan_token _ ys hbegin)

theorem parseUntil_append_settled (h : (parseUntil stopState s xs).verdict ≠ .pending)
    (ys : StdString) :
    parseUntil stopState s (xs ++ ys) =
      { parseUntil stopState s xs with rest := (parseUntil stopState s xs).rest ++ ys } :=
  scan_append_settled h

theorem follows_of_reads {stopState s t : State} {token token' w : StdString}
    (h : reads advance (fun p => p.1 == stopState) (s, token) w = some (t, token')) :
    follows stopState s w = some t := by
  induction w generalizing s token with
  | nil =>
    obtain ⟨rfl, -⟩ := by simpa using h
    rfl
  | cons c w ih =>
    have hs : (s == stopState) = false := by
      by_contra hstop
      simp only [Bool.not_eq_false] at hstop
      simp [reads, hstop] at h
    rw [reads_cons (by exact hs), Option.bind_eq_some_iff] at h
    obtain ⟨⟨s', token''⟩, hstep, hrest⟩ := h
    obtain ⟨s'', hnext, he⟩ := Option.map_eq_some_iff.mp hstep
    obtain ⟨rfl, -⟩ := Prod.mk.inj he
    rw [follows, reads_cons_some (by exact hs) hnext]
    exact ih hrest

/-- The range leads where what was read leads. -/
theorem follows_token {stopState s t : State} {token w : StdString} (hs : s ≠ stopState)
    (h : reads advance (fun p => p.1 == stopState) (s, []) w = some (t, token)) :
    follows stopState s token = some t := by
  by_cases hbegin : s = httpResponseBegin
  · subst hbegin
    induction w with
    | nil =>
      obtain ⟨rfl, rfl⟩ := by simpa using h
      rfl
    | cons c w ih =>
      rw [reads_cons (by simpa using hs), Option.bind_eq_some_iff] at h
      obtain ⟨⟨s', token'⟩, hstep, hrest⟩ := h
      obtain ⟨s'', hnext, he⟩ := Option.map_eq_some_iff.mp hstep
      by_cases hs'' : s'' = httpResponseBegin
      · subst hs''
        obtain ⟨rfl, rfl⟩ : s' = httpResponseBegin ∧ token' = [] := by simpa [eq_comm] using he
        exact ih hrest
      · obtain ⟨rfl, rfl⟩ : s' = s'' ∧ token' = [c] := by simpa [hs'', eq_comm] using he
        rw [reads_advance hs''] at hrest
        obtain ⟨t', hfollows, he'⟩ := Option.map_eq_some_iff.mp hrest
        obtain ⟨rfl, rfl⟩ := Prod.mk.inj he'
        rw [List.singleton_append, follows, reads_cons_some (by simpa using hs) hnext]
        exact hfollows
  · rw [reads_advance hbegin] at h
    obtain ⟨t', hfollows, he⟩ := Option.map_eq_some_iff.mp h
    obtain ⟨rfl, rfl⟩ := Prod.mk.inj he
    exact hfollows

theorem follows_range {stopState s : State} (hs : s ≠ stopState) (input : StdString) :
    follows stopState s (parseUntil stopState s input).state.2 =
      some (parseUntil stopState s input).state.1 := by
  obtain ⟨w, -, hreads⟩ := exists_reads advance (fun p => p.1 == stopState) (s, []) input
  exact follows_token hs hreads

theorem parseUntil_accepted_iff {stopState s : State} {input : StdString} :
    (parseUntil stopState s input).verdict = .accepted ↔
      (parseUntil stopState s input).state.1 = stopState := by
  rw [parseUntil, accepted_iff, beq_iff_eq]

/-- An accepted part is a word that leads to the stop state, and the rest. -/
theorem exists_of_accepted {stopState s : State} {input : StdString}
    (h : (parseUntil stopState s input).verdict = .accepted) :
    ∃ w rest, input = w ++ rest ∧ follows stopState s w = some stopState := by
  obtain ⟨w, hw, hreads⟩ := exists_reads advance (fun p => p.1 == stopState) (s, []) input
  have hfollows := follows_of_reads hreads
  rw [← parseUntil, parseUntil_accepted_iff.mp h] at hfollows
  exact ⟨w, _, hw, hfollows⟩

end ResponseParser

end HttpBackground
