import HttpBackground.ResponseParser

/-!
# The heads the response parser accepts

A head is a status line, header lines and an empty line. Its parts carry the
classes of their characters, so a head is well formed by construction. The
parser reaches the end of a stage exactly on the text of the stage's part.
-/
namespace HttpBackground

namespace ResponseParser

open Scanning StdString State

def crlf : StdString := ['\r'.toUInt8, '\n'.toUInt8]

/-- What the parser skips before the `H`. -/
def isLeading (c : UInt8) : Bool := c == ' '.toUInt8 || c == '\r'.toUInt8 || c == '\n'.toUInt8

def isMessageChar (c : UInt8) : Bool := isAlnum c || isPunct c || c == ' '.toUInt8

def isNameChar (c : UInt8) : Bool := (isAlnum c || isSpace c || isPunct c) && c != ':'.toUInt8

def isValueStart (c : UInt8) : Bool := isAlnum c || isPunct c

/-- The version part: one digit on either side of the dot. -/
structure Version where
  leading : StdString
  major : UInt8
  minor : UInt8
  hleading : ∀ c ∈ leading, isLeading c = true
  hmajor : isDigit major = true
  hminor : isDigit minor = true

def Version.name (v : Version) : StdString := lit "HTTP/" ++ [v.major, '.'.toUInt8, v.minor]

def Version.text (v : Version) : StdString := v.leading ++ (v.name ++ [' '.toUInt8])

structure Status where
  first : UInt8
  more : StdString
  hfirst : isDigit first = true
  hmore : ∀ c ∈ more, isDigit c = true

def Status.digits (s : Status) : StdString := s.first :: s.more

def Status.text (s : Status) : StdString := s.digits ++ [' '.toUInt8]

structure StatusMessage where
  first : UInt8
  more : StdString
  hfirst : isAlnum first = true
  hmore : ∀ c ∈ more, isMessageChar c = true

def StatusMessage.phrase (m : StatusMessage) : StdString := m.first :: m.more

def StatusMessage.text (m : StatusMessage) : StdString := m.phrase ++ crlf

/-- A header line. The value starts at the first character after the colon that
is no space, and that character is never from 128 on. -/
structure HeaderLine where
  initial : UInt8
  more : StdString
  gap : StdString
  first : UInt8
  value : StdString
  hinitial : isAlnum initial = true
  hmore : ∀ c ∈ more, isNameChar c = true
  hgap : ∀ c ∈ gap, isSpace c = true
  hfirst : isValueStart first = true
  hvalue : ∀ c ∈ value, isCntrl c = false

def HeaderLine.field (l : HeaderLine) : StdString := l.initial :: l.more

/-- Up to the colon. -/
def HeaderLine.nameText (l : HeaderLine) : StdString := l.field ++ [':'.toUInt8]

/-- From behind the colon to the end of the line. -/
def HeaderLine.valueText (l : HeaderLine) : StdString := l.gap ++ (l.first :: l.value ++ crlf)

def HeaderLine.text (l : HeaderLine) : StdString := l.nameText ++ l.valueText

def headerText (lines : List HeaderLine) : StdString := lines.flatMap HeaderLine.text ++ crlf

structure Head where
  version : Version
  status : Status
  message : StatusMessage
  lines : List HeaderLine

def Head.text (h : Head) : StdString :=
  h.version.text ++ (h.status.text ++ (h.message.text ++ headerText h.lines))

theorem follows_leading (v : Version) :
    follows httpVersionDone httpResponseBegin v.leading = some httpResponseBegin := by
  apply reads_loop rfl
  intro c hc
  have := v.hleading c hc
  simp only [isLeading, Bool.or_eq_true, beq_iff_eq, or_assoc] at this
  simp [next, this]

theorem follows_version (v : Version) :
    follows httpVersionDone httpResponseBegin v.text = some httpVersionDone := by
  have hslash : follows httpVersionDone httpResponseBegin (lit "HTTP/") = some httpVersionSlash := by
    decide
  have hmajor : next httpVersionSlash v.major = some httpVersionMajor := by simp [next, v.hmajor]
  have hdot : next httpVersionMajor '.'.toUInt8 = some httpVersionDot := rfl
  have hminor : next httpVersionDot v.minor = some httpVersionMinor := by simp [next, v.hminor]
  have hdone : next httpVersionMinor ' '.toUInt8 = some httpVersionDone := rfl
  rw [Version.text, Version.name, List.append_assoc]
  apply reads_trans (follows_leading v)
  apply reads_trans hslash
  rw [List.cons_append, reads_cons_some rfl hmajor, List.cons_append, reads_cons_some rfl hdot,
    List.cons_append, reads_cons_some rfl hminor, List.nil_append, reads_cons_some rfl hdone,
    reads_nil]

/-- A state with one way on is left with the next byte. -/
theorem exists_strict {stopState s s' : State} {p : UInt8 → Prop} [DecidablePred p] {w : StdString}
    (hs : s ≠ stopState) (hnext : ∀ c, next s c = if p c then some s' else none)
    (h : follows stopState s w = some stopState) :
    ∃ c v, w = c :: v ∧ p c ∧ follows stopState s' v = some stopState := by
  obtain ⟨c, v, s'', rfl, hc, hv⟩ := exists_next (by simpa using hs) (by simp) h
  rw [hnext, Option.ite_none_right_eq_some, Option.some.injEq] at hc
  obtain ⟨hp, rfl⟩ := hc
  exact ⟨c, v, rfl, hp, hv⟩

theorem exists_version {w : StdString}
    (h : follows httpVersionDone httpResponseBegin w = some httpVersionDone) :
    ∃ v : Version, w = v.text := by
  obtain ⟨lead, c, w₁, s₁, rfl, hlead, hc, hne, h₁⟩ := exists_leave (by rfl) (by rfl) h
  have hlead' : ∀ c ∈ lead, isLeading c = true := by
    intro c hc
    have := hlead c hc
    simp only [next] at this
    split at this
    · rename_i hspace
      simpa [isLeading, or_assoc] using hspace
    · split at this <;> simp at this
  simp only [next] at hc
  split at hc
  · exact absurd (Option.some.inj hc).symm hne
  simp only [Option.ite_none_right_eq_some, Option.some.injEq] at hc
  obtain ⟨rfl, rfl⟩ := hc
  obtain ⟨_, w₂, rfl, rfl, h₂⟩ := exists_strict (by decide) (fun _ => rfl) h₁
  obtain ⟨_, w₃, rfl, rfl, h₃⟩ := exists_strict (by decide) (fun _ => rfl) h₂
  obtain ⟨_, w₄, rfl, rfl, h₄⟩ := exists_strict (by decide) (fun _ => rfl) h₃
  obtain ⟨_, w₅, rfl, rfl, h₅⟩ := exists_strict (by decide) (fun _ => rfl) h₄
  obtain ⟨major, w₆, rfl, hmajor, h₆⟩ := exists_strict (by decide) (fun _ => rfl) h₅
  obtain ⟨_, w₇, rfl, rfl, h₇⟩ := exists_strict (by decide) (fun _ => rfl) h₆
  obtain ⟨minor, w₈, rfl, hminor, h₈⟩ := exists_strict (by decide) (fun _ => rfl) h₇
  obtain ⟨_, w₉, rfl, rfl, h₉⟩ := exists_strict (by decide) (fun _ => rfl) h₈
  obtain ⟨rfl, -⟩ := (reads_of_stop (by rfl)).mp h₉
  exact ⟨⟨lead, major, minor, hlead', hmajor, hminor⟩, rfl⟩

theorem follows_status (s : Status) :
    follows httpStatusDone httpVersionDone s.text = some httpStatusDone := by
  have hmore : follows httpStatusDone httpStatusDigit s.more = some httpStatusDigit := by
    apply reads_loop rfl
    intro c hc
    simp [next, s.hmore c hc]
  have hfirst : follows httpStatusDone httpVersionDone (s.first :: s.more) =
      some httpStatusDigit := by
    have hstep : next httpVersionDone s.first = some httpStatusDigit := by simp [next, s.hfirst]
    rw [follows, reads_cons_some rfl hstep]
    exact hmore
  exact reads_trans hfirst rfl

theorem exists_status {w : StdString}
    (h : follows httpStatusDone httpVersionDone w = some httpStatusDone) :
    ∃ s : Status, w = s.text := by
  obtain ⟨first, w₁, rfl, hfirst, h₁⟩ := exists_strict (by decide) (fun _ => rfl) h
  obtain ⟨more, c, w₂, s', rfl, hmore, hc, hne, h₂⟩ := exists_leave (by rfl) (by rfl) h₁
  have hmore' : ∀ c ∈ more, isDigit c = true := by
    intro c hc
    have := hmore c hc
    simp only [next] at this
    grind
  have hspace : c = ' '.toUInt8 ∧ s' = httpStatusDone := by
    simp only [next] at hc
    grind
  obtain ⟨rfl, rfl⟩ := hspace
  obtain ⟨rfl, -⟩ := (reads_of_stop (by rfl)).mp h₂
  exact ⟨⟨first, more, hfirst, hmore'⟩, by simp [Status.text, Status.digits]⟩

theorem follows_message (m : StatusMessage) :
    follows httpStatusMessageDone httpStatusDone m.text = some httpStatusMessageDone := by
  have hmore : follows httpStatusMessageDone httpStatusMessageChar m.more =
      some httpStatusMessageChar := by
    apply reads_loop rfl
    intro c hc
    have := m.hmore c hc
    simp only [isMessageChar] at this
    simp [next, this]
  have hfirst : follows httpStatusMessageDone httpStatusDone (m.first :: m.more) =
      some httpStatusMessageChar := by
    have hstep : next httpStatusDone m.first = some httpStatusMessageChar := by
      simp [next, m.hfirst]
    rw [follows, reads_cons_some rfl hstep]
    exact hmore
  exact reads_trans hfirst rfl

theorem exists_message {w : StdString}
    (h : follows httpStatusMessageDone httpStatusDone w = some httpStatusMessageDone) :
    ∃ m : StatusMessage, w = m.text := by
  obtain ⟨first, w₁, rfl, hfirst, h₁⟩ := exists_strict (by decide) (fun _ => rfl) h
  obtain ⟨more, c, w₂, s', rfl, hmore, hc, hne, h₂⟩ := exists_leave (by rfl) (by rfl) h₁
  have hmore' : ∀ c ∈ more, isMessageChar c = true := by
    intro c hc
    have := hmore c hc
    simp only [next] at this
    simp only [isMessageChar]
    grind
  have hcr : c = '\r'.toUInt8 ∧ s' = httpStatusMessageCr := by
    simp only [next] at hc
    grind
  obtain ⟨rfl, rfl⟩ := hcr
  obtain ⟨_, w₃, rfl, rfl, h₃⟩ := exists_strict (by decide) (fun _ => rfl) h₂
  obtain ⟨rfl, -⟩ := (reads_of_stop (by rfl)).mp h₃
  exact ⟨⟨first, more, hfirst, hmore'⟩, by simp [StatusMessage.text, StatusMessage.phrase, crlf]⟩

/-- The two states in which a header line may start. -/
def atLine (s : State) : Bool := s == httpStatusMessageDone || s == httpHeaderLineDone

theorem next_atLine {s : State} (hs : atLine s = true) (c : UInt8) :
    next s c = if isAlnum c then some httpHeaderNameChar
      else if c = '\r'.toUInt8 then some httpHeadersEndCr else none := by
  simp only [atLine, Bool.or_eq_true, beq_iff_eq] at hs
  rcases hs with rfl | rfl <;> rfl

theorem follows_nameText {stopState s : State} (l : HeaderLine) (hs : atLine s = true)
    (hstop : s ≠ stopState) (hname : httpHeaderNameChar ≠ stopState) :
    follows stopState s l.nameText = some httpHeaderColon := by
  have hfirst : next s l.initial = some httpHeaderNameChar := by
    simp [next_atLine hs, l.hinitial]
  have hmore : follows stopState httpHeaderNameChar l.more = some httpHeaderNameChar := by
    apply reads_loop (by simpa using hname)
    intro c hc
    have := l.hmore c hc
    simp only [isNameChar, Bool.and_eq_true, bne_iff_ne] at this
    simp only [next, if_neg this.2, if_pos this.1]
  have hcolon : next httpHeaderNameChar ':'.toUInt8 = some httpHeaderColon := rfl
  rw [HeaderLine.nameText, HeaderLine.field, List.cons_append, follows,
    reads_cons_some (by simpa using hstop) hfirst]
  apply reads_trans hmore
  rw [reads_cons_some (by simpa using hname) hcolon, reads_nil]

theorem isSpace_of_valueStart {c : UInt8} (h : isValueStart c = true) : isSpace c = false := by
  simp only [isValueStart, isPunct, isAlnum, isDigit, isAlpha, isSpace, UInt8.le_iff_toNat_le,
    Bool.or_eq_true, Bool.and_eq_true, decide_eq_true_eq, Bool.or_eq_false_iff,
    Bool.and_eq_false_iff, decide_eq_false_iff_not, beq_eq_false_iff_ne, ne_eq,
    ← UInt8.toNat_inj] at h ⊢
  simp only [UInt8.reduceToNat] at h ⊢
  omega

theorem follows_valueText {stopState : State} (l : HeaderLine)
    (hcolon : httpHeaderColon ≠ stopState) (hchar : httpHeaderValueChar ≠ stopState)
    (hcr : httpHeaderLineCr ≠ stopState) :
    follows stopState httpHeaderColon l.valueText = some httpHeaderLineDone := by
  have hgap : follows stopState httpHeaderColon l.gap = some httpHeaderColon := by
    apply reads_loop (by simpa using hcolon)
    intro c hc
    simp [next, l.hgap c hc]
  have hfirst : next httpHeaderColon l.first = some httpHeaderValueChar := by
    have hstart := l.hfirst
    have hspace := isSpace_of_valueStart hstart
    simp only [isValueStart] at hstart
    simp [next, hspace, hstart]
  have hvalue : follows stopState httpHeaderValueChar l.value = some httpHeaderValueChar := by
    apply reads_loop (by simpa using hchar)
    intro c hc
    have hcntrl := l.hvalue c hc
    have hne : c ≠ '\r'.toUInt8 := by
      rintro rfl
      simp [isCntrl] at hcntrl
      revert hcntrl
      decide
    simp [next, hne, hcntrl]
  have hcr' : next httpHeaderValueChar '\r'.toUInt8 = some httpHeaderLineCr := rfl
  have hlf : next httpHeaderLineCr '\n'.toUInt8 = some httpHeaderLineDone := rfl
  apply reads_trans hgap
  rw [List.cons_append, reads_cons_some (by simpa using hcolon) hfirst]
  apply reads_trans hvalue
  rw [crlf, reads_cons_some (by simpa using hchar) hcr', reads_cons_some (by simpa using hcr) hlf,
    reads_nil]

theorem follows_line {s : State} (l : HeaderLine) (hs : atLine s = true) :
    follows httpHeadersDone s l.text = some httpHeaderLineDone := by
  have hstop : s ≠ httpHeadersDone := by
    rintro rfl
    simp [atLine] at hs
  exact reads_trans (follows_nameText l hs hstop (by decide))
    (follows_valueText l (by decide) (by decide) (by decide))

theorem follows_headers {s : State} (hs : atLine s = true) (lines : List HeaderLine) :
    follows httpHeadersDone s (headerText lines) = some httpHeadersDone := by
  induction lines generalizing s with
  | nil =>
    simp only [atLine, Bool.or_eq_true, beq_iff_eq] at hs
    rcases hs with rfl | rfl <;> rfl
  | cons l lines ih =>
    rw [headerText, List.flatMap_cons, List.append_assoc]
    exact reads_trans (follows_line l hs) (ih rfl)

/-- A line that the parser has begun is a header line. -/
theorem exists_line {initial : UInt8} {w : StdString} (hinitial : isAlnum initial = true)
    (h : follows httpHeadersDone httpHeaderNameChar w = some httpHeadersDone) :
    ∃ (l : HeaderLine) (v : StdString), initial :: w = l.text ++ v ∧
      follows httpHeadersDone httpHeaderLineDone v = some httpHeadersDone := by
  obtain ⟨more, c, w₁, s₁, rfl, hmore, hc, hne, h₁⟩ := exists_leave (by rfl) (by rfl) h
  have hmore' : ∀ c ∈ more, isNameChar c = true := by
    intro c hc
    have := hmore c hc
    simp only [next] at this
    simp only [isNameChar]
    grind
  have hcolon : c = ':'.toUInt8 ∧ s₁ = httpHeaderColon := by
    simp only [next] at hc
    grind
  obtain ⟨rfl, rfl⟩ := hcolon
  obtain ⟨gap, first, w₂, s₂, rfl, hgap, hc₂, hne₂, h₂⟩ := exists_leave (by rfl) (by rfl) h₁
  have hgap' : ∀ c ∈ gap, isSpace c = true := by
    intro c hc
    have := hgap c hc
    simp only [next] at this
    grind
  have hfirst : isValueStart first = true ∧ s₂ = httpHeaderValueChar := by
    simp only [next] at hc₂
    simp only [isValueStart]
    grind
  obtain ⟨hfirst, rfl⟩ := hfirst
  obtain ⟨value, c, w₃, s₃, rfl, hvalue, hc₃, hne₃, h₃⟩ := exists_leave (by rfl) (by rfl) h₂
  have hvalue' : ∀ c ∈ value, isCntrl c = false := by
    intro c hc
    have := hvalue c hc
    simp only [next] at this
    grind
  have hcr : c = '\r'.toUInt8 ∧ s₃ = httpHeaderLineCr := by
    simp only [next] at hc₃
    grind
  obtain ⟨rfl, rfl⟩ := hcr
  obtain ⟨_, v, rfl, rfl, h₄⟩ := exists_strict (by decide) (fun _ => rfl) h₃
  exact ⟨⟨initial, more, gap, first, value, hinitial, hmore', hgap', hfirst, hvalue'⟩, v,
    by simp [HeaderLine.text, HeaderLine.nameText, HeaderLine.field, HeaderLine.valueText, crlf], h₄⟩

theorem exists_headers {s : State} (hs : atLine s = true) {w : StdString}
    (h : follows httpHeadersDone s w = some httpHeadersDone) :
    ∃ lines, w = headerText lines := by
  -- on the length of the text: a line leaves a shorter one
  induction hn : w.length using Nat.strong_induction_on generalizing s w with
  | h n ih =>
    have hstop : s ≠ httpHeadersDone := by
      rintro rfl
      simp [atLine] at hs
    obtain ⟨c, w₁, s₁, rfl, hc, h₁⟩ := exists_next (by simpa using hstop) (by rfl) h
    rw [next_atLine hs] at hc
    by_cases halnum : isAlnum c = true
    · rw [if_pos halnum, Option.some.injEq] at hc
      subst hc
      obtain ⟨l, v, hw, hv⟩ := exists_line halnum h₁
      have hlen : v.length < n := by
        have := congrArg List.length hw
        simp only [List.length_append, HeaderLine.text, HeaderLine.nameText, HeaderLine.field,
          List.length_cons] at this hn
        omega
      obtain ⟨lines, rfl⟩ := ih v.length hlen rfl hv rfl
      exact ⟨l :: lines, by rw [hw]; simp [headerText]⟩
    · rw [if_neg halnum, Option.ite_none_right_eq_some, Option.some.injEq] at hc
      obtain ⟨rfl, rfl⟩ := hc
      obtain ⟨_, v, rfl, rfl, h₂⟩ := exists_strict (by decide) (fun _ => rfl) h₁
      obtain ⟨rfl, -⟩ := (reads_of_stop (by rfl)).mp h₂
      exact ⟨[], rfl⟩

end ResponseParser

end HttpBackground
