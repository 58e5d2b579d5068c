import WhereClause.Calendar.Date
import WhereClause.Text.Blank

/-!
# Moments in time

A moment is written as a date, a time of day and an offset from universal time, in the profile of RFC 3339: `T`, `t` or a
space divides date and time, the seconds may have a fraction, and the offset is `Z`, `z` or a sign with hours and minutes.
The fraction is dropped. A sixtieth second may be written in any minute and counts as the fifty-ninth.

A text is read from left to right, and the first flaw met is the one reported. Two kinds of flaw are seen out of order: a
text too short to hold a date and a time is refused before anything is read, and an offset of a day or more only after all
else has been.
-/

namespace WhereClause

/-- A moment: a local date and time of day, and how many seconds its clock is ahead of universal time. -/
structure Moment where
  date : Date
  hour : Nat
  minute : Nat
  second : Nat
  offset : Int
  deriving DecidableEq, Repr

namespace Moment

/-- Seconds since 1970-01-01T00:00:00Z. -/
def seconds (m : Moment) : Int :=
  86400 * m.date.number + 3600 * m.hour + 60 * m.minute + min m.second 59 - m.offset

/-- What is wrong with the text of a moment. -/
inductive Flaw where
  /-- The text ends too early. -/
  | short
  /-- A character stands where it may not. -/
  | malformed
  /-- A number is too large for its place, or there is no such date. -/
  | outOfRange
  /-- Something follows the offset. -/
  | trailing
  deriving DecidableEq, Repr

/-- The wording of a flaw. -/
def Flaw.message : Flaw → String
  | .short => "premature end of input"
  | .malformed => "input contains invalid characters"
  | .outOfRange => "input is out of range"
  | .trailing => "trailing input"

/-- The value of a decimal digit. -/
def digitValue (c : Char) : Nat := c.toNat - '0'.toNat

/-- Reads `n` digits of a number whose first digits have the value `seen`. -/
def digits : (n : Nat) → (seen : Nat) → List Char → Except Flaw (Nat × List Char)
  | 0, seen, cs => .ok (seen, cs)
  | _ + 1, _, [] => .error .malformed
  | n + 1, seen, c :: cs => if c.isDigit then digits n (10 * seen + digitValue c) cs else .error .malformed

/-- Passes a mark that divides two numbers. -/
def mark (allowed : List Char) : List Char → Except Flaw (List Char)
  | c :: cs => if c ∈ allowed then .ok cs else .error .malformed
  | [] => .error .malformed

/-- Passes the fraction of a second, if there is one. -/
def fraction : List Char → Except Flaw (List Char)
  | ['.'] => .error .short
  | '.' :: c :: cs => if c.isDigit then .ok (cs.dropWhile Char.isDigit) else .error .malformed
  | cs => .ok cs

/-- Takes the two bytes that a number of an offset is written in. A character that takes several bytes is no digit. -/
def twoDigits : List Char → Except Flaw (Char × Char × List Char)
  | a :: b :: cs => if a.isDigit && b.isDigit then .ok (a, b, cs) else .error .malformed
  | [a] => .error (if a.utf8Size < 2 then .short else .malformed)
  | [] => .error .short

/-- Reads the offset, in seconds. The minutes must be below sixty; the hours are not looked at. -/
def offset? : List Char → Except Flaw (Int × List Char)
  | [] => .error .short
  | c :: cs =>
    if c = 'Z' ∨ c = 'z' then .ok (0, cs)
    else do
      let sign : Int ← if c = '+' then .ok 1 else if c = '-' ∨ c = '\u2212' then .ok (-1) else .error .malformed
      let (h, h', cs) ← twoDigits cs
      let cs ← match cs with
        | ':' :: cs => Except.ok cs
        | [] => .error .short
        | _ => .error .malformed
      let (m, m', cs) ← twoDigits cs
      if '6' ≤ m then .error .outOfRange
      else
        let hours := 10 * digitValue h + digitValue h'
        let minutes := 10 * digitValue m + digitValue m'
        .ok (sign * (3600 * hours + 60 * minutes), cs)

/-- Reads a moment that takes all of a text. -/
def ofChars (cs : List Char) : Except Flaw Moment := do
  let (year, cs) ← digits 4 0 cs
  let cs ← mark ['-'] cs
  let (month, cs) ← digits 2 0 cs
  let cs ← mark ['-'] cs
  let (day, cs) ← digits 2 0 cs
  match Date.of? year month day with
  | none => .error .outOfRange
  | some date =>
    let cs ← mark ['T', 't', ' '] cs
    let (hour, cs) ← digits 2 0 cs
    let cs ← mark [':'] cs
    let (minute, cs) ← digits 2 0 cs
    let cs ← mark [':'] cs
    let (second, cs) ← digits 2 0 cs
    let cs ← fraction cs
    if 24 ≤ hour ∨ 60 ≤ minute ∨ 60 < second then .error .outOfRange
    else
      let (offset, cs) ← offset? cs
      if cs ≠ [] then .error .trailing
      else if 86400 ≤ offset.natAbs then .error .outOfRange
      else .ok ⟨date, hour, minute, second, offset⟩

/-- The number of bytes that characters take. -/
def byteLength : List Char → Nat
  | [] => 0
  | c :: cs => c.utf8Size + byteLength cs

/-- Reads a moment from a text, which may stand between blanks. -/
def ofText (text : String) : Except Flaw Moment :=
  let cs := trimChars text.toList
  if byteLength cs < 19 then .error .short else ofChars cs

end Moment

/-- A text that is no moment, and why. -/
structure InvalidTimestamp where
  text : String
  flaw : Moment.Flaw
  deriving DecidableEq, Repr

/-- What is said of a text that is no moment. The text is shown as it was given, blanks included. -/
def InvalidTimestamp.message (e : InvalidTimestamp) : String :=
  "Invalid timestamp '" ++ e.text ++ "': " ++ e.flaw.message

/-- The seconds since 1970-01-01T00:00:00Z that a text names. -/
def parseTimestamp (text : String) : Except InvalidTimestamp Int64 :=
  match Moment.ofText text with
  | .ok m => .ok (.ofInt m.seconds)
  | .error flaw => .error ⟨text, flaw⟩

end WhereClause
