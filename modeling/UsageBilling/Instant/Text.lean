import UsageBilling.Instant.Basic
import UsageBilling.Number.Power
import UsageBilling.Text.Blank
import UsageBilling.Text.Integer

/-!
Contract: instants as text.

Owns:
- the internet date and time format in universal time, with no fraction or one
  of three, six or nine digits;
- the form with a numeric offset, and the form used inside messages;
- a lenient reader: blanks between the parts, one or two digits where two are
  usual, any offset below a day, and second 60 for a leap second.

Does not own: the type of instants, or texts without an offset, which name no
instant.
-/

namespace UsageBilling.Instant

open Text

/-! ## Writing -/

/-- The year with four digits; outside 0 to 9999, with its sign as well. -/
def yearText (year : Int) : String :=
  let digits := paddedDigits 4 year.natAbs
  if year < 0 then "-" ++ digits
  else if 9999 < year then "+" ++ digits
  else digits

def dateText (t : Instant) : String :=
  let date := Calendar.dateOf t.day
  yearText date.year ++ "-" ++ paddedDigits 2 date.month ++ "-" ++
    paddedDigits 2 date.day

/-- A fraction of a second in the fewest groups of three digits that hold it. -/
def fractionText (nanos : Nat) : String :=
  if nanos = 0 then ""
  else if nanos % 1000000 = 0 then "." ++ paddedDigits 3 (nanos / 1000000)
  else if nanos % 1000 = 0 then "." ++ paddedDigits 6 (nanos / 1000)
  else "." ++ paddedDigits 9 nanos

def timeText (t : Instant) : String :=
  let second := t.second % 60 + t.nanos / nanosPerSecond
  paddedDigits 2 (t.second / 3600) ++ ":" ++
    paddedDigits 2 (t.second / 60 % 60) ++ ":" ++
    paddedDigits 2 second ++ fractionText (t.nanos % nanosPerSecond)

def toText (t : Instant) : String :=
  t.dateText ++ "T" ++ t.timeText ++ "Z"

/-- Date and time with the offset of universal time in numbers. -/
def toOffsetText (t : Instant) : String :=
  t.dateText ++ "T" ++ t.timeText ++ "+00:00"

/-- Date and time for a reader of messages. -/
def describe (t : Instant) : String :=
  t.dateText ++ " " ++ t.timeText ++ " UTC"

/-! ## Reading -/

/-- The leading digits of a text, at most `limit` of them, and the text after
them. At least one digit is required. -/
def leadingDigits? (limit : Nat) (cs : List Char) : Option (List Char × List Char) :=
  let digits := (cs.take limit).takeWhile Char.isDigit
  if digits.isEmpty then none else some (digits, cs.drop digits.length)

/-- A number of one or two digits between two bounds, after blanks. -/
def field? (least largest : Nat) (cs : List Char) : Option (Nat × List Char) := do
  let (digits, rest) ← leadingDigits? 2 (trimStart cs)
  let value ← natural? digits
  if least ≤ value ∧ value ≤ largest then some (value, rest) else none

/-- A year after blanks: up to four digits, or a sign and any number of them. -/
def year? (cs : List Char) : Option (Int × List Char) := do
  match trimStart cs with
  | '-' :: rest =>
    let (digits, rest) ← leadingDigits? rest.length rest
    let value ← natural? digits
    some (-(value : Int), rest)
  | '+' :: rest =>
    let (digits, rest) ← leadingDigits? rest.length rest
    let value ← natural? digits
    some ((value : Int), rest)
  | rest =>
    let (digits, rest) ← leadingDigits? 4 rest
    let value ← natural? digits
    some ((value : Int), rest)

/-- The text after a mark that blanks may precede. -/
def afterMark? (mark : Char) (cs : List Char) : Option (List Char) :=
  match trimStart cs with
  | c :: rest => if c == mark then some rest else none
  | [] => none

def date? (cs : List Char) : Option (Calendar.Date × List Char) := do
  let (year, cs) ← year? cs
  let (month, cs) ← field? 1 12 (← afterMark? '-' cs)
  let (day, cs) ← field? 1 31 (← afterMark? '-' cs)
  let date : Calendar.Date := ⟨year, month, day⟩
  if date.exists then some (date, cs) else none

/-- The nanoseconds of a fraction. Nine digits count; further ones are passed
over. -/
def fraction? : List Char → Option (Nat × List Char)
  | '.' :: rest => do
    let (digits, rest) ← leadingDigits? 9 rest
    let value ← natural? digits
    some (value * Power.ofTen (9 - digits.length), rest.dropWhile Char.isDigit)
  | cs => some (0, cs)

/-- The second of the day and the nanoseconds of a time. Second 60 is the leap
second after second 59. -/
def time? (cs : List Char) : Option ((Nat × Nat) × List Char) := do
  let (hour, cs) ← field? 0 23 cs
  let (minute, cs) ← field? 0 59 (← afterMark? ':' cs)
  let (second, cs) ← field? 0 60 (← afterMark? ':' cs)
  let (nanos, cs) ← fraction? cs
  let leap := second / 60
  some ((hour * 3600 + minute * 60 + second - leap, nanos + leap * nanosPerSecond), cs)

/-- Two digits that come next, as a number. -/
def twoDigits? : List Char → Option (Nat × List Char)
  | tens :: ones :: rest => do some (10 * (← digit? tens) + (← digit? ones), rest)
  | _ => none

/-- Hours and minutes of an offset, in seconds. Colons and blanks may stand
between them. -/
def offsetMagnitude? (cs : List Char) : Option (Int × List Char) := do
  let (hours, cs) ← twoDigits? cs
  let (minutes, cs) ← twoDigits? (cs.dropWhile fun c => c == ':' || isBlank c)
  if minutes < 60 then some ((hours * 3600 + minutes * 60 : Nat), cs) else none

/-- The offset from universal time in seconds: its name, the letter Z, or a
signed number of hours and minutes. -/
def offset? (cs : List Char) : Option (Int × List Char) :=
  match trimStart cs with
  | 'Z' :: rest => some (0, rest)
  | 'z' :: rest => some (0, rest)
  | '+' :: rest => offsetMagnitude? rest
  | '-' :: rest => (offsetMagnitude? rest).map fun (seconds, rest) => (-seconds, rest)
  | '−' :: rest => (offsetMagnitude? rest).map fun (seconds, rest) => (-seconds, rest)
  | u :: t :: c :: rest =>
    if [u, t, c].map Char.toLower == ['u', 't', 'c'] then some (0, rest) else none
  | _ => none

/-- Read a date, a separator, a time and an offset of less than a day. -/
def ofChars? (cs : List Char) : Option Instant := do
  let (date, cs) ← date? cs
  let cs ← match cs with
    | c :: rest => if c == 'T' || c == 't' || c == ' ' then some rest else none
    | [] => none
  let ((second, nanos), cs) ← time? cs
  let (offset, cs) ← offset? cs
  if cs.all isBlank ∧ offset.natAbs < 86400 then
    let written ← ofParts? (Calendar.dayNumber date) second nanos
    ofTimestamp? (written.timestamp - offset) nanos
  else none

def ofText? (s : String) : Option Instant :=
  ofChars? s.toList

end UsageBilling.Instant
