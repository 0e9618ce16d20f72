import LogPrune.Text.Blank

/-!
# LogPrune.Timestamp

Recognising points in time: a date, a time of day and an offset from
universal time, as in `2024-05-01T12:30:00.25+02:00`.

The form is read with some tolerance.

1. Numbers may be short of digits, and blanks may stand before a number and
   around the signs between numbers.
2. A signed year may have any number of digits.
3. A space or a small letter may stand for the `T`.
4. The offset is `Z`, `UTC`, or a sign with hours and minutes, which need no
   colon between them; the sign may be a true minus.

The date has to exist, a second may be a leap second, and the offset stays
below a day.
-/

namespace LogPrune
namespace Timestamp

/-! ## Numbers and signs -/

/-- The value of decimal digits. -/
def value (digits : Text) : Nat := digits.foldl (fun n c => n * 10 + (c.toNat - '0'.toNat)) 0

/-- The digits that a text begins with, at most so many and at least one,
and what follows them. -/
def digits? (most : Nat) (t : Text) : Option (Nat × Text) :=
  let ds := (t.take most).takeWhile Char.isDigit
  if ds = [] then none else some (value ds, t.drop ds.length)

/-- A number of at most two digits behind blanks. -/
def short? (t : Text) : Option (Nat × Text) := digits? 2 t.trimStart

/-- What follows a character behind blanks. -/
def after? (c : Char) (t : Text) : Option Text :=
  match t.trimStart with
  | d :: rest => if d = c then some rest else none
  | [] => none

/-- A year: four digits at most, or a sign and any digits. -/
def year? (t : Text) : Option (Int × Text) :=
  match t.trimStart with
  | '-' :: rest => (digits? rest.length rest).map fun (n, rest) => (-(n : Int), rest)
  | '+' :: rest => (digits? rest.length rest).map fun (n, rest) => ((n : Int), rest)
  | t => (digits? 4 t).map fun (n, rest) => ((n : Int), rest)

/-! ## Dates and times -/

/-- Whether a year has a leap day. -/
def isLeapYear (year : Int) : Bool := year % 4 = 0 && (year % 100 != 0 || year % 400 = 0)

/-- The number of days of a month. -/
def daysInMonth (year : Int) (month : Nat) : Nat :=
  if month = 2 then (if isLeapYear year then 29 else 28)
  else if [4, 6, 9, 11].contains month then 30 else 31

/-- How far from the present era a year may lie. -/
def yearLimit : Nat := 262143

/-- What follows a date. -/
def afterDate? (t : Text) : Option Text := do
  let (year, t) ← year? t
  let (month, t) ← short? (← after? '-' t)
  let (day, t) ← short? (← after? '-' t)
  if year.natAbs < yearLimit ∧ 1 ≤ month ∧ month ≤ 12 ∧ 1 ≤ day
    ∧ day ≤ daysInMonth year month then return t else none

/-- What follows a fraction of a second, if there is one. -/
def afterFraction? (t : Text) : Option Text :=
  match t with
  | '.' :: rest => (digits? rest.length rest).map (·.2)
  | t => some t

/-- What follows a time of day. -/
def afterTime? (t : Text) : Option Text := do
  let (hour, t) ← short? t
  let (minute, t) ← short? (← after? ':' t)
  let (second, t) ← short? (← after? ':' t)
  let t ← afterFraction? t
  if hour ≤ 23 ∧ minute ≤ 59 ∧ second ≤ 60 then return t else none

/-! ## Offsets -/

/-- The two digits that a text begins with, and what follows them. -/
def pair? (t : Text) : Option (Nat × Text) :=
  let ds := t.take 2
  if ds.length = 2 && ds.all Char.isDigit then some (value ds, t.drop 2) else none

/-- What follows an offset behind its sign. -/
def afterHours? (t : Text) : Option Text := do
  let (hours, t) ← pair? t
  let (minutes, t) ← pair? (t.dropWhile fun c => c = ':' || isBlank c)
  if minutes ≤ 59 ∧ hours * 60 + minutes < 24 * 60 then return t else none

/-- What follows an offset. -/
def afterOffset? : Text → Option Text
  | 'Z' :: rest | 'z' :: rest => some rest
  | '+' :: rest | '-' :: rest | '\u2212' :: rest => afterHours? rest
  | t => if (t.take 3).map Char.toUpper = ['U', 'T', 'C'] then some (t.drop 3) else none

/-- Whether a text is a point in time. -/
def isValid (t : Text) : Bool :=
  match afterDate? t with
  | some (c :: t) =>
    (c = 'T' || c = 't' || c = ' ')
      && ((afterTime? t).bind (afterOffset? ·.trimStart)).any (·.trimStart = [])
  | _ => false

end Timestamp
end LogPrune
