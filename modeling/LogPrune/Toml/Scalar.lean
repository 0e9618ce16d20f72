import LogPrune.Toml.Quoted

/-!
# LogPrune.Toml.Scalar

TOML numbers, dates, times and truth values.

They are words: runs of characters up to a blank, a line break, a comma, a
closing bracket or a comment.  Only a date may go on behind a space, with a
time.

Digits may be set apart by single underscores.  An integer has 64 bits, and a
floating-point number must not be too large for the double format.
-/

namespace LogPrune
namespace Toml

/-! ## Digits -/

/-- Digits without the underscores between them; there is at least one
digit. -/
def ungroup? (isDigit : Char → Bool) : Text → Option Text
  | [] => none
  | [c] => if isDigit c then some [c] else none
  | c :: '_' :: cs => if isDigit c then (ungroup? isDigit cs).map (c :: ·) else none
  | c :: cs => if isDigit c then (ungroup? isDigit cs).map (c :: ·) else none

/-- The value of digits in a base. -/
def digitsValue (base : Nat) (digits : Text) : Nat :=
  digits.foldl (fun n c => n * base + (hexDigitValue? c).getD 0) 0

/-- A sign, if there is one, and what follows it. -/
def splitSign : Text → Option Char × Text
  | '+' :: rest => (some '+', rest)
  | '-' :: rest => (some '-', rest)
  | t => (none, t)

/-- The digits of an unsigned integer, which does not begin with a zero
unless it is one. -/
def wholeDigits? (t : Text) : Option Text := do
  let digits ← ungroup? Char.isDigit t
  if digits.head? = some '0' && t.length != 1 then none else return digits

/-! ## Integers -/

/-- An integer, if it has 64 bits. -/
def integer? (n : Int) : Option Toml :=
  if -(integerBound : Int) ≤ n ∧ n < integerBound then some (.integer n) else none

/-- The integer that a word in base ten is. -/
def readDecimal? (t : Text) : Option Toml := do
  let (sign, rest) := splitSign t
  let digits ← wholeDigits? rest
  let n := digitsValue 10 digits
  integer? (if sign = some '-' then -n else n)

/-- The integer that a word is. -/
def readInteger? : Text → Option Toml
  | '0' :: 'x' :: rest =>
    (ungroup? (fun c => (hexDigitValue? c).isSome) rest).bind fun ds =>
      integer? (digitsValue 16 ds)
  | '0' :: 'o' :: rest =>
    (ungroup? (fun c => '0' ≤ c && c ≤ '7') rest).bind fun ds => integer? (digitsValue 8 ds)
  | '0' :: 'b' :: rest =>
    (ungroup? (fun c => c = '0' || c = '1') rest).bind fun ds => integer? (digitsValue 2 ds)
  | t => readDecimal? t

/-! ## Floating-point numbers -/

/-- Half a unit beyond the largest number of the double format. -/
def doubleBound : Nat := Nat.pow 2 1024 - Nat.pow 2 970

/-- Whether the number with some digits, of which a number stand behind the
point, times a power of ten is too large for the double format. -/
def overflows (digits : Text) (places : Nat) (exponent : Int) : Bool :=
  let significant := digits.dropWhile (· = '0')
  let scale := exponent - places
  if significant.length + scale ≤ 308 then false
  else if significant = [] then false
  else if 309 < significant.length + scale then true
  else if scale < 0 then
    doubleBound * Nat.pow 10 scale.natAbs ≤ digitsValue 10 significant
  else doubleBound ≤ digitsValue 10 significant * Nat.pow 10 scale.natAbs

/-- The exponent that a text is: a letter, perhaps a sign, and digits. -/
def readExponent? : Text → Option Int
  | [] => none
  | c :: rest =>
    if c = 'e' || c = 'E' then
      let (sign, rest) := splitSign rest
      (ungroup? Char.isDigit rest).map fun ds =>
        if sign = some '-' then -(digitsValue 10 ds : Int) else digitsValue 10 ds
    else none

/-- The digits behind the point and the exponent that a text is; one of them
is there. -/
def readFraction? : Text → Option (Text × Int)
  | '.' :: rest => do
    let places := rest.takeWhile fun c => c != 'e' && c != 'E'
    let digits ← ungroup? Char.isDigit places
    let exponent ← match rest.drop places.length with
      | [] => some 0
      | t => readExponent? t
    return (digits, exponent)
  | t => (readExponent? t).map fun e => ([], e)

/-- Whether a word is a floating-point number. -/
def isFloat (t : Text) : Bool :=
  let (sign, rest) := splitSign t
  let whole := rest.takeWhile fun c => c != '.' && c != 'e' && c != 'E'
  rest = "inf".toList || rest = "nan".toList ||
    match wholeDigits? whole, readFraction? (rest.drop whole.length) with
    | some digits, some (places, exponent) =>
      sign = some '-' || !overflows (digits ++ places) places.length exponent
    | _, _ => false

/-! ## Dates and times -/

/-- The number that so many digits are, and what follows them. -/
def readFixed? (count : Nat) (t : Text) : Option (Nat × Text) :=
  let digits := t.take count
  if digits.length = count && digits.all Char.isDigit then
    some (digitsValue 10 digits, t.drop count)
  else none

/-- What follows a character, if a text begins with it. -/
def after? (c : Char) : Text → Option Text
  | [] => none
  | d :: rest => if d = c then some rest else none

/-- Whether a year has a leap day. -/
def isLeapYear (year : Nat) : Bool := year % 4 = 0 && (year % 100 != 0 || year % 400 = 0)

/-- The number of days of a month. -/
def daysInMonth (year month : Nat) : Nat :=
  if month = 2 then (if isLeapYear year then 29 else 28)
  else if [4, 6, 9, 11].contains month then 30 else 31

/-- What follows a date. -/
def afterDate? (t : Text) : Option Text := do
  let (year, t) ← readFixed? 4 t
  let t ← after? '-' t
  let (month, t) ← readFixed? 2 t
  let t ← after? '-' t
  let (day, t) ← readFixed? 2 t
  if 1 ≤ month ∧ month ≤ 12 ∧ 1 ≤ day ∧ day ≤ daysInMonth year month then return t else none

/-- What follows the hours and minutes of a time or an offset. -/
def afterHourMinute? (t : Text) : Option Text := do
  let (hour, t) ← readFixed? 2 t
  let t ← after? ':' t
  let (minute, t) ← readFixed? 2 t
  if hour ≤ 23 ∧ minute ≤ 59 then return t else none

/-- What follows a time. -/
def afterTime? (t : Text) : Option Text := do
  let t ← afterHourMinute? t
  let t ← after? ':' t
  let (second, t) ← readFixed? 2 t
  if second ≤ 60 then
    match t with
    | '.' :: c :: rest => if c.isDigit then return rest.dropWhile Char.isDigit else none
    | t => return t
  else none

/-- Whether a text is an offset from universal time, or empty. -/
def isOffset : Text → Bool
  | [] => true
  | 'Z' :: rest | 'z' :: rest => rest = []
  | '+' :: rest | '-' :: rest => afterHourMinute? rest = some []
  | _ => false

/-- Whether a text is a time with or without an offset. -/
def isTimeOfDate (t : Text) : Bool := (afterTime? t).any isOffset

/-- Whether a word is a date with a time, a date or a time. -/
def isDate (t : Text) : Bool :=
  match afterDate? t with
  | some [] => true
  | some (c :: rest) => (c = 'T' || c = 't') && isTimeOfDate rest
  | none => afterTime? t = some []

/-! ## Words -/

/-- Whether a character ends a word. -/
def endsWord (c : Char) : Bool :=
  isSpace c || c = '\n' || c = '\r' || c = ',' || c = ']' || c = '\x7d' || c = '#'

/-- The word that a text begins with. -/
def wordOf (t : Text) : Text := t.takeWhile (!endsWord ·)

/-- The value of a word. -/
def ofWord? (t : Text) : Option Toml :=
  if t = "true".toList then some (.boolean true)
  else if t = "false".toList then some (.boolean false)
  else if isDate t then some (.date t)
  else if isFloat t then some (.float t)
  else readInteger? t

/-- The value that a text begins with, when it begins with a word. -/
def readWord? (t : Text) : Option (Toml × Text) :=
  let word := wordOf t
  let rest := t.drop word.length
  match afterDate? word, rest with
  | some [], ' ' :: more =>
    let time := wordOf more
    if time = [] then some (.date word, rest)
    else if isTimeOfDate time then some (.date (word ++ ' ' :: time), more.drop time.length)
    else none
  | _, _ => (ofWord? word).map fun v => (v, rest)

end Toml
end LogPrune
