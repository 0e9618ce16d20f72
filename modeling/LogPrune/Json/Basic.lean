import LogPrune.Text.Basic

/-!
# LogPrune.Json.Basic

JSON values and their written form.

The layout has one item or field a line, indented by two spaces a level; an
empty array or object is written in place.  In strings the quote, the
backslash and the characters below the space are escaped, and nothing else:
the usual five have a letter of their own, the others are written with four
hexadecimal digits.
-/

namespace LogPrune

/-- A JSON value.  Objects keep the order of their fields. -/
inductive Json
  | null
  | bool (b : Bool)
  /-- A number, as it is written. -/
  | number (literal : Text)
  | string (t : Text)
  | array (items : List Json)
  | object (fields : List (String × Json))
  deriving Repr, Inhabited

namespace Json

/-- A natural number. -/
def nat (n : Nat) : Json := .number (toString n).toList

/-- A string, from a `String`. -/
def ofString (s : String) : Json := .string s.toList

/-! ## Strings -/

/-- The hexadecimal digit of a number below sixteen, in lower case. -/
def hexDigit (n : Nat) : Char :=
  if n < 10 then Char.ofNat (n + '0'.toNat) else Char.ofNat (n - 10 + 'a'.toNat)

/-- A character as it is written in a string. -/
def escapeChar (c : Char) : Text :=
  if c = '\x22' then ['\\', '\x22']
  else if c = '\\' then ['\\', '\\']
  else if c = '\x08' then ['\\', 'b']
  else if c = '\x0c' then ['\\', 'f']
  else if c = '\n' then ['\\', 'n']
  else if c = '\r' then ['\\', 'r']
  else if c = '\t' then ['\\', 't']
  else if c.toNat < 0x20 then
    ['\\', 'u', '0', '0', hexDigit (c.toNat / 16), hexDigit (c.toNat % 16)]
  else [c]

/-- A string in quotes. -/
def quote (t : Text) : Text := '\x22' :: t.flatMap escapeChar ++ ['\x22']

/-! ## Layout -/

/-- A number of spaces. -/
def spaces (n : Nat) : Text := List.replicate n ' '

mutual

/-- A value whose last line is indented by a number of spaces. -/
def write (indent : Nat) : Json → Text
  | null => "null".toList
  | bool true => "true".toList
  | bool false => "false".toList
  | number literal => literal
  | string t => quote t
  | array [] => ['[', ']']
  | array (v :: vs) =>
    '[' :: '\n' :: writeItems (indent + 2) (v :: vs) ++ '\n' :: spaces indent ++ [']']
  | object [] => ['\x7b', '\x7d']
  | object (f :: fs) =>
    '\x7b' :: '\n' :: writeFields (indent + 2) (f :: fs) ++ '\n' :: spaces indent ++ ['\x7d']

/-- Items on lines of their own. -/
def writeItems (indent : Nat) : List Json → Text
  | [] => []
  | [v] => spaces indent ++ write indent v
  | v :: vs => spaces indent ++ write indent v ++ ',' :: '\n' :: writeItems indent vs

/-- Fields on lines of their own. -/
def writeFields (indent : Nat) : List (String × Json) → Text
  | [] => []
  | [f] => spaces indent ++ writeField indent f
  | f :: fs => spaces indent ++ writeField indent f ++ ',' :: '\n' :: writeFields indent fs

/-- A field: its key and its value. -/
def writeField (indent : Nat) : String × Json → Text
  | (key, v) => quote key.toList ++ ':' :: ' ' :: write indent v

end

/-- The written form of a value. -/
def pretty (v : Json) : Text := write 0 v

end Json
end LogPrune
