import LogPrune.Json.Basic

/-!
# LogPrune.Json.Reader

Reading JSON.

A text is first cut into tokens, one character at a time, and the tokens are
then put together.  Between tokens stand spaces, tabs, newlines and carriage
returns.  What is neither punctuation nor a string is a word; it has to be a
number or one of the three names.

A text that holds anything besides one value is refused, as are strings with
raw characters below the space, unknown escapes and halves of surrogate
pairs.
-/

namespace LogPrune
namespace Json

/-! ## Tokens -/

/-- A token. -/
inductive Token
  | openArray
  | closeArray
  | openObject
  | closeObject
  | comma
  | colon
  | string (t : Text)
  /-- A number or a name. -/
  | word (t : Text)
  deriving DecidableEq, Repr

/-- What the next character is part of.  Texts read so far are kept last
character first. -/
inductive Context
  | between
  | word (read : Text)
  | string (read : Text)
  /-- Behind a backslash. -/
  | escape (read : Text)
  /-- In the digits of an escape that may follow the first half of a pair:
  the number of digits read and their value. -/
  | digits (read : Text) (high : Option Nat) (count value : Nat)
  /-- Behind the first half of a surrogate pair. -/
  | pair (read : Text) (high : Nat)
  /-- Behind the first half of a surrogate pair and a backslash. -/
  | pairEscape (read : Text) (high : Nat)

/-- The tokens read so far, last one first, and the context. -/
structure LexState where
  tokens : List Token := []
  context : Context := .between

/-- The token of a punctuation character. -/
def punctuation? (c : Char) : Option Token :=
  if c = '[' then some .openArray
  else if c = ']' then some .closeArray
  else if c = '\x7b' then some .openObject
  else if c = '\x7d' then some .closeObject
  else if c = ',' then some .comma
  else if c = ':' then some .colon
  else none

/-- Whether a character may stand between tokens. -/
def isSpace (c : Char) : Bool := c = ' ' || c = '\t' || c = '\n' || c = '\r'

/-- The value of a hexadecimal digit. -/
def hexValue? (c : Char) : Option Nat :=
  if '0' ≤ c ∧ c ≤ '9' then some (c.toNat - '0'.toNat)
  else if 'a' ≤ c ∧ c ≤ 'f' then some (c.toNat - 'a'.toNat + 10)
  else if 'A' ≤ c ∧ c ≤ 'F' then some (c.toNat - 'A'.toNat + 10)
  else none

/-- The character of an escape with one letter. -/
def unescape? (c : Char) : Option Char :=
  if c = '\x22' || c = '\\' || c = '/' then some c
  else if c = 'b' then some '\x08'
  else if c = 'f' then some '\x0c'
  else if c = 'n' then some '\n'
  else if c = 'r' then some '\r'
  else if c = 't' then some '\t'
  else none

/-- Whether a number is the first half of a surrogate pair. -/
def isHighSurrogate (n : Nat) : Bool := 0xD800 ≤ n && n < 0xDC00

/-- Whether a number is the second half of a surrogate pair. -/
def isLowSurrogate (n : Nat) : Bool := 0xDC00 ≤ n && n < 0xE000

/-- The context behind the four digits of an escape. -/
def afterDigits? (read : Text) (high : Option Nat) (n : Nat) : Option Context :=
  match high with
  | some h =>
    if isLowSurrogate n then
      some (.string (Char.ofNat (0x10000 + (h - 0xD800) * 0x400 + (n - 0xDC00)) :: read))
    else none
  | none =>
    if isHighSurrogate n then some (.pair read n)
    else if isLowSurrogate n then none
    else some (.string (Char.ofNat n :: read))

/-- Reads a character between tokens. -/
def lexBetween? (tokens : List Token) (c : Char) : Option LexState :=
  if isSpace c then some ⟨tokens, .between⟩
  else if c = '\x22' then some ⟨tokens, .string []⟩
  else match punctuation? c with
    | some t => some ⟨t :: tokens, .between⟩
    | none => some ⟨tokens, .word [c]⟩

/-- Reads one character. -/
def lexChar? (s : LexState) (c : Char) : Option LexState :=
  match s.context with
  | .between => lexBetween? s.tokens c
  | .word read =>
    if isSpace c || c = '\x22' || (punctuation? c).isSome then
      lexBetween? (.word read.reverse :: s.tokens) c
    else some { s with context := .word (c :: read) }
  | .string read =>
    if c = '\x22' then some ⟨.string read.reverse :: s.tokens, .between⟩
    else if c = '\\' then some { s with context := .escape read }
    else if c.toNat < 0x20 then none
    else some { s with context := .string (c :: read) }
  | .escape read =>
    if c = 'u' then some { s with context := .digits read none 0 0 }
    else (unescape? c).map fun d => { s with context := .string (d :: read) }
  | .digits read high count value => do
    let d ← hexValue? c
    let n := value * 16 + d
    if count < 3 then return { s with context := .digits read high (count + 1) n }
    let context ← afterDigits? read high n
    return { s with context }
  | .pair read high =>
    if c = '\\' then some { s with context := .pairEscape read high } else none
  | .pairEscape read high =>
    if c = 'u' then some { s with context := .digits read (some high) 0 0 } else none

/-- The tokens of a text. -/
def lex? (t : Text) : Option (List Token) := do
  let s ← t.foldlM lexChar? {}
  match s.context with
  | .between => return s.tokens.reverse
  | .word read => return (.word read.reverse :: s.tokens).reverse
  | _ => none

/-! ## Words -/

/-- What follows one or more digits. -/
def afterDigits1? (t : Text) : Option Text :=
  match t with
  | c :: rest => if c.isDigit then some (rest.dropWhile Char.isDigit) else none
  | [] => none

/-- What follows the digits before the point: a lone zero or digits that do
not begin with zero. -/
def afterInteger? : Text → Option Text
  | '0' :: rest => some rest
  | t => afterDigits1? t

/-- What follows a fraction, if there is one. -/
def afterFraction? : Text → Option Text
  | '.' :: rest => afterDigits1? rest
  | t => some t

/-- What follows an exponent, if there is one. -/
def afterExponent? (t : Text) : Option Text :=
  match t with
  | c :: rest =>
    if c = 'e' || c = 'E' then
      match rest with
      | '+' :: rest | '-' :: rest => afterDigits1? rest
      | rest => afterDigits1? rest
    else some t
  | [] => some t

/-- Whether a text is a number. -/
def isNumber (t : Text) : Bool :=
  let unsigned := match t with
    | '-' :: rest => rest
    | t => t
  (afterInteger? unsigned).bind afterFraction? |>.bind afterExponent? |>.any (· = [])

/-- The value of a word. -/
def ofWord? (t : Text) : Option Json :=
  if t = "null".toList then some .null
  else if t = "true".toList then some (.bool true)
  else if t = "false".toList then some (.bool false)
  else if isNumber t then some (.number t)
  else none

/-! ## Values -/

mutual

/-- The value that tokens begin with. -/
def parseValue? : Nat → List Token → Option (Json × List Token)
  | 0, _ => none
  | n + 1, tokens =>
    match tokens with
    | .string t :: rest => some (.string t, rest)
    | .word t :: rest => (ofWord? t).map fun v => (v, rest)
    | .openArray :: .closeArray :: rest => some (.array [], rest)
    | .openArray :: rest => (parseItems? n rest).map fun (vs, rest) => (.array vs, rest)
    | .openObject :: .closeObject :: rest => some (.object [], rest)
    | .openObject :: rest => (parseFields? n rest).map fun (fs, rest) => (.object fs, rest)
    | _ => none

/-- The items of an array, through its end. -/
def parseItems? : Nat → List Token → Option (List Json × List Token)
  | 0, _ => none
  | n + 1, tokens => do
    let (v, rest) ← parseValue? n tokens
    match rest with
    | .closeArray :: rest => return ([v], rest)
    | .comma :: rest =>
      let (vs, rest) ← parseItems? n rest
      return (v :: vs, rest)
    | _ => none

/-- The fields of an object, through its end. -/
def parseFields? : Nat → List Token → Option (List (String × Json) × List Token)
  | 0, _ => none
  | n + 1, tokens =>
    match tokens with
    | .string key :: .colon :: rest => do
      let (v, rest) ← parseValue? n rest
      match rest with
      | .closeObject :: rest => return ([(String.ofList key, v)], rest)
      | .comma :: rest =>
        let (fs, rest) ← parseFields? n rest
        return ((String.ofList key, v) :: fs, rest)
      | _ => none
    | _ => none

end

/-- Reads a text that holds one value. -/
def parse? (t : Text) : Option Json := do
  let tokens ← lex? t
  let (v, rest) ← parseValue? (tokens.length + 1) tokens
  if rest.isEmpty then return v else none

/-! ## Taking values apart -/

/-- The only field with a key; none if there are several. -/
def onlyField? (key : String) (fields : List (String × Json)) : Option Json :=
  match fields.filter (·.1 = key) with
  | [f] => some f.2
  | _ => none

/-- The text of a string. -/
def string? : Json → Option Text
  | .string t => some t
  | _ => none

/-- The items of an array. -/
def items? : Json → Option (List Json)
  | .array vs => some vs
  | _ => none

end Json
end LogPrune
