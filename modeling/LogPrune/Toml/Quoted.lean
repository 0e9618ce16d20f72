import LogPrune.Toml.Basic

/-!
# LogPrune.Toml.Quoted

TOML strings.  There are four kinds: with `"` or `'` as quote, and on one
line or on several.  A kind with `"` has escapes; a kind for several lines
has three quotes on either side and holds line breaks.

Reading takes one character at a time behind the opening quotes.

1. A line break is a newline, whether or not a carriage return is before it.
2. A backslash at the end of a line takes the blanks and line breaks behind
   it away.
3. One or two quotes inside a string for several lines are text; of three to
   five quotes the last three close the string.

A string is written in the first kind that needs no escapes, or else with
`"`.
-/

namespace LogPrune
namespace Toml

/-- A kind of string. -/
structure StringKind where
  quote : Char
  /-- Whether a backslash begins an escape. -/
  escapes : Bool
  /-- Whether the string may run over several lines. -/
  multiLine : Bool
  deriving DecidableEq, Repr

namespace StringKind

def basic : StringKind := ⟨'\x22', true, false⟩
def literal : StringKind := ⟨'\x27', false, false⟩
def basicLines : StringKind := ⟨'\x22', true, true⟩
def literalLines : StringKind := ⟨'\x27', false, true⟩

/-- The quotes on either side. -/
def delimiter (k : StringKind) : Text := List.replicate (if k.multiLine then 3 else 1) k.quote

end StringKind

/-! ## Reading -/

/-- What the next character of a string is part of. -/
inductive StringContext
  | body
  /-- Behind a number of quotes in a string over several lines. -/
  | quotes (count : Nat)
  /-- Behind a backslash. -/
  | escape
  /-- In the digits of an escape: how many are still to come and the value of
  those read. -/
  | digits (left value : Nat)
  /-- In the blanks between a backslash and the end of its line. -/
  | gapHead
  /-- In what a backslash at the end of a line takes away. -/
  | gap
  /-- Behind a carriage return, with the context behind its newline. -/
  | carriage (inGap : Bool)
  deriving DecidableEq, Repr

/-- What a character does: it adds text, or it comes after the string. -/
inductive StringStep
  | add (t : Text) (next : StringContext)
  /-- The string ends with the character. -/
  | close
  /-- The string ended before the character, with some quotes as text. -/
  | closed (t : Text)

/-- The character of an escape with one letter. -/
def unescape? (c : Char) : Option Char :=
  if c = '\x22' || c = '\\' then some c
  else if c = 'b' then some '\x08'
  else if c = 't' then some '\t'
  else if c = 'n' then some '\n'
  else if c = 'f' then some '\x0c'
  else if c = 'r' then some '\r'
  else none

/-- The value of a hexadecimal digit. -/
def hexDigitValue? (c : Char) : Option Nat :=
  if '0' ≤ c ∧ c ≤ '9' then some (c.toNat - '0'.toNat)
  else if 'a' ≤ c ∧ c ≤ 'f' then some (c.toNat - 'a'.toNat + 10)
  else if 'A' ≤ c ∧ c ≤ 'F' then some (c.toNat - 'A'.toNat + 10)
  else none

/-- The character with a number, if there is one. -/
def charOfNat? (n : Nat) : Option Char :=
  if n.isValidChar then some (Char.ofNat n) else none

/-- Whether a character is a blank. -/
def isSpace (c : Char) : Bool := c = ' ' || c = '\t'

/-- What a character does in the body of a string. -/
def bodyStep? (k : StringKind) (c : Char) : Option StringStep :=
  if c = k.quote then
    if k.multiLine then some (.add [] (.quotes 1)) else some .close
  else if k.escapes && c = '\\' then some (.add [] .escape)
  else if k.multiLine && c = '\n' then some (.add ['\n'] .body)
  else if k.multiLine && c = '\r' then some (.add [] (.carriage false))
  else if isPlain c then some (.add [c] .body)
  else none

/-- A step with text before what it adds. -/
def StringStep.after (t : Text) : StringStep → StringStep
  | add u next => add (t ++ u) next
  | s => s

/-- What a character does. -/
def stringStep? (k : StringKind) (c : Char) : StringContext → Option StringStep
  | .body => bodyStep? k c
  | .quotes n =>
    if 5 ≤ n then some (.closed (List.replicate 2 k.quote))
    else if c = k.quote then some (.add [] (.quotes (n + 1)))
    else if 3 ≤ n then some (.closed (List.replicate (n - 3) k.quote))
    else (bodyStep? k c).map (·.after (List.replicate n k.quote))
  | .escape =>
    if c = 'u' then some (.add [] (.digits 4 0))
    else if c = 'U' then some (.add [] (.digits 8 0))
    else match unescape? c with
      | some d => some (.add [d] .body)
      | none =>
        if !k.multiLine then none
        else if isSpace c then some (.add [] .gapHead)
        else if c = '\n' then some (.add [] .gap)
        else if c = '\r' then some (.add [] (.carriage true))
        else none
  | .digits left value => do
    let d ← hexDigitValue? c
    let n := value * 16 + d
    if 1 < left then return .add [] (.digits (left - 1) n)
    let e ← charOfNat? n
    return .add [e] .body
  | .gapHead =>
    if isSpace c then some (.add [] .gapHead)
    else if c = '\n' then some (.add [] .gap)
    else if c = '\r' then some (.add [] (.carriage true))
    else none
  | .gap =>
    if isSpace c || c = '\n' then some (.add [] .gap)
    else if c = '\r' then some (.add [] (.carriage true))
    else bodyStep? k c
  | .carriage inGap =>
    if c = '\n' then some (if inGap then .add [] .gap else .add ['\n'] .body) else none

/-- What is left at the end of the text: a string may just have closed. -/
def atEnd? (k : StringKind) : StringContext → Option Text
  | .quotes n =>
    if 3 ≤ n then some (List.replicate (min n 5 - 3) k.quote) else none
  | _ => none

/-- The rest of a string of a kind, from a context on, and what follows it. -/
def readString? (k : StringKind) (context : StringContext) : Text → Option (Text × Text)
  | [] => (atEnd? k context).map fun t => (t, [])
  | c :: cs =>
    match stringStep? k c context with
    | none => none
    | some .close => some ([], cs)
    | some (.closed t) => some (t, c :: cs)
    | some (.add t next) => (readString? k next cs).map fun (s, rest) => (t ++ s, rest)

/-- A text without a line break at its start. -/
def dropLineBreak : Text → Text
  | '\n' :: rest => rest
  | '\r' :: '\n' :: rest => rest
  | t => t

/-- The string on one line that a text begins with. -/
def readLineString? : Text → Option (Text × Text)
  | '\x22' :: rest => readString? .basic .body rest
  | '\x27' :: rest => readString? .literal .body rest
  | _ => none

/-- The string of any kind that a text begins with. -/
def readAnyString? : Text → Option (Text × Text)
  | '\x22' :: '\x22' :: '\x22' :: rest => readString? .basicLines .body (dropLineBreak rest)
  | '\x27' :: '\x27' :: '\x27' :: rest => readString? .literalLines .body (dropLineBreak rest)
  | t => readLineString? t

/-! ## Writing -/

/-- Whether a character is a control character. -/
def isControl (c : Char) : Bool := c.toNat < 0x20 || c.toNat = 0x7F

/-- The longest run of a character, given the length of the run before. -/
def longestRun (q : Char) (current : Nat) : Text → Nat
  | [] => current
  | c :: cs =>
    if c = q then longestRun q (current + 1) cs else max current (longestRun q 0 cs)

/-- Whether a text can be written in a kind as it stands. -/
def suits (k : StringKind) (t : Text) : Bool :=
  t.all (fun c => !isControl c || c = '\t' || (k.multiLine && c = '\n'))
    && (!k.escapes || !t.contains '\\')
    && longestRun k.quote 0 t ≤ (if k.multiLine then 2 else 0)

/-- The kind in which a text is written. -/
def kindFor (t : Text) : StringKind :=
  (([.basic, .literal, .basicLines, .literalLines].find? (suits · t)).getD
    (if t.contains '\n' then .basicLines else .basic))

/-- The hexadecimal digit of a number below sixteen, in upper case. -/
def upperHexDigit (n : Nat) : Char :=
  if n < 10 then Char.ofNat (n + '0'.toNat) else Char.ofNat (n - 10 + 'A'.toNat)

/-- A character as it is written in a kind with escapes, quotes apart. -/
def escapeChar (k : StringKind) (c : Char) : Text :=
  if c = '\\' then ['\\', '\\']
  else if c = '\x08' then ['\\', 'b']
  else if c = '\t' then ['\\', 't']
  else if c = '\n' then (if k.multiLine then ['\n'] else ['\\', 'n'])
  else if c = '\x0c' then ['\\', 'f']
  else if c = '\r' then ['\\', 'r']
  else if isControl c then
    ['\\', 'u', '0', '0', upperHexDigit (c.toNat / 16), upperHexDigit (c.toNat % 16)]
  else [c]

/-- A text as it is written in a kind with escapes, behind a number of quotes
written as they are.  On one line every quote is escaped, on several every
third one of a run. -/
def escape (k : StringKind) (quotes : Nat) : Text → Text
  | [] => []
  | c :: cs =>
    if c = k.quote then
      if quotes < (if k.multiLine then 2 else 0) then c :: escape k (quotes + 1) cs
      else '\\' :: c :: escape k 0 cs
    else escapeChar k c ++ escape k 0 cs

/-- A text as a string. -/
def writeString (t : Text) : Text :=
  let k := kindFor t
  k.delimiter
    ++ (if k.multiLine && t.contains '\n' then ['\n'] else [])
    ++ (if k.escapes then escape k 0 t else t)
    ++ k.delimiter

end Toml
end LogPrune
