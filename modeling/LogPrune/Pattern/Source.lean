import LogPrune.Pattern.Basic

/-!
# LogPrune.Pattern.Source

The written form of patterns, in the usual notation for regular
expressions, and a reader for the part of it that names calls.

Literal texts are written with a backslash before every character that the
notation gives a meaning to.  Flags stand in front: `(?i)` when letters agree
in either case, `(?m)` when the pattern looks at the ends of lines.
-/

namespace LogPrune

/-! ## Writing -/

/-- The characters that are written with a backslash. -/
def reservedChars : Text := "\\.+*?()|[]\x7b\x7d^$#&-~".toList

/-- A literal text with its reserved characters escaped. -/
def escapeLiteral (t : Text) : Text :=
  t.flatMap fun c => if reservedChars.contains c then ['\\', c] else [c]

/-- The written form of a listed character. -/
def Charset.writeChar (c : Char) : Text := if c = '\n' then ['\\', 'n'] else [c]

/-- The written form of a set. -/
def Charset.write : Charset → Text
  | blank => "\\s".toList
  | any => "[\\s\\S]".toList
  | sameLine => ".".toList
  | except cs => "[^".toList ++ cs.flatMap writeChar ++ "]".toList
  | blankOr cs => "[".toList ++ cs.flatMap writeChar ++ "\\s]".toList

namespace Regex

/-- The written form of the syntax. -/
def write : Regex → Text
  | text t => escapeLiteral t
  | one s => s.write
  | many s => s.write ++ ['*']
  | many1 s => s.write ++ ['+']
  | fewest s => s.write ++ ['*', '?']
  | optional p => p.write ++ ['?']
  | repeated p => p.write ++ ['*']
  | seq p q => p.write ++ q.write
  | choice p q => p.write ++ '|' :: q.write
  | group p => '(' :: p.write ++ [')']
  | plainGroup p => "(?:".toList ++ p.write ++ [')']
  | wordEdge => "\\b".toList
  | lineEnd => ['$']

/-- Whether the pattern looks at the ends of lines. -/
def hasLineEnd : Regex → Bool
  | lineEnd => true
  | optional p | repeated p | group p | plainGroup p => p.hasLineEnd
  | seq p q | choice p q => p.hasLineEnd || q.hasLineEnd
  | _ => false

end Regex

/-- The written form of a pattern. -/
def Pattern.source (p : Pattern) : Text :=
  (if p.ignoreCase then "(?i)".toList else [])
    ++ (if p.body.hasLineEnd then "(?m)".toList else [])
    ++ p.body.write

/-! ## Reading -/

namespace Regex

/-- One pattern behind another, leaving out empty texts. -/
def followedBy : Regex → Regex → Regex
  | text [], q => q
  | p, text [] => p
  | p, q => p ++ q

/-- The pattern with the repetition that is written behind it. -/
def withRepetition (p : Regex) : Text → Regex × Text
  | '*' :: rest => (match p with | one s => many s | _ => repeated p, rest)
  | '+' :: rest => (match p with | one s => many1 s | _ => p ++ repeated p, rest)
  | '?' :: rest => (optional p, rest)
  | rest => (p, rest)

mutual

/-- Reads alternatives up to a closing bracket or the end. -/
def readChoice : Nat → Text → Option (Regex × Text)
  | 0, _ => none
  | n + 1, t => do
    let (p, rest) ← readSeq n t
    match rest with
    | '|' :: rest =>
      let (q, rest) ← readChoice n rest
      return (choice p q, rest)
    | _ => return (p, rest)

/-- Reads the parts of one alternative. -/
def readSeq : Nat → Text → Option (Regex × Text)
  | 0, _ => none
  | n + 1, t =>
    match t with
    | [] => some (lit "", t)
    | c :: _ =>
      if c = ')' || c = '|' then some (lit "", t)
      else do
        let (p, rest) ← readAtom n t
        let (p, rest) := p.withRepetition rest
        let (q, rest) ← readSeq n rest
        return (p.followedBy q, rest)

/-- Reads a bracket, an escape or a character that stands for itself. -/
def readAtom : Nat → Text → Option (Regex × Text)
  | 0, _ => none
  | _ + 1, [] => none
  | n + 1, '(' :: rest => do
    let (p, rest) ← readChoice n rest
    match rest with
    | ')' :: rest => return (group p, rest)
    | _ => none
  | _ + 1, '\\' :: rest =>
    match rest with
    | 's' :: rest => some (one .blank, rest)
    | c :: rest => if reservedChars.contains c then some (text [c], rest) else none
    | [] => none
  | _ + 1, c :: rest => if reservedChars.contains c then none else some (text [c], rest)

end

/-- Reads a pattern made of literal characters, escapes, blanks, brackets,
alternatives and greedy repetitions.  Other notation is refused, as is what
no reader accepts: a bracket that does not close, a repetition of nothing, a
backslash at the end. -/
def read? (t : Text) : Option Regex :=
  match readChoice (3 * t.length + 3) t with
  | some (p, []) => some p
  | _ => none

end Regex
end LogPrune
