import LogPrune.Text.Blank
import LogPrune.Text.Fold
import LogPrune.Text.Word

/-!
# LogPrune.Pattern.Basic

Patterns that recognise log statements, and what they match.

A pattern is read as a backtracking matcher reads it: from a place in the
text it can stop at several later places, and it prefers one over another.
`Regex.ends` lists all of them, best first, so

1. a choice lists the ends of its left side before those of its right side;
2. a greedy repetition lists longer runs before shorter ones, a lazy one
   shorter runs before longer ones;
3. a sequence continues from the ends of its first part in their order.

The match at a place is the head of that list.  A repetition only goes on
from an end that lies further on in the text, which bounds it by the length
of the rest.
-/

namespace LogPrune

/-! ## Character sets -/

/-- The sets of characters that patterns use. -/
inductive Charset
  /-- Blank characters. -/
  | blank
  /-- All characters. -/
  | any
  /-- All characters but the newline. -/
  | sameLine
  /-- All characters but those listed. -/
  | except (cs : Text)
  /-- The characters listed and the blank ones. -/
  | blankOr (cs : Text)
  deriving DecidableEq, Repr

namespace Charset

/-- Whether a character belongs to a set. -/
def mem : Charset → Char → Bool
  | blank, c => isBlank c
  | any, _ => true
  | sameLine, c => c != '\n'
  | except cs, c => !cs.contains c
  | blankOr cs, c => cs.contains c || isBlank c

end Charset

/-! ## Syntax -/

/-- The syntax of patterns. -/
inductive Regex
  /-- A literal text. -/
  | text (t : Text)
  /-- One character of a set. -/
  | one (s : Charset)
  /-- As many characters of a set as possible, possibly none. -/
  | many (s : Charset)
  /-- As many characters of a set as possible, at least one. -/
  | many1 (s : Charset)
  /-- As few characters of a set as possible, possibly none. -/
  | fewest (s : Charset)
  /-- The pattern once, or else not at all. -/
  | optional (p : Regex)
  /-- The pattern as often as possible, possibly never. -/
  | repeated (p : Regex)
  /-- One pattern and then the other. -/
  | seq (p q : Regex)
  /-- One pattern, or else the other. -/
  | choice (p q : Regex)
  /-- The pattern in brackets. -/
  | group (p : Regex)
  /-- The pattern in brackets that remember nothing. -/
  | plainGroup (p : Regex)
  /-- The edge between a word character and another character or an end. -/
  | wordEdge
  /-- The end of a line: before a newline, or at the end of the text. -/
  | lineEnd
  deriving DecidableEq, Repr

instance : Append Regex := ⟨Regex.seq⟩

namespace Regex

/-- A literal text. -/
def lit (s : String) : Regex := .text s.toList

/-- One of several literal texts, earlier ones first; the empty text if
there are none. -/
def oneOf : List String → Regex
  | [] => lit ""
  | [s] => lit s
  | s :: ss => .choice (lit s) (oneOf ss)

end Regex

/-- A pattern: the syntax, and whether letters agree in either case. -/
structure Pattern where
  body : Regex
  ignoreCase : Bool := false
  deriving DecidableEq, Repr

/-! ## Places in a text -/

/-- A place in a text: its offset, the character just before it, and what
follows. -/
structure Cursor where
  offset : Nat
  before : Option Char
  rest : Text
  deriving DecidableEq, Repr

namespace Cursor

/-- The start of a text. -/
def start (t : Text) : Cursor := ⟨0, none, t⟩

/-- The place behind a character that stands at a place. -/
def past (c : Cursor) (x : Char) (xs : Text) : Cursor := ⟨c.offset + x.utf8Size, some x, xs⟩

/-- Whether exactly one of the characters around the place is part of a
word. -/
def atWordEdge (c : Cursor) : Bool :=
  c.before.any isWord != c.rest.head?.any isWord

/-- Whether a line ends at the place. -/
def atLineEnd (c : Cursor) : Bool :=
  c.rest.head?.all (· = '\n')

/-- The place behind a literal text, if the text stands here. -/
def skip? (ignoreCase : Bool) : Text → Cursor → Option Cursor
  | [], c => some c
  | x :: xs, c => match c.rest with
    | [] => none
    | y :: ys =>
      if x = y || (ignoreCase && foldCase x = foldCase y) then
        skip? ignoreCase xs (c.past y ys)
      else none

/-- The place behind a character of a set, if one stands here. -/
def step? (s : Charset) (c : Cursor) : Option Cursor :=
  match c.rest with
  | [] => none
  | x :: xs => if s.mem x then some (c.past x xs) else none

/-- The places from here on up to the first character outside a set, nearest
first. -/
def runFrom (s : Charset) (offset : Nat) (before : Option Char) : Text → List Cursor
  | [] => [⟨offset, before, []⟩]
  | x :: xs =>
    ⟨offset, before, x :: xs⟩
      :: if s.mem x then runFrom s (offset + x.utf8Size) (some x) xs else []

/-- The places that a run of characters of a set can reach, nearest first. -/
def run (s : Charset) (c : Cursor) : List Cursor := runFrom s c.offset c.before c.rest

/-- The places that repeated steps can reach, farthest first, in front of a
given list.  Steps that go nowhere are not repeated; the text bounds the
number of steps, one for each of its characters. -/
def repeatOnto (step : Cursor → List Cursor) : Text → Cursor → List Cursor → List Cursor
  | [], c, onto => c :: onto
  | _ :: bound, c, onto =>
    (step c).foldr
      (fun d onto => if c.offset < d.offset then repeatOnto step bound d onto else onto)
      (c :: onto)

end Cursor

/-! ## Matching -/

namespace Regex

/-- All places where a pattern that starts here can stop, best first. -/
def ends (ignoreCase : Bool) : Regex → Cursor → List Cursor
  | text t, c => (c.skip? ignoreCase t).toList
  | one s, c => (c.step? s).toList
  | many s, c => (c.run s).reverse
  | many1 s, c => (c.run s).tail.reverse
  | fewest s, c => c.run s
  | optional p, c => p.ends ignoreCase c ++ [c]
  | repeated p, c => c.repeatOnto (p.ends ignoreCase) c.rest []
  | seq p q, c => (p.ends ignoreCase c).flatMap (q.ends ignoreCase)
  | choice p q, c => p.ends ignoreCase c ++ q.ends ignoreCase c
  | group p, c => p.ends ignoreCase c
  | plainGroup p, c => p.ends ignoreCase c
  | wordEdge, c => if c.atWordEdge then [c] else []
  | lineEnd, c => if c.atLineEnd then [c] else []

end Regex
end LogPrune
