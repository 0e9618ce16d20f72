import LogPrune.Toml.Document
import LogPrune.Toml.Scalar

/-!
# LogPrune.Toml.Reader

Reading TOML.

1. A statement stands on a line of its own and may have a comment behind it.
2. The parts of a dotted key may have blanks around them.
3. An array may run over several lines, hold comments and end in a comma; the
   assignments within braces stand on one line and are separated strictly.
4. Keys and values are less than eighty levels deep.
5. A comment holds no control characters, and a carriage return only stands
   before a newline.

The readers of values go down by a number that bounds the steps; the length
of the text always suffices.
-/

namespace LogPrune
namespace Toml

/-- What keys and values may not be nested as deeply as. -/
def depthLimit : Nat := 80

/-- A text without the blanks at its start. -/
def skipSpace (t : Text) : Text := t.dropWhile isSpace

/-! ## Line ends and comments -/

/-- What follows a line break or the end of the text. -/
def afterLineBreak? : Text → Option Text
  | [] => some []
  | '\n' :: rest => some rest
  | '\r' :: '\n' :: rest => some rest
  | _ => none

/-- A text without the comment at its start. -/
def skipComment : Text → Text
  | '#' :: rest => rest.dropWhile isPlain
  | t => t

/-- What follows the blanks and the comment at the end of a statement. -/
def afterStatement? (t : Text) : Option Text := afterLineBreak? (skipComment (skipSpace t))

/-- A text without the blanks, line breaks and comments at its start. -/
def skipLayout (inComment : Bool) : Text → Text
  | [] => []
  | '\n' :: rest => skipLayout false rest
  | '\r' :: '\n' :: rest => skipLayout false rest
  | c :: rest =>
    if inComment then (if isPlain c then skipLayout true rest else c :: rest)
    else if isSpace c then skipLayout false rest
    else if c = '#' then skipLayout true rest
    else c :: rest

/-! ## Keys -/

/-- The part of a key that a text begins with. -/
def readKeyPart? (t : Text) : Option (String × Text) :=
  match readLineString? t with
  | some (part, rest) => some (String.ofList part, rest)
  | none =>
    let part := t.takeWhile isBare
    if part = [] then none else some (String.ofList part, t.drop part.length)

/-- The parts of the dotted key that a text begins with. -/
def readKeyParts? : Nat → Text → Option (List String × Text)
  | 0, _ => none
  | n + 1, t => do
    let (part, t) ← readKeyPart? (skipSpace t)
    match skipSpace t with
    | '.' :: rest =>
      let (parts, rest) ← readKeyParts? n rest
      return (part :: parts, rest)
    | rest => return ([part], rest)

/-- A dotted key: the path, the last part, and what follows. -/
def readKey? (t : Text) : Option (List String × String × Text) := do
  let (parts, rest) ← readKeyParts? depthLimit t
  let key ← parts.getLast?
  if parts.length < depthLimit then return (parts.dropLast, key, rest) else none

/-! ## Values -/

mutual

/-- The value that a text begins with, at a given depth. -/
def readValue? : Nat → Nat → Text → Option (Toml × Text)
  | 0, _, _ => none
  | n + 1, depth, t =>
    match t with
    | '\x22' :: _ | '\x27' :: _ => (readAnyString? t).map fun (s, rest) => (.string s, rest)
    | '[' :: rest =>
      if depth + 1 < depthLimit then
        match skipLayout false rest with
        | ']' :: rest => some (.array [], rest)
        | rest => (readItems? n (depth + 1) rest).map fun (items, rest) => (.array items, rest)
      else none
    | '\x7b' :: rest =>
      if depth + 1 < depthLimit then
        match skipSpace rest with
        | '\x7d' :: rest => some (.table [], rest)
        | rest => do
          let (assignments, rest) ← readAssignments? n (depth + 1) rest
          let table ← ofAssignments? assignments
          return (table, rest)
      else none
    | _ => readWord? t

/-- The items of an array, through its end. -/
def readItems? : Nat → Nat → Text → Option (List Toml × Text)
  | 0, _, _ => none
  | n + 1, depth, t => do
    let (v, rest) ← readValue? n depth t
    match skipLayout false rest with
    | ']' :: rest => return ([v], rest)
    | ',' :: rest =>
      match skipLayout false rest with
      | ']' :: rest => return ([v], rest)
      | rest =>
        let (vs, rest) ← readItems? n depth rest
        return (v :: vs, rest)
    | _ => none

/-- The assignments within braces, through their end. -/
def readAssignments? : Nat → Nat → Text → Option (List (List String × String × Toml) × Text)
  | 0, _, _ => none
  | n + 1, depth, t => do
    let (path, key, rest) ← readKey? t
    let rest ← after? '=' rest
    let (v, rest) ← readValue? n depth (skipSpace rest)
    match skipSpace rest with
    | '\x7d' :: rest => return ([(path, key, v)], rest)
    | ',' :: rest =>
      let (more, rest) ← readAssignments? n depth rest
      return ((path, key, v) :: more, rest)
    | _ => none

end

/-! ## Statements -/

/-- The statement that a text begins with, and what follows its line. -/
def readStatement? (t : Text) : Option (Statement × Text) :=
  match t with
  | '[' :: '[' :: rest => do
    let (path, key, rest) ← readKey? rest
    let rest ← after? ']' rest
    let rest ← after? ']' rest
    let rest ← afterStatement? rest
    return (.arrayHeader path key, rest)
  | '[' :: rest => do
    let (path, key, rest) ← readKey? rest
    let rest ← after? ']' rest
    let rest ← afterStatement? rest
    return (.header path key, rest)
  | _ => do
    let (path, key, rest) ← readKey? t
    let rest ← after? '=' rest
    let (v, rest) ← readValue? (2 * rest.length + 2) 0 (skipSpace rest)
    let rest ← afterStatement? rest
    return (.assign path key v, rest)

/-- The statements of a text. -/
def readStatements? : Nat → Text → Option (List Statement)
  | 0, _ => none
  | n + 1, t =>
    match skipLayout false t with
    | [] => some []
    | t => do
      let (s, rest) ← readStatement? t
      let more ← readStatements? n rest
      return s :: more

/-- A text without the byte order mark at its start. -/
def skipByteOrderMark : Text → Text
  | '\uFEFF' :: rest => rest
  | t => t

/-- Reads a document. -/
def parse? (t : Text) : Option Toml :=
  let t := skipByteOrderMark t
  (readStatements? (t.length + 1) t).bind ofStatements?

end Toml
end LogPrune
