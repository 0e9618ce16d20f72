/-!
# LogPrune.Text.Basic

A text is the list of its characters.  Offsets into a text count the bytes
of its UTF-8 form, as the editors that read the reports expect; a cut that
would fall inside a character does not exist.

Lines are what stands between newline characters, so a text with `n`
newlines has `n + 1` lines and `unlines` undoes `lines`.  A carriage return
is an ordinary character of its line.
-/

namespace LogPrune

/-- A text: the list of its characters. -/
abbrev Text := List Char

namespace Text

/-! ## Size -/

/-- The number of bytes of the UTF-8 form. -/
def size : Text → Nat
  | [] => 0
  | c :: cs => c.utf8Size + size cs

/-! ## Pieces and lines -/

/-- The pieces between the occurrences of a separator; never the empty list. -/
def pieces (sep : Char) : Text → List Text
  | [] => [[]]
  | c :: cs =>
    if c = sep then [] :: pieces sep cs
    else match pieces sep cs with
      | [] => [[c]]
      | p :: ps => (c :: p) :: ps

/-- The pieces joined by a separator. -/
def glue (sep : Char) : List Text → Text
  | [] => []
  | [p] => p
  | p :: ps => p ++ sep :: glue sep ps

/-- The lines of a text. -/
def lines (t : Text) : List Text := t.pieces '\n'

/-- The text with the given lines. -/
def unlines (ls : List Text) : Text := glue '\n' ls

/-- The index of the line that holds an offset of the joined lines, and the
offset within that line, given the sizes of the lines.  A newline belongs to
the line that it ends. -/
def locate : List Nat → Nat → Nat × Nat
  | [], n => (0, n)
  | [_], n => (0, n)
  | size :: sizes, n =>
    if n ≤ size then (0, n)
    else
      let (i, k) := locate sizes (n - (size + 1))
      (i + 1, k)

/-! ## Cutting at offsets -/

/-- The text before and after an offset, if the offset is the start of a
character or the end of the text. -/
def cut? : Nat → Text → Option (Text × Text)
  | 0, t => some ([], t)
  | _ + 1, [] => none
  | n + 1, c :: cs =>
    if c.utf8Size ≤ n + 1 then
      (cut? (n + 1 - c.utf8Size) cs).map fun (a, b) => (c :: a, b)
    else none

/-- The characters that lie before an offset. -/
def takeSize (t : Text) (n : Nat) : Text :=
  match t with
  | [] => []
  | c :: cs => if c.utf8Size ≤ n then c :: takeSize cs (n - c.utf8Size) else []

/-- The text from one offset up to another. -/
def slice? (start stop : Nat) (t : Text) : Option Text :=
  if start ≤ stop then do
    let (_, rest) ← cut? start t
    let (part, _) ← cut? (stop - start) rest
    return part
  else none

/-! ## Searching -/

/-- Whether a text contains another one. -/
def includes (t part : Text) : Bool :=
  part.isPrefixOf t || match t with
    | [] => false
    | _ :: rest => includes rest part

/-- A text without the first occurrence of a part. -/
def eraseFirst (part : Text) : Text → Text
  | [] => []
  | c :: cs =>
    if part.isPrefixOf (c :: cs) then (c :: cs).drop part.length
    else c :: eraseFirst part cs

/-- What is left of a text after removing an ending, if it has that ending. -/
def dropEnding? (ending t : Text) : Option Text :=
  if ending.isSuffixOf t then some (t.take (t.length - ending.length)) else none

end Text
end LogPrune
