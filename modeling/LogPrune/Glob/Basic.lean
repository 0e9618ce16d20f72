import LogPrune.FilePath

/-!
# LogPrune.Glob.Basic

Globs and the paths that they match.

A glob matches whole paths, byte by byte; neither a slash nor a newline is
special to `?` and `*`.

| written | matches |
| --- | --- |
| `?` | any byte |
| `*` | any bytes |
| `**` alone | any bytes |
| `**/` at the start | nothing, a slash, or anything up to a slash |
| `/**/` | a slash, or a slash and anything up to another |
| `/**` at the end | a slash and anything |
| `[...]` | a byte of the class |
| `{a,b}` | what one of the alternatives matches |
-/

namespace LogPrune

/-- A glob. -/
inductive Glob
  /-- Nothing. -/
  | empty
  /-- A character. -/
  | char (c : Char)
  /-- Any byte. -/
  | anyByte
  /-- Any bytes. -/
  | anyRun
  /-- Directories at the start of the path. -/
  | leadingDirs
  /-- Directories in the middle, with the slashes around them. -/
  | innerDirs
  /-- Everything below a directory, with the slash before it. -/
  | everythingBelow
  /-- A byte of a class, or one that is not in it. -/
  | byteClass (negated : Bool) (ranges : List (Char × Char))
  /-- One glob and then the other. -/
  | seq (a b : Glob)
  /-- One of two globs. -/
  | either (a b : Glob)
  deriving DecidableEq, Repr

namespace Glob

/-! ## Bytes -/

/-- The bytes of a character. -/
def charBytes (c : Char) : List UInt8 := (String.singleton c).toUTF8.toList

/-- The byte of a slash. -/
def slash : UInt8 := 0x2F

/-- The ranges of bytes that a range of characters stands for.  The range
runs between the bytes next to the dash; any other byte of the two characters
stands for itself. -/
def byteRanges : Char × Char → List (UInt8 × UInt8)
  | (a, b) =>
    let alone := fun x => (x, x)
    if a = b then (charBytes a).map alone
    else match (charBytes a).reverse, charBytes b with
      | last :: before, first :: after =>
        before.reverse.map alone ++ (last, first) :: after.map alone
      | _, _ => []

/-- Whether a byte belongs to a class. -/
def inClass (negated : Bool) (ranges : List (Char × Char)) (x : UInt8) : Bool :=
  (ranges.flatMap byteRanges).any (fun r => r.1 ≤ x && x ≤ r.2) != negated

/-- All ends of a list of bytes, the list itself first. -/
def tails : List UInt8 → List (List UInt8)
  | [] => [[]]
  | x :: xs => (x :: xs) :: tails xs

/-- What stands behind each slash. -/
def behindSlashes : List UInt8 → List (List UInt8)
  | [] => []
  | x :: xs => if x = slash then xs :: behindSlashes xs else behindSlashes xs

/-- What stands behind some bytes, if they stand at the start. -/
def behind? : List UInt8 → List UInt8 → Option (List UInt8)
  | [], t => some t
  | _ :: _, [] => none
  | x :: xs, y :: ys => if x = y then behind? xs ys else none

/-! ## Matching -/

/-- What a glob can leave of a path that it has to match the start of. -/
def leaves : Glob → List UInt8 → List (List UInt8)
  | empty, t => [t]
  | char c, t => (behind? (charBytes c) t).toList
  | anyByte, t => t.tail?.toList
  | anyRun, t => tails t
  | leadingDirs, t => t :: behindSlashes t
  | innerDirs, t => match t with
    | [] => []
    | x :: xs => if x = slash then xs :: behindSlashes xs else []
  | everythingBelow, t => match t with
    | [] => []
    | x :: xs => if x = slash then tails xs else []
  | byteClass negated ranges, t => match t with
    | [] => []
    | x :: xs => if inClass negated ranges x then [xs] else []
  | seq a b, t => ((a.leaves t).flatMap b.leaves).eraseDups
  | either a b, t => a.leaves t ++ b.leaves t

/-- Whether a glob matches a whole path. -/
def matchesBytes (g : Glob) (path : List UInt8) : Bool := (g.leaves path).contains []

/-- Whether a glob matches a path, in which `\` counts as a slash. -/
def matchesText (g : Glob) (path : String) : Bool := g.matchesBytes path.toUTF8.toList

end Glob
end LogPrune
