import LogPrune.Text.Basic

/-!
# LogPrune.Diff

Line differences between two texts.

Both texts are walked together.  While their lines agree both advance, which
ends a hunk.  Where they differ,

1. a line of the new text is added if the line of the old text still occurs
   in what is left of the new text, or the old text is at its end;
2. otherwise a line of the old text is removed if the line of the new text
   still occurs in what is left of the old text, or the new text is at its
   end;
3. otherwise the line is changed: removed and added.

Every step takes a line off one of the texts, which bounds the walk.
-/

namespace LogPrune

/-- A line of a hunk. -/
inductive DiffLine
  | removed (l : Text)
  | added (l : Text)
  deriving DecidableEq, Repr

/-- A run of differing lines, with the numbers of its first lines in both
texts, counted from one. -/
structure Hunk where
  oldStart : Nat
  newStart : Nat
  lines : List DiffLine
  deriving DecidableEq, Repr

namespace Hunk

/-- The lines that a hunk takes out of the old text. -/
def removedLines (h : Hunk) : List Text :=
  h.lines.filterMap fun | .removed l => some l | .added _ => none

/-- The lines that a hunk puts into the new text. -/
def addedLines (h : Hunk) : List Text :=
  h.lines.filterMap fun | .added l => some l | .removed _ => none

/-- A hunk with further lines at its end. -/
def extend (h : Hunk) (lines : List DiffLine) : Hunk := { h with lines := h.lines ++ lines }

end Hunk

namespace Diff

/-! ## Comparing -/

/-- The hunks from given positions on, counted from zero, with the hunk that
is open there. -/
def hunksFrom (i j : Nat) (current : Option Hunk) : List Text → List Text → List Hunk
  | [], [] => current.toList
  | [], b :: bs =>
    hunksFrom i (j + 1) (some ((current.getD ⟨i + 1, j + 1, []⟩).extend [.added b])) [] bs
  | a :: as, [] =>
    hunksFrom (i + 1) j (some ((current.getD ⟨i + 1, j + 1, []⟩).extend [.removed a])) as []
  | a :: as, b :: bs =>
    if a = b then current.toList ++ hunksFrom (i + 1) (j + 1) none as bs
    else
      let hunk := current.getD ⟨i + 1, j + 1, []⟩
      if (b :: bs).contains a then
        hunksFrom i (j + 1) (some (hunk.extend [.added b])) (a :: as) bs
      else if (a :: as).contains b then
        hunksFrom (i + 1) j (some (hunk.extend [.removed a])) as (b :: bs)
      else
        hunksFrom (i + 1) (j + 1) (some (hunk.extend [.removed a, .added b])) as bs
termination_by old new => old.length + new.length

/-- The hunks between two lists of lines. -/
def hunks (old new : List Text) : List Hunk := hunksFrom 0 0 none old new

/-! ## Writing -/

/-- The decimal digits of a number. -/
def decimal (n : Nat) : Text := (toString n).toList

/-- The header of a hunk. -/
def header (h : Hunk) : Text :=
  "@@ -".toList ++ decimal h.oldStart ++ ',' :: decimal h.removedLines.length
    ++ " +".toList ++ decimal h.newStart ++ ',' :: decimal h.addedLines.length
    ++ " @@".toList

/-- A line of a hunk behind its sign. -/
def signed : DiffLine → Text
  | .removed l => '-' :: l
  | .added l => '+' :: l

/-- The written lines of a hunk. -/
def hunkLines (h : Hunk) : List Text := header h :: h.lines.map signed

/-- The unified difference between two texts of a file. -/
def unified (old new : Text) (fileName : Text) : Text :=
  .unlines (("--- ".toList ++ fileName) :: ("+++ ".toList ++ fileName)
    :: (hunks old.lines new.lines).flatMap hunkLines)

end Diff
end LogPrune
