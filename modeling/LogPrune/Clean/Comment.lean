import LogPrune.Finding
import LogPrune.Language

/-!
# LogPrune.Clean.Comment

Commenting out the lines of log statements.

A line is commented out once, however many statements stand on it, and a
statement that is a comment already is left as it is.  The opener goes before
the line and the closer, where the language has one, after it: not when the
line holds a closer already, and before a carriage return that ends the line.
-/

namespace LogPrune

/-- A line commented out with an opener and a closer. -/
def commentOut (opener closer line : Text) : Text :=
  let (body, lineEnding) := match Text.dropEnding? ['\r'] line with
    | some body => (body, ['\r'])
    | none => (line, [])
  let mark := Text.trim closer
  if mark = [] || Text.includes body mark then opener ++ body ++ lineEnding
  else opener ++ body ++ closer ++ lineEnding

/-- The lines of a text, and the indices of those commented out so far. -/
structure CommentedLines where
  lines : List Text
  done : List Nat

namespace CommentedLines

/-- Comments out the line with an index, if there is one and it has not been
commented out. -/
def commentLine (opener closer : Text) (s : CommentedLines) (i : Nat) : CommentedLines :=
  match s.lines[i]? with
  | none => s
  | some line =>
    if s.done.contains i then s
    else ⟨s.lines.set i (commentOut opener closer line), i :: s.done⟩

/-- Comments out the lines of a statement. -/
def commentFinding (opener closer : Text) (s : CommentedLines) (f : Finding) :
    CommentedLines :=
  (List.range' f.startLine (f.endLine + 1 - f.startLine)).foldl (commentLine opener closer) s

end CommentedLines

/-- The statements that are not comments themselves. -/
def liveFindings (findings : List Finding) : List Finding :=
  findings.filter fun f => !isComment f.text

/-- Lines with all statements commented out that are not comments
themselves, from the last one up. -/
def commentFindings (language : String) (findings : List Finding) (lines : List Text) :
    List Text :=
  let opener := (commentOpener language).toList
  let closer := (commentCloser language).toList
  ((liveFindings findings).reverse.foldl (CommentedLines.commentFinding opener closer)
    ⟨lines, []⟩).lines

end LogPrune
