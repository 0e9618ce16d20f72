import LogPrune.Finding

/-!
# LogPrune.Clean.Delete

Removing log statements from the lines of a text.

A statement on one line is cut out of it, and the line goes with it when
nothing is left but blanks or a lone semicolon.  A statement over several
lines takes all of them.  Statements are removed from the last one up, so
that the line numbers of those still to come stay right.
-/

namespace LogPrune

/-- Whether nothing worth keeping is left of a line. -/
def isLeftover (line : Text) : Bool := Text.trim line = [] || Text.trim line = [';']

namespace Finding

/-- A line without the statement on it: cut out where it was found, or else
where its text first occurs. -/
def cutFrom (f : Finding) (line : Text) : Text :=
  match Text.cut? f.startChar line, Text.slice? f.startChar f.endChar line,
      Text.cut? f.endChar line with
  | some (before, _), some part, some (_, after) =>
    if part = f.text then before ++ after else Text.eraseFirst f.text line
  | _, _, _ => Text.eraseFirst f.text line

/-- Whether a line holds the statement alone, perhaps with a semicolon. -/
def fills (f : Finding) (line : Text) : Bool :=
  let text := Text.trim f.text
  Text.trim line = text || Text.dropEnding? [';'] (Text.trim line) = some text

/-- Lines without a statement on one line. -/
def eraseInLine (f : Finding) (lines : List Text) : List Text :=
  match lines[f.startLine]? with
  | none => lines
  | some line =>
    if f.fills line then lines.eraseIdx f.startLine
    else
      let rest := f.cutFrom line
      if isLeftover rest then lines.eraseIdx f.startLine else lines.set f.startLine rest

/-- Lines without those that a statement covers. -/
def eraseLines (f : Finding) (lines : List Text) : List Text :=
  if f.startLine < lines.length then
    lines.take f.startLine ++ lines.drop (min f.endLine (lines.length - 1) + 1)
  else lines

/-- Lines without a statement. -/
def erase (f : Finding) (lines : List Text) : List Text :=
  if f.onOneLine then f.eraseInLine lines else f.eraseLines lines

/-- Lines without any of some statements, which are given in order. -/
def eraseAll (findings : List Finding) (lines : List Text) : List Text :=
  findings.reverse.foldl (fun lines f => f.erase lines) lines

end Finding
end LogPrune
