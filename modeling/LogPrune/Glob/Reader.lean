import LogPrune.Glob.Basic

/-!
# LogPrune.Glob.Reader

Reading globs.

The reader takes one character at a time.  Inside braces it keeps a list of
the branches read so far; the parts of the current branch are kept last one
first, because `**` behind a slash takes the place of that slash.

1. `\` takes the next character as it is.
2. `[` opens a class; `!` or `^` right behind it negates the class.  A `]`
   that is first and a `-` that is first or last stand for themselves.
3. A comma separates branches inside braces only, and a branch that matches
   nothing but the empty text is left out.
4. `**` is special at the start of a branch before a slash or the end, and
   behind a slash before a slash or the end of the branch; elsewhere it is
   two `*`.
-/

namespace LogPrune

/-- What is wrong with a glob. -/
inductive GlobError
  /-- A class without `]`. -/
  | unclosedClass
  /-- A range whose ends are in the wrong order. -/
  | invalidRange (first last : Char)
  /-- A `}` without `{`. -/
  | unopenedAlternates
  /-- A `{` without `}`. -/
  | unclosedAlternates
  /-- A `\` at the end. -/
  | danglingEscape
  deriving DecidableEq, Repr

namespace GlobError

/-- What is wrong, in words. -/
def reason : GlobError → String
  | unclosedClass => "unclosed character class; missing ']'"
  | invalidRange first last =>
    "invalid range; '" ++ first.toString ++ "' > '" ++ last.toString ++ "'"
  | unopenedAlternates =>
    "unopened alternate group; missing '\x7b' (maybe escape '\x7d' with '[\x7d]'?)"
  | unclosedAlternates =>
    "unclosed alternate group; missing '\x7d' (maybe escape '\x7b' with '[\x7b]'?)"
  | danglingEscape => "dangling '\\'"

/-- The message about a glob. -/
def message (glob : String) (e : GlobError) : String :=
  "error parsing glob '" ++ glob ++ "': " ++ e.reason

end GlobError

namespace Glob

/-! ## State -/

/-- A brace group around the current branch: the parts before the group and
the branches already read, all last one first. -/
structure Frame where
  before : List Glob
  branches : List (List Glob)

/-- A class being read. -/
structure ClassState where
  negated : Bool
  /-- The ranges read so far, last one first. -/
  ranges : List (Char × Char)
  /-- Whether a dash waits for the end of its range. -/
  inRange : Bool

/-- What the next character is part of. -/
inductive Context
  | plain
  /-- Behind a star, with the character before it. -/
  | star (before : Option Char)
  /-- Behind two stars, with the character before them. -/
  | twoStars (before : Option Char)
  /-- Behind a backslash. -/
  | escape
  /-- Behind the bracket that opens a class. -/
  | classStart
  /-- At the first character of a class. -/
  | classFirst (negated : Bool)
  | inClass (s : ClassState)

/-- The state of the reader. -/
structure ReaderState where
  /-- The groups around the current branch, innermost first. -/
  frames : List Frame := []
  /-- The parts of the current branch, last one first. -/
  parts : List Glob := []
  /-- The character before the next one. -/
  previous : Option Char := none
  context : Context := .plain

namespace ReaderState

/-- The state with one more part. -/
def push (s : ReaderState) (g : Glob) : ReaderState := { s with parts := g :: s.parts }

/-- Whether the reader is inside braces. -/
def inGroup (s : ReaderState) : Bool := !s.frames.isEmpty

end ReaderState

/-! ## Assembling -/

/-- The glob of parts that are given last one first. -/
def ofParts (parts : List Glob) : Glob := parts.foldl (fun g part => seq part g) empty

/-- Whether parts are all empty. -/
def isBlankBranch (parts : List Glob) : Bool := parts.all (· = empty)

/-- The glob of a group, given its branches last one first. -/
def ofBranches (branches : List (List Glob)) : Glob :=
  match (branches.filter (!isBlankBranch ·)).map ofParts with
  | [] => empty
  | last :: earlier => earlier.foldl (fun g branch => either branch g) last

/-! ## Reading -/

/-- Reads a character that is not part of a class, an escape or a run of
stars. -/
def readPlain (s : ReaderState) (c : Char) : Except GlobError ReaderState :=
  if c = '?' then .ok (s.push anyByte)
  else if c = '*' then .ok { s with context := .star s.previous }
  else if c = '[' then .ok { s with context := .classStart }
  else if c = '\x7b' then
    .ok { s with frames := ⟨s.parts, []⟩ :: s.frames, parts := [] }
  else if c = '\x7d' then
    match s.frames with
    | [] => .error .unopenedAlternates
    | frame :: frames =>
      .ok { s with frames, parts := ofBranches (s.parts :: frame.branches) :: frame.before }
  else if c = ',' then
    match s.frames with
    | [] => .ok (s.push (char ','))
    | frame :: frames =>
      .ok { s with
        frames := { frame with branches := s.parts :: frame.branches } :: frames, parts := [] }
  else if c = '\\' then .ok { s with context := .escape }
  else .ok (s.push (char c))

/-- What two stars mean, given the character before them and the one behind
them, and whether that one is used up. -/
def readTwoStars (s : ReaderState) (before next : Option Char) : ReaderState × Bool :=
  let s := { s with context := .plain }
  let twoRuns := ((s.push anyRun).push anyRun, false)
  let atEnd := next = none || (s.inGroup && (next = some ',' || next = some '\x7d'))
  match s.parts with
  | [] =>
    if next = none || next = some '/' then (s.push leadingDirs, true) else twoRuns
  | last :: parts =>
    if before = some '/' || (s.inGroup && (before = some ',' || before = some '\x7b')) then
      if atEnd || next = some '/' then
        let part :=
          if last = leadingDirs then leadingDirs
          else if last = everythingBelow || atEnd then everythingBelow
          else innerDirs
        ({ s with parts := part :: parts }, !atEnd)
      else twoRuns
    else twoRuns

/-- Adds a character to a class. -/
def readInClass (s : ClassState) (c : Char) : Except GlobError ClassState :=
  if s.inRange then
    match s.ranges with
    | [] => .ok { s with ranges := [(c, c)], inRange := false }
    | (first, _) :: ranges =>
      if c < first then .error (.invalidRange first c)
      else .ok { s with ranges := (first, c) :: ranges, inRange := false }
  else if c = '-' then .ok { s with inRange := true }
  else .ok { s with ranges := (c, c) :: s.ranges }

/-- The glob of a class that is complete. -/
def ofClass (s : ClassState) : Glob :=
  let ranges := if s.inRange then ('-', '-') :: s.ranges else s.ranges
  byteClass s.negated ranges.reverse

/-- Reads one character. -/
def read (s : ReaderState) (c : Char) : Except GlobError ReaderState := do
  let s ← match s.context with
    | .plain => readPlain s c
    | .star before =>
      if c = '*' then pure { s with context := .twoStars before }
      else readPlain { (s.push anyRun) with context := .plain } c
    | .twoStars before =>
      let (s, used) := readTwoStars s before (some c)
      if used then pure s else readPlain s c
    | .escape => pure { (s.push (char c)) with context := .plain }
    | .classStart =>
      if c = '!' || c = '^' then pure { s with context := .classFirst true }
      else pure { s with context := .inClass ⟨false, [(c, c)], false⟩ }
    | .classFirst negated => pure { s with context := .inClass ⟨negated, [(c, c)], false⟩ }
    | .inClass cls =>
      if c = ']' then pure { (s.push (ofClass cls)) with context := .plain }
      else
        let cls ← readInClass cls c
        pure { s with context := .inClass cls }
  return { s with previous := some c }

/-- Completes reading at the end of the text. -/
def finish (s : ReaderState) : Except GlobError Glob := do
  let s ← match s.context with
    | .plain => pure s
    | .star _ => pure (s.push anyRun)
    | .twoStars before => pure (readTwoStars s before none).1
    | .escape => throw .danglingEscape
    | .classStart | .classFirst _ | .inClass _ => throw .unclosedClass
  if s.inGroup then throw .unclosedAlternates
  return if s.parts = [leadingDirs] then anyRun else ofParts s.parts

/-- Reads a glob. -/
def parse (text : String) : Except GlobError Glob := do
  finish (← text.toList.foldlM read {})

end Glob
end LogPrune
