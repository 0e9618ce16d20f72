import LogPrune.Run

/-!
# LogPrune.Run.Log

The log of a run.

A log is kept in a file, which comes into being with the directories above it
when the run starts.  A path that ends in no name stands for a file of a
fixed name in the directory above it.
-/

namespace LogPrune

/-- The name of a log whose path has none. -/
def defaultLogName : String := "logsweep.log"

/-- The file of a log with a given path. -/
def logFile (p : FilePath) : FilePath :=
  (p.parent?.getD ⟨"."⟩).child (p.fileName?.getD defaultLogName)

/-- Opens a log; what the file holds stays in it. -/
def Disk.openLog (d : Disk) (p : FilePath) : Except IoError Disk := do
  let file := logFile p
  let d ← match file.parent? with
    | some dir => d.ensureDirs dir
    | none => .ok d
  d.appendBytes file .empty

/-! ## The path in a message -/

/-- Whether a character is shown by its number: control characters and, but
for the space, blanks. -/
def isShownByNumber (c : Char) : Bool :=
  c.toNat < 32 || (127 ≤ c.toNat && c.toNat < 160) || (isBlank c && c != ' ')

/-- A character as it stands in quotes. -/
def quotedChar (c : Char) : Text :=
  if c = '\x22' || c = '\\' then ['\\', c]
  else if c = '\n' then ['\\', 'n']
  else if c = '\r' then ['\\', 'r']
  else if c = '\t' then ['\\', 't']
  else if c = '\x00' then ['\\', '0']
  else if isShownByNumber c then
    ['\\', 'u', '\x7b'] ++ Nat.toDigits 16 c.toNat ++ ['\x7d']
  else [c]

/-- A text in quotes. -/
def quoted (s : String) : String :=
  "\x22" ++ String.ofList (s.toList.flatMap quotedChar) ++ "\x22"

/-- The line that says that there is a log. -/
def Run.noteLog (r : Run) (p : FilePath) : Run :=
  r.note ("📝 Debug logging enabled: " ++ quoted p.text)

end LogPrune
