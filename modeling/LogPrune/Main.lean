import LogPrune.Disk.Contents
import LogPrune.Program

/-!
# LogPrune.Main

The command line.

The program works on the files whose paths it reads from standard input, one
a line, as in `find . -type f | logprune clean -m delete --write`.  They are
loaded, the command is run on them, and what it changed is written back: the
journal first, then the other files.
-/

namespace LogPrune
namespace Main

/-- The paths on standard input. -/
partial def readPaths (input : IO.FS.Stream) : IO (List FilePath) := do
  let line ← input.getLine
  if line.isEmpty then return []
  let path := String.ofList (line.toList.filter (· != '\n'))
  return ⟨path⟩ :: (← readPaths input)

/-- The data of a file. -/
def load (p : FilePath) : IO FileData := do
  match ← (IO.FS.readBinFile p.text).toBaseIO with
  | .ok bytes => return { bytes }
  | .error _ => return { bytes := .empty, readable := false, writable := false }

/-- A disk with an empty working directory. -/
def emptyDisk (workingDir : FilePath) : Disk :=
  let d : Disk := { root := .empty }
  match d.ensureDirs workingDir with
  | .ok d => { d with workingDir := Disk.steps workingDir }
  | .error _ => d

/-- Whether a location is that of a journal. -/
def isJournal (location : Location) : Bool := location.getLast? = some UndoStore.journalName

/-- Writes a file, with the directories above it. -/
def store (file : Location × FileData) : IO Unit := do
  IO.FS.createDirAll (Disk.absolutePath file.1.dropLast).text
  IO.FS.writeBinFile (Disk.absolutePath file.1).text file.2.bytes

/-- Makes the files what they are on a disk, given what they were. -/
def save (before after : Disk) : IO Unit := do
  let (journals, files) := (after.differing before).partition fun file => isJournal file.1
  for file in journals ++ files do
    store file
  for location in before.missingFrom after do
    IO.FS.removeFile (Disk.absolutePath location).text

/-- Runs a command line on the files whose paths are on standard input. -/
def run (args : List String) : IO UInt32 := do
  let workingDir := (← IO.getEnv "PWD").getD "/"
  let paths ← readPaths (← IO.getStdin)
  let mut disk := emptyDisk ⟨workingDir⟩
  for p in paths do
    disk := disk.addFile p (← load p)
  let outcome := Program.run {} disk args
  save disk outcome.disk
  IO.print (String.ofList outcome.stdout)
  IO.eprint (String.ofList outcome.stderr)
  return outcome.exitCode.toUInt32

end Main
end LogPrune

/-- The command line. -/
def main (args : List String) : IO UInt32 := LogPrune.Main.run args
