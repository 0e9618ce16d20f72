import LogPrune.Config.Location
import LogPrune.Failure

/-!
# LogPrune.Run

A run of the program: the disk that it works on, what it has printed so far,
and what it ends in.
-/

namespace LogPrune

/-- The time of a run, which cannot be found out on a disk. -/
structure Clock where
  /-- The time at which the run starts, for its journal; the epoch where it is
  not known. -/
  now : String := "1970-01-01T00:00:00Z"
  /-- How many milliseconds the run takes. -/
  elapsedMs : Nat := 0

/-- The state of a run: the disk, and what has been printed. -/
structure Run where
  disk : Disk
  stdout : Text := []
  stderr : Text := []

/-- What a run ends in. -/
structure Outcome where
  exitCode : Nat
  stdout : Text
  stderr : Text
  disk : Disk

namespace Run

/-- Prints a result. -/
def print (r : Run) (t : Text) : Run := { r with stdout := r.stdout ++ t }

/-- Prints a line of a result. -/
def printLine (r : Run) (s : String) : Run := r.print (s.toList ++ ['\n'])

/-- Prints a line about the run itself. -/
def note (r : Run) (s : String) : Run := { r with stderr := r.stderr ++ s.toList ++ ['\n'] }

/-- The end of a run that has done what it was asked. -/
def succeed (r : Run) : Outcome := ⟨0, r.stdout, r.stderr, r.disk⟩

/-- The end of a run that could not even start. -/
def abort (r : Run) : Outcome := ⟨101, r.stdout, r.stderr, r.disk⟩

/-- The end of a run that could not do what it was asked. -/
def fail (r : Run) (f : Failure) : Outcome := ⟨1, r.stdout, r.stderr ++ f.report, r.disk⟩

end Run

/-- Where the paths of results are relative to. -/
def reportBase : FilePath := ⟨"."⟩

/-- The absolute path of the working directory. -/
def Disk.here (d : Disk) : FilePath := absolutePath d.workingDir

/-- The configuration that a run goes by. -/
def loadConfig (d : Disk) (path : Option FilePath) : Except Failure Config :=
  match path with
  | some p =>
    (Config.load d p).mapError fun e =>
      (Failure.ofError e).within ("Failed to load config from " ++ p.text)
  | none =>
    (Config.discover d d.here).mapError fun e =>
      (Failure.ofError e).within "Failed to load config"

end LogPrune
