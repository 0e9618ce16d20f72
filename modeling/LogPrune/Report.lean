import LogPrune.FilePath
import LogPrune.Finding

/-!
# LogPrune.Report

What a run did, file by file and in total.
-/

namespace LogPrune

/-- What became of a file. -/
structure FileReport where
  path : FilePath
  language : Option String := none
  oldContent : Text := []
  newContent : Text := []
  /-- The statements acted on or, in preview mode, to be acted on. -/
  findings : List Finding := []
  removed : Nat := 0
  commented : Nat := 0
  kept : Nat := 0
  /-- Whether the new content differs and has been, or is to be, written. -/
  modified : Bool := false
  /-- The message about what went wrong. -/
  error : Option String := none
  deriving DecidableEq, Repr

namespace FileReport

/-- The number of statements removed or commented out. -/
def affected (r : FileReport) : Nat := r.removed + r.commented

end FileReport

/-- What became of all files. -/
structure Report where
  files : List FileReport := []
  removed : Nat := 0
  commented : Nat := 0
  /-- The number of files modified. -/
  modified : Nat := 0
  elapsedMs : Nat := 0
  deriving DecidableEq, Repr

namespace Report

/-- The total of a count over some files. -/
def total (count : FileReport → Nat) : List FileReport → Nat
  | [] => 0
  | f :: files => count f + total count files

/-- The report on some files, with the totals over them. -/
def ofFiles (files : List FileReport) (elapsedMs : Nat) : Report where
  files := files
  removed := total (·.removed) files
  commented := total (·.commented) files
  modified := (files.filter (·.modified)).length
  elapsedMs := elapsedMs

/-- The files modified. -/
def modifiedFiles (r : Report) : List FileReport := r.files.filter (·.modified)

/-- The files for which something went wrong. -/
def failedFiles (r : Report) : List FileReport := r.files.filter (·.error.isSome)

/-- The number of statements found. -/
def findingCount (r : Report) : Nat := total (·.findings.length) r.files

end Report
end LogPrune
