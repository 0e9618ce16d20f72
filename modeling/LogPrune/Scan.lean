import LogPrune.Clean
import LogPrune.Report
import LogPrune.Sources

/-!
# LogPrune.Scan

Cleaning files.

A scan reads files and reports what cleaning does to them; it leaves the disk
as it is.  The contents that it reports can then be written.  A file that
cannot be read, cleaned or written never stops the others: the message goes
into its report.
-/

namespace LogPrune

/-! ## Scanning -/

namespace Disk

/-- Whether a node has at most so many kilobytes. -/
def fits (d : Disk) (maxKb : Nat) (p : FilePath) : Bool :=
  match d.size p with
  | .ok bytes => bytes ≤ maxKb * 1024
  | .error _ => false

/-- The text of a file that is not too large. -/
def readSource (d : Disk) (maxKb : Nat) (p : FilePath) : Except Error Text := do
  let bytes ← (d.size p).mapError (.read p)
  if maxKb * 1024 < bytes then .error (.fileTooLarge maxKb)
  else (d.readText p).mapError (.read p)

end Disk

namespace FileReport

/-- A report with an error. -/
def failed (r : FileReport) (e : Error) : FileReport := { r with error := some e.message }

/-- The report on a file with some content in a language, cleaned as
configured. -/
def ofContent (c : Config) (p : FilePath) (content : Text) (language : String) : FileReport :=
  let read : FileReport :=
    { path := p, language := some language, oldContent := content, newContent := content }
  match clean? content language c with
  | none => read.failed (.unknownLanguage language)
  | some cleaned =>
    { read with
      newContent := cleaned.newContent
      findings := cleaned.findings
      removed := cleaned.removed
      commented := cleaned.commented
      kept := cleaned.kept
      modified := cleaned.newContent != content }

/-- The report on a file, which is not written. -/
def scan (d : Disk) (c : Config) (p : FilePath) : FileReport :=
  match d.readSource c.maxFileSizeKb p with
  | .error e => { path := p : FileReport }.failed e
  | .ok content =>
    match p.detectLanguage with
    | .error e => { path := p, oldContent := content, newContent := content : FileReport }.failed e
    | .ok language => ofContent c p content language

/-! ## Writing -/

/-- Writes the new content of a file. -/
def save (d : Disk) (r : FileReport) : Except Error Disk :=
  (d.writeText r.path r.newContent).mapError (.write r.path)

/-- Scans a file and writes its new content. -/
def clean (d : Disk) (c : Config) (p : FilePath) : FileReport × Disk :=
  let r := scan d c p
  if r.modified then
    match r.save d with
    | .ok d => (r, d)
    | .error e => (r.failed e, d)
  else (r, d)

/-- Writes the new content that a scan reported; a file that cannot be
written no longer counts as modified. -/
def apply (d : Disk) (r : FileReport) : FileReport × Disk :=
  if r.modified then
    match r.save d with
    | .ok d => (r, d)
    | .error e => ({ r.failed e with modified := false, removed := 0, commented := 0 }, d)
  else (r, d)

/-- Deals with files one after another. -/
def each (step : Disk → α → FileReport × Disk) (d : Disk) : List α → List FileReport × Disk
  | [] => ([], d)
  | a :: as =>
    let (r, d) := step d a
    let (rs, d) := each step d as
    (r :: rs, d)

end FileReport

namespace Report

/-- The report on some files, which are not written. -/
def scan (d : Disk) (c : Config) (paths : List FilePath) : Report :=
  ofFiles (paths.map (FileReport.scan d c)) 0

/-- Scans some files and writes their new contents. -/
def clean (d : Disk) (c : Config) (paths : List FilePath) : Report × Disk :=
  let (files, d) := FileReport.each (fun d p => FileReport.clean d c p) d paths
  (ofFiles files 0, d)

/-- Writes the new contents that a scan reported. -/
def apply (d : Disk) (r : Report) : Report × Disk :=
  let (files, d) := FileReport.each FileReport.apply d r.files
  (ofFiles files r.elapsedMs, d)

end Report
end LogPrune
