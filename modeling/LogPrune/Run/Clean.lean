import LogPrune.Command
import LogPrune.Config.Problem
import LogPrune.Run
import LogPrune.Scan

/-!
# LogPrune.Run.Clean

Cleaning as ordered.

All files are scanned first.  Only where the order says that changes are
written does the run go on: it saves the journal, and then writes the files.
A run that fails before that leaves the files as they are.
-/

namespace LogPrune

namespace CleanOrder

/-- A number with at least two digits. -/
def twoDigits (n : Nat) : String := if n < 10 then "0" ++ toString n else toString n

/-- The seconds of a time in milliseconds, with two places. -/
def seconds (ms : Nat) : String :=
  let hundredths := (ms + 5) / 10
  toString (hundredths / 100) ++ "." ++ twoDigits (hundredths % 100)

/-- The line that says how many files there are and what is done. -/
def announce (o : CleanOrder) (files : List FilePath) (r : Run) : Run :=
  match o.format with
  | .json => r
  | .text =>
    let count := toString files.length
    (r.note ("📁 Found " ++ count ++ " files")).note ("🔍 Scanning " ++ count ++ " file(s)...")

/-- The line that says what was done. -/
def conclude (o : CleanOrder) (clock : Clock) (files : List FilePath) (summary : String)
    (r : Run) : Run :=
  match o.format with
  | .json => r
  | .text =>
    r.note ("✅ " ++ summary ++ " (" ++ toString files.length ++ " file(s) in "
      ++ seconds clock.elapsedMs ++ "s)")

/-- Prints a report. -/
def present (o : CleanOrder) (report : Report) (r : Run) : Run :=
  r.print (report.printed o.format reportBase o.showDiff)

/-- The hint that follows the report of a dry run that would change files. -/
def hint (o : CleanOrder) (c : Config) (scan : Report) (r : Run) : Run :=
  if o.format = .text && c.mode != .preview && 0 < scan.modified then
    r.printLine "Dry run: no files were changed. Re-run with --write to apply."
  else r

/-- The journal of the changes that a scan reported. -/
def journal (clock : Clock) (d : Disk) (scan : Report) : Except Failure Journal := do
  let entries ← (scan.journalEntries d).mapError fun e =>
    (Failure.ofError e).within "Failed to record files for undo"
  return { timestamp := clock.now, entries,
           summary := changeSummary scan.removed scan.commented scan.modified }

/-- Writes the changes that a scan reported, once the journal is saved.  Where
it cannot be saved, at least its directory may have been made. -/
def commit (o : CleanOrder) (clock : Clock) (store : UndoStore) (files : List FilePath)
    (scan : Report) (r : Run) : Outcome :=
  match journal clock r.disk scan with
  | .error f => r.fail f
  | .ok j =>
    match store.save r.disk j with
    | .error e =>
      { r with disk := (store.makeDir r.disk).2 }.fail
        ((Failure.ofError e).within "Failed to save undo state")
    | .ok disk =>
      let (applied, disk) := scan.apply disk
      let summary := changeSummary applied.removed applied.commented applied.modified
      ({ r with disk } |> o.present applied |> o.conclude clock files summary).succeed

/-- Cleans under a configuration that is in order. -/
def cleanUnder (o : CleanOrder) (clock : Clock) (store : UndoStore) (c : Config) (r : Run) :
    Outcome :=
  match findSources r.disk c o.paths with
  | .error e => r.fail ((Failure.ofError e).within "Failed to discover files")
  | .ok files =>
    let r := o.announce files r
    let scan := { Report.scan r.disk c files with elapsedMs := clock.elapsedMs }
    if !o.writes c then
      (r |> o.present scan |> o.hint c scan |> o.conclude clock files "Scan complete").succeed
    else if scan.modified = 0 then
      (r |> o.present scan |> o.conclude clock files "No changes made").succeed
    else o.commit clock store files scan r

/-- Cleans as ordered. -/
def run (o : CleanOrder) (clock : Clock) (store : UndoStore) (c : Config) (r : Run) : Outcome :=
  let c := o.override c
  match c.problems with
  | [] => o.cleanUnder clock store c r
  | problems =>
    r.fail { message := "Invalid configuration: "
      ++ "; ".intercalate (problems.map ConfigProblem.message) }

end CleanOrder

end LogPrune
