import LogPrune.Report.Listing
import LogPrune.Report.Record
import LogPrune.Undo

/-!
# LogPrune.Report.Output

What is printed for a result, in either of two formats: text for readers, or
JSON with a newline behind it.
-/

namespace LogPrune

/-- A format of results. -/
inductive OutputFormat
  | text
  | json
  deriving DecidableEq, Repr

namespace OutputFormat

/-- The name of a format. -/
def name : OutputFormat → String
  | text => "text"
  | json => "json"

/-- The format with a given name. -/
def ofName? (s : String) : Option OutputFormat := [text, json].find? (·.name = s)

end OutputFormat

/-- A JSON value as it is printed. -/
def Json.printed (v : Json) : Text := v.pretty ++ ['\n']

/-- What is printed for a file. -/
def FileReport.printed (r : FileReport) (format : OutputFormat) (base : FilePath)
    (showDiff : Bool) : Text :=
  match format with
  | .json => r.toJson.printed
  | .text =>
    let listing := r.listing base showDiff
    if listing = [] then "No log statements found in this file.\n".toList else listing

/-- What is printed for all files. -/
def Report.printed (r : Report) (format : OutputFormat) (base : FilePath) (showDiff : Bool) :
    Text :=
  match format with
  | .json => r.toJson.printed
  | .text => r.listing base showDiff

namespace UndoOutcome

/-- The outcome of undoing in words. -/
def listing (o : UndoOutcome) : String :=
  "✓ Restored " ++ toString o.restored ++ " file(s)\n"
    ++ (if 0 < o.changed then
        "  " ++ toString o.changed
          ++ " file(s) had changed since cleaning; those edits were overwritten\n" else "")
    ++ (if 0 < o.failed then
        "  " ++ toString o.failed ++ " file(s) could not be restored\n" else "")

/-- The outcome of undoing as a JSON object. -/
def toJson (o : UndoOutcome) : Json :=
  .object [("restored", .nat o.restored), ("failed", .nat o.failed),
    ("changed_since_clean", .nat o.changed)]

/-- What is printed for the outcome of undoing. -/
def printed (o : UndoOutcome) (format : OutputFormat) : Text :=
  match format with
  | .json => o.toJson.printed
  | .text => o.listing.toList

end UndoOutcome
end LogPrune
