import LogPrune.Diff
import LogPrune.Report
import LogPrune.Summary
import LogPrune.Text.Blank

/-!
# LogPrune.Report.Listing

Reports as text for readers.

A file is listed with a line for each of its statements, which shows where
it stands, what it is and how it begins.  Files without statements are left
out, and a file for which something went wrong is listed with the message
only.  A report ends with a line of totals.
-/

namespace LogPrune

/-! ## Columns and excerpts -/

/-- A text with spaces behind it up to a number of characters; a longer one
stays as it is. -/
def padded (width : Nat) (t : Text) : Text := t ++ List.replicate (width - t.length) ' '

/-- The number of characters that an excerpt shows at most. -/
def excerptLength : Nat := 100

/-- The first line of a text, with an ellipsis if anything is left out. -/
def excerpt (t : Text) : Text :=
  let line := Text.trim (t.takeWhile (· != '\n'))
  line.take excerptLength
    ++ (if excerptLength < line.length || t.contains '\n' then ['…'] else [])

namespace Finding

/-- The lines of a statement, counted from one. -/
def lineLabel (f : Finding) : String :=
  if f.onOneLine then "L" ++ toString (f.startLine + 1)
  else "L" ++ toString (f.startLine + 1) ++ "-" ++ toString (f.endLine + 1)

/-- The line of a listing for a statement. -/
def listing (f : Finding) : Text :=
  "  ".toList ++ padded 8 f.lineLabel.toList ++ ' ' :: padded 44 f.description.toList
    ++ ' ' :: excerpt f.text ++ ['\n']

end Finding

/-! ## Files and reports -/

namespace FileReport

/-- The line of a listing that introduces a file. -/
def heading (r : FileReport) (name : String) : String :=
  name ++ " (" ++ r.language.getD "unknown" ++ ", " ++ toString r.findings.length ++ " log(s)"
    ++ (if 0 < r.kept then ", " ++ toString r.kept ++ " kept" else "") ++ ")\n"

/-- The listing of a file, with the difference if it is asked for. -/
def listing (r : FileReport) (base : FilePath) (showDiff : Bool) : Text :=
  let name := r.path.display base
  match r.error with
  | some message => (name ++ ": error: " ++ message ++ "\n").toList
  | none =>
    if r.findings.isEmpty then []
    else (r.heading name).toList ++ r.findings.flatMap Finding.listing
      ++ (if showDiff && r.modified then
          Diff.unified r.oldContent r.newContent name.toList ++ ['\n'] else [])

end FileReport

namespace Report

/-- The line of totals. -/
def totals (r : Report) : String :=
  if r.findingCount = 0 then "No log statements found.\n"
  else toString r.findingCount ++ " log statement(s) in "
    ++ toString (r.files.filter (!·.findings.isEmpty)).length ++ " file(s); "
    ++ changeSummary r.removed r.commented r.modified
    ++ " in " ++ toString r.elapsedMs ++ "ms\n"

/-- The listing of all files. -/
def listing (r : Report) (base : FilePath) (showDiff : Bool) : Text :=
  r.files.flatMap (·.listing base showDiff) ++ r.totals.toList

end Report
end LogPrune
