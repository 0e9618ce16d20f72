import LogPrune.Json.Basic
import LogPrune.Report

/-!
# LogPrune.Report.Record

Reports as JSON for other programs.  The contents of files are left out.
-/

namespace LogPrune

/-- A text or null. -/
def Json.ofOption (s : Option String) : Json :=
  match s with
  | some s => .ofString s
  | none => .null

/-- A statement as a JSON object. -/
def Finding.toJson (f : Finding) : Json :=
  .object [("text", .string f.text), ("start_line", .nat f.startLine),
    ("end_line", .nat f.endLine), ("start_char", .nat f.startChar),
    ("end_char", .nat f.endChar), ("description", .ofString f.description),
    ("priority", .nat f.priority), ("should_keep", .bool f.keep)]

/-- The report on a file as a JSON object. -/
def FileReport.toJson (r : FileReport) : Json :=
  .object [("file_path", .ofString r.path.text), ("language", .ofOption r.language),
    ("matches", .array (r.findings.map Finding.toJson)), ("logs_removed", .nat r.removed),
    ("logs_commented", .nat r.commented), ("logs_kept", .nat r.kept),
    ("modified", .bool r.modified), ("error", .ofOption r.error)]

/-- A report as a JSON object. -/
def Report.toJson (r : Report) : Json :=
  .object [("file_results", .array (r.files.map FileReport.toJson)),
    ("total_logs_removed", .nat r.removed), ("total_logs_commented", .nat r.commented),
    ("total_files_modified", .nat r.modified), ("execution_time_ms", .nat r.elapsedMs)]

end LogPrune
