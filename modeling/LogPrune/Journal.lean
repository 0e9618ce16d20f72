import LogPrune.Blake3
import LogPrune.Error
import LogPrune.Json.Reader
import LogPrune.Timestamp

/-!
# LogPrune.Journal

The journal of a run: the files that it changed, each with its content from
before and a hash of the content that it was given.

A journal is kept as JSON.  Reading it passes over keys that it does not
know; the known ones have to be there once and to be of the right type.  An
array with the values in order stands for an object with its keys.
-/

namespace LogPrune

/-- A file that a run changed. -/
structure JournalEntry where
  path : FilePath
  oldContent : Text
  /-- The hash of the content that the run wrote. -/
  cleanedHash : String
  deriving DecidableEq, Repr

/-- The files that a run changed. -/
structure Journal where
  timestamp : String
  entries : List JournalEntry
  summary : String
  deriving DecidableEq, Repr

/-- The hash of a content. -/
def contentHash (t : Text) : String := Blake3.hexDigest (String.ofList t).toUTF8.data.toList

/-! ## Writing -/

/-- An entry as a JSON object. -/
def JournalEntry.toJson (e : JournalEntry) : Json :=
  .object [("file_path", .ofString e.path.text), ("original_content", .string e.oldContent),
    ("cleaned_hash", .ofString e.cleanedHash)]

namespace Journal

/-- A journal as a JSON object. -/
def toJson (j : Journal) : Json :=
  .object [("timestamp", .ofString j.timestamp),
    ("files", .array (j.entries.map JournalEntry.toJson)), ("summary", .ofString j.summary)]

/-- The text of a journal. -/
def write (j : Journal) : Text := j.toJson.pretty

end Journal

/-! ## Reading -/

/-- The values of keys, from an object or from an array with just them. -/
def Json.values? (keys : List String) : Json → Option (List Json)
  | .object fields => keys.mapM fun key => onlyField? key fields
  | .array vs => if vs.length = keys.length then some vs else none
  | _ => none

/-- A string. -/
def Json.text? (v : Json) : Option String := v.string?.map String.ofList

/-- The entry that a value is. -/
def JournalEntry.ofJson? (v : Json) : Option JournalEntry :=
  match v.values? ["file_path", "original_content", "cleaned_hash"] with
  | some [path, oldContent, cleanedHash] => do
    return { path := ⟨← path.text?⟩, oldContent := ← oldContent.string?,
             cleanedHash := ← cleanedHash.text? }
  | _ => none

namespace Journal

/-- The journal that a value is. -/
def ofJson? (v : Json) : Option Journal :=
  match v.values? ["timestamp", "files", "summary"] with
  | some [timestamp, files, summary] => do
    let timestamp ← timestamp.string?
    let entries ← (← files.items?).mapM JournalEntry.ofJson?
    let summary ← summary.text?
    if Timestamp.isValid timestamp then
      return { timestamp := String.ofList timestamp, entries, summary }
    else none
  | _ => none

/-- Reads a journal. -/
def parse (t : Text) : Except Error Journal :=
  match (Json.parse? t).bind ofJson? with
  | some j => .ok j
  | none => .error .malformedJournal

end Journal
end LogPrune
