import LogPrune.Disk
import LogPrune.Journal
import LogPrune.Report

/-!
# LogPrune.Undo

Taking a run back.

Before a run changes files it saves a journal, which takes the place of any
earlier one.  Undoing writes all contents back and removes the journal; a
file that cannot be written does not stop the others.  Files that no longer
hold what the run wrote are counted, and written back all the same.
-/

namespace LogPrune

/-- The journal entry for a file that is about to be given a content. -/
def JournalEntry.forFile (d : Disk) (p : FilePath) (oldContent newContent : Text) :
    Except Error JournalEntry := do
  let path ← (d.realPath p).mapError (.read p)
  return { path, oldContent, cleanedHash := contentHash newContent }

/-- The journal entries for the files that a report is about to change. -/
def Report.journalEntries (d : Disk) (r : Report) : Except Error (List JournalEntry) :=
  r.modifiedFiles.mapM fun f => JournalEntry.forFile d f.path f.oldContent f.newContent

/-- What undoing did. -/
structure UndoOutcome where
  restored : Nat := 0
  failed : Nat := 0
  /-- The files that had changed since the run. -/
  changed : Nat := 0
  deriving DecidableEq, Repr

/-- The place of a journal. -/
structure UndoStore where
  /-- The directory that holds the journal. -/
  dir : FilePath

namespace UndoStore

/-- The name of a journal. -/
def journalName : String := "undo.json"

/-- The path of the journal. -/
def journalPath (s : UndoStore) : FilePath := s.dir.child journalName

/-! ## The journal -/

/-- Makes the directory that the journal is to be in, and those above it. -/
def makeDir (s : UndoStore) (d : Disk) : Except Error Unit × Disk :=
  match s.journalPath.parent? with
  | none => (.ok (), d)
  | some dir =>
    let (made, d) := d.makeDirs dir
    (made.mapError (.write dir), d)

/-- Saves a journal. -/
def save (s : UndoStore) (d : Disk) (j : Journal) : Except Error Disk :=
  match s.makeDir d with
  | (.error e, _) => .error e
  | (.ok _, d) => (d.writeText s.journalPath j.write).mapError (.write s.journalPath)

/-- Tries to save a journal; the disk is changed even where that is refused,
for directories may have been made. -/
def trySave (s : UndoStore) (d : Disk) (j : Journal) : Except Error Unit × Disk :=
  match s.save d j with
  | .ok d => (.ok (), d)
  | .error e => (.error e, (s.makeDir d).2)

/-- The journal, if there is one. -/
def load (s : UndoStore) (d : Disk) : Except Error (Option Journal) :=
  if d.hasNode s.journalPath then do
    let t ← (d.readText s.journalPath).mapError (.read s.journalPath)
    return some (← Journal.parse t)
  else .ok none

/-- Whether there is a journal that can be read. -/
def canUndo (s : UndoStore) (d : Disk) : Bool :=
  match s.load d with
  | .ok (some _) => true
  | _ => false

/-- The summary of the run that would be taken back. -/
def summary (s : UndoStore) (d : Disk) : Except Error (Option String) :=
  (s.load d).map fun j => j.map (·.summary)

/-- Removes the journal, if there is one. -/
def clear (s : UndoStore) (d : Disk) : Except Error Disk :=
  match d.removeFile s.journalPath with
  | .ok d => .ok d
  | .error .notFound => .ok d
  | .error cause => .error (.write s.journalPath cause)

/-! ## Undoing -/

/-- Whether a file holds what the run wrote. -/
def isUnchanged (d : Disk) (e : JournalEntry) : Bool :=
  match d.readText e.path with
  | .ok t => contentHash t = e.cleanedHash
  | .error _ => false

/-- Writes the content of an entry back. -/
def restore (d : Disk) (o : UndoOutcome) (e : JournalEntry) : Disk × UndoOutcome :=
  let o := if isUnchanged d e then o else { o with changed := o.changed + 1 }
  match d.writeText e.path e.oldContent with
  | .ok d => (d, { o with restored := o.restored + 1 })
  | .error _ => (d, { o with failed := o.failed + 1 })

/-- Writes the contents of entries back, one after another. -/
def restoreAll (d : Disk) (entries : List JournalEntry) : Disk × UndoOutcome :=
  entries.foldl (fun (d, o) e => restore d o e) (d, {})

/-- Takes the last run back; the disk is changed even if the journal cannot
be removed at the end. -/
def undo (s : UndoStore) (d : Disk) : Except Error UndoOutcome × Disk :=
  match s.load d with
  | .error e => (.error e, d)
  | .ok none => (.error .nothingToUndo, d)
  | .ok (some j) =>
    let (d, outcome) := restoreAll d j.entries
    match s.clear d with
    | .ok d => (.ok outcome, d)
    | .error e => (.error e, d)

end UndoStore
end LogPrune
