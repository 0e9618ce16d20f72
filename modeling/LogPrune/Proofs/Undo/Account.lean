import LogPrune.Proofs.Undo

/-!
# LogPrune.Proofs.Undo.Account

How undoing accounts for the entries of a journal, on any disk.

1. The counter of changed files also counts files that could not be restored,
   and files that could not be read (`countP_changed`).
2. In the end each location holds what the last entry restored there holds, and
   the journal is gone (`undo_accounts`).
-/

namespace LogPrune

/-- Whether the file at a path holds what the run wrote, readable or not. -/
def JournalEntry.isHeld (d : Disk) (e : JournalEntry) : Bool :=
  match d.stat e.path with
  | .ok (_, .file data) => Blake3.hexDigest data.bytes.data.toList = e.cleanedHash
  | _ => false

namespace UndoStore

/-! ## Changed files -/

theorem isHeld_of_isUnchanged {d : Disk} {e : JournalEntry} (h : isUnchanged d e) :
    e.isHeld d := by
  unfold isUnchanged Disk.readText Disk.readBytes at h
  unfold JournalEntry.isHeld
  cases hstat : d.stat e.path with
  | error cause => simp [hstat, bind, Except.bind] at h
  | ok found =>
    obtain ⟨l, node⟩ := found
    cases node with
    | dir entries => simp [hstat, bind, Except.bind] at h
    | link target => simp [hstat, bind, Except.bind] at h
    | file data =>
      cases hread : data.readable with
      | false => simp [hstat, hread, bind, Except.bind] at h
      | true =>
        cases htext : String.fromUTF8? data.bytes with
        | none => simp [hstat, hread, htext, bind, Except.bind] at h
        | some s =>
          have hhash : contentHash s.toList = e.cleanedHash := by
            simpa [hstat, hread, htext, bind, Except.bind, pure, Except.pure] using h
          rw [contentHash, String.ofList_toList, ← fromUTF8?_eq_some_iff.1 htext] at hhash
          simpa using hhash

/-- Counted as changed are the restored entries whose files did not hold what the
run wrote; but also the entries that could not be restored, unless their files
could be read and held it, and the restored ones whose files held it and could
not be read. -/
theorem countP_changed (as : List (Disk × JournalEntry)) :
    as.countP (fun a => !isUnchanged a.1 a.2)
      = as.countP (fun a => isRestored a && !a.2.isHeld a.1)
        + as.countP (fun a => !isRestored a && !isUnchanged a.1 a.2)
        + as.countP (fun a => isRestored a && a.2.isHeld a.1 && !isUnchanged a.1 a.2) := by
  induction as with
  | nil => rfl
  | cons a as ih =>
    have hheld : isUnchanged a.1 a.2 → a.2.isHeld a.1 := isHeld_of_isUnchanged
    simp only [List.countP_cons, ih]
    cases hr : isRestored a <;> cases hu : isUnchanged a.1 a.2 <;>
      cases hh : a.2.isHeld a.1 <;> simp_all <;> omega

/-! ## Undoing -/

theorem exists_stat_of_load {d : Disk} {s : UndoStore} {j : Journal}
    (h : s.load d = .ok (some j)) : ∃ l data, d.stat s.journalPath = .ok (l, .file data) := by
  unfold load at h
  split at h
  · cases hread : d.readText s.journalPath with
    | error e => simp [hread, Except.mapError, bind, Except.bind] at h
    | ok t =>
      unfold Disk.readText Disk.readBytes at hread
      cases hstat : d.stat s.journalPath with
      | error e => simp [hstat, bind, Except.bind] at hread
      | ok found =>
        obtain ⟨l, node⟩ := found
        cases node with
        | file data => exact ⟨l, data, rfl⟩
        | dir entries => simp [hstat, bind, Except.bind] at hread
        | link target => simp [hstat, bind, Except.bind] at hread
  · simp at h

theorem undo_of_clear {d cleared : Disk} {s : UndoStore} {j : Journal}
    (hload : s.load d = .ok (some j)) (hclear : s.clear (restoreAll d j.entries).1 = .ok cleared) :
    s.undo d = (.ok (restoreAll d j.entries).2, cleared) := by
  simp [undo, hload, hclear]

/-- What undoing a journal comes to, when it starts on a disk and the journal is
at a location. -/
structure Accounts (d : Disk) (j : Journal) (jl : Location) (outcome : UndoOutcome)
    (undone : Disk) : Prop where
  counted : outcome.restored + outcome.failed = j.entries.length
  restored : outcome.restored = (attempts d j.entries).countP isRestored
  /-- No entry keeps another one from being restored. -/
  apart : ∀ a ∈ attempts d j.entries, isRestored a ↔ (d.landing? a.2.path).isSome
  written : ∀ a ∈ attempts d j.entries, isRestored a →
    ∃ l, d.landing? a.2.path = some l ∧ ∀ l', (a.1.tryWrite (restoring a.2)).look l'
      = if l' = l then some (.file (d.written l a.2.oldContent)) else a.1.look l'
  refused : ∀ a ∈ attempts d j.entries, ¬ isRestored a → a.1.tryWrite (restoring a.2) = a.1
  /-- The restored entries whose files did not hold what the run wrote, those
  counted although they failed, and those whose files held it unreadably. -/
  changed : outcome.changed =
    (attempts d j.entries).countP (fun a => isRestored a && !a.2.isHeld a.1)
      + (attempts d j.entries).countP (fun a => !isRestored a && !isUnchanged a.1 a.2)
      + (attempts d j.entries).countP
          (fun a => isRestored a && a.2.isHeld a.1 && !isUnchanged a.1 a.2)
  gone : undone.look jl = none
  look : ∀ l, l ≠ jl → undone.look l
    = ((d.lastTo? l (j.entries.map restoring)).map fun w => .file (d.written l w.2)).or (d.look l)

/-- Undoing a journal accounts for all of its entries, whatever has become of
their files. -/
theorem undo_accounts {d : Disk} {s : UndoStore} {j : Journal} (hd : d.Proper)
    (hload : s.load d = .ok (some j)) :
    ∃ place outcome undone, d.place false s.journalPath = .ok place
      ∧ s.undo d = (.ok outcome, undone) ∧ Accounts d j place.location outcome undone := by
  obtain ⟨jl, data, hstat⟩ := exists_stat_of_load hload
  obtain ⟨place, hplace, hleaf⟩ := Disk.exists_place_of_stat hstat
  have hdisk := restoreAll_disk d j.entries
  generalize hrestored : (restoreAll d j.entries).1 = restored at hdisk
  have hproper : restored.Proper := hdisk ▸ Disk.proper_foldl_tryWrite hd _
  have hover : d.Overwritten restored := hdisk ▸ Disk.overwritten_foldl_tryWrite hd _
  obtain ⟨place', hplace', hleaf', hsame⟩ := hover.exists_place hd hproper hplace hleaf
  have hdir : restored.look place.location ≠ some .dir := by
    rw [← hsame]
    exact Disk.look_ne_dir_of_isLeaf hproper hplace' hleaf'
  have hremove := Disk.removeFile_of_isLeaf hplace' hleaf'
  have hout := restoreAll_outcome d j.entries
  have hclear : s.clear (restoreAll d j.entries).1
      = .ok { restored with root := restored.root.remove place'.location } := by
    rw [hrestored, clear, hremove]
  refine ⟨place, _, _, hplace, undo_of_clear hload hclear, ?_⟩
  exact {
    counted := restored_add_failed d j.entries
    restored := by rw [hout]
    apart := fun a ha => isRestored_iff hd ha
    written := fun a ha hr => look_of_isRestored hd ha hr
    refused := fun a ha hr => tryWrite_of_not_isRestored hr
    changed := by rw [hout]; exact countP_changed _
    gone := by
      rw [hsame, Disk.look_remove hproper hdir, if_pos rfl]
    look := fun l hl => by
      rw [hsame, Disk.look_remove hproper hdir, if_neg hl, hdisk, Disk.look_foldl_tryWrite hd] }

/-! ## A file that cannot be restored -/

/-- A journal with some entries. -/
def journalOf (entries : List JournalEntry) : Journal where
  timestamp := "2024-01-01T00:00:00Z"
  entries := entries
  summary := "s"

/-- A directory with a file and a journal with some entries. -/
def journaled (entries : List JournalEntry) : Disk where
  root := .file "good.go" { bytes := Text.utf8 "package main\n".toList }
    (.dir ".logsweep" (.file "undo.json" { bytes := (journalOf entries).write.utf8 } .empty) .empty)

/-- An entry for a file in a directory that has gone. -/
def goneEntry : JournalEntry where
  path := ⟨"gone/bad.go"⟩
  oldContent := "a".toList
  cleanedHash := contentHash "b".toList

/-- An entry for a file that is there. -/
def goodEntry : JournalEntry where
  path := ⟨"good.go"⟩
  oldContent := "package main\nfmt.Println(1)\n".toList
  cleanedHash := contentHash "package main\n".toList

theorem plain_journaled (entries : List JournalEntry) : (journaled entries).Plain := by
  have hnames : Dir.isName "good.go" ∧ Dir.isName ".logsweep" ∧ Dir.isName "undo.json" := by
    decide
  exact ⟨by simp [journaled, Dir.isPlain, Dir.find?, hnames], by simp [journaled, Disk.look]⟩

theorem locate_journaled (entries : List JournalEntry) :
    (journaled entries).locate (UndoStore.mk ⟨".logsweep"⟩).journalPath
      = .ok [".logsweep", "undo.json"] := by
  have hpath : (UndoStore.mk ⟨".logsweep"⟩).journalPath = ⟨".logsweep/undo.json"⟩ := by
    decide
  have hsteps : Disk.steps ⟨".logsweep/undo.json"⟩ = [".logsweep", "undo.json"] := by
    decide
  have hlook : (journaled entries).look ([] ++ [".logsweep", "undo.json"]) ≠ none := by
    simp [journaled, Disk.look, Dir.look_cons, Dir.find?, Node.look_dir]
  rw [hpath, Disk.locate_eq_ok_iff, hsteps]
  exact ⟨by decide, by decide, by decide,
    Disk.walk_names (by decide) (by simp) hlook⟩

theorem load_journaled (entries : List JournalEntry) :
    (UndoStore.mk ⟨".logsweep"⟩).load (journaled entries) = .ok (some (journalOf entries)) := by
  have hfile : (journaled entries).file? [".logsweep", "undo.json"]
      = some { bytes := (journalOf entries).write.utf8 } := by
    simp [journaled, Disk.file?, Dir.get?_cons, Dir.find?, Node.get?]
  have htime : Timestamp.isValid "2024-01-01T00:00:00Z".toList := by decide
  -- keeps the text of the journal from being computed
  generalize hbytes : (journalOf entries).write.utf8 = bytes at hfile
  exact load_of_file (plain_journaled entries) (locate_journaled entries) hfile rfl hbytes.symm
    htime

/-- One entry is restored and the other one is not. -/
theorem undo_accounts_one_gone :
    ∃ place outcome undone,
      (journaled [goneEntry, goodEntry]).place false (UndoStore.mk ⟨".logsweep"⟩).journalPath
        = .ok place ∧
      (UndoStore.mk ⟨".logsweep"⟩).undo (journaled [goneEntry, goodEntry])
        = (.ok outcome, undone) ∧
      Accounts (journaled [goneEntry, goodEntry]) (journalOf [goneEntry, goodEntry])
        place.location outcome undone ∧
      outcome.restored = 1 ∧ outcome.failed = 1 := by
  obtain ⟨place, outcome, undone, hplace, hundo, haccounts⟩ :=
    undo_accounts (plain_journaled [goneEntry, goodEntry]).proper
      (load_journaled [goneEntry, goodEntry])
  have hrestored : outcome.restored = 1 := haccounts.restored.trans (by decide)
  have hcounted : outcome.restored + outcome.failed = 2 := haccounts.counted
  exact ⟨place, outcome, undone, hplace, hundo, haccounts, hrestored, by omega⟩

/-- A file that could not be restored is counted as one whose edits were
overwritten. -/
theorem changed_counts_refused :
    (UndoStore.mk ⟨".logsweep"⟩).load (journaled [goneEntry])
        = .ok (some (journalOf [goneEntry])) ∧
      ((UndoStore.mk ⟨".logsweep"⟩).undo (journaled [goneEntry])).1
        = .ok { restored := 0, failed := 1, changed := 1 } ∧
      (attempts (journaled [goneEntry]) [goneEntry]).countP
        (fun a => isRestored a && !a.2.isHeld a.1) = 0 := by
  have hload := load_journaled [goneEntry]
  have hrefused : isRestored (journaled [goneEntry], goneEntry) = false := by decide
  have hchanged : isUnchanged (journaled [goneEntry]) goneEntry = false := by decide
  have hsame : (restoreAll (journaled [goneEntry]) [goneEntry]).1 = journaled [goneEntry] :=
    (restoreAll_disk _ _).trans
      (tryWrite_of_not_isRestored (a := (journaled [goneEntry], goneEntry)) (by simp [hrefused]))
  have hclear : ∃ cleared, (UndoStore.mk ⟨".logsweep"⟩).clear (journaled [goneEntry])
      = .ok cleared := by
    obtain ⟨l, data, hstat⟩ := exists_stat_of_load hload
    obtain ⟨place, hplace, hleaf⟩ := Disk.exists_place_of_stat hstat
    exact ⟨_, by rw [clear, Disk.removeFile_of_isLeaf hplace hleaf]⟩
  obtain ⟨cleared, hclear⟩ := hclear
  refine ⟨hload, ?_, by simp [attempts, hrefused]⟩
  have hout : (restoreAll (journaled [goneEntry]) [goneEntry]).2
      = { restored := 0, failed := 1, changed := 1 } := by
    simp [restoreAll_outcome, attempts, hrefused, hchanged]
  have hundo := undo_of_clear hload ((congrArg _ hsame).trans hclear)
  exact (congrArg Prod.fst hundo).trans (congrArg Except.ok hout)

end UndoStore
end LogPrune
