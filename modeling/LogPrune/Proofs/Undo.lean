import LogPrune.Proofs.Journal
import LogPrune.Proofs.Scan
import LogPrune.Proofs.Undo.Attempts

/-!
# LogPrune.Proofs.Undo

Journals on a disk without links.

1. Saving a journal writes it to one location and leaves all other files as
   they are (`save_eq_ok`).  No file that is cleaned is at that location, for
   a journal is in no language (`language?_journalPath`).
2. An entry holds the absolute path of the file that was scanned and what the
   file held (`JournalEntry.Records`), and every file that is modified has one
   (`exists_entry_of_mem`).
3. Undoing is one write for each entry, and removes the journal in the end
   (`undo_of_journal`).
-/

namespace LogPrune

/-! ## Entries -/

/-- An entry records a file that a report changes. -/
structure JournalEntry.Records (d : Disk) (r : FileReport) (e : JournalEntry) : Prop where
  realPath : d.realPath r.path = .ok e.path
  oldContent : e.oldContent = r.oldContent

theorem JournalEntry.records_forFile {d : Disk} {r : FileReport} {e : JournalEntry}
    (h : forFile d r.path r.oldContent r.newContent = .ok e) : Records d r e := by
  unfold forFile at h
  cases hpath : d.realPath r.path with
  | error cause => simp [hpath, Except.mapError, bind, Except.bind] at h
  | ok path =>
    have he : { path, oldContent := r.oldContent, cleanedHash := contentHash r.newContent } = e := by
      simpa [hpath, Except.mapError, bind, Except.bind, pure, Except.pure] using h
    rw [← he]
    exact ⟨hpath, rfl⟩

theorem map_eq_of_mapM {f : α → Except ε β} {l : List α} {bs : List β}
    (h : l.mapM f = .ok bs) : l.map f = bs.map .ok := by
  induction l generalizing bs with
  | nil =>
    have hbs : [] = bs := by simpa [pure, Except.pure] using h
    simp [← hbs]
  | cons a l ih =>
    rw [List.mapM_cons] at h
    cases ha : f a with
    | error e => simp [ha, bind, Except.bind] at h
    | ok b =>
      cases hl : l.mapM f with
      | error e => simp [ha, hl, bind, Except.bind] at h
      | ok bs' =>
        have hbs : b :: bs' = bs := by
          simpa [ha, hl, bind, Except.bind, pure, Except.pure] using h
        simp [← hbs, ha, ih hl]

namespace Report

/-- Every file that is modified has an entry. -/
theorem exists_entry_of_mem {d : Disk} {r : Report} (h : r.journalEntries d = .ok entries)
    (hf : f ∈ r.modifiedFiles) : ∃ e ∈ entries, JournalEntry.Records d f e := by
  have hmem := List.mem_map_of_mem
    (f := fun f : FileReport => JournalEntry.forFile d f.path f.oldContent f.newContent) hf
  rw [map_eq_of_mapM h] at hmem
  obtain ⟨e, he, hfe⟩ := List.mem_map.1 hmem
  exact ⟨e, he, JournalEntry.records_forFile hfe.symm⟩

/-- Every entry is that of a file that is modified. -/
theorem exists_file_of_mem {d : Disk} {r : Report} (h : r.journalEntries d = .ok entries)
    (he : e ∈ entries) : ∃ f ∈ r.modifiedFiles, JournalEntry.Records d f e := by
  have hmem := List.mem_map_of_mem
    (f := fun e : JournalEntry => (.ok e : Except Error JournalEntry)) he
  rw [← map_eq_of_mapM h] at hmem
  obtain ⟨f, hf, hfe⟩ := List.mem_map.1 hmem
  exact ⟨f, hf, JournalEntry.records_forFile hfe⟩

/-- Files with absolute paths can be recorded. -/
theorem exists_journalEntries {d : Disk} {r : Report}
    (h : ∀ f ∈ r.modifiedFiles, ∃ q, d.realPath f.path = .ok q) :
    ∃ entries, r.journalEntries d = .ok entries := by
  unfold journalEntries
  generalize r.modifiedFiles = files at h ⊢
  induction files with
  | nil => exact ⟨[], rfl⟩
  | cons f files ih =>
    obtain ⟨q, hq⟩ := h f (by simp)
    obtain ⟨entries, hentries⟩ := ih fun g hg => h g (List.mem_cons_of_mem f hg)
    rw [List.mapM_cons, hentries]
    simp [JournalEntry.forFile, hq, Except.mapError, bind, Except.bind, pure, Except.pure]

end Report

namespace Disk

/-- The absolute path of a file leads to the file, from anywhere. -/
theorem realPath_eq_ok {d : Disk} (hd : d.Plain) (h : d.realPath p = .ok q) :
    ∃ l, d.locate p = .ok l ∧ q = absolutePath l
      ∧ (absolutePath l).text.utf8ByteSize < pathLimit := by
  unfold realPath at h
  split at h
  · next l node hstat =>
    split at h
    · simp at h
    · next hlong =>
      have hq : absolutePath l = q := by simpa using h
      exact ⟨l, ((stat_eq_ok_iff hd).1 hstat).1, hq.symm, by omega⟩
  · simp at h

end Disk

namespace UndoStore

/-! ## The place of the journal -/

theorem fileName?_journalPath (s : UndoStore) : s.journalPath.fileName? = some journalName :=
  FilePath.fileName?_child s.dir (by decide) (by decide) (by decide) (by decide)

/-- A journal is in no language. -/
theorem language?_journalPath (s : UndoStore) : s.journalPath.language? = none := by
  have hextension : s.journalPath.extension? = some "json" := by
    simp [FilePath.extension?, fileName?_journalPath, journalName]
  have hlanguage : languageOfExtension? "json" = none := by cbv
  simp [FilePath.language?, hextension, hlanguage]

/-- No path to a file in a language leads to the journal. -/
theorem locate_ne_journal {d : Disk} {s : UndoStore} (hd : d.Plain)
    (hjournal : d.locate s.journalPath = .ok jl) (hjl : d.look jl ≠ some .dir)
    (hlang : p.language? = some language) : d.locate p ≠ .ok jl := by
  intro hp
  have hname : p.fileName? = s.journalPath.fileName? :=
    (Disk.fileName?_of_locate hd hp hjl).trans (Disk.fileName?_of_locate hd hjournal hjl).symm
  rw [FilePath.language?_congr hname, language?_journalPath] at hlang
  simp at hlang

/-! ## Saving and loading -/

/-- Making the directory of the journal changes no file. -/
theorem adds_makeDir {d : Disk} (hd : d.Plain) (s : UndoStore) : d.Adds (s.makeDir d).2 := by
  unfold makeDir
  cases s.journalPath.parent? with
  | none => exact .refl hd
  | some dir => exact Disk.adds_makeDirs hd dir

/-- What saving a journal leaves. -/
structure Saved (s : UndoStore) (d : Disk) (j : Journal) (jl : Location) (saved : Disk) :
    Prop where
  plain : saved.Plain
  keeps : d.Keeps saved
  leads : saved.locate s.journalPath = .ok jl
  /-- The journal can be read, unless it took the place of a file that could
  not. -/
  journal : ∃ f, saved.file? jl = some f ∧ f.bytes = j.write.utf8
    ∧ (f.readable = false → ∃ earlier, d.file? jl = some earlier ∧ earlier.readable = false)
  file : ∀ l, l ≠ jl → saved.file? l = d.file? l

/-- A journal that is saved is at one place, and all other files are as they
were. -/
theorem save_eq_ok {d : Disk} {s : UndoStore} (hd : d.Plain) (h : s.save d j = .ok saved) :
    ∃ jl, s.Saved d j jl saved := by
  have hadds := adds_makeDir hd s
  unfold save at h
  split at h
  · simp at h
  · next made hmade =>
    rw [hmade] at hadds
    cases hwrite : made.writeText s.journalPath j.write with
    | error e => simp [hwrite, Except.mapError] at h
    | ok d' =>
      have hsaved : d' = saved := by simpa [hwrite, Except.mapError] using h
      subst hsaved
      obtain ⟨jl, hjl, hmay, rfl⟩ := (Disk.writeText_eq_ok_iff hadds.plain).1 hwrite
      have hroom := Disk.room_of_locate hadds.plain hjl hmay.1
      have hkeeps := Disk.keeps_put_file hroom (made.written jl j.write)
      refine ⟨jl, hadds.plain.put_file hroom _, hadds.keeps.trans hkeeps,
        hkeeps.locate hadds.plain hjl, ⟨made.written jl j.write, ?_, by simp, ?_⟩, fun l hl => ?_⟩
      · simp [Disk.file?_put_file hroom]
      · unfold Disk.written
        rw [hadds.file?_eq]
        cases d.file? jl <;> simp
      · rw [Disk.file?_put_file hroom, if_neg hl, hadds.file?_eq]

/-- Any journal can be saved if its directory can be made and the place of the
journal can be written. -/
theorem exists_save {d : Disk} {s : UndoStore} (hd : d.Plain) (hmade : (s.makeDir d).1 = .ok ())
    (hleads : (s.makeDir d).2.locate s.journalPath = .ok jl) (hmay : (s.makeDir d).2.MayWrite jl)
    (j : Journal) : ∃ saved, s.save d j = .ok saved := by
  have hadds := adds_makeDir hd s
  unfold save
  cases hmakes : s.makeDir d with
  | mk result made =>
    rw [hmakes] at hadds hmade hleads hmay
    have hwrite := (Disk.writeText_eq_ok_iff (t := j.write) hadds.plain).2 ⟨jl, hleads, hmay, rfl⟩
    simp only at hmade
    simp [hmade, hwrite, Except.mapError]

theorem load_of_vacant {d : Disk} {s : UndoStore} (hd : d.Plain)
    (hp : d.locate s.journalPath = .ok jl) (hjl : d.look jl = none) : s.load d = .ok none := by
  simp [load, Disk.hasNode, Disk.stat_of_vacant hd hp hjl]

theorem load_of_unreadable {d : Disk} {s : UndoStore} (hd : d.Plain)
    (hp : d.locate s.journalPath = .ok jl) (hfile : d.file? jl = some f)
    (hread : f.readable = false) : s.load d = .error (.read s.journalPath .denied) := by
  simp [load, Disk.hasNode, Disk.readText, Disk.readBytes, Disk.stat_of_file hd hp hfile, hread,
    Except.mapError, bind, Except.bind]

/-- A journal that can be read is loaded as it was saved. -/
theorem load_of_file {d : Disk} {s : UndoStore} (hd : d.Plain)
    (hp : d.locate s.journalPath = .ok jl) (hfile : d.file? jl = some f) (hread : f.readable)
    (hbytes : f.bytes = j.write.utf8) (hj : Timestamp.isValid j.timestamp.toList) :
    s.load d = .ok (some j) := by
  have htext : d.readText s.journalPath = .ok j.write :=
    (Disk.readText_eq_ok_iff hd).2 ⟨jl, f, hp, hfile, hread, hbytes⟩
  simp [load, Disk.hasNode, Disk.stat_of_file hd hp hfile, htext, Except.mapError,
    Journal.parse_write hj, bind, Except.bind, pure, Except.pure]

/-! ## Undoing -/

/-- Undoing a saved journal writes its entries back and removes it. -/
theorem undo_of_journal {d : Disk} {s : UndoStore} (hd : d.Plain)
    (hp : d.locate s.journalPath = .ok jl) (hload : s.load d = .ok (some j))
    (hfile : d.file? jl = some f) (hothers : ∀ e ∈ j.entries, d.locate e.path ≠ .ok jl) :
    ∃ undone : Disk, s.undo d = (.ok (restoreAll d j.entries).2, undone)
      ∧ undone.Plain ∧ undone.locate s.journalPath = .ok jl ∧ undone.look jl = none
      ∧ ∀ l, l ≠ jl → undone.file? l = (restoreAll d j.entries).1.file? l := by
  have hwrote := Disk.wrote_foldl hd (j.entries.map restoring)
  rw [← restoreAll_disk] at hwrote
  generalize hrestored : (restoreAll d j.entries).1 = restored at hwrote
  have hfile' : restored.file? jl = some f := by
    rw [hwrote.file?_of_forall_ne, hfile]
    intro w hw
    obtain ⟨e, he, rfl⟩ := List.mem_map.1 hw
    exact hothers e he
  have hp' := hwrote.keeps.locate hd hp
  have hdir : restored.look jl ≠ some .dir := by simp [Disk.file?_eq_some_iff.1 hfile']
  have hremove := Disk.removeFile_of_file hwrote.plain hp' hfile'
  refine ⟨{ restored with root := restored.root.remove jl }, ?_, hwrote.plain.remove hdir,
    (Disk.keeps_remove hwrote.plain hdir).locate hwrote.plain hp', ?_, fun l hl => ?_⟩
  · simp [undo, hload, clear, hrestored, hremove]
  · simp [Disk.look_remove hwrote.plain.proper hdir]
  · exact Disk.file?_congr (by simp [Disk.look_remove hwrote.plain.proper hdir, hl])

theorem undo_of_vacant {d : Disk} {s : UndoStore} (hload : s.load d = .ok none) :
    s.undo d = (.error .nothingToUndo, d) := by
  simp [undo, hload]

/-- A journal tells how to get from a disk back to the contents of an earlier
one: a file that does not hold what it held may be written, and has an entry
with what it held.  The journal can be read unless it took the place of a file
that could not. -/
structure Recovers (s : UndoStore) (before : Disk) (j : Journal) (jl : Location) (now : Disk) :
    Prop where
  plain : now.Plain
  leads : now.locate s.journalPath = .ok jl
  journal : ∃ f, now.file? jl = some f ∧ f.bytes = j.write.utf8
    ∧ (f.readable = false → ∃ earlier, before.file? jl = some earlier ∧ earlier.readable = false)
  entry : ∀ e ∈ j.entries, ∃ l, l ≠ jl ∧ now.locate e.path = .ok l
    ∧ before.content? l = some e.oldContent.utf8
  content : ∀ l bytes, l ≠ jl → before.content? l = some bytes →
    now.content? l = some bytes ∨ now.MayWrite l ∧ ∃ e ∈ j.entries, now.locate e.path = .ok l

/-- The contents of an earlier disk are back, and the journal is gone. -/
structure TakesBack (s : UndoStore) (before : Disk) (j : Journal) (jl : Location) (now : Disk)
    (outcome : UndoOutcome) (undone : Disk) : Prop where
  undo : s.undo now = (.ok outcome, undone)
  content : ∀ l bytes, l ≠ jl → before.content? l = some bytes → undone.content? l = some bytes
  /-- No file has come up. -/
  absent : ∀ l, l ≠ jl → before.content? l = none → undone.content? l = now.content? l
  counted : outcome.restored + outcome.failed = j.entries.length
  restored : (∀ e ∈ j.entries, (now.writeText e.path e.oldContent).isOk) →
    outcome.failed = 0 ∧ outcome.restored = j.entries.length
  gone : undone.stat s.journalPath = .error .notFound
  load : s.load undone = .ok none

/-- The entries written back are the contents of before. -/
theorem Recovers.restored {s : UndoStore} {before now : Disk} (h : s.Recovers before j jl now)
    (hl : l ≠ jl) (hbefore : before.content? l = some bytes) :
    (restoreAll now j.entries).1.content? l = some bytes := by
  have hwrote := Disk.wrote_foldl h.plain (j.entries.map restoring)
  rw [← restoreAll_disk] at hwrote
  obtain ⟨hfile, hrefused⟩ | ⟨-, w, hw, hwl, hfile⟩ := hwrote.file l
  · obtain hsame | ⟨hmay, e, he, hel⟩ := h.content l bytes hl hbefore
    · rw [Disk.content?, hfile]
      exact hsame
    · exact absurd hmay (hrefused (restoring e) (List.mem_map_of_mem he) hel)
  · obtain ⟨e, he, rfl⟩ := List.mem_map.1 hw
    obtain ⟨l', -, hel, hold⟩ := h.entry e he
    have hsame : l' = l := by simpa [restoring, hel] using hwl
    rw [hsame, hbefore] at hold
    simp [Disk.content?, hfile, restoring, Option.some.inj hold]

/-- Undoing takes back what the journal tells how to. -/
theorem Recovers.undo {s : UndoStore} {before now : Disk} (h : s.Recovers before j jl now)
    (hload : s.load now = .ok (some j)) :
    ∃ undone, s.TakesBack before j jl now (restoreAll now j.entries).2 undone := by
  obtain ⟨f, hfile, -⟩ := h.journal
  have hothers : ∀ e ∈ j.entries, now.locate e.path ≠ .ok jl := by
    intro e he hjl
    obtain ⟨l, hl, hel, -⟩ := h.entry e he
    exact hl (by simpa [hel] using hjl)
  obtain ⟨undone, hundo, hplain, hleads, hgone, hfiles⟩ :=
    undo_of_journal h.plain h.leads hload hfile hothers
  have hcounted := restored_add_failed now j.entries
  refine ⟨undone, hundo, ?_, ?_, hcounted, ?_,
    Disk.stat_of_vacant hplain hleads hgone, load_of_vacant hplain hleads hgone⟩
  · intro l bytes hl hbefore
    rw [Disk.content?, hfiles l hl]
    exact h.restored hl hbefore
  · intro l hl hnone
    have hwrote := Disk.wrote_foldl h.plain (j.entries.map restoring)
    rw [← restoreAll_disk] at hwrote
    rw [Disk.content?, hfiles l hl, hwrote.file?_of_forall_ne, Disk.content?]
    intro w hw hwl
    obtain ⟨e, he, rfl⟩ := List.mem_map.1 hw
    obtain ⟨l', -, hel, hold⟩ := h.entry e he
    have hsame : l' = l := by simpa [restoring, hel] using hwl
    simp [hsame, hnone] at hold
  · intro hok
    have hnone : (restoreAll now j.entries).2.failed = 0 := by
      rw [failed_restoreAll h.plain.proper, List.countP_eq_zero]
      intro e he
      simp [hok e he]
    exact ⟨hnone, by omega⟩

end UndoStore
end LogPrune
