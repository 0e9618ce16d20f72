import LogPrune.Proofs.Disk.Write
import LogPrune.Scan
import Mathlib

/-!
# LogPrune.Proofs.Scan

What a scan reports as modified, and what writing it does.

1. A report says that a file is modified only where its path leads to a file
   that can be read, holds the old content and is in some language
   (`modifies_of_scan`).
2. The new content depends on the file and not on the path, so a file that was
   scanned under two paths has one new content (`Modifies.newContent_eq`).
3. Writing what a scan reported is one write for each report of a modified
   file (`each_apply`).
-/

namespace LogPrune

theorem Text.utf8_injective {s t : Text} (h : s.utf8 = t.utf8) : s = t := by
  have hread := fromUTF8?_eq_some_iff.2 h
  rw [Text.utf8, fromUTF8?_eq_some_iff.2 rfl, Option.some.injEq] at hread
  simpa using congrArg String.toList hread

namespace FileReport

/-! ## Scanning -/

@[simp] theorem path_ofContent (c : Config) (p : FilePath) (t : Text) (language : String) :
    (ofContent c p t language).path = p := by
  unfold ofContent
  split <;> rfl

@[simp] theorem oldContent_ofContent (c : Config) (p : FilePath) (t : Text) (language : String) :
    (ofContent c p t language).oldContent = t := by
  unfold ofContent
  split <;> rfl

/-- The path does not matter for the new content. -/
theorem newContent_ofContent (c : Config) (p q : FilePath) (t : Text) (language : String) :
    (ofContent c p t language).newContent = (ofContent c q t language).newContent := by
  unfold ofContent
  cases clean? t language c <;> rfl

/-- The path of a report is the one that was scanned. -/
@[simp] theorem path_scan (d : Disk) (c : Config) (p : FilePath) : (scan d c p).path = p := by
  unfold scan
  split
  · rfl
  · split
    · rfl
    · exact path_ofContent c p _ _

theorem readText_of_readSource {d : Disk} (h : d.readSource maxKb p = .ok t) :
    d.readText p = .ok t := by
  unfold Disk.readSource at h
  cases hsize : d.size p with
  | error e => simp [hsize, Except.mapError, bind, Except.bind] at h
  | ok bytes =>
    simp only [hsize, Except.mapError, bind, Except.bind] at h
    split at h
    · simp at h
    · cases hread : d.readText p <;> simp_all

/-- A report says of the file at a location that it is modified. -/
structure Modifies (d : Disk) (c : Config) (r : FileReport) (l : Location) (old : FileData) :
    Prop where
  modified : r.modified
  leads : d.locate r.path = .ok l
  file : d.file? l = some old
  readable : old.readable
  oldContent : old.bytes = r.oldContent.utf8
  language : ∃ language, r.path.language? = some language
    ∧ r = ofContent c r.path r.oldContent language

/-- What a scan reports as modified is a file that could be read. -/
theorem modifies_of_scan {d : Disk} (hd : d.Plain) (h : (scan d c p).modified) :
    ∃ l old, Modifies d c (scan d c p) l old := by
  cases hread : d.readSource c.maxFileSizeKb p with
  | error e => simp [scan, hread, failed] at h
  | ok t =>
    cases hlang : p.language? with
    | none => simp [scan, hread, FilePath.detectLanguage, hlang, failed] at h
    | some language =>
      have hscan : scan d c p = ofContent c p t language := by
        simp [scan, hread, FilePath.detectLanguage, hlang]
      obtain ⟨l, old, hp, hfile, hreadable, hbytes⟩ :=
        (Disk.readText_eq_ok_iff hd).1 (readText_of_readSource hread)
      refine ⟨l, old, h, by simpa using hp, hfile, hreadable, by simp [hscan, hbytes], ?_⟩
      exact ⟨language, by simpa using hlang, by simp [hscan]⟩

/-- Two reports on one file agree on what it is to become. -/
theorem Modifies.newContent_eq {d : Disk} {r r' : FileReport} (hd : d.Plain)
    (h : Modifies d c r l old) (h' : Modifies d c r' l old') : r.newContent = r'.newContent := by
  obtain ⟨language, hlang, hr⟩ := h.language
  obtain ⟨language', hlang', hr'⟩ := h'.language
  have hold : old = old' := by simpa [h.file] using h'.file
  have hcontent : r.oldContent = r'.oldContent := by
    apply Text.utf8_injective
    rw [← h.oldContent, ← h'.oldContent, hold]
  have hlook : d.look l ≠ some .dir := by simp [Disk.file?_eq_some_iff.1 h.file]
  have hname : r.path.fileName? = r'.path.fileName? :=
    (Disk.fileName?_of_locate hd h.leads hlook).trans
      (Disk.fileName?_of_locate hd h'.leads hlook).symm
  have hlanguage : language = language' := by
    simpa [hlang, hlang'] using FilePath.language?_congr hname
  rw [hr, hr', hcontent, hlanguage]
  exact newContent_ofContent c r.path r'.path r'.oldContent language'

/-! ## Writing -/

/-- The writes that reports of modified files ask for. -/
def writes (files : List FileReport) : List (FilePath × Text) :=
  (files.filter (·.modified)).map fun r => (r.path, r.newContent)

theorem mem_writes {files : List FileReport} :
    w ∈ writes files ↔ ∃ r ∈ files, r.modified ∧ w = (r.path, r.newContent) := by
  simp only [writes, List.mem_map, List.mem_filter]
  grind

theorem apply_disk (d : Disk) (r : FileReport) :
    (apply d r).2 = if r.modified then d.tryWrite (r.path, r.newContent) else d := by
  unfold apply save Disk.tryWrite
  by_cases hr : r.modified
  · rw [if_pos hr, if_pos hr]
    cases d.writeText r.path r.newContent <;> rfl
  · rw [if_neg hr, if_neg hr]

/-- Writing what was reported is one write for each modified file. -/
theorem each_apply (d : Disk) (files : List FileReport) :
    (each apply d files).2 = (writes files).foldl Disk.tryWrite d := by
  induction files generalizing d with
  | nil => rfl
  | cons r files ih =>
    have hstep : (each apply d (r :: files)).2 = (each apply (apply d r).2 files).2 := rfl
    rw [hstep, ih, apply_disk]
    by_cases hr : r.modified <;> simp [writes, hr]

end FileReport

theorem Report.apply_disk (d : Disk) (r : Report) :
    (r.apply d).2 = (FileReport.writes r.files).foldl Disk.tryWrite d :=
  FileReport.each_apply d r.files

end LogPrune
