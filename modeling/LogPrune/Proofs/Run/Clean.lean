import LogPrune.Program
import LogPrune.Proofs.Undo

/-!
# LogPrune.Proofs.Run.Clean

What a run that cleans does to the files.

1. Up to the point where it may write, a run only asks: its plan, the
   configuration and the scan that it goes by, is settled by the disk it
   starts on (`CleanOrder.plan?`).
2. Without a plan, or where nothing is to be written, the disk stays as it is
   (`run_of_no_plan`, `cleanUnder_of_idle`).
3. Otherwise the journal is saved first.  From then on every file but the
   journal is as it was, or holds what the scan reported for it and is recorded
   in the journal with its absolute path and its old content; and this is so
   after any of the writes, in any order (`writtenAhead_each`).
-/

namespace LogPrune

/-! ## Plans -/

/-- What a run is about to do. -/
structure CleanPlan where
  /-- The configuration, with what the order says in place of it. -/
  config : Config
  /-- What the scan reports. -/
  scan : Report

namespace CleanOrder

/-- The plan of a run, if its configuration is in order and its files are
found. -/
def plan? (o : CleanOrder) (d : Disk) (configPath : Option FilePath) : Option CleanPlan :=
  match loadConfig d configPath with
  | .error _ => none
  | .ok c =>
    let config := o.override c
    if config.problems = [] then
      match findSources d config o.paths with
      | .error _ => none
      | .ok files => some { config, scan := Report.scan d config files }
    else none

/-- Whether a plan is carried out: changes are to be written, and there are
some. -/
def Applies (o : CleanOrder) (plan : CleanPlan) : Prop :=
  o.writes plan.config ∧ plan.scan.modified ≠ 0

/-! ## The course of a run -/

theorem disk_announce (o : CleanOrder) (files : List FilePath) (r : Run) :
    (o.announce files r).disk = r.disk := by
  unfold announce
  cases o.format <;> rfl

theorem disk_hint (o : CleanOrder) (c : Config) (scan : Report) (r : Run) :
    (o.hint c scan r).disk = r.disk := by
  unfold hint
  split <;> rfl

theorem disk_conclude (o : CleanOrder) (clock : Clock) (files : List FilePath) (summary : String)
    (r : Run) : (o.conclude clock files summary r).disk = r.disk := by
  unfold conclude
  cases o.format <;> rfl

/-- A run with a plan that is not carried out ends well and changes nothing. -/
theorem cleanUnder_of_idle {o : CleanOrder} {r : Run} {c : Config} {files : List FilePath}
    (hfiles : findSources r.disk c o.paths = .ok files)
    (hidle : ¬ (o.writes c ∧ (Report.scan r.disk c files).modified ≠ 0)) (clock : Clock)
    (store : UndoStore) :
    (o.cleanUnder clock store c r).exitCode = 0
      ∧ (o.cleanUnder clock store c r).disk = r.disk := by
  unfold cleanUnder
  simp only [hfiles, disk_announce]
  by_cases hwrites : o.writes c
  · have hnone : (Report.scan r.disk c files).modified = 0 := by simpa [hwrites] using hidle
    simp [hwrites, hnone, Run.succeed, disk_conclude, present, Run.print, disk_announce]
  · simp [hwrites, Run.succeed, disk_conclude, disk_hint, present, Run.print, disk_announce]

/-- How a run whose plan is carried out ends: it fails, with at most the
directory of the journal made, or it writes the files on the disk on which
the journal has been saved. -/
theorem commit_cases (o : CleanOrder) (clock : Clock) (store : UndoStore)
    (files : List FilePath) (scan : Report) (r : Run) :
    ((o.commit clock store files scan r).exitCode ≠ 0
        ∧ ((o.commit clock store files scan r).disk = r.disk
          ∨ (o.commit clock store files scan r).disk = (store.makeDir r.disk).2))
      ∨ ∃ j saved, scan.journalEntries r.disk = .ok j.entries ∧ j.timestamp = clock.now
        ∧ store.save r.disk j = .ok saved
        ∧ (o.commit clock store files scan r).exitCode = 0
        ∧ (o.commit clock store files scan r).disk = (scan.apply saved).2 := by
  unfold commit journal
  cases hentries : scan.journalEntries r.disk with
  | error e => simp [Except.mapError, bind, Except.bind, Run.fail]
  | ok entries =>
    simp only [Except.mapError, bind, Except.bind, pure, Except.pure]
    generalize hj : Journal.mk clock.now entries
      (changeSummary scan.removed scan.commented scan.modified) = j
    cases hsave : store.save r.disk j with
    | error e => simp [Run.fail]
    | ok saved =>
      right
      refine ⟨j, saved, by simp [← hj], by simp [← hj], hsave, ?_⟩
      simp [Run.succeed, disk_conclude, present, Run.print]

/-- The entries of a plan are recorded and saved if both can be done. -/
theorem exitCode_commit {o : CleanOrder} {store : UndoStore} {scan : Report} {r : Run}
    (hentries : scan.journalEntries r.disk = .ok entries)
    (hsave : ∀ j, ∃ saved, store.save r.disk j = .ok saved) (clock : Clock)
    (files : List FilePath) : (o.commit clock store files scan r).exitCode = 0 := by
  obtain ⟨saved, hsaved⟩ := hsave (Journal.mk clock.now entries
    (changeSummary scan.removed scan.commented scan.modified))
  simp [commit, journal, hentries, Except.mapError, bind, Except.bind, pure, Except.pure, hsaved,
    Run.succeed]

theorem cleanUnder_eq_commit {o : CleanOrder} {r : Run} {c : Config} {files : List FilePath}
    (hfiles : findSources r.disk c o.paths = .ok files) (hwrites : o.writes c)
    (hmodified : (Report.scan r.disk c files).modified ≠ 0) (clock : Clock) (store : UndoStore) :
    o.cleanUnder clock store c r = o.commit clock store files
      { Report.scan r.disk c files with elapsedMs := clock.elapsedMs } (o.announce files r) := by
  simp [cleanUnder, hfiles, hwrites, hmodified, disk_announce]

/-- How a run ends that has something to write. -/
theorem cleanUnder_of_writes {o : CleanOrder} {r : Run} {c : Config} {files : List FilePath}
    (hfiles : findSources r.disk c o.paths = .ok files) (hwrites : o.writes c)
    (hmodified : (Report.scan r.disk c files).modified ≠ 0) (clock : Clock) (store : UndoStore) :
    ((o.cleanUnder clock store c r).exitCode ≠ 0
        ∧ ((o.cleanUnder clock store c r).disk = r.disk
          ∨ (o.cleanUnder clock store c r).disk = (store.makeDir r.disk).2))
      ∨ ∃ j saved, (Report.scan r.disk c files).journalEntries r.disk = .ok j.entries
        ∧ j.timestamp = clock.now ∧ store.save r.disk j = .ok saved
        ∧ (o.cleanUnder clock store c r).exitCode = 0
        ∧ (o.cleanUnder clock store c r).disk = ((Report.scan r.disk c files).apply saved).2 := by
  have hcommit := o.commit_cases clock store files
    { Report.scan r.disk c files with elapsedMs := clock.elapsedMs } (o.announce files r)
  rw [disk_announce] at hcommit
  rw [cleanUnder_eq_commit hfiles hwrites hmodified]
  exact hcommit

/-- A run that finds its files ends well if it can record and save what it is
about to change. -/
theorem exitCode_cleanUnder {o : CleanOrder} {r : Run} {c : Config} {files : List FilePath}
    {store : UndoStore} (hfiles : findSources r.disk c o.paths = .ok files)
    (hentries : (Report.scan r.disk c files).journalEntries r.disk = .ok entries)
    (hsave : ∀ j, ∃ saved, store.save r.disk j = .ok saved) (clock : Clock) :
    (o.cleanUnder clock store c r).exitCode = 0 := by
  by_cases hidle : o.writes c ∧ (Report.scan r.disk c files).modified ≠ 0
  · rw [cleanUnder_eq_commit hfiles hidle.1 hidle.2]
    apply exitCode_commit
    · rw [disk_announce]
      exact hentries
    · rw [disk_announce]
      exact hsave
  · exact (cleanUnder_of_idle hfiles hidle clock store).1

end CleanOrder

namespace Invocation

variable {i : Invocation} {o : CleanOrder}

theorem run_clean (hi : i.command = .clean o) (clock : Clock) (r : Run) :
    i.run clock r = withConfig i r (o.run clock ⟨i.stateDir⟩) := by
  simp [run, hi]

/-- A run without a plan fails and changes nothing. -/
theorem run_of_no_plan (hi : i.command = .clean o) (h : o.plan? r.disk i.config = none)
    (clock : Clock) : (i.run clock r).exitCode ≠ 0 ∧ (i.run clock r).disk = r.disk := by
  rw [run_clean hi]
  unfold withConfig
  unfold CleanOrder.plan? at h
  cases hconfig : loadConfig r.disk i.config with
  | error e => simp [Run.fail]
  | ok c =>
    simp only [hconfig] at h ⊢
    unfold CleanOrder.run
    cases hproblems : (o.override c).problems with
    | cons problem problems => simp [hproblems, Run.fail]
    | nil =>
      simp only [hproblems, if_true] at h ⊢
      cases hfiles : findSources r.disk (o.override c) o.paths with
      | error e => simp [CleanOrder.cleanUnder, hfiles, Run.fail]
      | ok files => simp [hfiles] at h

/-- A run with a plan cleans under its configuration. -/
theorem run_of_plan (hi : i.command = .clean o) (h : o.plan? r.disk i.config = some plan)
    (clock : Clock) :
    ∃ files, findSources r.disk plan.config o.paths = .ok files
      ∧ plan.scan = Report.scan r.disk plan.config files
      ∧ i.run clock r = o.cleanUnder clock ⟨i.stateDir⟩ plan.config r := by
  rw [run_clean hi]
  unfold withConfig
  unfold CleanOrder.plan? at h
  cases hconfig : loadConfig r.disk i.config with
  | error e => simp [hconfig] at h
  | ok c =>
    simp only [hconfig] at h ⊢
    unfold CleanOrder.run
    cases hproblems : (o.override c).problems with
    | cons problem problems => simp [hproblems] at h
    | nil =>
      simp only [hproblems, if_true] at h ⊢
      cases hfiles : findSources r.disk (o.override c) o.paths with
      | error e => simp [hfiles] at h
      | ok files =>
        have hplan : CleanPlan.mk (o.override c) (Report.scan r.disk (o.override c) files) = plan := by
          simpa [hfiles] using h
        rw [← hplan]
        exact ⟨files, hfiles, rfl, rfl⟩

end Invocation

/-! ## The journal and the files -/

/-- What may be found while the files of a scan are being written: the journal
is there as a whole, and can be read unless it took the place of a file that
could not.  Every other file is as it was on the disk at the start or holds
what the scan reported for it, under whatever path.  In the latter case the
journal has an entry with its absolute path and what it held. -/
structure WrittenAhead (d : Disk) (scan : Report) (j : Journal) (jl : Location) (now : Disk) :
    Prop where
  journal : ∃ f, now.file? jl = some f ∧ f.bytes = j.write.utf8
    ∧ (f.readable = false → ∃ earlier, d.file? jl = some earlier ∧ earlier.readable = false)
  file : ∀ l, l ≠ jl → now.file? l = d.file? l
    ∨ ∃ r ∈ scan.modifiedFiles, ∃ old, d.stat r.path = .ok (l, .file old) ∧ old.writable
      ∧ now.file? l = some { old with bytes := r.newContent.utf8 }
      ∧ (∀ r' ∈ scan.modifiedFiles, d.stat r'.path = .ok (l, .file old) →
        r'.newContent = r.newContent)
      ∧ ∃ e ∈ j.entries, d.realPath r.path = .ok e.path ∧ old.bytes = e.oldContent.utf8

/-- Where a file that is to be modified is found once the journal is saved:
where it was, and not at the place of the journal. -/
theorem modifies_saved {d saved : Disk} {store : UndoStore} (hd : d.Plain)
    (hsaved : store.Saved d j jl saved) (hr : r ∈ (Report.scan d c files).files)
    (hmodified : r.modified) :
    ∃ l old, FileReport.Modifies d c r l old ∧ l ≠ jl ∧ saved.locate r.path = .ok l
      ∧ saved.file? l = some old := by
  obtain ⟨p, -, rfl⟩ := List.mem_map.1 hr
  obtain ⟨l, old, hmod⟩ := FileReport.modifies_of_scan hd hmodified
  have hleads := hsaved.keeps.locate hd hmod.leads
  obtain ⟨f, hf, -⟩ := hsaved.journal
  obtain ⟨language, hlang, -⟩ := hmod.language
  have hjl : saved.look jl ≠ some .dir := by simp [Disk.file?_eq_some_iff.1 hf]
  have hne : l ≠ jl := by
    rintro rfl
    exact UndoStore.locate_ne_journal hsaved.plain hsaved.leads hjl hlang hleads
  exact ⟨l, old, hmod, hne, hleads, by rw [hsaved.file l hne, hmod.file]⟩

/-- The journal is ahead of the files whichever of them have been written, in
whatever order. -/
theorem writtenAhead_each {d saved : Disk} {store : UndoStore} (hd : d.Plain)
    (hsaved : store.Saved d j jl saved)
    (hentries : (Report.scan d c files).journalEntries d = .ok j.entries)
    (hfs : fs ⊆ (Report.scan d c files).files) :
    WrittenAhead d (Report.scan d c files) j jl (FileReport.each FileReport.apply saved fs).2 := by
  have hwrote := Disk.wrote_foldl hsaved.plain (FileReport.writes fs)
  rw [← FileReport.each_apply] at hwrote
  constructor
  · rw [hwrote.file?_of_forall_ne]
    · exact hsaved.journal
    · intro w hw
      obtain ⟨r, hr, hmodified, rfl⟩ := FileReport.mem_writes.1 hw
      obtain ⟨l, old, -, hne, hleads, -⟩ := modifies_saved hd hsaved (hfs hr) hmodified
      simpa [hleads] using hne
  · intro l hl
    obtain ⟨hfile, -⟩ | ⟨hmay, w, hw, hwl, hfile⟩ := hwrote.file l
    · exact .inl (by rw [hfile, hsaved.file l hl])
    · right
      obtain ⟨r, hr, hmodified, rfl⟩ := FileReport.mem_writes.1 hw
      obtain ⟨l', old, hmod, -, hleads, hold⟩ := modifies_saved hd hsaved (hfs hr) hmodified
      have hsame : l' = l := by simpa [hleads] using hwl
      subst hsame
      have hmem : r ∈ (Report.scan d c files).modifiedFiles :=
        List.mem_filter.2 ⟨hfs hr, hmodified⟩
      obtain ⟨e, he, hrecords⟩ := Report.exists_entry_of_mem hentries hmem
      refine ⟨r, hmem, old, Disk.stat_of_file hd hmod.leads hmod.file, hmay.2 old hold, ?_, ?_, e,
        he, hrecords.realPath, by rw [hmod.oldContent, hrecords.oldContent]⟩
      · rw [hfile, Disk.written, hold]
      · intro r' hr' hstat
        have hmem' := List.mem_filter.1 hr'
        obtain ⟨l₂, old₂, hmod', -⟩ := modifies_saved hd hsaved hmem'.1 hmem'.2
        have hsame : l₂ = l' := by
          simpa [hmod'.leads] using ((Disk.stat_eq_ok_iff hd).1 hstat).1
        subst hsame
        exact hmod'.newContent_eq hd hmod

/-- What has been done when a plan has been carried out: a journal of it has
been saved, and then its files have been written. -/
structure CleanPlan.Done (plan : CleanPlan) (clock : Clock) (store : UndoStore) (d : Disk)
    (j : Journal) (jl : Location) (saved out : Disk) : Prop where
  entries : plan.scan.journalEntries d = .ok j.entries
  time : j.timestamp = clock.now
  save : store.save d j = .ok saved
  holds : store.Saved d j jl saved
  ahead : ∀ fs, fs ⊆ plan.scan.files →
    WrittenAhead d plan.scan j jl (FileReport.each FileReport.apply saved fs).2
  disk : out = (plan.scan.apply saved).2

theorem CleanPlan.Done.wrote {plan : CleanPlan} {store : UndoStore} {d saved out : Disk}
    (h : plan.Done clock store d j jl saved out) :
    saved.Wrote out (FileReport.writes plan.scan.files) := by
  rw [h.disk, Report.apply_disk]
  exact Disk.wrote_foldl h.holds.plain _

theorem CleanPlan.Done.writtenAhead {plan : CleanPlan} {store : UndoStore} {d saved out : Disk}
    (h : plan.Done clock store d j jl saved out) : WrittenAhead d plan.scan j jl out := by
  rw [h.disk]
  exact h.ahead plan.scan.files (List.Subset.refl _)

/-- A run that has a plan to carry out and ends well has done so. -/
theorem Invocation.clean_done {i : Invocation} {o : CleanOrder} {r : Run} {plan : CleanPlan}
    {clock : Clock} (hd : r.disk.Plain) (hi : i.command = .clean o)
    (hplan : o.plan? r.disk i.config = some plan) (happlies : o.Applies plan)
    (hexit : (i.run clock r).exitCode = 0) :
    ∃ j jl saved, plan.Done clock ⟨i.stateDir⟩ r.disk j jl saved (i.run clock r).disk := by
  obtain ⟨files, hfiles, hscan, hrun⟩ := run_of_plan hi hplan clock
  obtain ⟨hfails, -⟩ | ⟨j, saved, hentries, htime, hsave, -, hdisk⟩ :=
    CleanOrder.cleanUnder_of_writes hfiles happlies.1 (hscan ▸ happlies.2) clock ⟨i.stateDir⟩
  · exact absurd (hrun ▸ hexit) hfails
  · obtain ⟨jl, hsaved⟩ := UndoStore.save_eq_ok hd hsave
    refine ⟨j, jl, saved, hscan ▸ hentries, htime, hsave, hsaved, ?_, ?_⟩
    · rw [hscan]
      exact fun fs hfs => writtenAhead_each hd hsaved hentries hfs
    · rw [hrun, hscan, hdisk]

namespace Program

/-- What a command line does is what the run does that it asks for. -/
theorem run_of_read? (hargs : Request.read? args = some (.run i)) (hlog : i.log = none)
    (clock : Clock) (d : Disk) : run clock d args = i.run clock { disk := d } := by
  simp [run, hargs, hlog]

/-- **Write-ahead**: a run without a plan fails; it leaves the disk as it is, and so
does a run that is not to write.  A run that fails leaves all files as they are, and
a run that writes saves a journal first which accounts for every file that is
changed. -/
theorem clean_writes_ahead {clock : Clock} {d : Disk} {args : List String} {i : Invocation}
    {o : CleanOrder} (hd : d.Plain) (hargs : Request.read? args = some (.run i))
    (hclean : i.command = .clean o) (hlog : i.log = none) :
    let out := run clock d args
    let store : UndoStore := ⟨i.stateDir⟩
    (o.plan? d i.config = none → out.exitCode ≠ 0 ∧ out.disk = d)
    ∧ (∀ plan, o.plan? d i.config = some plan →
      plan.config.mode = .preview ∨ o.writes plan.config = false ∨ plan.scan.modified = 0 →
      out.disk = d)
    ∧ (out.exitCode ≠ 0 → ∀ l, out.disk.file? l = d.file? l)
    ∧ ∀ plan, o.plan? d i.config = some plan → o.Applies plan → out.exitCode = 0 →
      ∃ j jl f saved, store.save d j = .ok saved
        ∧ saved.stat store.journalPath = .ok (jl, .file f)
        ∧ (∀ fs, fs ⊆ plan.scan.files →
          WrittenAhead d plan.scan j jl (FileReport.each FileReport.apply saved fs).2)
        ∧ out.disk = (plan.scan.apply saved).2 := by
  intro out store
  have hout : out = i.run clock { disk := d } := run_of_read? hargs hlog clock d
  cases hplan : o.plan? d i.config with
  | none =>
    have hnone := Invocation.run_of_no_plan (r := { disk := d }) hclean hplan clock
    rw [hout]
    exact ⟨fun _ => hnone, by simp, fun _ l => by rw [hnone.2], by simp⟩
  | some plan =>
    obtain ⟨files, hfiles, hscan, hrun⟩ :=
      Invocation.run_of_plan (r := { disk := d }) hclean hplan clock
    by_cases happlies : o.Applies plan
    · refine ⟨by simp, ?_, fun hexit l => ?_, fun plan' hplan' _ hexit => ?_⟩
      · intro plan' hplan' hidle
        have hsame : plan = plan' := by simpa using hplan'
        subst hsame
        have := happlies.1
        have := happlies.2
        unfold CleanOrder.writes at *
        grind
      · obtain ⟨-, hdisk | hdisk⟩ | ⟨-, -, -, -, -, hzero, -⟩ :=
          CleanOrder.cleanUnder_of_writes hfiles happlies.1 (hscan ▸ happlies.2) clock store
        · rw [hout, hrun, hdisk]
        · rw [hout, hrun, hdisk]
          exact (UndoStore.adds_makeDir hd store).file?_eq l
        · rw [hout, hrun] at hexit
          exact absurd hzero hexit
      · have hsame : plan = plan' := by simpa using hplan'
        subst hsame
        rw [hout] at hexit ⊢
        obtain ⟨j, jl, saved, hdone⟩ :=
          Invocation.clean_done (r := { disk := d }) hd hclean hplan happlies hexit
        obtain ⟨f, hf, -⟩ := hdone.holds.journal
        exact ⟨j, jl, f, saved, hdone.save,
          Disk.stat_of_file hdone.holds.plain hdone.holds.leads hf, hdone.ahead, hdone.disk⟩
    · have hidle := CleanOrder.cleanUnder_of_idle hfiles
        (by simpa [← hscan, CleanOrder.Applies] using happlies) clock store
      rw [← hrun, ← hout] at hidle
      refine ⟨by simp, fun _ _ _ => hidle.2, fun _ l => by rw [hidle.2], ?_⟩
      intro plan' hplan' happlies'
      have hsame : plan = plan' := by simpa using hplan'
      exact absurd (hsame ▸ happlies') happlies

end Program

/-! ## A run that writes -/

/-- A disk with a file that prints something, and a directory. -/
def printing : Disk :=
  { root := .file "a.py" { bytes := "print(1)\nx = 2\n".toUTF8 } (.dir "w" .empty .empty) }

/-- The order to delete what the file prints. -/
def deletePrints : CleanOrder := { paths := [⟨"a.py"⟩], mode := some .delete, write := true }

/-- A run by that order. -/
def deletingPrints : Invocation := { stateDir := ⟨"/s"⟩, command := .clean deletePrints }

/-- Its command line. -/
def deletePrintsLine : List String :=
  ["--state-dir", "/s", "clean", "-m", "delete", "--write", "a.py"]

theorem plain_printing : printing.Plain := ⟨by decide, by decide⟩

theorem read?_deletePrintsLine : Request.read? deletePrintsLine = some (.run deletingPrints) := by
  decide

theorem modified_printing :
    (FileReport.scan printing (deletePrints.override {}) ⟨"a.py"⟩).modified := by
  cbv

theorem findSources_printing :
    findSources printing (deletePrints.override {}) deletePrints.paths = .ok [⟨"a.py"⟩] := by
  cbv

/-- What a run by the order is about to do. -/
def printingPlan : CleanPlan where
  config := deletePrints.override {}
  scan := Report.scan printing (deletePrints.override {}) [⟨"a.py"⟩]

theorem plan?_printing : deletePrints.plan? printing none = some printingPlan := by
  have hconfig : loadConfig printing none = .ok {} := by
    have hsome : (loadConfig printing none).toOption = some {} := by decide
    cases h : loadConfig printing none <;> simp_all [Except.toOption]
  have hproblems : (deletePrints.override {}).problems = [] := by decide
  simp only [CleanOrder.plan?, hconfig, hproblems, if_true, findSources_printing, printingPlan]

theorem applies_printing : deletePrints.Applies printingPlan := by
  refine ⟨by decide, ?_⟩
  simp [printingPlan, Report.scan, Report.ofFiles, modified_printing]

/-- A run by the order ends well. -/
theorem exitCode_deletingPrints (clock : Clock) :
    (deletingPrints.run clock { disk := printing }).exitCode = 0 := by
  obtain ⟨files, hfiles, hscan, hrun⟩ :=
    Invocation.run_of_plan (i := deletingPrints) (r := { disk := printing }) rfl plan?_printing clock
  have hone : files = [⟨"a.py"⟩] := by
    simpa [printingPlan, findSources_printing] using hfiles.symm
  have hpath : printing.realPath ⟨"a.py"⟩ = .ok ⟨"/a.py"⟩ := by rfl
  obtain ⟨entries, hentries⟩ : ∃ entries,
      (Report.scan printing printingPlan.config files).journalEntries printing = .ok entries := by
    apply Report.exists_journalEntries
    intro f hf
    have hf' : f = FileReport.scan printing printingPlan.config ⟨"a.py"⟩ := by
      have := (List.mem_filter.1 hf).1
      simpa [Report.scan, Report.ofFiles, hone] using this
    exact ⟨_, by simpa [hf'] using hpath⟩
  rw [hrun]
  refine CleanOrder.exitCode_cleanUnder hfiles hentries ?_ clock
  have hmade : (UndoStore.makeDir ⟨⟨"/s"⟩⟩ printing).1 = .ok () := by rfl
  have hleads : (UndoStore.makeDir ⟨⟨"/s"⟩⟩ printing).2.locate (UndoStore.mk ⟨"/s"⟩).journalPath
      = .ok ["s", "undo.json"] := by rfl
  have hvacant : (UndoStore.makeDir ⟨⟨"/s"⟩⟩ printing).2.look ["s", "undo.json"] = none := by
    decide
  exact UndoStore.exists_save plain_printing hmade hleads (Disk.mayWrite_of_vacant hvacant)

namespace Program

/-- The run writes ahead. -/
theorem clean_writes_ahead_printing :
    deletePrints.plan? printing none = some printingPlan ∧ deletePrints.Applies printingPlan
    ∧ (run {} printing deletePrintsLine).exitCode = 0
    ∧ ∃ j jl f saved, UndoStore.save ⟨⟨"/s"⟩⟩ printing j = .ok saved
      ∧ saved.stat ⟨"/s/undo.json"⟩ = .ok (jl, .file f)
      ∧ (∀ fs, fs ⊆ printingPlan.scan.files →
        WrittenAhead printing printingPlan.scan j jl
          (FileReport.each FileReport.apply saved fs).2)
      ∧ (run {} printing deletePrintsLine).disk = (printingPlan.scan.apply saved).2 := by
  have hexit : (run {} printing deletePrintsLine).exitCode = 0 := by
    rw [run_of_read? read?_deletePrintsLine rfl]
    exact exitCode_deletingPrints {}
  exact ⟨plan?_printing, applies_printing, hexit,
    (clean_writes_ahead plain_printing read?_deletePrintsLine rfl rfl).2.2.2 printingPlan
      plan?_printing applies_printing hexit⟩

end Program
end LogPrune
