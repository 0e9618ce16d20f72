import LogPrune.Proofs.Scan.Workers

/-!
# LogPrune.Proofs.Scan.Batch

Cleaning many files, at once or by a scan that is written afterwards.

1. Cleaning one file after another is a run of the workers, and so is writing
   what a scan reported (`runs_clean`, `runs_apply`).  All runs that are through
   come to the same.
2. Both ways leave the same on the disk.  The reports differ on files that could
   not be written: these go on to count as modified where files are cleaned at
   once (`clean_agrees_with_apply`).
-/

namespace LogPrune
namespace Workers

open FileReport

/-! ## Runs one file after another -/

section Complete

variable (c : Config) (finish : Disk → FileReport → FileReport × Disk)

theorem through_append_done {before : List Job} (h : Through before) (p : FilePath)
    (r : FileReport) : Through (before ++ [⟨p, .done r⟩]) := by
  intro j hj
  obtain hj | hj := List.mem_append.1 hj
  · exact h j hj
  · rw [List.mem_singleton.1 hj]
    rfl

/-- Wherever a run stands, it can be brought to its end. -/
theorem exists_runs_through (d : Disk) (before after : List Job)
    (hbefore : Through before) :
    ∃ d' jobs', Runs c finish d (before ++ after) d' jobs' ∧ Through jobs' := by
  induction after generalizing d before with
  | nil => exact ⟨d, before ++ [], .refl d _, by simpa using hbefore⟩
  | cons j after ih =>
    obtain ⟨p, stage⟩ := j
    have hrest := fun d r => ih d (before ++ [⟨p, .done r⟩]) (through_append_done hbefore p r)
    simp only [List.append_assoc, List.singleton_append] at hrest
    cases stage with
    | waiting =>
      obtain ⟨d', jobs', hruns, hthrough⟩ :=
        hrest (finish d (FileReport.scan d c p)).2 (finish d (FileReport.scan d c p)).1
      exact ⟨d', jobs', .step (.scan d before p after) (.step (.finish d before p _ after) hruns),
        hthrough⟩
    | scanned r =>
      obtain ⟨d', jobs', hruns, hthrough⟩ := hrest (finish d r).2 (finish d r).1
      exact ⟨d', jobs', .step (.finish d before p r after) hruns, hthrough⟩
    | done r => exact hrest d r

/-- Jobs that wait. -/
def waiting (paths : List FilePath) : List Job := paths.map fun p => ⟨p, .waiting⟩

/-- Jobs whose files have been scanned. -/
def scanned (files : List FileReport) : List Job := files.map fun r => ⟨r.path, .scanned r⟩

/-- Jobs that are done. -/
def done (paths : List FilePath) (files : List FileReport) : List Job :=
  List.zipWith (fun p r => ⟨p, .done r⟩) paths files

/-- Cleaning one file after another is a run. -/
theorem runs_clean (d : Disk) (before : List Job) (paths : List FilePath) :
    Runs c FileReport.write d (before ++ waiting paths)
      (each (fun d p => FileReport.clean d c p) d paths).2
      (before ++ done paths (each (fun d p => FileReport.clean d c p) d paths).1) := by
  induction paths generalizing d before with
  | nil => exact .refl d _
  | cons p paths ih =>
    have hrest := ih (FileReport.clean d c p).2 (before ++ [⟨p, .done (FileReport.clean d c p).1⟩])
    simp only [List.append_assoc, List.singleton_append] at hrest
    refine .step (.scan d before p (waiting paths)) (.step (.finish d before p _ _) ?_)
    rw [← clean_eq]
    exact hrest

/-- Writing one scanned file after another is a run. -/
theorem runs_apply (d : Disk) (before : List Job) (files : List FileReport) :
    Runs c FileReport.apply d (before ++ scanned files) (each FileReport.apply d files).2
      (before ++ done (files.map (·.path)) (each FileReport.apply d files).1) := by
  induction files generalizing d before with
  | nil => exact .refl d _
  | cons r files ih =>
    have hrest := ih (FileReport.apply d r).2 (before ++ [⟨r.path, .done (FileReport.apply d r).1⟩])
    simp only [List.append_assoc, List.singleton_append] at hrest
    exact .step (.finish d before r.path r (scanned files)) hrest

end Complete

theorem length_each {α : Type} (step : Disk → α → FileReport × Disk) (d : Disk) (as : List α) :
    (each step d as).1.length = as.length := by
  induction as generalizing d with
  | nil => rfl
  | cons a as ih => simp [each, ih]

theorem through_done (paths : List FilePath) (files : List FileReport) :
    Through (done paths files) := by
  induction paths generalizing files with
  | nil => intro j hj; simp [done] at hj
  | cons p paths ih =>
    cases files with
    | nil => intro j hj; simp [done] at hj
    | cons r files =>
      intro j hj
      obtain rfl | hj := List.mem_cons.1 hj
      · rfl
      · exact ih files j hj

theorem reports_done {paths : List FilePath} {files : List FileReport}
    (h : files.length = paths.length) : reports (done paths files) = files := by
  induction paths generalizing files with
  | nil => simp_all [done, reports]
  | cons p paths ih =>
    cases files with
    | nil => simp at h
    | cons r files => exact congrArg (r :: ·) (ih (by simpa using h))

/-! ## Both ways -/

/-- The report on a file as it is after a scan was written: a file that could not
be written does not count as modified. -/
def settled (r : FileReport) : FileReport :=
  if r.modified && r.error.isSome then { r with modified := false, removed := 0, commented := 0 }
  else r

theorem error_of_modified {d : Disk} {c : Config} {p : FilePath}
    (h : (FileReport.scan d c p).modified) : (FileReport.scan d c p).error = none := by
  unfold FileReport.scan at h ⊢
  split at h
  · simp [failed] at h
  · split at h
    · simp [failed] at h
    · unfold ofContent at h ⊢
      split at h
      · simp [failed] at h
      · rfl

/-- Writing a scanned file and cleaning it are reported alike but for a write that
is refused. -/
theorem apply_eq_settled (d : Disk) {r : FileReport} (h : r.modified → r.error = none) :
    (FileReport.apply d r).1 = settled (FileReport.write d r).1 := by
  cases hmodified : r.modified with
  | false =>
    rw [apply_of_not_modified d hmodified, write_of_not_modified d hmodified]
    simp [settled, hmodified]
  | true =>
    cases hwrite : d.writeText r.path r.newContent with
    | ok d' =>
      rw [apply_of_ok hmodified hwrite, write_of_ok hmodified hwrite]
      simp [settled, h hmodified]
    | error e =>
      rw [apply_of_error hmodified hwrite, write_of_error hmodified hwrite]
      simp [settled, failed, hmodified]

@[simp] theorem modified_write (d : Disk) (r : FileReport) :
    (FileReport.write d r).1.modified = r.modified := by
  cases hmodified : r.modified with
  | false => rw [write_of_not_modified d hmodified, hmodified]
  | true =>
    cases hwrite : d.writeText r.path r.newContent with
    | ok d' => rw [write_of_ok hmodified hwrite, hmodified]
    | error e => rw [write_of_error hmodified hwrite, failed, hmodified]

theorem modified_apply {d : Disk} (hd : d.Proper) (r : FileReport) :
    (FileReport.apply d r).1.modified = (r.modified && (d.landing? r.path).isSome) := by
  have hok := Disk.isOk_writeText_iff (p := r.path) (t := r.newContent) hd
  cases hmodified : r.modified with
  | false => rw [apply_of_not_modified d hmodified, hmodified, Bool.false_and]
  | true =>
    rw [Bool.true_and]
    cases hwrite : d.writeText r.path r.newContent with
    | ok d' =>
      rw [apply_of_ok hmodified hwrite, hmodified]
      exact (hok.1 (by rw [hwrite]; rfl)).symm
    | error e =>
      rw [apply_of_error hmodified hwrite]
      rw [hwrite] at hok
      simpa [Except.isOk, Except.toBool] using hok

/-- They are reported alike exactly where the write is not refused. -/
theorem settled_eq_self_iff {d : Disk} (hd : d.Proper) {r : FileReport}
    (h : r.modified → r.error = none) :
    settled (FileReport.write d r).1 = (FileReport.write d r).1 ↔
      (r.modified → (d.landing? r.path).isSome) := by
  have hmodified := modified_apply hd r
  rw [apply_eq_settled d h] at hmodified
  constructor
  · intro hself hr
    rw [hself, modified_write, hr, Bool.true_and] at hmodified
    exact hmodified.symm
  · intro hlands
    have hsame : (settled (FileReport.write d r).1).modified = (FileReport.write d r).1.modified := by
      rw [hmodified, modified_write]
      cases hr : r.modified <;> simp_all
    unfold settled at hsame ⊢
    split at hsame
    · next hrefused => simp_all
    · next hrefused => rw [if_neg hrefused]

section Batch

variable {d : Disk} {c : Config} {paths : List FilePath}

theorem map_path_waiting (paths : List FilePath) : (waiting paths).map (·.path) = paths := by
  simp [waiting, Function.comp_def]

theorem map_path_scanned (d : Disk) (c : Config) (paths : List FilePath) :
    (scanned (paths.map (FileReport.scan d c))).map (·.path) = paths := by
  simp [scanned, Function.comp_def]

theorem progress_waiting (hd : d.Proper) (c : Config) (paths : List FilePath) :
    Progress d c FileReport.write d (waiting paths) := by
  refine progress_start hd fun j hj => ?_
  obtain ⟨p, -, rfl⟩ := List.mem_map.1 hj
  exact .inl rfl

theorem progress_scanned (hd : d.Proper) (c : Config) (paths : List FilePath) :
    Progress d c FileReport.apply d (scanned (paths.map (FileReport.scan d c))) := by
  refine progress_start hd fun j hj => ?_
  obtain ⟨r, hr, rfl⟩ := List.mem_map.1 hj
  obtain ⟨p, -, rfl⟩ := List.mem_map.1 hr
  exact .inr (congrArg Stage.scanned (by rw [path_scan]))

/-- All runs that are through come to the same. -/
theorem runs_agree {finish : Disk → FileReport → FileReport × Disk} (hfinish : Finishes finish)
    (hd : d.Proper) {jobs : List Job} (hstart : Progress d c finish d jobs)
    (hapart : (jobs.map (·.path)).Pairwise (Apart d)) {d₁ d₂ : Disk} {jobs₁ jobs₂ : List Job}
    (h₁ : Runs c finish d jobs d₁ jobs₁) (hthrough₁ : Through jobs₁)
    (h₂ : Runs c finish d jobs d₂ jobs₂) (hthrough₂ : Through jobs₂) :
    reports jobs₁ = reports jobs₂ ∧ ∀ l, d₁.look l = d₂.look l := by
  obtain ⟨hprogress₁, hpaths₁⟩ := hstart.runs hd hapart hfinish h₁
  obtain ⟨hprogress₂, hpaths₂⟩ := hstart.runs hd hapart hfinish h₂
  have hpaths := hpaths₁.trans hpaths₂.symm
  constructor
  · rw [hprogress₁.reports_eq hthrough₁, hprogress₂.reports_eq hthrough₂, hpaths]
  · exact hprogress₂.look_eq hprogress₁ hpaths hthrough₂ hthrough₁

theorem runs_report_clean (d : Disk) (c : Config) (paths : List FilePath) :
    Runs c FileReport.write d (waiting paths) (Report.clean d c paths).2
      (done paths (Report.clean d c paths).1.files) :=
  runs_clean c d [] paths

theorem runs_report_apply (d : Disk) (c : Config) (paths : List FilePath) :
    Runs c FileReport.apply d (scanned (Report.scan d c paths).files)
      ((Report.scan d c paths).apply d).2
      (done ((Report.scan d c paths).files.map (·.path)) ((Report.scan d c paths).apply d).1.files) :=
  runs_apply c d [] (Report.scan d c paths).files

theorem reports_clean (d : Disk) (c : Config) (paths : List FilePath) :
    reports (done paths (Report.clean d c paths).1.files) = (Report.clean d c paths).1.files :=
  reports_done (length_each _ d paths)

theorem reports_apply (d : Disk) (r : Report) :
    reports (done (r.files.map (·.path)) (r.apply d).1.files) = (r.apply d).1.files :=
  reports_done ((length_each _ d r.files).trans (List.length_map _).symm)

theorem modified_clean (d : Disk) (c : Config) (paths : List FilePath) :
    (Report.clean d c paths).1.modified
      = ((Report.clean d c paths).1.files.filter (·.modified)).length := rfl

theorem modified_report_apply (d : Disk) (r : Report) :
    (r.apply d).1.modified = ((r.apply d).1.files.filter (·.modified)).length := rfl

/-- The reports on files that are cleaned at once. -/
theorem clean_files_eq (hd : d.Proper) (hapart : paths.Pairwise (Apart d)) :
    (Report.clean d c paths).1.files
      = paths.map fun p => (FileReport.write d (FileReport.scan d c p)).1 := by
  obtain ⟨hprogress, hpaths⟩ := (progress_waiting hd c paths).runs hd
    (by rwa [map_path_waiting]) finishes_write (runs_report_clean d c paths)
  have hreports := hprogress.reports_eq (through_done _ _)
  rwa [reports_clean, hpaths, map_path_waiting] at hreports

/-- The reports on files whose scan is written. -/
theorem apply_files_eq (hd : d.Proper) (hapart : paths.Pairwise (Apart d)) :
    ((Report.scan d c paths).apply d).1.files
      = paths.map fun p => (FileReport.apply d (FileReport.scan d c p)).1 := by
  obtain ⟨hprogress, hpaths⟩ := (progress_scanned hd c paths).runs hd
    (by rwa [map_path_scanned]) finishes_apply (runs_report_apply d c paths)
  have hreports := hprogress.reports_eq (through_done _ _)
  rwa [reports_apply, hpaths, map_path_scanned] at hreports

/-- Both ways leave the same on the disk. -/
theorem look_apply_eq (hd : d.Proper) (hapart : paths.Pairwise (Apart d)) (l : Location) :
    ((Report.scan d c paths).apply d).2.look l = (Report.clean d c paths).2.look l := by
  obtain ⟨hclean, hpaths⟩ := (progress_waiting hd c paths).runs hd
    (by rwa [map_path_waiting]) finishes_write (runs_report_clean d c paths)
  obtain ⟨happly, hpaths'⟩ := (progress_scanned hd c paths).runs hd
    (by rwa [map_path_scanned]) finishes_apply (runs_report_apply d c paths)
  rw [map_path_waiting] at hpaths
  rw [map_path_scanned] at hpaths'
  exact hclean.look_eq happly (hpaths'.trans hpaths.symm) (through_done _ _) (through_done _ _) l

/-- The reports of both ways differ on the files that could not be written. -/
theorem apply_files_eq_settled (hd : d.Proper) (hapart : paths.Pairwise (Apart d)) :
    ((Report.scan d c paths).apply d).1.files = (Report.clean d c paths).1.files.map settled := by
  rw [apply_files_eq hd hapart, clean_files_eq hd hapart, List.map_map]
  exact List.map_congr_left fun p _ => apply_eq_settled d error_of_modified

/-- They are the same exactly where no write is refused. -/
theorem map_settled_eq_iff (hd : d.Proper) (hapart : paths.Pairwise (Apart d)) :
    (Report.clean d c paths).1.files.map settled = (Report.clean d c paths).1.files ↔
      ∀ p ∈ paths, (FileReport.scan d c p).modified → (d.landing? p).isSome := by
  rw [clean_files_eq hd hapart, List.map_map, List.map_inj_left]
  refine forall₂_congr fun p _ => ?_
  have hself := settled_eq_self_iff hd (error_of_modified (d := d) (c := c) (p := p))
  rwa [path_scan] at hself

/-- Cleaning files at once and writing a scan of them leave the same on the disk,
whatever the order in which workers go and whichever writes are refused.  The
reports are the same but for the files that could not be written, and so they
are the same exactly when there are none. -/
theorem clean_agrees_with_apply (hd : d.Proper) (c : Config) (hapart : paths.Pairwise (Apart d)) :
    (∀ d' jobs, Runs c FileReport.write d (waiting paths) d' jobs →
      (∃ d'' jobs', Runs c FileReport.write d' jobs d'' jobs' ∧ Through jobs') ∧
      (Through jobs → reports jobs = (Report.clean d c paths).1.files
        ∧ ∀ l, d'.look l = (Report.clean d c paths).2.look l)) ∧
    (∀ d' jobs, Runs c onlyReport d (waiting paths) d' jobs → Through jobs →
      d' = d ∧ reports jobs = (Report.scan d c paths).files) ∧
    (∀ d' jobs, Runs c FileReport.apply d (scanned (Report.scan d c paths).files) d' jobs →
      (∃ d'' jobs', Runs c FileReport.apply d' jobs d'' jobs' ∧ Through jobs') ∧
      (Through jobs → reports jobs = ((Report.scan d c paths).apply d).1.files
        ∧ ∀ l, d'.look l = ((Report.scan d c paths).apply d).2.look l)) ∧
    (∀ l, ((Report.scan d c paths).apply d).2.look l = (Report.clean d c paths).2.look l) ∧
    ((Report.scan d c paths).apply d).1
      = Report.ofFiles ((Report.clean d c paths).1.files.map settled) 0 ∧
    (((Report.scan d c paths).apply d).1 = (Report.clean d c paths).1 ↔
      ∀ p ∈ paths, (FileReport.scan d c p).modified → (d.landing? p).isSome) := by
  have hwaiting : ((waiting paths).map (·.path)).Pairwise (Apart d) := by rwa [map_path_waiting]
  have hscanned : ((scanned (Report.scan d c paths).files).map (·.path)).Pairwise (Apart d) := by
    rwa [Report.scan, Report.ofFiles, map_path_scanned]
  have hsettled := apply_files_eq_settled (c := c) hd hapart
  refine ⟨fun d' jobs hruns => ⟨?_, fun hthrough => ?_⟩, fun d' jobs hruns hthrough => ?_,
    fun d' jobs hruns => ⟨?_, fun hthrough => ?_⟩, look_apply_eq hd hapart, ?_, ?_⟩
  · exact exists_runs_through c _ d' [] jobs (by simp [Through])
  · rw [← reports_clean]
    exact runs_agree finishes_write hd (progress_waiting hd c paths) hwaiting hruns hthrough
      (runs_report_clean d c paths) (through_done _ _)
  · have hstage : ∀ j ∈ waiting paths, j.stage = .waiting := by simp [waiting]
    obtain ⟨hd', hreports⟩ := hruns.onlyReport (fun j hj => .inl (hstage j hj)) hthrough
    rw [map_path_waiting] at hreports
    exact ⟨hd', hreports⟩
  · exact exists_runs_through c _ d' [] jobs (by simp [Through])
  · rw [← reports_apply]
    exact runs_agree finishes_apply hd (progress_scanned hd c paths) hscanned hruns hthrough
      (runs_report_apply d c paths) (through_done _ _)
  · exact congrArg (Report.ofFiles · 0) hsettled
  · rw [← map_settled_eq_iff hd hapart, ← hsettled]
    exact ⟨fun h => congrArg Report.files h, fun h => congrArg (Report.ofFiles · 0) h⟩

end Batch

/-! ## A file that cannot be written -/

/-- A directory with two files that print, of which the first cannot be written. -/
def halfWritable : Disk where
  root := .file "a.py" { bytes := "print(1)\n".toUTF8, writable := false }
    (.file "b.py" { bytes := "print(2)\n".toUTF8 } .empty)

theorem proper_halfWritable : halfWritable.Proper := ⟨by decide, by decide⟩

theorem fileAt?_halfWritable : halfWritable.fileAt? ⟨"a.py"⟩ = some ["a.py"] ∧
    halfWritable.fileAt? ⟨"b.py"⟩ = some ["b.py"] := by decide

theorem apart_halfWritable : [⟨"a.py"⟩, ⟨"b.py"⟩].Pairwise (Apart halfWritable) := by
  simp [Apart, fileAt?_halfWritable]

theorem modified_halfWritable :
    (FileReport.scan halfWritable { mode := .delete } ⟨"a.py"⟩).modified ∧
      (FileReport.scan halfWritable { mode := .delete } ⟨"b.py"⟩).modified := by
  constructor <;> cbv

theorem landing?_halfWritable : halfWritable.landing? ⟨"a.py"⟩ = none ∧
    halfWritable.landing? ⟨"b.py"⟩ = some ["b.py"] := by decide

/-- Both ways leave the two files the same, and neither writes the first one. -/
theorem clean_agrees_with_apply_half_writable :
    [⟨"a.py"⟩, ⟨"b.py"⟩].Pairwise (Apart halfWritable) ∧
      (∀ l, ((Report.scan halfWritable { mode := .delete } [⟨"a.py"⟩, ⟨"b.py"⟩]).apply
        halfWritable).2.look l
          = (Report.clean halfWritable { mode := .delete } [⟨"a.py"⟩, ⟨"b.py"⟩]).2.look l) ∧
      ((Report.scan halfWritable { mode := .delete } [⟨"a.py"⟩, ⟨"b.py"⟩]).apply halfWritable).1
        = Report.ofFiles ((Report.clean halfWritable { mode := .delete }
            [⟨"a.py"⟩, ⟨"b.py"⟩]).1.files.map settled) 0 :=
  have hagrees := clean_agrees_with_apply proper_halfWritable { mode := .delete } apart_halfWritable
  ⟨apart_halfWritable, hagrees.2.2.2.1, hagrees.2.2.2.2.1⟩

/-- The file that cannot be written is still counted where files are cleaned at
once. -/
theorem clean_counts_refused :
    (Report.clean halfWritable { mode := .delete } [⟨"a.py"⟩, ⟨"b.py"⟩]).1.modified = 2 ∧
      ((Report.scan halfWritable { mode := .delete } [⟨"a.py"⟩, ⟨"b.py"⟩]).apply
        halfWritable).1.modified = 1 := by
  have hclean : (Report.clean halfWritable { mode := .delete } [⟨"a.py"⟩, ⟨"b.py"⟩]).1.files
      = _ := clean_files_eq proper_halfWritable apart_halfWritable
  have happly : ((Report.scan halfWritable { mode := .delete } [⟨"a.py"⟩, ⟨"b.py"⟩]).apply
      halfWritable).1.files = _ := apply_files_eq proper_halfWritable apart_halfWritable
  rw [modified_clean, hclean, modified_report_apply, happly]
  simp [modified_apply proper_halfWritable, modified_halfWritable, landing?_halfWritable]

end Workers
end LogPrune
