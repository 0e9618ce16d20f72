import LogPrune.Proofs.Disk.Refill
import LogPrune.Proofs.Scan

/-!
# LogPrune.Proofs.Scan.Workers

Files dealt with by several workers at once.

1. Each file is scanned and then written, or left as it is; workers do so for
   different files in any order (`Step`, `Runs`).
2. A step on one file makes no difference to what is found in the others and
   what comes of writing them (`Progress.step`).
3. So a run that is through has reported on each file what would have been
   reported at the start, and has left in each what that says; in which order
   the workers went does not matter (`Progress.reports_eq`, `Progress.look_eq`).
-/

namespace LogPrune

/-! ## What is scanned -/

namespace FileReport

/-- Writes what a scan reported, if it is modified.  A file that cannot be written
goes on to count as modified. -/
def write (d : Disk) (r : FileReport) : FileReport × Disk :=
  if r.modified then
    match r.save d with
    | .ok d => (r, d)
    | .error e => (r.failed e, d)
  else (r, d)

/-- Cleaning a file is scanning it and writing what is found. -/
theorem clean_eq (d : Disk) (c : Config) (p : FilePath) : clean d c p = write d (scan d c p) := by
  unfold clean write
  generalize scan d c p = r
  rfl

theorem readText_congr {d d' : Disk} {p : FilePath} (h : d'.entryAt p = d.entryAt p) :
    d'.readText p = d.readText p := by
  rw [Disk.readText, Disk.readText, Disk.readBytes_eq, Disk.readBytes_eq, h]

/-- A scan depends on what the path leads to, and on nothing else on the disk. -/
theorem scan_congr {d d' : Disk} (c : Config) {p : FilePath} (h : d'.entryAt p = d.entryAt p) :
    scan d' c p = scan d c p := by
  rw [scan, scan, Disk.readSource, Disk.readSource, Disk.size_eq, Disk.size_eq, h,
    readText_congr h]

theorem fileAt?_of_readText {d : Disk} {p : FilePath} {t : Text} (h : d.readText p = .ok t) :
    ∃ l, d.fileAt? p = some l := by
  unfold Disk.readText at h
  rw [Disk.readBytes_eq] at h
  cases hentry : d.entryAt p with
  | error e => simp [hentry, bind, Except.bind] at h
  | ok found =>
    obtain ⟨l, entry⟩ := found
    cases entry with
    | file data => exact ⟨l, Disk.fileAt?_eq_some_iff.2 ⟨data, hentry⟩⟩
    | link target => simp [hentry, bind, Except.bind] at h
    | dir => simp [hentry, bind, Except.bind] at h

/-- Only files are modified. -/
theorem fileAt?_of_modified {d : Disk} {c : Config} {p : FilePath}
    (h : (scan d c p).modified) : ∃ l, d.fileAt? p = some l := by
  cases hread : d.readSource c.maxFileSizeKb p with
  | error e => simp [scan, hread, failed] at h
  | ok t => exact fileAt?_of_readText (readText_of_readSource hread)

/-- A way of writing what a scan reported: it writes modified files, and reports
what comes of that. -/
structure Finishes (finish : Disk → FileReport → FileReport × Disk) : Prop where
  disk : ∀ d r, (finish d r).2 = if r.modified then d.tryWrite (r.path, r.newContent) else d
  report : ∀ d d' r, d'.outcome r.path r.newContent = d.outcome r.path r.newContent →
    (finish d' r).1 = (finish d r).1

theorem write_of_not_modified (d : Disk) {r : FileReport} (h : r.modified = false) :
    write d r = (r, d) := by
  simp [write, h]

theorem write_of_ok {d d' : Disk} {r : FileReport} (h : r.modified)
    (hwrite : d.writeText r.path r.newContent = .ok d') : write d r = (r, d') := by
  simp [write, save, h, hwrite, Except.mapError]

theorem write_of_error {d : Disk} {r : FileReport} {e : IoError} (h : r.modified)
    (hwrite : d.writeText r.path r.newContent = .error e) :
    write d r = (r.failed (.write r.path e), d) := by
  simp [write, save, h, hwrite, Except.mapError]

theorem apply_of_not_modified (d : Disk) {r : FileReport} (h : r.modified = false) :
    apply d r = (r, d) := by
  simp [apply, h]

theorem apply_of_ok {d d' : Disk} {r : FileReport} (h : r.modified)
    (hwrite : d.writeText r.path r.newContent = .ok d') : apply d r = (r, d') := by
  simp [apply, save, h, hwrite, Except.mapError]

theorem apply_of_error {d : Disk} {r : FileReport} {e : IoError} (h : r.modified)
    (hwrite : d.writeText r.path r.newContent = .error e) :
    apply d r = ({ r.failed (.write r.path e) with modified := false, removed := 0, commented := 0 },
      d) := by
  simp [apply, save, h, hwrite, Except.mapError]

/-- What is reported on a file may depend on why its write is refused, but not on
the disk otherwise. -/
theorem finishes_of_cases {finish : Disk → FileReport → FileReport × Disk}
    {refused : FileReport → IoError → FileReport}
    (hnone : ∀ d r, r.modified = false → finish d r = (r, d))
    (hok : ∀ d d' r, r.modified → d.writeText r.path r.newContent = .ok d' → finish d r = (r, d'))
    (herror : ∀ d r e, r.modified → d.writeText r.path r.newContent = .error e →
      finish d r = (refused r e, d)) : Finishes finish := by
  constructor
  · intro d r
    cases hmodified : r.modified with
    | false => rw [hnone d r hmodified, if_neg Bool.false_ne_true]
    | true =>
      rw [if_pos rfl, Disk.tryWrite]
      cases hwrite : d.writeText r.path r.newContent with
      | ok d' => rw [hok d d' r hmodified hwrite]
      | error e => rw [herror d r e hmodified hwrite]
  · intro d d' r h
    cases hmodified : r.modified with
    | false => rw [hnone d r hmodified, hnone d' r hmodified]
    | true =>
      unfold Disk.outcome at h
      cases hwrite : d.writeText r.path r.newContent with
      | ok next =>
        cases hwrite' : d'.writeText r.path r.newContent with
        | ok next' => rw [hok d next r hmodified hwrite, hok d' next' r hmodified hwrite']
        | error e => simp [hwrite, hwrite', Except.map] at h
      | error e =>
        cases hwrite' : d'.writeText r.path r.newContent with
        | ok next' => simp [hwrite, hwrite', Except.map] at h
        | error e' =>
          obtain rfl : e' = e := by simpa [hwrite, hwrite', Except.map] using h
          rw [herror d r e' hmodified hwrite, herror d' r e' hmodified hwrite']

/-- A file is modified and its write lands at a location. -/
def Lands (d : Disk) (r : FileReport) (l : Location) : Prop :=
  r.modified ∧ d.landing? r.path = some l

instance {d : Disk} {r : FileReport} {l : Location} : Decidable (Lands d r l) :=
  inferInstanceAs (Decidable (_ ∧ _))

section
variable {start d : Disk} {finish : Disk → FileReport → FileReport × Disk}

theorem Finishes.proper (h : Finishes finish) (hd : d.Proper) (r : FileReport) :
    (finish d r).2.Proper := by
  rw [h.disk]
  split
  · exact Disk.proper_tryWrite hd _
  · exact hd

theorem Finishes.overwritten (h : Finishes finish) (hd : d.Proper) (r : FileReport) :
    d.Overwritten (finish d r).2 := by
  rw [h.disk]
  split
  · exact Disk.overwritten_tryWrite hd _
  · exact .refl d

/-- After other writes a file still lands where it did, and then holds its new content;
all else is as it was. -/
theorem Finishes.look (h : Finishes finish) (hs : start.Proper) (hover : start.Overwritten d)
    (hd : d.Proper) (r : FileReport) (l : Location) : (finish d r).2.look l =
      if Lands start r l then some (.file (start.written l r.newContent)) else d.look l := by
  rw [h.disk]
  by_cases hmodified : r.modified
  · rw [if_pos hmodified, Disk.look_tryWrite hd, hover.landing?_eq hs, hover.written_eq]
    simp only [Lands, hmodified, true_and]
  · rw [if_neg hmodified, if_neg fun hlands => hmodified hlands.1]

end

theorem finishes_write : Finishes write :=
  finishes_of_cases (fun d _ => write_of_not_modified d) (fun _ _ _ => write_of_ok)
    fun _ _ _ => write_of_error

theorem finishes_apply : Finishes apply :=
  finishes_of_cases (fun d _ => apply_of_not_modified d) (fun _ _ _ => apply_of_ok)
    fun _ _ _ => apply_of_error

end FileReport

/-! ## Workers -/

namespace Workers

open FileReport

/-- How far a file has been dealt with. -/
inductive Stage
  | waiting
  | scanned (r : FileReport)
  | done (r : FileReport)

/-- The report on a file that has been dealt with. -/
def Stage.report? : Stage → Option FileReport
  | done r => some r
  | _ => none

/-- A file to be dealt with. -/
structure Job where
  path : FilePath
  stage : Stage

/-- One step of a worker with one file: it scans the file, or writes it by
`finish`.  What workers do with other files may come in between. -/
inductive Step (c : Config) (finish : Disk → FileReport → FileReport × Disk) :
    Disk → List Job → Disk → List Job → Prop
  | scan (d : Disk) (before : List Job) (p : FilePath) (after : List Job) :
    Step c finish d (before ++ ⟨p, .waiting⟩ :: after)
      d (before ++ ⟨p, .scanned (FileReport.scan d c p)⟩ :: after)
  | finish (d : Disk) (before : List Job) (p : FilePath) (r : FileReport) (after : List Job) :
    Step c finish d (before ++ ⟨p, .scanned r⟩ :: after)
      (finish d r).2 (before ++ ⟨p, .done (finish d r).1⟩ :: after)

/-- Any number of steps, whatever the order of the files. -/
inductive Runs (c : Config) (finish : Disk → FileReport → FileReport × Disk) :
    Disk → List Job → Disk → List Job → Prop
  | refl (d : Disk) (jobs : List Job) : Runs c finish d jobs d jobs
  | step {d d' d'' : Disk} {jobs jobs' jobs'' : List Job} (first : Step c finish d jobs d' jobs')
    (rest : Runs c finish d' jobs' d'' jobs'') : Runs c finish d jobs d'' jobs''

/-- Whether all files have been dealt with. -/
def Through (jobs : List Job) : Prop := ∀ j ∈ jobs, j.stage.report?.isSome

/-- The reports on the files that have been dealt with. -/
def reports (jobs : List Job) : List FileReport := jobs.filterMap (·.stage.report?)

/-- Two paths do not lead to the same file. -/
def Apart (d : Disk) (p q : FilePath) : Prop := ∀ l, d.fileAt? p = some l → d.fileAt? q ≠ some l

theorem Apart.symm {d : Disk} {p q : FilePath} (h : Apart d p q) : Apart d q p :=
  fun l hq hp => h l hp hq

/-- A scan of a path says that the file at a location is to be written, and it
can be. -/
def Writes (d : Disk) (c : Config) (p : FilePath) (l : Location) : Prop :=
  (FileReport.scan d c p).modified ∧ d.landing? p = some l

theorem Writes.fileAt? {d : Disk} {c : Config} {p : FilePath} {l : Location} (hd : d.Proper)
    (h : Writes d c p l) : d.fileAt? p = some l := by
  obtain ⟨l', hfile⟩ := fileAt?_of_modified h.1
  rw [hfile, Disk.eq_of_landing? hd hfile h.2]

/-- How things stand after some steps, given the disk at the start. -/
structure Progress (start : Disk) (c : Config) (finish : Disk → FileReport → FileReport × Disk)
    (d : Disk) (jobs : List Job) : Prop where
  proper : d.Proper
  refilled : start.Refilled d
  stage : ∀ j ∈ jobs, j.stage = .waiting ∨ j.stage = .scanned (FileReport.scan start c j.path)
    ∨ j.stage = .done (finish start (FileReport.scan start c j.path)).1
  written : ∀ j ∈ jobs, ∀ l, Writes start c j.path l → d.look l =
    if j.stage.report?.isSome
    then some (.file (start.written l (FileReport.scan start c j.path).newContent))
    else start.look l
  other : ∀ l, (∀ j ∈ jobs, ¬ Writes start c j.path l) → d.look l = start.look l

section Run

variable {start d d' : Disk} {c : Config} {finish : Disk → FileReport → FileReport × Disk}
  {jobs jobs' before after : List Job} {j : Job} {p : FilePath}

/-- What holds of any two of some things holds of one of them and any other. -/
theorem rel_of_pairwise_middle {R : α → α → Prop} (hsymm : ∀ {a b}, R a b → R b a)
    {front back : List α} {a b : α} (h : (front ++ a :: back).Pairwise R)
    (hb : b ∈ front ++ back) : R b a := by
  obtain ⟨-, hback, hfront⟩ := List.pairwise_append.1 h
  obtain hb | hb := List.mem_append.1 hb
  · exact hfront b hb a List.mem_cons_self
  · exact hsymm ((List.pairwise_cons.1 hback).1 b hb)

theorem apart_of_pairwise
    (h : ((before ++ j :: after).map (·.path)).Pairwise (Apart start)) {k : Job}
    (hk : k ∈ before ++ after) : Apart start k.path j.path := by
  have hpairs : (before ++ j :: after).Pairwise fun j k => Apart start j.path k.path :=
    List.pairwise_map.1 h
  exact rel_of_pairwise_middle Apart.symm hpairs hk

theorem mem_middle_iff {k : Job} :
    k ∈ before ++ j :: after ↔ k = j ∨ k ∈ before ++ after := by
  simp only [List.mem_append, List.mem_cons]
  tauto

/-- A job in another stage has the path that it had. -/
theorem forall_path_middle {stage stage' : Stage} {P : FilePath → Prop}
    (h : ∀ k ∈ before ++ ⟨p, stage⟩ :: after, P k.path) :
    ∀ k ∈ before ++ ⟨p, stage'⟩ :: after, P k.path := by
  intro k hk
  obtain rfl | hk := mem_middle_iff.1 hk
  · exact h ⟨p, stage⟩ (mem_middle_iff.2 (.inl rfl))
  · exact h k (mem_middle_iff.2 (.inr hk))

/-- The file of a job that is not done is as it was. -/
theorem Progress.look_of_fileAt? (h : Progress start c finish d (before ++ j :: after))
    (hs : start.Proper) (hapart : ((before ++ j :: after).map (·.path)).Pairwise (Apart start))
    (hopen : j.stage.report? = none) {l : Location} (hl : start.fileAt? j.path = some l) :
    d.look l = start.look l := by
  by_cases hwrites : Writes start c j.path l
  · rw [h.written j (mem_middle_iff.2 (.inl rfl)) l hwrites, hopen]
    rfl
  · refine h.other l fun k hk hkl => ?_
    obtain rfl | hk := mem_middle_iff.1 hk
    · exact hwrites hkl
    · exact apart_of_pairwise hapart hk l (hkl.fileAt? hs) hl

/-- A scan is what it would have been at the start. -/
theorem Progress.scan_eq (h : Progress start c finish d (before ++ j :: after))
    (hs : start.Proper) (hapart : ((before ++ j :: after).map (·.path)).Pairwise (Apart start))
    (hopen : j.stage.report? = none) :
    FileReport.scan d c j.path = FileReport.scan start c j.path :=
  scan_congr c (h.refilled.entryAt_eq hs h.proper fun _ hl =>
    h.look_of_fileAt? hs hapart hopen hl)

theorem progress_start {jobs : List Job} (hs : start.Proper)
    (hstage : ∀ j ∈ jobs, j.stage = .waiting ∨ j.stage = .scanned (FileReport.scan start c j.path)) :
    Progress start c finish start jobs where
  proper := hs
  refilled := .refl start
  stage j hj := by
    obtain hstage | hstage := hstage j hj
    · exact .inl hstage
    · exact .inr (.inl hstage)
  written j hj l _ := by
    obtain hstage | hstage := hstage j hj <;> simp [hstage, Stage.report?]
  other _ _ := rfl

/-- Scanning keeps things as they stand. -/
theorem Progress.scan (h : Progress start c finish d (before ++ ⟨p, .waiting⟩ :: after))
    (hs : start.Proper)
    (hapart : ((before ++ ⟨p, .waiting⟩ :: after).map (·.path)).Pairwise (Apart start)) :
    Progress start c finish d (before ++ ⟨p, .scanned (FileReport.scan d c p)⟩ :: after) := by
  have hscan : FileReport.scan d c p = FileReport.scan start c p := h.scan_eq hs hapart rfl
  refine ⟨h.proper, h.refilled, fun k hk => ?_, fun k hk l hkl => ?_, fun l hl => ?_⟩
  · obtain rfl | hk := mem_middle_iff.1 hk
    · exact .inr (.inl (congrArg Stage.scanned hscan))
    · exact h.stage k (mem_middle_iff.2 (.inr hk))
  · obtain rfl | hk := mem_middle_iff.1 hk
    · exact h.written ⟨p, .waiting⟩ (mem_middle_iff.2 (.inl rfl)) l hkl
    · exact h.written k (mem_middle_iff.2 (.inr hk)) l hkl
  · exact h.other l (forall_path_middle (P := fun q => ¬ Writes start c q l) hl)

/-- What a write of a scanned file leaves. -/
theorem Progress.look_finish {r : FileReport}
    (h : Progress start c finish d (before ++ ⟨p, .scanned r⟩ :: after)) (hs : start.Proper)
    (hfinish : Finishes finish) (l : Location) [Decidable (Writes start c p l)] :
    (finish d r).2.look l = if Writes start c p l
      then some (.file (start.written l (FileReport.scan start c p).newContent))
      else d.look l := by
  obtain rfl : r = FileReport.scan start c p := by
    simpa using h.stage ⟨p, .scanned r⟩ (mem_middle_iff.2 (.inl rfl))
  have hlands : Lands start (FileReport.scan start c p) l ↔ Writes start c p l := by
    rw [Lands, Writes, path_scan]
  rw [hfinish.look hs h.refilled.toOverwritten h.proper]
  exact if_congr hlands rfl rfl

/-- Writing keeps things as they stand. -/
theorem Progress.write {r : FileReport}
    (h : Progress start c finish d (before ++ ⟨p, .scanned r⟩ :: after)) (hs : start.Proper)
    (hapart : ((before ++ ⟨p, .scanned r⟩ :: after).map (·.path)).Pairwise (Apart start))
    (hfinish : Finishes finish) :
    Progress start c finish (finish d r).2 (before ++ ⟨p, .done (finish d r).1⟩ :: after) := by
  classical
  have hlook := fun l => h.look_finish hs hfinish l
  obtain rfl : r = FileReport.scan start c p := by
    simpa using h.stage ⟨p, .scanned r⟩ (mem_middle_iff.2 (.inl rfl))
  refine ⟨hfinish.proper h.proper _,
    ⟨h.refilled.toOverwritten.trans (hfinish.overwritten h.proper _), fun l hl => ?_⟩,
    fun k hk => ?_, fun k hk l hkl => ?_, fun l hl => ?_⟩
  · rw [hlook, if_neg, h.refilled.none_of_none l hl]
    intro hwrites
    obtain ⟨data, hfile⟩ := Disk.look_of_fileAt? hs (hwrites.fileAt? hs)
    simp [hl] at hfile
  · obtain rfl | hk := mem_middle_iff.1 hk
    · have hreport : (finish d (FileReport.scan start c p)).1
          = (finish start (FileReport.scan start c p)).1 :=
        hfinish.report start d _ (h.refilled.outcome_eq hs h.proper _ _)
      exact .inr (.inr (congrArg Stage.done hreport))
    · exact h.stage k (mem_middle_iff.2 (.inr hk))
  · obtain rfl | hk := mem_middle_iff.1 hk
    · rw [hlook, if_pos hkl]
      rfl
    · -- the file of another job is another one
      have hother : ¬ Writes start c p l := fun hwrites =>
        apart_of_pairwise hapart hk l (hkl.fileAt? hs) (hwrites.fileAt? hs)
      rw [hlook, if_neg hother]
      exact h.written k (mem_middle_iff.2 (.inr hk)) l hkl
  · rw [hlook, if_neg (hl ⟨p, .done _⟩ (mem_middle_iff.2 (.inl rfl)))]
    exact h.other l (forall_path_middle (P := fun q => ¬ Writes start c q l) hl)

theorem Step.map_path (h : Step c finish d jobs d' jobs') :
    jobs'.map (·.path) = jobs.map (·.path) := by
  cases h <;> simp

/-- Every step keeps things as they stand. -/
theorem Progress.step (h : Progress start c finish d jobs) (hs : start.Proper)
    (hapart : (jobs.map (·.path)).Pairwise (Apart start)) (hfinish : Finishes finish)
    (hstep : Step c finish d jobs d' jobs') : Progress start c finish d' jobs' := by
  cases hstep with
  | scan before p after => exact h.scan hs hapart
  | finish before p r after => exact h.write hs hapart hfinish

/-- So does every run. -/
theorem Progress.runs (h : Progress start c finish d jobs) (hs : start.Proper)
    (hapart : (jobs.map (·.path)).Pairwise (Apart start)) (hfinish : Finishes finish)
    (hruns : Runs c finish d jobs d' jobs') :
    Progress start c finish d' jobs' ∧ jobs'.map (·.path) = jobs.map (·.path) := by
  induction hruns with
  | refl d jobs => exact ⟨h, rfl⟩
  | step first rest ih =>
    obtain ⟨hprogress, hpaths⟩ := ih (h.step hs hapart hfinish first) (first.map_path ▸ hapart)
    exact ⟨hprogress, hpaths.trans first.map_path⟩

/-! ## Runs that are through -/

theorem reports_of_through (report : FilePath → FileReport) (hthrough : Through jobs)
    (h : ∀ j ∈ jobs, j.stage = .waiting ∨ j.stage = .scanned (FileReport.scan start c j.path)
      ∨ j.stage = .done (report j.path)) : reports jobs = (jobs.map (·.path)).map report := by
  have hdone : ∀ j ∈ jobs, j.stage.report? = some (report j.path) := by
    intro j hj
    obtain hstage | hstage | hstage := h j hj
    · simpa [hstage, Stage.report?] using hthrough j hj
    · simpa [hstage, Stage.report?] using hthrough j hj
    · rw [hstage, Stage.report?]
  rw [reports, List.filterMap_congr hdone, List.map_map, List.filterMap_eq_map']
  rfl

/-- What is reported does not depend on the order. -/
theorem Progress.reports_eq (h : Progress start c finish d jobs) (hthrough : Through jobs) :
    reports jobs
      = (jobs.map (·.path)).map fun p => (finish start (FileReport.scan start c p)).1 :=
  reports_of_through (fun p => (finish start (FileReport.scan start c p)).1) hthrough h.stage

/-- What stands anywhere does not depend on the order, nor on what is reported. -/
theorem Progress.look_eq {finish' : Disk → FileReport → FileReport × Disk}
    (h : Progress start c finish d jobs) (h' : Progress start c finish' d' jobs')
    (hpaths : jobs'.map (·.path) = jobs.map (·.path)) (hthrough : Through jobs)
    (hthrough' : Through jobs') (l : Location) : d'.look l = d.look l := by
  by_cases hwrites : ∃ j ∈ jobs, Writes start c j.path l
  · obtain ⟨j, hj, hjl⟩ := hwrites
    have hmem : j.path ∈ jobs'.map (·.path) := hpaths ▸ List.mem_map_of_mem hj
    obtain ⟨k, hk, hkj⟩ := List.mem_map.1 hmem
    rw [h.written j hj l hjl, h'.written k hk l (hkj ▸ hjl), if_pos (hthrough j hj),
      if_pos (hthrough' k hk), hkj]
  · have hnone : ∀ p ∈ jobs.map (·.path), ¬ Writes start c p l := by
      intro p hp hpl
      obtain ⟨j, hj, rfl⟩ := List.mem_map.1 hp
      exact hwrites ⟨j, hj, hpl⟩
    rw [h.other l fun j hj => hnone _ (List.mem_map_of_mem hj),
      h'.other l fun k hk => hnone _ (hpaths ▸ List.mem_map_of_mem hk)]

end Run

/-! ## Runs that do not write -/

/-- Scanning without writing. -/
def onlyReport (d : Disk) (r : FileReport) : FileReport × Disk := (r, d)

theorem Step.onlyReport {c : Config} {d d' : Disk} {jobs jobs' : List Job}
    (hstep : Step c onlyReport d jobs d' jobs')
    (h : ∀ j ∈ jobs, j.stage = .waiting ∨ j.stage = .scanned (FileReport.scan d c j.path)
      ∨ j.stage = .done (FileReport.scan d c j.path)) :
    d' = d ∧ ∀ j ∈ jobs', j.stage = .waiting ∨ j.stage = .scanned (FileReport.scan d c j.path)
      ∨ j.stage = .done (FileReport.scan d c j.path) := by
  cases hstep with
  | scan before p after =>
    refine ⟨rfl, fun k hk => ?_⟩
    obtain rfl | hk := mem_middle_iff.1 hk
    · exact .inr (.inl rfl)
    · exact h k (mem_middle_iff.2 (.inr hk))
  | finish before p r after =>
    refine ⟨rfl, fun k hk => ?_⟩
    obtain rfl | hk := mem_middle_iff.1 hk
    · have hr : r = FileReport.scan d c p := by
        simpa using h ⟨p, .scanned r⟩ (mem_middle_iff.2 (.inl rfl))
      exact .inr (.inr (congrArg Stage.done hr))
    · exact h k (mem_middle_iff.2 (.inr hk))

/-- Files that are only scanned stay as they are, and in whatever order they are
scanned the reports are the same. -/
theorem Runs.onlyReport {c : Config} {d d' : Disk} {jobs jobs' : List Job}
    (hruns : Runs c onlyReport d jobs d' jobs')
    (h : ∀ j ∈ jobs, j.stage = .waiting ∨ j.stage = .scanned (FileReport.scan d c j.path)
      ∨ j.stage = .done (FileReport.scan d c j.path)) (hthrough : Through jobs') :
    d' = d ∧ reports jobs' = (jobs.map (·.path)).map (FileReport.scan d c) := by
  induction hruns with
  | refl d jobs =>
    exact ⟨rfl, reports_of_through (FileReport.scan d c) hthrough h⟩
  | step first rest ih =>
    obtain ⟨rfl, hstage⟩ := first.onlyReport h
    rw [← first.map_path]
    exact ih hstage hthrough

end Workers
end LogPrune
