import LogPrune.Proofs.Clean.Counts

/-!
# LogPrune.Proofs.Scan.Apply

Writing what a scan reported, some time after the scan.

By then the disk may be another one: files may hold something else, may be gone, or
may not be written any more.

1. A file that is not modified and one that is written keep their reports; the report
   on one whose write is refused says so and counts nothing (`Settles`).
2. A step of a worker writes one file at most and leaves what others have written
   (`Applying.finish`), and so does every run (`Applying.runs`).
3. So in the end the files that could be written hold what the scan reported, nothing
   else has changed, and the totals are the sums over these files
   (`apply_counts_written`).
-/

namespace LogPrune

/-! ## Lists side by side -/

theorem forall₂_filterMap {f : α → Option β} {R : α → β → Prop} {as : List α}
    (h : ∀ a ∈ as, ∃ b, f a = some b ∧ R a b) : List.Forall₂ R as (as.filterMap f) := by
  induction as with
  | nil => exact .nil
  | cons a as ih =>
    obtain ⟨⟨b, hb, hab⟩, has⟩ := List.forall_mem_cons.1 h
    rw [List.filterMap_cons_some hb]
    exact .cons hab (ih has)

theorem exists_of_forall₂_right {R : α → β → Prop} {as : List α} {bs : List β}
    (h : List.Forall₂ R as bs) (hb : b ∈ bs) : ∃ a ∈ as, R a b := by
  induction h with
  | nil => simp at hb
  | cons hab _ ih =>
    obtain rfl | hb := List.mem_cons.1 hb
    · exact ⟨_, List.mem_cons_self, hab⟩
    · obtain ⟨a, ha, hrest⟩ := ih hb
      exact ⟨a, List.mem_cons_of_mem _ ha, hrest⟩

/-! ## Totals -/

namespace Report

theorem total_eq_sum (count : FileReport → Nat) (files : List FileReport) :
    total count files = (files.map count).sum := by
  induction files with
  | nil => rfl
  | cons f files ih => rw [total, ih, List.map_cons, List.sum_cons]

/-- Files for which nothing is counted do not matter for a total. -/
theorem total_eq_sum_filter {count : FileReport → Nat} {keep : FileReport → Bool}
    {files : List FileReport} (h : ∀ r ∈ files, keep r = false → count r = 0) :
    total count files = ((files.filter keep).map count).sum := by
  rw [total_eq_sum]
  induction files with
  | nil => rfl
  | cons r files ih =>
    obtain ⟨hr, hfiles⟩ := List.forall_mem_cons.1 h
    rw [List.map_cons, List.sum_cons, ih hfiles]
    cases hkeep : keep r with
    | true => rw [List.filter_cons_of_pos hkeep, List.map_cons, List.sum_cons]
    | false => rw [List.filter_cons_of_neg (by simp [hkeep]), hr hkeep, Nat.zero_add]

end Report

namespace FileReport

variable {d now : Disk} {c : Config} {p : FilePath} {r r' : FileReport} {l : Location}

/-! ## One file -/

/-- Nothing is counted for a file that is not modified. -/
theorem affected_of_not_modified (h : (scan d c p).modified = false) :
    (scan d c p).affected = 0 := by
  unfold scan at h ⊢
  split at h
  · rfl
  · split at h
    · rfl
    · unfold ofContent at h ⊢
      split at h
      · rfl
      · next hcleaned =>
        have hsame := (agreesWith_of_clean? hcleaned).ne_iff.not.1 (by simpa using h)
        simp only [affected]
        omega

/-- Whether a file is modified and its write succeeds. -/
def saved (now : Disk) (r : FileReport) : Bool := r.modified && (r.save now).isOk

/-- What becomes of the report on a file when it is written. -/
structure Settles (now : Disk) (r r' : FileReport) : Prop where
  path : r'.path = r.path
  findings : r'.findings = r.findings
  kept : r'.kept = r.kept
  unmodified : r.modified = false → r' = r
  written : r.saved now → r' = r
  refused : r.modified → r.saved now = false → ∃ e,
    r' = { r.failed (.write r.path e) with modified := false, removed := 0, commented := 0 }

theorem saved_iff : r.saved d ↔ r.modified ∧ ∃ d', d.writeText r.path r.newContent = .ok d' := by
  rw [saved, save, Bool.and_eq_true]
  cases d.writeText r.path r.newContent <;> simp [Except.mapError, Except.isOk, Except.toBool]

theorem saved_iff_lands (hd : d.Proper) : r.saved d ↔ ∃ l, Lands d r l := by
  simp only [saved_iff, Disk.writeText_eq_ok_iff_landing? hd, Lands]
  grind

/-- Writing a file after others settles its report as if it was the first. -/
theorem settles_apply (hnow : now.Proper) (hover : now.Overwritten d) (hd : d.Proper)
    (r : FileReport) : Settles now r (apply d r).1 := by
  have hsaved : r.saved d ↔ r.saved now := by
    simp only [saved_iff_lands hd, saved_iff_lands hnow, Lands, hover.landing?_eq hnow]
  cases hmodified : r.modified with
  | false =>
    rw [apply_of_not_modified d hmodified]
    exact ⟨rfl, rfl, rfl, fun _ => rfl, fun _ => rfl, by simp [hmodified]⟩
  | true =>
    cases hwrite : d.writeText r.path r.newContent with
    | ok d' =>
      have hdone : r.saved now := hsaved.1 (saved_iff.2 ⟨hmodified, d', hwrite⟩)
      rw [apply_of_ok hmodified hwrite]
      exact ⟨rfl, rfl, rfl, fun _ => rfl, fun _ => rfl, by simp [hdone]⟩
    | error e =>
      have hrefused : ¬ r.saved now := fun h => by
        obtain ⟨-, d', hok⟩ := saved_iff.1 (hsaved.2 h)
        simp [hwrite] at hok
      rw [apply_of_error hmodified hwrite]
      exact ⟨rfl, rfl, rfl, by simp [hmodified], fun h => absurd h hrefused, fun _ _ => ⟨e, rfl⟩⟩

/-! ## Many files -/

/-- The modified files of the result are the files that could be written. -/
theorem filter_modified_of_settles {rs rs' : List FileReport}
    (h : List.Forall₂ (Settles now) rs rs') :
    rs'.filter (·.modified) = rs.filter (·.saved now) := by
  induction h with
  | nil => rfl
  | @cons r r' rs rs' hr _ ih =>
    cases hsaved : r.saved now with
    | true =>
      obtain rfl := hr.written hsaved
      have hmodified : r'.modified := (saved_iff.1 hsaved).1
      rw [List.filter_cons_of_pos hmodified, List.filter_cons_of_pos hsaved, ih]
    | false =>
      have hmodified : r'.modified = false := by
        cases hr' : r.modified with
        | false => rw [hr.unmodified hr', hr']
        | true =>
          obtain ⟨e, rfl⟩ := hr.refused hr' hsaved
          rfl
      rw [List.filter_cons_of_neg (by simp [hmodified]), List.filter_cons_of_neg (by simp [hsaved]),
        ih]

/-- Nothing is counted in the result for a file that is not modified. -/
theorem Settles.affected (h : Settles now r r') (hr : r.modified = false → r.affected = 0)
    (hr' : r'.modified = false) : r'.affected = 0 := by
  cases hmodified : r.modified with
  | false => rw [h.unmodified hmodified, hr hmodified]
  | true =>
    cases hsaved : r.saved now with
    | true => simp [h.written hsaved, hmodified] at hr'
    | false =>
      obtain ⟨e, rfl⟩ := h.refused hmodified hsaved
      rfl

end FileReport

/-- Writes to two paths, if they land anywhere, land at different places. -/
def Disk.LandApart (d : Disk) (p q : FilePath) : Prop :=
  ∀ l, d.landing? p = some l → d.landing? q ≠ some l

theorem Disk.LandApart.symm {d : Disk} {p q : FilePath} (h : d.LandApart p q) :
    d.LandApart q p := fun l hq hp => h l hp hq

/-- Paths of different files that lead where they did land apart. -/
theorem Workers.landApart_of_apart {d now : Disk} {p q : FilePath} (h : Workers.Apart d p q)
    (hp : ∀ l, now.landing? p = some l → d.fileAt? p = some l)
    (hq : ∀ l, now.landing? q = some l → d.fileAt? q = some l) : now.LandApart p q :=
  fun l hpl hql => h l (hp l hpl) (hq l hql)

namespace Workers

open FileReport

variable {d now now' now'' : Disk} {c : Config} {paths : List FilePath}
  {jobs jobs' before after : List Job}

/-! ## Workers -/

/-- How things stand after some steps that write what was scanned, given the disk at
the start. -/
structure Applying (d : Disk) (c : Config) (now now' : Disk) (jobs : List Job) : Prop where
  proper : now'.Proper
  overwritten : now.Overwritten now'
  stage : ∀ j ∈ jobs, j.stage = .scanned (FileReport.scan d c j.path)
    ∨ ∃ r', j.stage = .done r' ∧ Settles now (FileReport.scan d c j.path) r'
  written : ∀ j ∈ jobs, j.stage.report?.isSome → ∀ l, Lands now (FileReport.scan d c j.path) l →
    now'.look l = some (.file (now.written l (FileReport.scan d c j.path).newContent))
  other : ∀ l, (∀ j ∈ jobs, ¬ Lands now (FileReport.scan d c j.path) l) →
    now'.look l = now.look l

theorem applying_start (hnow : now.Proper) (d : Disk) (c : Config) (paths : List FilePath) :
    Applying d c now now (scanned (Report.scan d c paths).files) where
  proper := hnow
  overwritten := .refl now
  stage j hj := by
    obtain ⟨r, hr, rfl⟩ := List.mem_map.1 hj
    obtain ⟨p, -, rfl⟩ := List.mem_map.1 hr
    exact .inl (congrArg Stage.scanned (by rw [path_scan]))
  written j hj hdone := by
    obtain ⟨r, -, rfl⟩ := List.mem_map.1 hj
    simp [Stage.report?] at hdone
  other _ _ := rfl

/-- Writing one file keeps what was written before. -/
theorem Applying.finish {r : FileReport}
    (h : Applying d c now now' (before ++ ⟨p, .scanned r⟩ :: after)) (hnow : now.Proper)
    (hapart : ((before ++ ⟨p, .scanned r⟩ :: after).map (·.path)).Pairwise now.LandApart) :
    Applying d c now (FileReport.apply now' r).2
      (before ++ ⟨p, .done (FileReport.apply now' r).1⟩ :: after) := by
  obtain rfl : r = FileReport.scan d c p := by
    simpa using h.stage ⟨p, .scanned r⟩ (mem_middle_iff.2 (.inl rfl))
  have hlook := finishes_apply.look hnow h.overwritten h.proper (FileReport.scan d c p)
  have hpairs : (before ++ ⟨p, .scanned (FileReport.scan d c p)⟩ :: after).Pairwise
      fun j k => now.LandApart j.path k.path := List.pairwise_map.1 hapart
  refine ⟨finishes_apply.proper h.proper _,
    h.overwritten.trans (finishes_apply.overwritten h.proper _), fun k hk => ?_,
    fun k hk hdone l hkl => ?_, fun l hl => ?_⟩
  · obtain rfl | hk := mem_middle_iff.1 hk
    · exact .inr ⟨_, rfl, settles_apply hnow h.overwritten h.proper _⟩
    · exact h.stage k (mem_middle_iff.2 (.inr hk))
  · obtain rfl | hk := mem_middle_iff.1 hk
    · rw [hlook, if_pos hkl]
    · -- the file of another job is another one
      have hother : ¬ Lands now (FileReport.scan d c p) l := fun hlands => by
        have hkp : now.LandApart k.path p :=
          rel_of_pairwise_middle Disk.LandApart.symm hpairs hk
        have hkland := hkl.2
        have hpland := hlands.2
        rw [path_scan] at hkland hpland
        exact hkp l hkland hpland
      rw [hlook, if_neg hother]
      exact h.written k (mem_middle_iff.2 (.inr hk)) hdone l hkl
  · rw [hlook, if_neg (hl ⟨p, .done _⟩ (mem_middle_iff.2 (.inl rfl)))]
    exact h.other l (forall_path_middle (P := fun q => ¬ Lands now (FileReport.scan d c q) l) hl)

/-- There is nothing left to scan, so every step writes a file. -/
theorem Applying.step (h : Applying d c now now' jobs) (hnow : now.Proper)
    (hapart : (jobs.map (·.path)).Pairwise now.LandApart)
    (hstep : Step c FileReport.apply now' jobs now'' jobs') : Applying d c now now'' jobs' := by
  cases hstep with
  | scan before p after =>
    have hstage := h.stage ⟨p, .waiting⟩ (mem_middle_iff.2 (.inl rfl))
    simp at hstage
  | finish before p r after => exact h.finish hnow hapart

theorem Applying.runs (h : Applying d c now now' jobs) (hnow : now.Proper)
    (hapart : (jobs.map (·.path)).Pairwise now.LandApart)
    (hruns : Runs c FileReport.apply now' jobs now'' jobs') :
    Applying d c now now'' jobs' ∧ jobs'.map (·.path) = jobs.map (·.path) := by
  induction hruns with
  | refl _ jobs => exact ⟨h, rfl⟩
  | step first rest ih =>
    obtain ⟨happlying, hpaths⟩ :=
      ih (h.step hnow hapart first) (first.map_path ▸ hapart)
    exact ⟨happlying, hpaths.trans first.map_path⟩

/-! ## Runs that are through -/

/-- What became of a scan that was written on a disk. -/
structure Applied (now : Disk) (scan : Report) (now' : Disk) (result : Report) : Prop where
  settles : List.Forall₂ (Settles now) scan.files result.files
  modifiedFiles : result.modifiedFiles = scan.files.filter (·.saved now)
  removed : result.removed = (result.modifiedFiles.map (·.removed)).sum
  commented : result.commented = (result.modifiedFiles.map (·.commented)).sum
  modified : result.modified = result.modifiedFiles.length
  /-- Each of the modified files has a location of its own, where it holds its new
  content; at all others nothing has changed. -/
  places : ∃ ls : List Location, ls.Nodup ∧
    List.Forall₂ (fun r l => now.landing? r.path = some l
      ∧ now'.look l = some (.file (now.written l r.newContent))) result.modifiedFiles ls ∧
    ∀ l, l ∉ ls → now'.look l = now.look l

theorem Applying.settles (h : Applying d c now now' jobs) (hthrough : Through jobs) :
    List.Forall₂ (Settles now) ((jobs.map (·.path)).map (FileReport.scan d c)) (reports jobs) := by
  have hjobs : ∀ j ∈ jobs, ∃ r', j.stage.report? = some r'
      ∧ Settles now (FileReport.scan d c j.path) r' := by
    intro j hj
    obtain hstage | ⟨r', hstage, hsettles⟩ := h.stage j hj
    · simpa [hstage, Stage.report?] using hthrough j hj
    · exact ⟨r', by rw [hstage, Stage.report?], hsettles⟩
  rw [List.map_map, List.forall₂_map_left_iff]
  exact forall₂_filterMap hjobs

/-- The files that could be written hold their new contents, and nothing else has
changed. -/
theorem Applying.places (h : Applying d c now now' jobs) (hnow : now.Proper)
    (hthrough : Through jobs) (hapart : (jobs.map (·.path)).Pairwise now.LandApart) :
    ∃ ls : List Location, ls.Nodup ∧
      List.Forall₂ (fun r l => now.landing? r.path = some l
          ∧ now'.look l = some (.file (now.written l r.newContent)))
        (((jobs.map (·.path)).map (FileReport.scan d c)).filter (·.saved now)) ls ∧
      ∀ l, l ∉ ls → now'.look l = now.look l := by
  have hlands : ∀ r ∈ ((jobs.map (·.path)).map (FileReport.scan d c)).filter (·.saved now),
      ∃ l, now.landing? r.path = some l
        ∧ (now.landing? r.path = some l
          ∧ now'.look l = some (.file (now.written l r.newContent))) := by
    intro r hr
    obtain ⟨hr, hsaved⟩ := List.mem_filter.1 hr
    rw [List.map_map] at hr
    obtain ⟨j, hj, rfl⟩ := List.mem_map.1 hr
    obtain ⟨l, hl⟩ := (saved_iff_lands hnow).1 hsaved
    exact ⟨l, hl.2, hl.2, h.written j hj (hthrough j hj) l hl⟩
  refine ⟨_, ?_, forall₂_filterMap hlands, fun l hl => h.other l fun j hj hjl => hl ?_⟩
  · have hpaths : ((jobs.map (·.path)).map (FileReport.scan d c)).Pairwise
        fun r r' => now.LandApart r.path r'.path := by
      simpa [List.pairwise_map] using hapart
    refine List.pairwise_filterMap.2 ((hpaths.filter _).imp fun hrr' l hl l' hl' heq => ?_)
    exact hrr' l hl (heq ▸ hl')
  · refine List.mem_filterMap.2 ⟨FileReport.scan d c j.path, List.mem_filter.2 ⟨?_, ?_⟩, hjl.2⟩
    · exact List.mem_map_of_mem (List.mem_map_of_mem hj)
    · exact (saved_iff_lands hnow).2 ⟨l, hjl⟩

theorem Applying.applied (h : Applying d c now now' jobs) (hnow : now.Proper)
    (hthrough : Through jobs) (hpaths : jobs.map (·.path) = paths)
    (hapart : paths.Pairwise now.LandApart) (elapsedMs : Nat) :
    Applied now (Report.scan d c paths) now' (Report.ofFiles (reports jobs) elapsedMs) := by
  subst hpaths
  have hsettles := h.settles hthrough
  have hmodified := filter_modified_of_settles hsettles
  -- what is not modified counts for nothing
  have haffected : ∀ r' ∈ reports jobs, r'.modified = false → r'.affected = 0 := by
    intro r' hr' hnot
    obtain ⟨r, hr, hsettle⟩ := exists_of_forall₂_right hsettles hr'
    obtain ⟨p, -, rfl⟩ := List.mem_map.1 hr
    exact hsettle.affected affected_of_not_modified hnot
  refine ⟨hsettles, hmodified, ?_, ?_, rfl, ?_⟩
  · refine Report.total_eq_sum_filter fun r' hr' hnot => ?_
    exact (Nat.add_eq_zero_iff.1 (haffected r' hr' hnot)).1
  · refine Report.total_eq_sum_filter fun r' hr' hnot => ?_
    exact (Nat.add_eq_zero_iff.1 (haffected r' hr' hnot)).2
  · have hfiles : (Report.ofFiles (reports jobs) elapsedMs).modifiedFiles = _ := hmodified
    rw [hfiles]
    exact h.places hnow hthrough hapart

/-- The directory of two files that print, after the second one has been changed. -/
def halfChanged : Disk where
  root := .file "a.py" { bytes := "print(1)\n".toUTF8, writable := false }
    (.file "b.py" { bytes := "run()\n".toUTF8 } .empty)

theorem proper_halfChanged : halfChanged.Proper := ⟨by decide, by decide⟩

theorem landing?_halfChanged : halfChanged.landing? ⟨"a.py"⟩ = none ∧
    halfChanged.landing? ⟨"b.py"⟩ = some ["b.py"] := by decide

theorem newContent_halfWritable :
    (FileReport.scan halfWritable { mode := .delete } ⟨"b.py"⟩).newContent = [] := by
  cbv

theorem counts_halfWritable :
    (FileReport.scan halfWritable { mode := .delete } ⟨"b.py"⟩).removed = 1 ∧
      (FileReport.scan halfWritable { mode := .delete } ⟨"b.py"⟩).commented = 0 := by
  constructor <;> cbv

theorem saved_halfChanged :
    (FileReport.scan halfWritable { mode := .delete } ⟨"a.py"⟩).saved halfChanged = false ∧
      (FileReport.scan halfWritable { mode := .delete } ⟨"b.py"⟩).saved halfChanged := by
  rw [← Bool.not_eq_true, saved_iff_lands proper_halfChanged, saved_iff_lands proper_halfChanged]
  simp [Lands, landing?_halfChanged, modified_halfWritable]

end Workers
end LogPrune
