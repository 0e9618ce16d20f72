import LogPrune.Proofs.Disk.Spelling
import LogPrune.Proofs.Scan
import LogPrune.Proofs.Sources
import LogPrune.Proofs.Undo
import Mathlib.Data.List.Pairwise

/-!
# LogPrune.Proofs.Sources.Once

When a file is found only once.

Paths are compared as they are spelled from the paths to search, so a file that
is found from two of these can come twice.  It comes once if the path to search
that is at or below the other one is spelled as that one, with the names between
them behind it (`SpelledAlike`), and only then (`found_once_iff`).  If every file
comes once, it has one report and at most one entry in the journal; a directory
and a file in it may come twice (`found_twice`).
-/

namespace LogPrune

/-- Two paths lead to the same file. -/
def Disk.SameFile (d : Disk) (p q : FilePath) : Prop := ∃ l, d.LeadsTo p l ∧ d.LeadsTo q l

theorem Disk.SameFile.symm {d : Disk} {p q : FilePath} (h : d.SameFile p q) : d.SameFile q p := by
  obtain ⟨l, hp, hq⟩ := h
  exact ⟨l, hq, hp⟩

/-- Where the second of two paths to search leads to where the first does or below
it, it is spelled as the first with the names between them behind it, or no file
is eligible for both. -/
def SpelledAlike (d : Disk) (c : Config) (e : Exclusion) (r r' : FilePath) : Prop :=
  ∀ l between, d.LeadsTo r l → d.LeadsTo r' (l ++ between) →
    r'.components = r.components ++ between.map .name ∨
      ∀ p q, Eligible d c e r p → Eligible d c e r' q → ¬ d.SameFile p q

section
variable {d : Disk} {c : Config} {e : Exclusion} {p q r r' : FilePath} {roots : List FilePath}

/-! ## Files and their spellings -/

/-- An eligible file is spelled as the path to search, with names behind it that
lead to it from there. -/
theorem leadsTo_of_eligible (hd : d.Plain) (h : Eligible d c e r q) :
    ∃ l names, d.LeadsTo r l ∧ q = r.descend names ∧ d.LeadsTo q (l ++ names)
      ∧ q.components = r.components ++ names.map .name := by
  obtain @⟨l, data, hfile, -⟩ | @⟨l, entries, names, data, hdir, hfile, -, -, -⟩ := h
  · have hr := Disk.leadsTo_of_locate ((Disk.stat_eq_ok_iff hd).1 hfile).1
    exact ⟨l, [], hr, rfl, by simpa using hr, by simp⟩
  · have hlocate := ((Disk.stat_eq_ok_iff hd).1 hdir).1
    have hr := Disk.leadsTo_of_locate hlocate
    have hlook : d.look (l ++ names) ≠ none := by simp [hfile]
    have hnames : ∀ n ∈ names, Dir.isName n := fun n hn =>
      Disk.isName_of_look hd hlook n (List.mem_append_right l hn)
    exact ⟨l, names, hr, rfl, hr.descend hd (Disk.locate_eq_ok_iff.1 hlocate).2.1 hlook,
      Disk.components_descend r hnames⟩

/-- Paths to search that are spelled alike spell a file alike. -/
theorem components_eq_of_spelledAlike (hd : d.Plain) (hp : Eligible d c e r p)
    (hq : Eligible d c e r' q) (halike : SpelledAlike d c e r r') (halike' : SpelledAlike d c e r' r)
    (hsame : d.SameFile p q) : p.components = q.components := by
  obtain ⟨l, names, hr, -, hpl, hpc⟩ := leadsTo_of_eligible hd hp
  obtain ⟨l', names', hr', -, hql, hqc⟩ := leadsTo_of_eligible hd hq
  obtain ⟨l₀, hpl₀, hql₀⟩ := hsame
  have hlocation : l ++ names = l' ++ names' := (hpl.unique hpl₀).trans (hql₀.unique hql)
  obtain ⟨between, rfl, rfl⟩ | ⟨between, rfl, rfl⟩ := List.append_eq_append_iff.1 hlocation
  · obtain hspelled | hnone := halike l between hr hr'
    · rw [hpc, hqc, hspelled]
      simp
    · exact absurd ⟨l₀, hpl₀, hql₀⟩ (hnone p q hp hq)
  · obtain hspelled | hnone := halike' l' between hr' hr
    · rw [hpc, hqc, hspelled]
      simp
    · exact absurd ⟨l₀, hql₀, hpl₀⟩ (hnone q p hq hp)

/-- Paths to search that spell every file alike are spelled alike. -/
theorem spelledAlike_of_components_eq (hd : d.Plain)
    (h : ∀ p q, Eligible d c e r p → Eligible d c e r' q → d.SameFile p q →
      p.components = q.components) : SpelledAlike d c e r r' := by
  intro l between hr hr'
  by_cases hnone : ∀ p q, Eligible d c e r p → Eligible d c e r' q → ¬ d.SameFile p q
  · exact .inr hnone
  simp only [not_forall, not_not] at hnone
  obtain ⟨p, q, hp, hq, hsame⟩ := hnone
  have hcomponents := h p q hp hq hsame
  obtain ⟨l₁, names, hr₁, -, hpl, hpc⟩ := leadsTo_of_eligible hd hp
  obtain ⟨l₂, names', hr₂, -, hql, hqc⟩ := leadsTo_of_eligible hd hq
  obtain rfl := hr.unique hr₁
  obtain rfl := hr'.unique hr₂
  obtain ⟨l₀, hpl₀, hql₀⟩ := hsame
  have hlocation : l ++ names = l ++ (between ++ names') := by
    rw [← List.append_assoc]
    exact (hpl.unique hpl₀).trans (hql₀.unique hql)
  obtain rfl := List.append_cancel_left hlocation
  rw [hpc, hqc, List.map_append, ← List.append_assoc] at hcomponents
  exact .inl (List.append_cancel_right hcomponents).symm

/-! ## Reports and entries -/

theorem absolutePath_injective {l l' : Location} (hl : ∀ n ∈ l, Dir.isName n)
    (hl' : ∀ n ∈ l', Dir.isName n) (h : Disk.absolutePath l = Disk.absolutePath l') : l = l' := by
  have hsteps : ∀ {l : Location}, l ≠ [] → (∀ n ∈ l, Dir.isName n) →
      Disk.steps (Disk.absolutePath l) = l := fun hne hl =>
    FilePath.steps_absolutePath hne (fun n hn => (Dir.isName_iff.1 (hl n hn)).1)
      fun n hn => (Dir.isName_iff.1 (hl n hn)).2.2.2.2.1
  have hroot : ∀ {l : Location}, (∀ n ∈ l, Dir.isName n) →
      Disk.absolutePath l = Disk.absolutePath [] → l = [] := by
    intro l hl h
    by_contra hne
    have hdot : l = ["."] := by
      rw [← hsteps hne hl, h]
      decide
    exact (Dir.isName_iff.1 (hl "." (by simp [hdot]))).2.1 rfl
  by_cases hne : l = []
  · subst hne
    exact (hroot hl' h.symm).symm
  by_cases hne' : l' = []
  · subst hne'
    exact hroot hl h
  rw [← hsteps hne hl, h, hsteps hne' hl']

theorem leadsTo_of_realPath (hd : d.Plain) (h : d.realPath p = .ok q) :
    ∃ l, d.LeadsTo p l ∧ q = Disk.absolutePath l ∧ ∀ n ∈ l, Dir.isName n := by
  obtain ⟨l, hlocate, hq, -⟩ := Disk.realPath_eq_ok hd h
  refine ⟨l, Disk.leadsTo_of_locate hlocate, hq, ?_⟩
  obtain hdir | ⟨above, s, rfl, habove, -, hs⟩ := Disk.locate_cases hd hlocate
  · exact Disk.isName_of_look hd (by simp [hdir])
  · have hnames := Disk.isName_of_look hd (l := above) (by simp [habove])
    simpa [or_imp, forall_and] using ⟨hnames, hs⟩

/-- The entries for files that are apart have different paths. -/
theorem nodup_journalEntries (hd : d.Plain) {report : Report}
    (hfiles : report.files.Pairwise fun f g => ¬ d.SameFile f.path g.path)
    (h : report.journalEntries d = .ok entries) : (entries.map (·.path)).Nodup := by
  have hmap := map_eq_of_mapM h
  have hapart : (report.modifiedFiles.map fun f =>
      JournalEntry.forFile d f.path f.oldContent f.newContent).Pairwise
        fun x y => ∀ e e', x = .ok e → y = .ok e' → e.path ≠ e'.path := by
    refine List.pairwise_map.2 ((hfiles.sublist List.filter_sublist).imp ?_)
    intro f g hapart e e' hf hg heq
    obtain ⟨l, hl, hpath, hnames⟩ :=
      leadsTo_of_realPath hd (JournalEntry.records_forFile hf).realPath
    obtain ⟨l', hl', hpath', hnames'⟩ :=
      leadsTo_of_realPath hd (JournalEntry.records_forFile hg).realPath
    obtain rfl := absolutePath_injective hnames hnames' (by rw [← hpath, ← hpath', heq])
    exact hapart ⟨l, hl, hl'⟩
  rw [hmap, List.pairwise_map] at hapart
  exact List.pairwise_map.2 (hapart.imp fun hne => hne _ _ rfl rfl)

/-! ## Searching -/

/-- **Found once**: the files that are found are different files just where any
two of the paths to search are spelled alike.  Then every file has one report, and
the journal has one entry for each. -/
theorem found_once_iff (hd : d.Plain) (hc : c.exclusion = .ok e)
    (hroots : ∀ r ∈ roots, d.hasNode r ∧ Readable d e r) :
    ∃ files, findSources d c roots = .ok files ∧
      (files.Pairwise (fun p q => ¬ d.SameFile p q)
        ↔ ∀ r ∈ roots, ∀ r' ∈ roots, SpelledAlike d c e r r') ∧
      (files.Pairwise (fun p q => ¬ d.SameFile p q) →
        (Report.scan d c files).files.Pairwise (fun f g => ¬ d.SameFile f.path g.path) ∧
        ∀ entries, (Report.scan d c files).journalEntries d = .ok entries →
          (entries.map (·.path)).Nodup) := by
  obtain ⟨files, hfiles, hsorted, hsound, hcomplete⟩ := findSources_sorted hd hc hroots
  refine ⟨files, hfiles, ⟨fun hapart r hr r' hr' => ?_, fun halike => ?_⟩, fun hapart => ?_⟩
  · refine spelledAlike_of_components_eq hd fun p q hp hq hsame => ?_
    obtain ⟨p', hp', hpp⟩ := hcomplete r hr p hp
    obtain ⟨q', hq', hqq⟩ := hcomplete r' hr' q hq
    obtain ⟨l, hpl, hql⟩ := hsame
    -- Their spellings in the list lead where they do.
    have hleads : ∀ {p p'}, d.LeadsTo p l → p' ∈ files → p'.same p → d.LeadsTo p' l := by
      intro p p' hl hp' hpp
      obtain ⟨r₀, -, hp₀⟩ := hsound p' hp'
      obtain ⟨l₀, names, -, -, hl₀, -⟩ := leadsTo_of_eligible hd hp₀
      exact hl.unique_of_same hl₀ (FilePath.same_iff.1 hpp).symm ▸ hl₀
    have hsame' : d.SameFile p' q' := ⟨l, hleads hpl hp' hpp, hleads hql hq' hqq⟩
    have heq : p' = q' := by
      by_contra hne
      have hsymm : Std.Symm fun p q => ¬ d.SameFile p q := ⟨fun _ _ h hsame => h hsame.symm⟩
      exact hapart.forall hp' hq' hne hsame'
    rw [← FilePath.same_iff.1 hpp, ← FilePath.same_iff.1 hqq, heq]
  · refine hsorted.imp_of_mem fun {p q} hp hq hstrict hsame => hstrict.2 ?_
    obtain ⟨r, hr, hpe⟩ := hsound p hp
    obtain ⟨r', hr', hqe⟩ := hsound q hq
    exact FilePath.same_iff.2
      (components_eq_of_spelledAlike hd hpe hqe (halike r hr r' hr') (halike r' hr' r hr) hsame)
  · have hreports : (Report.scan d c files).files.Pairwise
        fun f g => ¬ d.SameFile f.path g.path := by
      refine List.pairwise_map.2 (hapart.imp fun h => ?_)
      rwa [FileReport.path_scan, FileReport.path_scan]
    exact ⟨hreports, fun entries hentries => nodup_journalEntries hd hreports hentries⟩

end

/-! ## Trees with a file that is named -/

/-- A file that is named, and a directory above it that is spelled as its path
is. -/
theorem found_once_iff_built :
    ∃ e files, ({} : Config).exclusion = .ok e ∧
      findSources builtTree {} [⟨"src"⟩, ⟨"src/dist/b.py"⟩] = .ok files ∧
      files.Pairwise (fun p q => ¬ builtTree.SameFile p q) := by
  obtain ⟨e, he⟩ := exists_exclusion_default
  obtain ⟨files, hfiles, honce, -⟩ := found_once_iff plain_builtTree he (readable_builtTree e)
  have hsrc : builtTree.LeadsTo ⟨"src"⟩ ["src"] := by
    rw [Disk.LeadsTo]
    decide
  have hbuilt : builtTree.LeadsTo ⟨"src/dist/b.py"⟩ ["src", "dist", "b.py"] := by
    rw [Disk.LeadsTo]
    decide
  refine ⟨e, files, he, hfiles, honce.2 fun r hr r' hr' l between hl hl' => .inl ?_⟩
  have hroot : ∀ r ∈ [⟨"src"⟩, ⟨"src/dist/b.py"⟩], ∀ l, builtTree.LeadsTo r l →
      r.components = l.map .name := by
    intro r hr l hl
    obtain rfl | rfl : r = ⟨"src"⟩ ∨ r = ⟨"src/dist/b.py"⟩ := by simpa using hr
    · rw [← hsrc.unique hl]
      decide
    · rw [← hbuilt.unique hl]
      decide
  rw [hroot r hr l hl, hroot r' hr' _ hl', List.map_append]

/-- A directory with one file. -/
def onePrint : Disk := { root := .file "a.py" { bytes := "print(1)\n".toUTF8 } .empty }

/-- A file that is named, and its directory: the file is found, reported and
recorded twice. -/
theorem found_twice :
    findSources onePrint { mode := .delete } [⟨"."⟩, ⟨"a.py"⟩] = .ok [⟨"./a.py"⟩, ⟨"a.py"⟩] ∧
      onePrint.SameFile ⟨"./a.py"⟩ ⟨"a.py"⟩ ∧
      (Report.scan onePrint { mode := .delete } [⟨"./a.py"⟩, ⟨"a.py"⟩]).modified = 2 ∧
      ∃ entries, (Report.scan onePrint { mode := .delete }
          [⟨"./a.py"⟩, ⟨"a.py"⟩]).journalEntries onePrint = .ok entries ∧
        entries.map (·.path) = [⟨"/a.py"⟩, ⟨"/a.py"⟩] := by
  obtain ⟨e, he⟩ := exists_exclusion_default
  have hmode : ({ mode := .delete } : Config).exclusion = .ok e := he
  have hfound : (({} : Config).exclusion.bind fun e =>
      ([⟨"."⟩, ⟨"a.py"⟩] : List FilePath).mapM (sourcesBelow onePrint { mode := .delete } e))
      = .ok [[⟨"./a.py"⟩], [⟨"a.py"⟩]] := by
    decide +kernel
  rw [he, Except.bind] at hfound
  have hsorted : List.mergeSort [⟨"./a.py"⟩, ⟨"a.py"⟩] FilePath.le = [⟨"./a.py"⟩, ⟨"a.py"⟩] :=
    List.mergeSort_of_pairwise (by decide)
  have hpaths : ((Report.scan onePrint { mode := .delete }
      [⟨"./a.py"⟩, ⟨"a.py"⟩]).journalEntries onePrint).map (fun es => es.map (·.path))
      = .ok [⟨"/a.py"⟩, ⟨"/a.py"⟩] := by
    decide +kernel
  refine ⟨?_, ⟨["a.py"], ?_, ?_⟩, by decide +kernel, ?_⟩
  · rw [findSources, hmode]
    simp only [bind, Except.bind, hfound, List.flatten_cons, List.flatten_nil, List.cons_append,
      List.nil_append, hsorted]
    decide
  · rw [Disk.LeadsTo]
    decide
  · rw [Disk.LeadsTo]
    decide
  · cases hentries : (Report.scan onePrint { mode := .delete }
        [⟨"./a.py"⟩, ⟨"a.py"⟩]).journalEntries onePrint with
    | error cause => simp [hentries, Except.map] at hpaths
    | ok entries => exact ⟨entries, rfl, by simpa [hentries, Except.map] using hpaths⟩

end LogPrune
