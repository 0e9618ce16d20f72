import LogPrune.Proofs.Glob.Directory
import LogPrune.Proofs.Sources
import LogPrune.Proofs.Undo

/-!
# LogPrune.Proofs.Sources.Pruning

Passing over excluded directories loses no file.

1. If the globs are of all that is in directories of some names, a directory is
   passed over just where everything in it is excluded anyway (`excludes_descend`).
   So a file that is not excluded is reached (`reached_of_not_excludes`).
2. A search does not fail just if the directories that it enters can be opened
   (`opens_of_filesIn`, `findSources_ok_iff`).
3. So what is found are all files below the paths that are not excluded and whose
   language is enabled (`findSources_unpruned`).
-/

namespace LogPrune

/-! ## Directories that are passed over -/

namespace FilePath

theorem withSlashes_append (s t : String) :
    (⟨s ++ t⟩ : FilePath).withSlashes = (⟨s⟩ : FilePath).withSlashes
      ++ (⟨t⟩ : FilePath).withSlashes := by
  simp [withSlashes, String.ofList_append]

theorem withSlashes_slash : (⟨"/"⟩ : FilePath).withSlashes = "/" := by decide

/-- The path of an entry is that of its directory with a slash and a name behind it;
there is no other slash if the path of the directory is empty or ends in one. -/
theorem withSlashes_child (p : FilePath) (hslash : '/' ∉ name.toList) :
    ((p.withSlashes = "" ∨ ∃ s, p.withSlashes = s ++ "/")
      ∧ (p.child name).withSlashes = p.withSlashes ++ (⟨name⟩ : FilePath).withSlashes)
    ∨ (p.child name).withSlashes = p.withSlashes ++ "/" ++ (⟨name⟩ : FilePath).withSlashes := by
  unfold child join
  rw [isAbsolute_of_name hslash, if_neg Bool.false_ne_true]
  split
  · next hend =>
    refine .inl ⟨?_, withSlashes_append p.text name⟩
    obtain hnil | hlast : p.text = "" ∨ p.text.toList.getLast? = some '/' := by simpa using hend
    · exact .inl (by simp [withSlashes, hnil])
    · obtain ⟨front, hfront⟩ := List.getLast?_eq_some_iff.1 hlast
      refine .inr ⟨(⟨String.ofList front⟩ : FilePath).withSlashes, ?_⟩
      simp [withSlashes, hfront, String.ofList_append]
  · right
    rw [withSlashes_append, withSlashes_append, withSlashes_slash]

theorem descend_append (p : FilePath) (above below : List String) :
    p.descend (above ++ below) = (p.descend above).descend below := List.foldl_append

end FilePath

namespace Exclusion

/-- Leaving out all that is in directories of some names. -/
def ofDirectories (names : List String) : Exclusion := ⟨names.map Glob.directory⟩

variable {names : List String} {p : FilePath}

theorem parse_directories (h : ∀ n ∈ names, Glob.IsLiteral n) :
    parse (names.map Glob.directoryText) = .ok (ofDirectories names) := by
  induction names with
  | nil => rfl
  | cons n names ih =>
    obtain ⟨hn, hnames⟩ := List.forall_mem_cons.1 h
    rw [List.map_cons, parse, Glob.parse_directoryText hn]
    simp only [ih hnames]
    rfl

theorem matchesText_ofDirectories {text : String} :
    (ofDirectories names).matchesText text
      ↔ ∃ n ∈ names, (Glob.directory n).matchesText text := by
  simp [matchesText, ofDirectories]

theorem excludesDir_iff : (ofDirectories names).excludesDir p ↔ ∃ n ∈ names,
    (Glob.directory n).matchesText p.withSlashes
      ∨ (Glob.directory n).matchesText (p.withSlashes ++ "/") := by
  simp only [excludesDir, Bool.or_eq_true, matchesText_ofDirectories]
  grind

/-- A directory that is excluded as a file would be is passed over. -/
theorem excludesDir_of_excludes {e : Exclusion} (h : e.excludes p) : e.excludesDir p := by
  rw [excludes] at h
  rw [excludesDir, h, Bool.true_or]

/-- The entries of a directory that is passed over are excluded. -/
theorem excludes_child (h : ∀ n ∈ names, Glob.IsLiteral n) (hslash : '/' ∉ m.toList)
    (hp : (ofDirectories names).excludesDir p) : (ofDirectories names).excludes (p.child m) := by
  obtain ⟨n, hn, hmatch⟩ := excludesDir_iff.1 hp
  refine matchesText_ofDirectories.2 ⟨n, hn, ?_⟩
  obtain ⟨hend, hchild⟩ | hchild := p.withSlashes_child hslash
  · rw [hchild]
    exact Glob.matchesText_append
      (hmatch.elim id (Glob.matchesText_of_append_slash (h n hn) hend)) _
  · rw [hchild]
    exact Glob.matchesText_append (hmatch.elim (Glob.matchesText_append · "/") id) _

/-- So is everything below it. -/
theorem excludes_descend (h : ∀ n ∈ names, Glob.IsLiteral n) {below : List String}
    (hbelow : ∀ m ∈ below, Dir.isName m) (hne : below ≠ [])
    (hp : (ofDirectories names).excludesDir p) :
    (ofDirectories names).excludes (p.descend below) := by
  induction below generalizing p with
  | nil => contradiction
  | cons m below ih =>
    obtain ⟨hm, hbelow⟩ := List.forall_mem_cons.1 hbelow
    have hchild := excludes_child h (Dir.isName_iff.1 hm).2.2.2.2.1 hp
    by_cases hnil : below = []
    · subst hnil
      exact hchild
    · exact ih hbelow hnil (excludesDir_of_excludes hchild)

/-- **No file is lost**: a file that is not excluded is in no directory that is passed
over. -/
theorem reached_of_not_excludes (h : ∀ n ∈ names, Glob.IsLiteral n) {below : List String}
    (hbelow : ∀ m ∈ below, Dir.isName m)
    (hkept : (ofDirectories names).excludes (p.descend below) = false) :
    Reached (ofDirectories names).excludesDir p below := by
  rintro above ⟨rest, rfl⟩ hne
  have hrest : rest ≠ [] := by
    rintro rfl
    simp at hne
  rw [FilePath.descend_append] at hkept
  by_contra hpass
  have hexcluded := excludes_descend h
    (fun m hm => hbelow m (List.mem_append_right above hm)) hrest (by simpa using hpass)
  simp [hkept] at hexcluded

/-- A path with one of the names before its last segment is excluded. -/
theorem not_mem_segments (h : ∀ n ∈ names, Glob.IsLiteral n)
    (hkept : (ofDirectories names).excludes p = false) :
    ∀ n ∈ names, n ∉ p.segments.dropLast := by
  intro n hn hsegment
  have hexcluded : (ofDirectories names).excludes p :=
    matchesText_ofDirectories.2 ⟨n, hn, Glob.matchesText_withSlashes (h n hn) hsegment⟩
  simp [hkept] at hexcluded

end Exclusion

/-! ## Searches that fail -/

/-- Of two steps that do not fail the first one does not fail. -/
theorem exists_of_bind_eq_ok {x : Except ε α} {f : α → Except ε β} (h : x >>= f = .ok b) :
    ∃ a, x = .ok a ∧ f a = .ok b := by
  cases x with
  | error cause => simp [bind, Except.bind] at h
  | ok a => exact ⟨a, rfl, h⟩

theorem Dir.opens_cons {passOver : FilePath → Bool} {p : FilePath} (node : Node) {rest : Dir}
    (hnode : ∀ l, node.look l = some .dir → Reached passOver (p.child n) l →
      passOver ((p.child n).descend l) = false →
      ((p.child n).descend l).text.utf8ByteSize < Disk.pathLimit)
    (hrest : Opens passOver p rest) : Opens passOver p (cons n node rest) := by
  intro m l hlook
  rw [look_cons_cons] at hlook
  split at hlook
  · next hm =>
    subst hm
    exact hnode l hlook
  · exact hrest m l hlook

/-- A search that does not fail has searched the directories on its way that it does not
pass over, and what stands beside them. -/
theorem Disk.filesIn_dir_eq_ok {passOver : FilePath → Bool} {p : FilePath} {n : String}
    {entries rest : Dir} (h : filesIn passOver p (.dir n entries rest) = .ok files) :
    (passOver (p.child n) = false → (p.child n).text.utf8ByteSize < pathLimit ∧
      ∃ below, filesIn passOver (p.child n) entries = .ok below) ∧
    ∃ found, filesIn passOver p rest = .ok found := by
  rw [filesIn] at h
  split at h
  · next hpass =>
    obtain ⟨_, _, hthen⟩ := exists_of_bind_eq_ok h
    obtain ⟨found, hrest, -⟩ := exists_of_bind_eq_ok hthen
    exact ⟨by simp [hpass], found, hrest⟩
  · split at h
    · contradiction
    · next hshort =>
      obtain ⟨below, hbelow, hthen⟩ := exists_of_bind_eq_ok h
      obtain ⟨found, hrest, -⟩ := exists_of_bind_eq_ok hthen
      exact ⟨fun _ => ⟨Nat.not_le.1 hshort, below, hbelow⟩, found, hrest⟩

/-- A search that does not fail has opened the directories that it enters. -/
theorem Disk.opens_of_filesIn {passOver : FilePath → Bool} {p : FilePath} {d : Dir}
    (h : filesIn passOver p d = .ok files) : d.Opens passOver p := by
  induction d generalizing p files with
  | empty =>
    intro n l hlook
    simp [Dir.look_cons, Dir.find?] at hlook
  | file n data rest ih =>
    obtain ⟨found, hrest, -⟩ := exists_of_bind_eq_ok h
    refine Dir.opens_cons (.file data) (fun l hlook => ?_) (ih hrest)
    obtain rfl | hl := eq_or_ne l []
    · simp at hlook
    · simp [Node.look_below_file data hl] at hlook
  | link n target rest ih =>
    refine Dir.opens_cons (.link target) (fun l hlook => ?_) (ih h)
    obtain rfl | hl := eq_or_ne l []
    · simp at hlook
    · simp [Node.look_below_link target hl] at hlook
  | dir n entries rest ihentries ih =>
    obtain ⟨hentries, found, hrest⟩ := filesIn_dir_eq_ok h
    refine Dir.opens_cons (.dir entries) (fun l hlook hreached hpass => ?_) (ih hrest)
    obtain _ | ⟨m, l⟩ := l
    · exact (hentries hpass).1
    · obtain ⟨hfirst, hreached⟩ := reached_cons.1 hreached
      obtain ⟨-, below, hbelow⟩ := hentries hfirst
      exact ihentries hbelow m l hlook hreached hpass

section
variable {d : Disk} {c : Config} {e : Exclusion} {r : FilePath} {roots : List FilePath}

theorem stat_of_hasDir (h : d.hasDir r) : ∃ l entries, d.stat r = .ok (l, .dir entries) := by
  unfold Disk.hasDir at h
  split at h
  · next l entries hstat => exact ⟨l, entries, hstat⟩
  · contradiction

theorem hasNode_of_hasDir (h : d.hasDir r) : d.hasNode r := by
  obtain ⟨l, entries, hstat⟩ := stat_of_hasDir h
  simp [Disk.hasNode, hstat]

/-- A directory whose files are found could be opened, and so could those below it. -/
theorem readable_of_sourcesBelow (hd : d.Plain)
    (h : sourcesBelow d c e r = .ok files) : Readable d e r := by
  intro l entries names hstat hlook henters
  obtain ⟨hreached, hpass⟩ := forall_enters_iff.1 henters
  obtain ⟨hlocate, hget⟩ := (Disk.stat_eq_ok_iff hd).1 hstat
  obtain _ | ⟨n, names⟩ := names
  · exact (Disk.locate_eq_ok_iff.1 hlocate).2.2.1
  obtain ⟨hfirst, hreached⟩ := reached_cons.1 hreached
  have hfile : d.hasFile r = false := by simp [Disk.hasFile, hstat]
  have hplace : d.place false r = .ok (.taken l (.dir entries)) := by
    rw [Disk.place_eq hd, hlocate, Except.map, Disk.placeAt_of_get? hget]
  obtain ⟨found, hfound⟩ : ∃ found, Disk.filesIn e.excludesDir r entries = .ok found := by
    cases hin : Disk.filesIn e.excludesDir r entries with
    | ok found => exact ⟨found, rfl⟩
    | error cause => simp [sourcesBelow, hfile, Disk.filesBelow, hplace, hfirst, hin] at h
  refine Disk.opens_of_filesIn hfound n names ?_ hreached hpass
  rw [Disk.look, Dir.look_append, hget] at hlook
  exact hlook

/-- The files are found just if all directories that are entered can be opened. -/
theorem findSources_ok_iff (hd : d.Plain) (hc : c.exclusion = .ok e)
    (hroots : ∀ r ∈ roots, d.hasDir r) :
    (∃ files, findSources d c roots = .ok files) ↔ ∀ r ∈ roots, Readable d e r := by
  constructor
  · rintro ⟨files, hfiles⟩ r hr
    rw [findSources, hc] at hfiles
    obtain ⟨found, hfound, -⟩ := exists_of_bind_eq_ok (x := roots.mapM (sourcesBelow d c e)) hfiles
    have hmem : sourcesBelow d c e r ∈ found.map Except.ok := by
      rw [← map_eq_of_mapM hfound]
      exact List.mem_map_of_mem hr
    obtain ⟨below, -, hbelow⟩ := List.mem_map.1 hmem
    exact readable_of_sourcesBelow hd hbelow.symm
  · intro hopen
    obtain ⟨found, -, hfound⟩ := findSources_eq_ok hd hc fun r hr =>
      ⟨hasNode_of_hasDir (hroots r hr), hopen r hr⟩
    exact ⟨_, hfound⟩

/-! ## All files below a directory -/

/-- A file below the directory that a path leads to. -/
def FileBelow (d : Disk) (r q : FilePath) : Prop :=
  ∃ l entries below data, d.stat r = .ok (l, .dir entries)
    ∧ d.look (l ++ below) = some (.file data) ∧ q = r.descend below

/-- A file below one of some paths that is not excluded and whose language is
enabled, wherever it stands. -/
structure KeptBelow (d : Disk) (c : Config) (e : Exclusion) (roots : List FilePath)
    (q : FilePath) : Prop where
  below : ∃ r ∈ roots, FileBelow d r q
  kept : e.excludes q = false
  language : c.covers q

/-- Only the tests of a file itself decide whether it is eligible. -/
theorem eligible_iff_keptBelow (hd : d.Plain) (hroots : ∀ r ∈ roots, d.hasDir r)
    (h : ∀ n ∈ names, Glob.IsLiteral n) :
    (∃ r ∈ roots, Eligible d c (.ofDirectories names) r q)
      ↔ KeptBelow d c (.ofDirectories names) roots q := by
  constructor
  · rintro ⟨r, hr, (⟨hfile, -⟩ | ⟨hdir, hfile, -, hkept, hlanguage⟩)⟩
    · obtain ⟨l, entries, hstat⟩ := stat_of_hasDir (hroots q hr)
      simp [hstat] at hfile
    · exact ⟨⟨r, hr, _, _, _, _, hdir, hfile, rfl⟩, Exclusion.excludes_eq_false_iff.2 hkept,
        hlanguage⟩
  · rintro ⟨⟨r, hr, l, entries, below, data, hdir, hfile, rfl⟩, hkept, hlanguage⟩
    have hnames : ∀ m ∈ below, Dir.isName m := fun m hm =>
      Disk.isName_of_look hd (by simp [hfile]) m (List.mem_append_right l hm)
    exact ⟨r, hr, .below hdir hfile
      (reached_excludesDir_iff.1 (Exclusion.reached_of_not_excludes h hnames hkept))
      (Exclusion.excludes_eq_false_iff.1 hkept) hlanguage⟩

/-- **Passing over loses nothing**: if the globs are of all that is in directories of
some names, the files that are found grow strictly in the order of paths and are the
files below the paths that are not excluded and whose language is enabled; none of the
names stands before the last segment of their paths.  They are found unless a directory
that is entered cannot be opened. -/
theorem findSources_unpruned (hd : d.Plain) (h : ∀ n ∈ names, Glob.IsLiteral n)
    (hc : c.exclude = names.map Glob.directoryText) (hroots : ∀ r ∈ roots, d.hasDir r) :
    c.exclusion = .ok (.ofDirectories names) ∧
      ((∃ files, findSources d c roots = .ok files)
        ↔ ∀ r ∈ roots, Readable d (.ofDirectories names) r) ∧
      ∀ files, findSources d c roots = .ok files →
        files.Pairwise (fun p q => p.le q ∧ ¬ p.same q) ∧
        (∀ q ∈ files, KeptBelow d c (.ofDirectories names) roots q) ∧
        (∀ q, KeptBelow d c (.ofDirectories names) roots q → ∃ q' ∈ files, q'.same q) ∧
        ∀ q ∈ files, ∀ n ∈ names, n ∉ q.segments.dropLast := by
  have hexclusion : c.exclusion = .ok (.ofDirectories names) := by
    rw [Config.exclusion, hc, Exclusion.parse_directories h]
    rfl
  have hok := findSources_ok_iff hd hexclusion hroots
  refine ⟨hexclusion, hok, fun files hfiles => ?_⟩
  have hopen := hok.1 ⟨files, hfiles⟩
  obtain ⟨files, hfiles', hsorted, hsound, hcomplete⟩ := findSources_sorted hd hexclusion
    fun r hr => ⟨hasNode_of_hasDir (hroots r hr), hopen r hr⟩
  rw [hfiles] at hfiles'
  cases hfiles'
  have hkept : ∀ q ∈ files, KeptBelow d c (.ofDirectories names) roots q := fun q hq =>
    (eligible_iff_keptBelow hd hroots h).1 (hsound q hq)
  refine ⟨hsorted, hkept, fun q hq => ?_, fun q hq => ?_⟩
  · obtain ⟨r, hr, heligible⟩ := (eligible_iff_keptBelow hd hroots h).2 hq
    exact hcomplete r hr q heligible
  · exact Exclusion.not_mem_segments h (hkept q hq).kept

end

/-! ## The directories left out by default -/

/-- The names of the directories that are left out by default. -/
def defaultNames : List String :=
  ["node_modules", "dist", "out", "build", ".git", "vendor", "target"]

theorem isLiteral_of_mem_default : ∀ n ∈ defaultNames, Glob.IsLiteral n := by
  have hplain : ∀ n ∈ defaultNames, n.toList.all fun c => !Glob.specialChars.contains c := by
    decide
  intro n hn
  refine ⟨?_, by simpa using hplain n hn⟩
  rintro rfl
  simp [defaultNames] at hn

theorem exclude_default : ({} : Config).exclude = defaultNames.map Glob.directoryText := by
  simp [defaultNames, Glob.directoryText]

/-- Of the tree with built files the source file is found, and no built one. -/
theorem findSources_unpruned_built : ∃ files, findSources builtTree {} [⟨"src"⟩] = .ok files ∧
    (∃ q ∈ files, q.same ⟨"src/a.py"⟩) ∧ ∀ q ∈ files, "dist" ∉ q.segments.dropLast := by
  have hroots : ∀ r ∈ [⟨"src"⟩], builtTree.hasDir r := by decide
  obtain ⟨-, hok, hfound⟩ :=
    findSources_unpruned plain_builtTree isLiteral_of_mem_default exclude_default hroots
  obtain ⟨files, hfiles⟩ := hok.2 fun r hr => (readable_builtTree _ r (by simp_all)).2
  obtain ⟨-, -, hcomplete, hnames⟩ := hfound files hfiles
  have hsrc : builtTree.stat ⟨"src"⟩ = .ok (["src"], .dir sourceFiles) := by decide
  refine ⟨files, hfiles, hcomplete ⟨"src/a.py"⟩ ⟨⟨⟨"src"⟩, List.mem_singleton_self _, ["src"],
    sourceFiles, ["a.py"], ⟨.empty, true, true⟩, hsrc, ?_, ?_⟩, ?_, ?_⟩, fun q hq => ?_⟩
  · decide
  · decide
  · decide +kernel
  · decide
  · exact hnames q hq "dist" (by decide)

end LogPrune
