import LogPrune.Proofs.Disk.Change
import LogPrune.Proofs.FilePath.Order

/-!
# LogPrune.Proofs.Sources

Which files are found.

1. A search of a directory gives the files at or below it that it reaches, which
   means that no directory on the way is passed over (`filesIn_eq_ok`).  It only
   fails where the path of a directory that it enters is too long.
2. A file is *eligible* for a path if it is the file that the path leads to and
   its language is enabled, or if it is below the directory that the path leads
   to, no glob matches its path nor that of a directory on the way, with or without
   a slash behind it, and its language is enabled.
3. On a disk without links the eligible files are found, each path once and in
   the order of paths, whatever the order of the paths to search
   (`findSources_eligible`).
-/

namespace LogPrune

/-- No directory from a path down to the one that holds an entry below it is
passed over. -/
def Reached (passOver : FilePath → Bool) (p : FilePath) (names : List String) : Prop :=
  ∀ above, above <+: names → above ≠ names → passOver (p.descend above) = false

section
variable {passOver : FilePath → Bool} {p q : FilePath} {n : String} {names : List String}

@[simp] theorem reached_nil : Reached passOver p [] := fun _ habove hne =>
  absurd (List.prefix_nil.1 habove) hne

@[simp] theorem reached_cons :
    Reached passOver p (n :: names) ↔ passOver p = false ∧ Reached passOver (p.child n) names := by
  constructor
  · intro h
    refine ⟨h [] (List.nil_prefix) (by simp), fun above habove hne => ?_⟩
    exact h (n :: above) (List.cons_prefix_cons.2 ⟨rfl, habove⟩) (by simpa using hne)
  · rintro ⟨hp, h⟩ above habove hne
    obtain _ | ⟨m, above⟩ := above
    · exact hp
    · obtain ⟨rfl, hprefix⟩ := List.cons_prefix_cons.1 habove
      exact h above hprefix (by simpa using hne)

/-! ## Searching a directory -/

namespace Dir

theorem look_cons_cons (node : Node) (rest : Dir) (m : String) (l : Location) :
    look (m :: l) (cons n node rest) = if n = m then node.look l else look (m :: l) rest := by
  rw [look_cons, look_cons, find?_cons]
  split <;> rfl

theorem ne_of_look {d : Dir} (hn : d.find? n = none) (h : d.look (m :: l) = some entry) :
    n ≠ m := by
  rintro rfl
  simp [look_cons, hn] at h

/-- A file below a directory that a search reaches. -/
def Holds (passOver : FilePath → Bool) (p : FilePath) (d : Dir) (q : FilePath) : Prop :=
  ∃ n l data, d.look (n :: l) = some (.file data) ∧ Reached passOver (p.child n) l
    ∧ q = p.descend (n :: l)

/-- The directories that a search of a directory enters can be opened. -/
def Opens (passOver : FilePath → Bool) (p : FilePath) (d : Dir) : Prop :=
  ∀ n l, d.look (n :: l) = some .dir → Reached passOver (p.child n) l →
    passOver (p.descend (n :: l)) = false →
    (p.descend (n :: l)).text.utf8ByteSize < Disk.pathLimit

theorem holds_cons (node : Node) {rest : Dir} (hn : rest.find? n = none) :
    Holds passOver p (cons n node rest) q
      ↔ (∃ l data, node.look l = some (.file data) ∧ Reached passOver (p.child n) l
          ∧ q = (p.child n).descend l)
        ∨ Holds passOver p rest q := by
  constructor
  · rintro ⟨m, l, data, hlook, hreached, rfl⟩
    rw [look_cons_cons] at hlook
    split at hlook
    · next hm =>
      subst hm
      exact .inl ⟨l, data, hlook, hreached, rfl⟩
    · exact .inr ⟨m, l, data, hlook, hreached, rfl⟩
  · rintro (⟨l, data, hlook, hreached, rfl⟩ | ⟨m, l, data, hlook, hreached, rfl⟩)
    · exact ⟨n, l, data, by rw [look_cons_cons, if_pos rfl, hlook], hreached, rfl⟩
    · exact ⟨m, l, data, by rw [look_cons_cons, if_neg (ne_of_look hn hlook), hlook], hreached, rfl⟩

/-- The files that are reached below a directory, the directory included. -/
theorem holds_iff {d : Dir} :
    (∃ l data, (Node.dir d).look l = some (.file data) ∧ Reached passOver p l ∧ q = p.descend l)
      ↔ passOver p = false ∧ Holds passOver p d q := by
  constructor
  · rintro ⟨_ | ⟨n, l⟩, data, hlook, hreached, rfl⟩
    · simp at hlook
    · obtain ⟨hpass, hreached⟩ := reached_cons.1 hreached
      exact ⟨hpass, n, l, data, hlook, hreached, rfl⟩
  · rintro ⟨hpass, n, l, data, hlook, hreached, rfl⟩
    exact ⟨n :: l, data, hlook, reached_cons.2 ⟨hpass, hreached⟩, rfl⟩

theorem holds_file {data : FileData} {rest : Dir} (hn : rest.find? n = none) :
    Holds passOver p (.file n data rest) q ↔ q = p.child n ∨ Holds passOver p rest q := by
  refine (holds_cons (.file data) hn).trans (or_congr_left ⟨?_, ?_⟩)
  · rintro ⟨_ | ⟨m, l⟩, data', hlook, -, rfl⟩
    · rfl
    · simp [Node.look_below_file] at hlook
  · rintro rfl
    exact ⟨[], data, rfl, reached_nil, rfl⟩

/-- Behind a link no file is reached. -/
theorem holds_link {target : FilePath} {rest : Dir} (hn : rest.find? n = none) :
    Holds passOver p (.link n target rest) q ↔ Holds passOver p rest q := by
  refine (holds_cons (.link target) hn).trans (or_iff_right ?_)
  rintro ⟨_ | ⟨m, l⟩, data, hlook, -⟩ <;> simp [Node.look_below_link] at hlook

theorem holds_dir {entries rest : Dir} (hn : rest.find? n = none) :
    Holds passOver p (.dir n entries rest) q ↔
      (passOver (p.child n) = false ∧ Holds passOver (p.child n) entries q) ∨
        Holds passOver p rest q :=
  (holds_cons (.dir entries) hn).trans (or_congr_left holds_iff)

theorem opens_rest (node : Node) {rest : Dir} (hn : rest.find? n = none)
    (h : Opens passOver p (cons n node rest)) : Opens passOver p rest := by
  intro m l hlook
  exact h m l (by rw [look_cons_cons, if_neg (ne_of_look hn hlook), hlook])

theorem opens_entries {entries rest : Dir} (h : Opens passOver p (cons n (.dir entries) rest))
    (hpass : passOver (p.child n) = false) :
    (p.child n).text.utf8ByteSize < Disk.pathLimit ∧ Opens passOver (p.child n) entries := by
  refine ⟨h n [] (by simp [look_cons_cons]) reached_nil hpass, fun m l hlook hreached => ?_⟩
  exact h n (m :: l) (by rw [look_cons_cons, if_pos rfl, Node.look_dir, hlook])
    (reached_cons.2 ⟨hpass, hreached⟩)

end Dir

/-- A search gives the files that it reaches. -/
theorem Disk.filesIn_eq_ok {d : Dir} (hd : d.namesOnce) (hopen : d.Opens passOver p) :
    ∃ files, filesIn passOver p d = .ok files ∧ ∀ q, q ∈ files ↔ d.Holds passOver p q := by
  induction d generalizing p with
  | empty =>
    refine ⟨[], rfl, fun q => ⟨fun h => by simp at h, ?_⟩⟩
    rintro ⟨n, l, data, hlook, -⟩
    simp [Dir.look_cons, Dir.find?] at hlook
  | file n data rest ih =>
    simp only [Dir.namesOnce, Bool.and_eq_true, Option.isNone_iff_eq_none] at hd
    obtain ⟨files, hfiles, hmem⟩ := ih hd.2 (Dir.opens_rest (.file data) hd.1 hopen)
    refine ⟨p.child n :: files, by rw [filesIn, hfiles]; rfl, fun q => ?_⟩
    rw [List.mem_cons, hmem, Dir.holds_file hd.1]
  | link n target rest ih =>
    simp only [Dir.namesOnce, Bool.and_eq_true, Option.isNone_iff_eq_none] at hd
    obtain ⟨files, hfiles, hmem⟩ := ih hd.2 (Dir.opens_rest (.link target) hd.1 hopen)
    refine ⟨files, by rw [filesIn, hfiles], fun q => ?_⟩
    rw [hmem, Dir.holds_link hd.1]
  | dir n entries rest ihentries ih =>
    simp only [Dir.namesOnce, Bool.and_eq_true, Option.isNone_iff_eq_none] at hd
    obtain ⟨files, hfiles, hmem⟩ := ih hd.2 (Dir.opens_rest (.dir entries) hd.1.1 hopen)
    cases hpass : passOver (p.child n) with
    | true =>
      refine ⟨files, ?_, fun q => ?_⟩
      · rw [filesIn, hfiles, hpass]
        rfl
      · simp [hmem, Dir.holds_dir hd.1.1, hpass]
    | false =>
      obtain ⟨hshort, hopen'⟩ := Dir.opens_entries hopen hpass
      obtain ⟨below, hbelow, hmem'⟩ := ihentries hd.1.2 hopen'
      refine ⟨below ++ files, ?_, fun q => ?_⟩
      · rw [filesIn, hfiles, hpass, if_neg Bool.false_ne_true, if_neg (Nat.not_le.2 hshort), hbelow]
        rfl
      · simp [hmem, hmem', Dir.holds_dir hd.1.1, hpass]

end

/-! ## Eligible files -/

/-- A directory can be entered: no glob matches its path, with or without a slash
behind it. -/
def Exclusion.Enters (e : Exclusion) (p : FilePath) : Prop :=
  ∀ g ∈ e.globs, ¬ g.matchesText p.withSlashes ∧ ¬ g.matchesText (p.withSlashes ++ "/")

/-- A file that is to be found at or below a path. -/
inductive Eligible (d : Disk) (c : Config) (e : Exclusion) (r : FilePath) : FilePath → Prop
  /-- The path leads to it, whatever the globs say. -/
  | named (hfile : d.stat r = .ok (l, .file data)) (hlanguage : c.covers r) : Eligible d c e r r
  /-- The path leads to a directory above it; that one and those between can be
  entered. -/
  | below (hdir : d.stat r = .ok (l, .dir entries))
      (hfile : d.look (l ++ names) = some (.file data))
      (henters : ∀ above, above <+: names → above ≠ names → e.Enters (r.descend above))
      (hkept : ∀ g ∈ e.globs, ¬ g.matchesText (r.descend names).withSlashes)
      (hlanguage : c.covers (r.descend names)) : Eligible d c e r (r.descend names)

/-- The directories that a search from a path enters can be opened. -/
def Readable (d : Disk) (e : Exclusion) (r : FilePath) : Prop :=
  ∀ l entries names, d.stat r = .ok (l, .dir entries) → d.look (l ++ names) = some .dir →
    (∀ above, above <+: names → e.Enters (r.descend above)) →
    (r.descend names).text.utf8ByteSize < Disk.pathLimit

section
variable {d : Disk} {c : Config} {e : Exclusion} {r : FilePath} {roots : List FilePath}
  {names : List String}

/-- A search passes over the directories that cannot be entered. -/
theorem reached_excludesDir_iff : Reached e.excludesDir r names ↔
    ∀ above, above <+: names → above ≠ names → e.Enters (r.descend above) := by
  simp only [Reached, Exclusion.excludesDir_eq_false_iff, Exclusion.Enters]

theorem forall_enters_iff : (∀ above, above <+: names → e.Enters (r.descend above)) ↔
    Reached e.excludesDir r names ∧ e.excludesDir (r.descend names) = false := by
  rw [reached_excludesDir_iff, Exclusion.excludesDir_eq_false_iff]
  constructor
  · intro h
    exact ⟨fun above habove _ => h above habove, h names List.prefix_rfl⟩
  · rintro ⟨hway, hlast⟩ above habove
    by_cases hsame : above = names
    · exact hsame ▸ hlast
    · exact hway above habove hsame

theorem eligible_iff_of_file (hstat : d.stat r = .ok (l, .file data)) :
    Eligible d c e r q ↔ q = r ∧ c.covers r := by
  constructor
  · rintro (⟨-, hlanguage⟩ | ⟨hdir, -⟩)
    · exact ⟨rfl, hlanguage⟩
    · simp [hstat] at hdir
  · rintro ⟨rfl, hlanguage⟩
    exact .named hstat hlanguage

theorem eligible_iff_of_dir (hd : d.Plain) (hstat : d.stat r = .ok (l, .dir entries)) :
    Eligible d c e r q ↔
      (e.excludesDir r = false ∧ entries.Holds e.excludesDir r q) ∧ e.excludes q = false
        ∧ c.covers q := by
  have hget := ((Disk.stat_eq_ok_iff hd).1 hstat).2
  have hlook : ∀ names, d.look (l ++ names) = (Node.dir entries).look names := fun names => by
    rw [Disk.look, Dir.look_append, hget, Option.bind_some]
  rw [← Dir.holds_iff]
  constructor
  · rintro (⟨hfile, -⟩ | ⟨hdir, hfile, henters, hkept, hlanguage⟩)
    · simp [hstat] at hfile
    · rw [hstat] at hdir
      cases hdir
      exact ⟨⟨_, _, hlook _ ▸ hfile, reached_excludesDir_iff.2 henters, rfl⟩,
        Exclusion.excludes_eq_false_iff.2 hkept, hlanguage⟩
  · rintro ⟨⟨names, data, hfile, hreached, rfl⟩, hkept, hlanguage⟩
    exact .below hstat ((hlook names).trans hfile) (reached_excludesDir_iff.1 hreached)
      (Exclusion.excludes_eq_false_iff.1 hkept) hlanguage

theorem opens_of_readable (hd : d.Plain) (hopen : Readable d e r)
    (hstat : d.stat r = .ok (l, .dir entries)) (hpass : e.excludesDir r = false) :
    entries.Opens e.excludesDir r := by
  have hget := ((Disk.stat_eq_ok_iff hd).1 hstat).2
  intro n names hlook hreached hlast
  refine hopen l entries (n :: names) hstat ?_
    (forall_enters_iff.2 ⟨reached_cons.2 ⟨hpass, hreached⟩, hlast⟩)
  rw [Disk.look, Dir.look_append, hget]
  exact hlook

/-- What is found at or below a path are the files that are eligible for it. -/
theorem sourcesBelow_eq_ok (hd : d.Plain) (hr : d.hasNode r) (hopen : Readable d e r) :
    ∃ files, sourcesBelow d c e r = .ok files ∧ ∀ q, q ∈ files ↔ Eligible d c e r q := by
  obtain ⟨⟨l, node⟩, hstat⟩ : ∃ found, d.stat r = .ok found := by
    unfold Disk.hasNode at hr
    split at hr
    · next found hstat => exact ⟨found, hstat⟩
    · contradiction
  obtain ⟨hlocate, hget⟩ := (Disk.stat_eq_ok_iff hd).1 hstat
  cases node with
  | file data =>
    have hfile : d.hasFile r = true := by simp [Disk.hasFile, hstat]
    refine ⟨_, by rw [sourcesBelow, if_pos hfile], fun q => ?_⟩
    rw [eligible_iff_of_file hstat]
    split <;> simp_all
  | link target =>
    have := (Dir.isPlain_of_get? hd.tree hget).1
    simp [Dir.nodeIsPlain] at this
  | dir entries =>
    have hfile : d.hasFile r = false := by simp [Disk.hasFile, hstat]
    have hplace : d.place false r = .ok (.taken l (.dir entries)) := by
      rw [Disk.place_eq hd, hlocate, Except.map, Disk.placeAt_of_get? hget]
    have hnames := Dir.namesOnce_of_isPlain (Dir.isPlain_of_get? hd.tree hget).1
    cases hpass : e.excludesDir r with
    | true =>
      refine ⟨[], by simp [sourcesBelow, hfile, Disk.filesBelow, hplace, hpass], fun q => ?_⟩
      simp [eligible_iff_of_dir hd hstat, hpass]
    | false =>
      obtain ⟨files, hfiles, hmem⟩ :=
        Disk.filesIn_eq_ok hnames (opens_of_readable hd hopen hstat hpass)
      refine ⟨files.filter fun q => !e.excludes q && c.covers q, ?_, fun q => ?_⟩
      · simp [sourcesBelow, hfile, Disk.filesBelow, hplace, hpass, hfiles]
      · simp [eligible_iff_of_dir hd hstat, hpass, hmem]

/-- The files that are found: the paths are searched one after another, and then
the files are put in order. -/
theorem findSources_eq_ok (hd : d.Plain) (hc : c.exclusion = .ok e)
    (hroots : ∀ r ∈ roots, d.hasNode r ∧ Readable d e r) :
    ∃ found : List FilePath, (∀ q, q ∈ found ↔ ∃ r ∈ roots, Eligible d c e r q) ∧
      findSources d c roots = .ok (FilePath.dropRepeated (found.mergeSort FilePath.le)) := by
  have hfound : ∃ found, roots.mapM (sourcesBelow d c e) = .ok found ∧
      ∀ q, q ∈ found.flatten ↔ ∃ r ∈ roots, Eligible d c e r q := by
    induction roots with
    | nil => exact ⟨[], rfl, by simp⟩
    | cons r roots ih =>
      obtain ⟨hnode, hopen⟩ := hroots r List.mem_cons_self
      obtain ⟨files, hfiles, hmem⟩ := sourcesBelow_eq_ok (c := c) hd hnode hopen
      obtain ⟨found, hrest, hmem'⟩ := ih fun r' hr' => hroots r' (List.mem_cons_of_mem r hr')
      refine ⟨files :: found, ?_, fun q => ?_⟩
      · rw [List.mapM_cons, hfiles, hrest]
        rfl
      · simp [hmem, hmem']
  obtain ⟨found, hfound, hmem⟩ := hfound
  refine ⟨found.flatten, hmem, ?_⟩
  rw [findSources, hc]
  simp only [bind, Except.bind, pure, Except.pure, hfound]

/-- The files that are found grow strictly and are those that are eligible. -/
theorem findSources_sorted (hd : d.Plain) (hc : c.exclusion = .ok e)
    (hroots : ∀ r ∈ roots, d.hasNode r ∧ Readable d e r) :
    ∃ files, findSources d c roots = .ok files ∧
      files.Pairwise (fun p q => p.le q ∧ ¬ p.same q) ∧
      (∀ q ∈ files, ∃ r ∈ roots, Eligible d c e r q) ∧
      ∀ r ∈ roots, ∀ q, Eligible d c e r q → ∃ q' ∈ files, q'.same q := by
  obtain ⟨found, hmem, hfind⟩ := findSources_eq_ok hd hc hroots
  refine ⟨_, hfind, FilePath.pairwise_dropRepeated (FilePath.pairwise_mergeSort_le found),
    fun q hq => ?_, fun r hr q hq => ?_⟩
  · exact (hmem q).1 (List.mem_mergeSort.1 (FilePath.dropRepeated_subset _ hq))
  · exact FilePath.exists_mem_dropRepeated (List.mem_mergeSort.2 ((hmem q).2 ⟨r, hr, hq⟩))

end

/-! ## A tree with built files -/

/-- A directory with a built file. -/
def builtFiles : Dir := .file "b.py" ⟨.empty, true, true⟩ .empty

/-- A directory with a source file and the built files below it. -/
def sourceFiles : Dir := .file "a.py" ⟨.empty, true, true⟩ (.dir "dist" builtFiles .empty)

/-- A disk with these directories. -/
def builtTree : Disk := { root := .dir "src" sourceFiles .empty }

theorem look_sourceFiles_dir (h : sourceFiles.look names = some .dir) :
    names = [] ∨ names = ["dist"] := by
  obtain _ | ⟨n, names⟩ := names
  · exact .inl rfl
  obtain ⟨entries, hfind, hlook⟩ := Dir.find?_of_look_dir h
  obtain ⟨rfl, rfl⟩ : "dist" = n ∧ builtFiles = entries := by
    simp only [sourceFiles, Dir.find?] at hfind
    grind
  obtain _ | ⟨m, names⟩ := names
  · exact .inr rfl
  obtain ⟨entries, hfind, -⟩ := Dir.find?_of_look_dir hlook
  simp only [builtFiles, Dir.find?] at hfind
  grind

theorem plain_builtTree : builtTree.Plain := ⟨by decide, by decide⟩

theorem stat_builtFile : builtTree.stat ⟨"src/dist/b.py"⟩
    = .ok (["src", "dist", "b.py"], .file ⟨.empty, true, true⟩) := by
  decide

theorem exists_exclusion_default : ∃ e, ({} : Config).exclusion = .ok e := by
  have hok : ({} : Config).exclusion.isOk = true := by decide
  cases h : ({} : Config).exclusion with
  | error cause => simp [h, Except.isOk, Except.toBool] at hok
  | ok e => exact ⟨e, rfl⟩

theorem readable_builtTree (e : Exclusion) : ∀ r ∈ [⟨"src"⟩, ⟨"src/dist/b.py"⟩],
    builtTree.hasNode r ∧ Readable builtTree e r := by
  intro r hr
  obtain rfl | rfl : r = ⟨"src"⟩ ∨ r = ⟨"src/dist/b.py"⟩ := by simpa using hr
  · refine ⟨by decide, fun l entries names hstat hdir _ => ?_⟩
    have hsrc : builtTree.stat ⟨"src"⟩ = .ok (["src"], .dir sourceFiles) := by decide
    rw [hsrc] at hstat
    cases hstat
    have hlook : builtTree.look (["src"] ++ names) = sourceFiles.look names := by
      rw [Disk.look, Dir.look_append]
      rfl
    obtain rfl | rfl : names = [] ∨ names = ["dist"] := look_sourceFiles_dir (hlook ▸ hdir)
    all_goals decide
  · refine ⟨by decide, fun l entries names hstat => ?_⟩
    simp [stat_builtFile] at hstat

end LogPrune
