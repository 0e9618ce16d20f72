import LogPrune.Proofs.Disk.Tree
import LogPrune.Proofs.FilePath

/-!
# LogPrune.Proofs.Disk.Place

Where paths lead on a disk without links.

1. Without links a path leads to one location (`locate`), whether or not
   anything stands there, and every operation goes by that location
   (`place_eq`).
2. The way to a location runs through directories only.  So a path leads to
   the same location on every disk that has these directories too
   (`locate_of_dirs`): neither writing nor removing files turns a path aside.
3. Where the location is not that of a directory, its last name is the file
   name of the path (`locate_cases`, `fileName?_of_locate`).
4. The absolute path of a location leads to it, from anywhere
   (`locate_absolutePath`).
-/

namespace LogPrune
namespace Disk

/-- What stands at a location. -/
def look (d : Disk) (l : Location) : Option Entry := d.root.look l

/-- The file at a location. -/
def file? (d : Disk) (l : Location) : Option FileData :=
  match d.root.get? l with
  | some (.file data) => some data
  | _ => none

/-- A disk without links, as a file system can hold it, with a working
directory that is there. -/
structure Plain (d : Disk) : Prop where
  tree : d.root.isPlain
  here : d.look d.workingDir = some .dir

/-- A disk as a file system can hold it, links included, with a working
directory that is there. -/
structure Proper (d : Disk) : Prop where
  names : d.root.namesOnce
  here : d.look d.workingDir = some .dir

theorem Plain.proper {d : Disk} (hd : d.Plain) : d.Proper :=
  ⟨Dir.namesOnce_of_isPlain hd.tree, hd.here⟩

theorem file?_eq_some_iff {d : Disk} : d.file? l = some data ↔ d.look l = some (.file data) := by
  unfold file? look Dir.look
  cases d.root.get? l with
  | none => simp
  | some node => cases node <;> simp [Node.entry]

theorem file?_eq_none {d : Disk} (h : d.look l = none) : d.file? l = none := by
  apply Option.ext
  intro data
  simp [file?_eq_some_iff, h]

/-- The files of two disks agree where the same stands. -/
theorem file?_congr {d d' : Disk} (h : d.look l = d'.look l') : d.file? l = d'.file? l' := by
  apply Option.ext
  intro data
  simp only [file?_eq_some_iff, h]

theorem look_dropLast {d : Disk} (h : d.look l = some .dir) : d.look l.dropLast = some .dir := by
  obtain rfl | ⟨above, s, rfl⟩ := List.eq_nil_or_concat l
  · exact h
  · rw [List.concat_eq_append, List.dropLast_concat]
    have hs : Dir.look (above ++ [s]) d.root = some .dir := by simpa [look] using h
    exact Dir.look_above (by simp [hs]) (List.cons_ne_nil s [])

/-! ## Walking -/

/-- Where segments lead from a directory, given what stands where. -/
def walk (look : Location → Option Entry) : Location → List String → Except IoError Location
  | here, [] => if (look here).isSome then .ok here else .error .notFound
  | here, s :: rest =>
    if s = "." then walk look here rest
    else if s = ".." then walk look here.dropLast rest
    else if nameLimit < s.utf8ByteSize then .error .nameTooLong
    else if rest = [] then .ok (here ++ [s])
    else match look (here ++ [s]) with
      | none => .error .notFound
      | some .dir => walk look (here ++ [s]) rest
      | some _ => .error .notADirectory

/-- The place at a location. -/
def placeAt (d : Disk) (l : Location) : Place :=
  match d.root.get? l with
  | some node => .taken l node
  | none => .vacant l

theorem placeAt_of_get? {d : Disk} (h : d.root.get? l = some node) :
    d.placeAt l = .taken l node := by
  simp [placeAt, h]

theorem placeAt_of_none {d : Disk} (h : d.root.get? l = none) : d.placeAt l = .vacant l := by
  simp [placeAt, h]

/-- Following segments in a tree without links is walking. -/
theorem follow_eq_walk {d : Disk} (hd : d.root.isPlain)
    (jump : Location → List String → Except IoError Place) (lastLink : Bool)
    (here : Location) (segments : List String) :
    d.follow jump lastLink here segments = (walk d.look here segments).map d.placeAt := by
  induction segments generalizing here with
  | nil =>
    cases h : d.root.get? here with
    | none => simp [follow, walk, look, Dir.look, h, Except.map]
    | some node => simp [follow, walk, look, Dir.look, h, Except.map, placeAt]
  | cons s rest ih =>
    rw [follow, walk]
    by_cases hdot : s = "."
    · simpa [hdot] using ih here
    by_cases hdots : s = ".."
    · simpa [hdots] using ih here.dropLast
    by_cases hlong : nameLimit < s.utf8ByteSize
    · simp [hdot, hdots, hlong, Except.map]
    rw [if_neg hdot, if_neg hdots, if_neg hlong, if_neg hdot, if_neg hdots, if_neg hlong]
    cases h : d.root.get? (here ++ [s]) with
    | none => by_cases hrest : rest = [] <;>
        simp [hrest, look, Dir.look, h, Except.map, placeAt]
    | some node =>
      cases node with
      | file data => by_cases hrest : rest = [] <;>
          simp [hrest, look, Dir.look, h, Node.entry, Except.map, placeAt]
      | dir entries => by_cases hrest : rest = [] <;>
          simp [hrest, look, Dir.look, h, Node.entry, Except.map, placeAt, ih]
      | link target =>
        have := (Dir.isPlain_of_get? hd h).1
        simp [Dir.nodeIsPlain] at this

/-- How a walk goes on that leads somewhere: a `.` stays, a `..` goes up, and a name is
the last step or that of a directory. -/
theorem walk_cons_eq_ok_iff {look : Location → Option Entry} :
    walk look here (s :: rest) = .ok l ↔
      (s = "." ∧ walk look here rest = .ok l) ∨
      (s = ".." ∧ walk look here.dropLast rest = .ok l) ∨
      (s ≠ "." ∧ s ≠ ".." ∧ s.utf8ByteSize ≤ nameLimit) ∧
        ((rest = [] ∧ here ++ [s] = l) ∨
          (rest ≠ [] ∧ look (here ++ [s]) = some .dir ∧ walk look (here ++ [s]) rest = .ok l)) := by
  rw [walk]
  by_cases hdot : s = "."
  · simp [hdot]
  by_cases hdots : s = ".."
  · simp [hdots]
  by_cases hlong : nameLimit < s.utf8ByteSize
  · simp [hdot, hdots, hlong, Nat.not_le.2 hlong]
  have hshort : s.utf8ByteSize ≤ nameLimit := Nat.not_lt.1 hlong
  by_cases hrest : rest = []
  · simp [hdot, hdots, hlong, hshort, hrest]
  cases hlook : look (here ++ [s]) with
  | none => simp [hdot, hdots, hlong, hrest]
  | some entry => cases entry <;> simp [hdot, hdots, hlong, hshort, hrest]

/-- Walking only depends on the directories. -/
theorem walk_of_dirs {d d' : Disk} {segments : List String}
    (h : ∀ l, d.look l = some .dir → d'.look l = some .dir)
    (hhere : d.look here = some .dir) (hwalk : walk d.look here segments = .ok l) :
    walk d'.look here segments = .ok l := by
  induction segments generalizing here with
  | nil => simp_all [walk]
  | cons s rest ih =>
    rw [walk_cons_eq_ok_iff] at hwalk ⊢
    obtain ⟨hdot, hrest⟩ | ⟨hdots, hrest⟩ | ⟨hname, hlast | ⟨hne, hdir, hrest⟩⟩ := hwalk
    · exact .inl ⟨hdot, ih hhere hrest⟩
    · exact .inr (.inl ⟨hdots, ih (look_dropLast hhere) hrest⟩)
    · exact .inr (.inr ⟨hname, .inl hlast⟩)
    · exact .inr (.inr ⟨hname, .inr ⟨hne, h _ hdir, ih hdir hrest⟩⟩)

/-- A walk ends at a directory, or with a name below one. -/
theorem walk_cases {d : Disk} {segments : List String} (hhere : d.look here = some .dir)
    (hwalk : walk d.look here segments = .ok l) :
    d.look l = some .dir ∨ ∃ above s, l = above ++ [s] ∧ d.look above = some .dir
      ∧ segments.getLast? = some s ∧ s ≠ "." ∧ s ≠ ".." ∧ s.utf8ByteSize ≤ nameLimit := by
  induction segments generalizing here with
  | nil =>
    left
    simp_all [walk]
  | cons s rest ih =>
    have hnext : ∀ {next}, d.look next = some .dir → walk d.look next rest = .ok l →
        d.look l = some .dir ∨ ∃ above s', l = above ++ [s'] ∧ d.look above = some .dir
          ∧ (s :: rest).getLast? = some s' ∧ s' ≠ "." ∧ s' ≠ ".."
          ∧ s'.utf8ByteSize ≤ nameLimit := by
      intro next hdir hrest
      obtain hl | ⟨above, s', hl, habove, hlast, hs'⟩ := ih hdir hrest
      · exact .inl hl
      · refine .inr ⟨above, s', hl, habove, ?_, hs'⟩
        rw [List.getLast?_cons, hlast]
        rfl
    obtain ⟨-, hrest⟩ | ⟨-, hrest⟩ | ⟨⟨hdot, hdots, hlong⟩, ⟨hnil, hl⟩ | ⟨-, hdir, hrest⟩⟩ :=
      walk_cons_eq_ok_iff.1 hwalk
    · exact hnext hhere hrest
    · exact hnext (look_dropLast hhere) hrest
    · exact .inr ⟨here, s, hl.symm, hhere, by simp [hnil], hdot, hdots, hlong⟩
    · exact hnext hdir hrest

/-- The names of a location at which something stands lead there. -/
theorem walk_names {d : Disk} {names : List String} (hnames : ∀ n ∈ names, Dir.isName n)
    (hne : names ≠ []) (h : d.look (here ++ names) ≠ none) :
    walk d.look here names = .ok (here ++ names) := by
  induction names generalizing here with
  | nil => contradiction
  | cons s rest ih =>
    obtain ⟨-, hdot, hdots, hshort, -, -⟩ := Dir.isName_iff.1 (hnames s (by simp))
    refine walk_cons_eq_ok_iff.2 (.inr (.inr ⟨⟨hdot, hdots, hshort⟩, ?_⟩))
    by_cases hrest : rest = []
    · exact .inl ⟨hrest, by rw [hrest]⟩
    · have hassoc : here ++ s :: rest = here ++ [s] ++ rest := by simp
      rw [hassoc] at h ⊢
      have habove : d.look (here ++ [s]) = some .dir := Dir.look_above h hrest
      exact .inr ⟨hrest, habove, ih (fun n hn => hnames n (List.mem_cons_of_mem s hn)) hrest h⟩

/-! ## Paths -/

/-- Where a path leads in a tree without links. -/
def locate (d : Disk) (p : FilePath) : Except IoError Location :=
  if '\x00' ∈ p.text.toList then .error .nulInPath
  else if p.text = "" then .error .notFound
  else if pathLimit ≤ p.text.utf8ByteSize then .error .nameTooLong
  else walk d.look (start p d.workingDir) (steps p)

/-- Without links, what the last step leads through makes no difference. -/
theorem place_eq {d : Disk} (hd : d.Plain) (lastLink : Bool) (p : FilePath) :
    d.place lastLink p = (d.locate p).map d.placeAt := by
  unfold place locate
  by_cases hnul : '\x00' ∈ p.text.toList
  · simp [hnul, Except.map]
  by_cases hempty : p.text = ""
  · simp [hempty, Except.map]
  by_cases hlong : pathLimit ≤ p.text.utf8ByteSize
  · simp [hnul, hempty, hlong, Except.map]
  simp only [List.contains_iff_mem, hnul, hempty, hlong, if_false]
  exact follow_eq_walk hd.tree _ lastLink _ _

theorem locate_eq_ok_iff {d : Disk} :
    d.locate p = .ok l ↔ '\x00' ∉ p.text.toList ∧ p.text ≠ "" ∧ p.text.utf8ByteSize < pathLimit
      ∧ walk d.look (start p d.workingDir) (steps p) = .ok l := by
  unfold locate
  grind

theorem look_start {d : Disk} (hd : d.Plain) (p : FilePath) :
    d.look (start p d.workingDir) = some .dir := by
  unfold start
  split
  · exact Dir.look_nil d.root
  · exact hd.here

/-- A path leads to the same location on every disk that has all directories
of this one, if it starts where it did. -/
theorem locate_of_dirs {d d' : Disk} (hd : d.Plain)
    (hstart : start p d'.workingDir = start p d.workingDir)
    (h : ∀ l, d.look l = some .dir → d'.look l = some .dir) (hp : d.locate p = .ok l) :
    d'.locate p = .ok l := by
  rw [locate_eq_ok_iff] at hp ⊢
  obtain ⟨hnul, hempty, hlong, hwalk⟩ := hp
  rw [hstart]
  exact ⟨hnul, hempty, hlong, walk_of_dirs h (look_start hd p) hwalk⟩

/-- A step of a path that is no `.` or `..` and not too long is a name. -/
theorem isName_of_mem_steps {p : FilePath} (hnul : '\x00' ∉ p.text.toList)
    (hs : s ∈ steps p) (hdot : s ≠ ".") (hdots : s ≠ "..") (hlong : s.utf8ByteSize ≤ nameLimit) :
    Dir.isName s := by
  have hmem : s ∈ p.segments ∧ s ≠ "" := by
    unfold steps at hs
    split at hs <;> simp_all
  obtain ⟨t, ht, rfl⟩ := List.mem_map.1 hmem.1
  have hslash : '/' ∉ t := Text.not_mem_of_mem_pieces ht
  have hzero : '\x00' ∉ t := by
    intro h
    have hin : '\x00' ∈ p.text.toList := by
      rw [← Text.glue_pieces '/' p.text.toList]
      exact Text.mem_glue ht h
    exact hnul hin
  exact Dir.isName_iff.2 ⟨hmem.2, hdot, hdots, hlong, by simpa using hslash, by simpa using hzero⟩

/-- A path leads to a directory, or to where a directory may have an entry of
the name that is the last step. -/
theorem locate_cases {d : Disk} (hd : d.Plain) (hp : d.locate p = .ok l) :
    d.look l = some .dir ∨ ∃ above s, l = above ++ [s] ∧ d.look above = some .dir
      ∧ (steps p).getLast? = some s ∧ Dir.isName s := by
  obtain ⟨hnul, -, -, hwalk⟩ := locate_eq_ok_iff.1 hp
  obtain hl | ⟨above, s, hl, habove, hlast, hdot, hdots, hlong⟩ :=
    walk_cases (look_start hd p) hwalk
  · exact .inl hl
  · exact .inr ⟨above, s, hl, habove, hlast,
      isName_of_mem_steps hnul (List.mem_of_getLast? hlast) hdot hdots hlong⟩

/-- A path that leads anywhere but to a directory ends in its file name. -/
theorem fileName?_of_locate {d : Disk} (hd : d.Plain) (hp : d.locate p = .ok l)
    (hl : d.look l ≠ some .dir) : p.fileName? = l.getLast? := by
  obtain hdir | ⟨above, s, rfl, -, hlast, hs⟩ := locate_cases hd hp
  · exact absurd hdir hl
  · obtain ⟨-, hdot, hdots, -⟩ := Dir.isName_iff.1 hs
    rw [List.getLast?_concat]
    exact FilePath.fileName?_of_steps hlast hdot hdots

/-- It does not end in a slash. -/
theorem getLast?_ne_slash_of_locate {d : Disk} (hd : d.Plain) (hp : d.locate p = .ok l)
    (hl : d.look l ≠ some .dir) : p.text.toList.getLast? ≠ some '/' := by
  obtain hdir | ⟨above, s, rfl, -, hlast, hs⟩ := locate_cases hd hp
  · exact absurd hdir hl
  · exact FilePath.getLast?_ne_slash_of_steps hlast (Dir.isName_iff.1 hs).2.1

theorem isName_of_look {d : Disk} (hd : d.Plain) (h : d.look l ≠ none) :
    ∀ n ∈ l, Dir.isName n := by
  cases hget : d.root.get? l with
  | none => simp [look, Dir.look, hget] at h
  | some node => exact (Dir.isPlain_of_get? hd.tree hget).2

/-- The absolute path of a location at which something stands leads there,
whatever the working directory is. -/
theorem locate_absolutePath {d : Disk} (hd : d.Plain) (h : d.look l ≠ none) (hne : l ≠ [])
    (hlong : (absolutePath l).text.utf8ByteSize < pathLimit) :
    d.locate (absolutePath l) = .ok l := by
  have hnames := isName_of_look hd h
  have hchars : ∀ n ∈ l, n ≠ "" ∧ '/' ∉ n.toList ∧ '\x00' ∉ n.toList := by
    intro n hn
    obtain ⟨hempty, -, -, -, hslash, hnul⟩ := Dir.isName_iff.1 (hnames n hn)
    exact ⟨hempty, hslash, hnul⟩
  have hnul : '\x00' ∉ (absolutePath l).text.toList := by
    rw [FilePath.toList_absolutePath]
    intro hc
    obtain hc | hc := List.mem_cons.1 hc
    · simp at hc
    · obtain ⟨p, hp, hc⟩ := Text.mem_of_mem_glue hc (by decide)
      obtain ⟨n, hn, rfl⟩ := List.mem_map.1 hp
      exact (hchars n hn).2.2 hc
  have hsteps : steps (absolutePath l) = l :=
    FilePath.steps_absolutePath hne (fun n hn => (hchars n hn).1) (fun n hn => (hchars n hn).2.1)
  have hstart : start (absolutePath l) d.workingDir = [] := by
    simp [start, FilePath.isAbsolute_absolutePath]
  rw [locate_eq_ok_iff, hsteps, hstart]
  refine ⟨by simp [hnul], ?_, hlong, ?_⟩
  · intro hempty
    have := FilePath.toList_absolutePath l
    simp [hempty] at this
  · exact walk_names hnames hne h

theorem locate_absolutePath_of_file {d : Disk} (hd : d.Plain) (hf : d.file? l = some f)
    (hlong : (absolutePath l).text.utf8ByteSize < pathLimit) :
    d.locate (absolutePath l) = .ok l := by
  have hlook := file?_eq_some_iff.1 hf
  have hne : l ≠ [] := by
    rintro rfl
    simp [look, Dir.look_nil] at hlook
  exact locate_absolutePath hd (by simp [hlook]) hne hlong

end Disk
end LogPrune
