import LogPrune.Proofs.Disk.Place

/-!
# LogPrune.Proofs.Disk.Change

What the operations on a disk without links read and change.

1. Reading a file gives the text that was written (`readText_eq_ok_iff`).
2. Writing a file changes what stands at one location (`writeBytes_eq_ok`) and
   is refused only for a directory or a file that is not writable
   (`writeBytes_of_file`).
3. Making directories adds directories and changes nothing else, also where
   one of them is refused in the end (`adds_makeDirs`).
4. Every operation leaves the disk plain.  All but removing leave the
   directories where they are, so that paths lead where they led (`Keeps`).
5. A disk may find its contents on another one that has more files, gives more
   rights or has another working directory (`Untouched`).
-/

namespace LogPrune

/-! ## Texts as bytes -/

/-- The UTF-8 form of a text. -/
def Text.utf8 (t : Text) : ByteArray := (String.ofList t).toUTF8

/-- Reading bytes as text succeeds exactly on the UTF-8 forms. -/
theorem fromUTF8?_eq_some_iff {bytes : ByteArray} {s : String} :
    String.fromUTF8? bytes = some s ↔ bytes = s.toUTF8 := by
  rw [String.toUTF8_eq_toByteArray]
  by_cases hvalid : bytes.IsValidUTF8
  · rw [String.fromUTF8?, dif_pos hvalid, Option.some.injEq]
    constructor
    · rintro rfl
      rfl
    · rintro rfl
      rfl
  · simp only [String.fromUTF8?, dif_neg hvalid, reduceCtorEq, false_iff]
    rintro rfl
    exact hvalid s.isValidUTF8

namespace Disk

/-! ## Asking and reading -/

theorem stat_eq_ok_iff {d : Disk} (hd : d.Plain) :
    d.stat p = .ok (l, node) ↔ d.locate p = .ok l ∧ d.root.get? l = some node := by
  unfold stat
  rw [place_eq hd]
  cases d.locate p with
  | error e => simp [Except.map]
  | ok l' =>
    cases hget : d.root.get? l' with
    | none =>
      simp only [Except.map, placeAt_of_none hget]
      grind
    | some node' =>
      simp only [Except.map, placeAt_of_get? hget]
      grind

theorem stat_of_file {d : Disk} (hd : d.Plain) (hp : d.locate p = .ok l)
    (hl : d.file? l = some data) : d.stat p = .ok (l, .file data) := by
  rw [stat_eq_ok_iff hd]
  unfold file? at hl
  grind

/-- A path to a file ends in the name of the file. -/
theorem fileName?_of_stat {d : Disk} (hd : d.Plain) (h : d.stat p = .ok (l, .file data)) :
    p.fileName? = l.getLast? := by
  obtain ⟨hp, hget⟩ := (stat_eq_ok_iff hd).1 h
  exact fileName?_of_locate hd hp (by simp [look, Dir.look, hget, Node.entry])

theorem stat_of_vacant {d : Disk} (hd : d.Plain) (hp : d.locate p = .ok l)
    (hl : d.look l = none) : d.stat p = .error .notFound := by
  have hget : d.root.get? l = none := by simpa [look, Dir.look] using hl
  simp [stat, place_eq hd, hp, Except.map, placeAt_of_none hget]

/-- A path leads to a file that can be read, and the file has these bytes. -/
theorem readBytes_eq_ok_iff {d : Disk} (hd : d.Plain) :
    d.readBytes p = .ok bytes ↔
      ∃ l data, d.locate p = .ok l ∧ d.file? l = some data ∧ data.readable ∧ data.bytes = bytes := by
  constructor
  · intro h
    unfold readBytes at h
    split at h
    · next l data hstat =>
      obtain ⟨hp, hget⟩ := (stat_eq_ok_iff hd).1 hstat
      refine ⟨l, data, hp, by simp [file?, hget], ?_⟩
      split at h <;> simp_all
    · simp at h
    · simp at h
  · rintro ⟨l, data, hp, hl, hread, hbytes⟩
    simp [readBytes, stat_of_file hd hp hl, hread, hbytes]

/-- A path leads to a file that can be read, and the file holds this text. -/
theorem readText_eq_ok_iff {d : Disk} (hd : d.Plain) :
    d.readText p = .ok t ↔
      ∃ l data, d.locate p = .ok l ∧ d.file? l = some data ∧ data.readable
        ∧ data.bytes = t.utf8 := by
  rw [← readBytes_eq_ok_iff hd]
  unfold readText
  cases d.readBytes p with
  | error e => simp [bind, Except.bind]
  | ok bytes =>
    simp only [bind, Except.bind, Except.ok.injEq]
    constructor
    · intro h
      split at h
      · next s hs =>
        have ht : s.toList = t := by simpa [pure, Except.pure] using h
        rw [fromUTF8?_eq_some_iff.1 hs, Text.utf8, ← ht, String.ofList_toList]
      · simp at h
    · intro h
      rw [fromUTF8?_eq_some_iff.2 h]
      simp [pure, Except.pure]

/-! ## Disks with the same directories -/

/-- A disk has all directories of another one, and the same working
directory. -/
structure Keeps (d d' : Disk) : Prop where
  here : d'.workingDir = d.workingDir
  dirs : ∀ l, d.look l = some .dir → d'.look l = some .dir

theorem Keeps.refl (d : Disk) : d.Keeps d := ⟨rfl, fun _ h => h⟩

theorem Keeps.trans {d d' d'' : Disk} (h : d.Keeps d') (h' : d'.Keeps d'') : d.Keeps d'' :=
  ⟨h'.here.trans h.here, fun l hl => h'.dirs l (h.dirs l hl)⟩

/-- Paths lead where they led. -/
theorem Keeps.locate {d d' : Disk} (h : d.Keeps d') (hd : d.Plain) (hp : d.locate p = .ok l) :
    d'.locate p = .ok l :=
  locate_of_dirs hd (by rw [h.here]) h.dirs hp

/-! ## Putting a node -/

/-- A location at which a file or a directory can be put: a name below a
directory, and no directory yet. -/
structure Room (d : Disk) (l : Location) : Prop where
  above : ∃ above s, l = above ++ [s] ∧ d.look above = some .dir ∧ Dir.isName s
  notDir : d.look l ≠ some .dir

theorem room_of_locate {d : Disk} (hd : d.Plain) (hp : d.locate p = .ok l)
    (hl : d.look l ≠ some .dir) : d.Room l := by
  obtain hdir | ⟨above, s, rfl, habove, -, hs⟩ := locate_cases hd hp
  · exact absurd hdir hl
  · exact ⟨⟨above, s, rfl, habove, hs⟩, hl⟩

theorem look_put {d : Disk} (hroom : d.Room l) (hnode : ∀ m, m ≠ [] → node.look m = none)
    (l' : Location) : (d.put l node).look l' = if l' = l then some node.entry else d.look l' := by
  obtain ⟨above, s, rfl, habove, -⟩ := hroom.above
  apply Dir.look_put hnode (by simp)
  · rw [List.dropLast_concat]
    exact habove
  · exact fun m hm => Dir.look_below hroom.notDir hm

theorem Plain.put {d : Disk} (hd : d.Plain) (hroom : d.Room l)
    (hnode : ∀ m, m ≠ [] → node.look m = none) (hplain : Dir.nodeIsPlain node) :
    (d.put l node).Plain := by
  constructor
  · obtain ⟨above, s, rfl, habove, hs⟩ := hroom.above
    have hnames := isName_of_look hd (l := above) (by simp [habove])
    exact Dir.isPlain_put hd.tree (by simpa [or_imp, forall_and, hs] using hnames) hplain
  · have hne : d.workingDir ≠ l := by
      rintro rfl
      exact hroom.notDir hd.here
    rw [look_put hroom hnode]
    simpa [Disk.put, hne] using hd.here

theorem look_put_file {d : Disk} (hroom : d.Room l) (data : FileData) (l' : Location) :
    (d.put l (.file data)).look l' = if l' = l then some (.file data) else d.look l' :=
  look_put hroom (fun _ hm => Node.look_below_file data hm) l'

theorem Plain.put_file {d : Disk} (hd : d.Plain) (hroom : d.Room l) (data : FileData) :
    (d.put l (.file data)).Plain :=
  hd.put hroom (fun _ hm => Node.look_below_file data hm) rfl

theorem file?_put_file {d : Disk} (hroom : d.Room l) (data : FileData) (l' : Location) :
    (d.put l (.file data)).file? l' = if l' = l then some data else d.file? l' := by
  apply Option.ext
  intro data'
  rw [file?_eq_some_iff, look_put_file hroom]
  split <;> simp [file?_eq_some_iff]

theorem keeps_put_file {d : Disk} (hroom : d.Room l) (data : FileData) :
    d.Keeps (d.put l (.file data)) := by
  refine ⟨rfl, fun l' hl' => ?_⟩
  have hne : l' ≠ l := by
    rintro rfl
    exact hroom.notDir hl'
  simpa [look_put_file hroom, hne] using hl'

/-! ## Writing -/

/-- What is written to a file that is there replaces its bytes, if it may be
written. -/
theorem writeBytes_of_file {d : Disk} (hd : d.Plain) (hp : d.locate p = .ok l)
    (hl : d.file? l = some data) (bytes : ByteArray) :
    d.writeBytes p bytes
      = if data.writable then .ok (d.put l (.file { data with bytes })) else .error .denied := by
  have hlook : d.look l = some (.file data) := file?_eq_some_iff.1 hl
  have hslash := getLast?_ne_slash_of_locate hd hp (by simp [hlook])
  have hget : d.root.get? l = some (.file data) := ((stat_eq_ok_iff hd).1 (stat_of_file hd hp hl)).2
  simp [writeBytes, FilePath.withoutSlash_eq hslash, FilePath.endsInSlash_eq hslash, place_eq hd,
    hp, Except.map, placeAt_of_get? hget]

/-- Where nothing stands, writing makes a file. -/
theorem writeBytes_of_vacant {d : Disk} (hd : d.Plain) (hp : d.locate p = .ok l)
    (hl : d.look l = none) (bytes : ByteArray) :
    d.writeBytes p bytes = .ok (d.put l (.file { bytes })) := by
  have hslash := getLast?_ne_slash_of_locate hd hp (by simp [hl])
  have hget : d.root.get? l = none := by simpa [look, Dir.look] using hl
  simp [writeBytes, FilePath.withoutSlash_eq hslash, FilePath.endsInSlash_eq hslash, place_eq hd,
    hp, Except.map, placeAt_of_none hget]

/-- Where something else than a file stands, nothing can be written. -/
theorem writeBytes_of_noFile {d : Disk} (hd : d.Plain) (hslash : endsInSlash p = false)
    (hp : d.locate p = .ok l) (hl : d.look l ≠ none) (hfile : d.file? l = none)
    (bytes : ByteArray) : d.writeBytes p bytes = .error .isADirectory := by
  cases hget : d.root.get? l with
  | none => simp [look, Dir.look, hget] at hl
  | some node =>
    cases node with
    | file data => simp [file?, hget] at hfile
    | _ =>
      simp [writeBytes, FilePath.withoutSlash_of_endsInSlash hslash, hslash, place_eq hd, hp,
        Except.map, placeAt_of_get? hget]

/-- A write that succeeds has put a file with the bytes at one location. -/
theorem writeBytes_eq_ok {d : Disk} (hd : d.Plain) (h : d.writeBytes p bytes = .ok d') :
    ∃ l data, d.locate p = .ok l ∧ d.Room l ∧ d' = d.put l (.file data) ∧ data.bytes = bytes
      ∧ (d.look l = none ∧ data = { bytes }
        ∨ ∃ old, d.file? l = some old ∧ old.writable ∧ data = { old with bytes }) := by
  cases hslash : endsInSlash p with
  | true => grind [writeBytes]
  | false =>
    have hplace : d.place true (withoutSlash p) = (d.locate p).map d.placeAt := by
      rw [FilePath.withoutSlash_of_endsInSlash hslash, place_eq hd]
    cases hp : d.locate p with
    | error e => simp [writeBytes, hplace, hp, Except.map] at h
    | ok l =>
      by_cases hlook : d.look l = none
      · rw [writeBytes_of_vacant hd hp hlook, Except.ok.injEq] at h
        exact ⟨l, { bytes }, rfl, room_of_locate hd hp (by simp [hlook]), h.symm, rfl,
          .inl ⟨hlook, rfl⟩⟩
      · cases hold : d.file? l with
        | none =>
          rw [writeBytes_of_noFile hd hslash hp hlook hold] at h
          contradiction
        | some old =>
          rw [writeBytes_of_file hd hp hold] at h
          have hwrite : old.writable := by grind
          rw [if_pos hwrite, Except.ok.injEq] at h
          have hfile : d.look l = some (.file old) := file?_eq_some_iff.1 hold
          exact ⟨l, { old with bytes }, rfl, room_of_locate hd hp (by simp [hfile]), h.symm, rfl,
            .inr ⟨old, hold, hwrite, rfl⟩⟩

/-! ## Making directories -/

/-- A disk differs from another one only by directories where nothing stood. -/
structure Adds (d d' : Disk) : Prop where
  plain : d'.Plain
  here : d'.workingDir = d.workingDir
  look : ∀ l, d'.look l = d.look l ∨ d.look l = none ∧ d'.look l = some .dir

theorem Adds.refl {d : Disk} (hd : d.Plain) : d.Adds d := ⟨hd, rfl, fun _ => .inl rfl⟩

theorem Adds.trans {d d' d'' : Disk} (h : d.Adds d') (h' : d'.Adds d'') : d.Adds d'' := by
  refine ⟨h'.plain, h'.here.trans h.here, fun l => ?_⟩
  have := h.look l
  have := h'.look l
  grind

theorem Adds.keeps {d d' : Disk} (h : d.Adds d') : d.Keeps d' := by
  refine ⟨h.here, fun l hl => ?_⟩
  have := h.look l
  grind

/-- Files are not touched. -/
theorem Adds.file?_eq {d d' : Disk} (h : d.Adds d') (l : Location) : d'.file? l = d.file? l := by
  apply Option.ext
  intro data
  have := h.look l
  rw [file?_eq_some_iff, file?_eq_some_iff]
  grind

/-- A new directory is empty. -/
theorem look_empty (hm : m ≠ []) : (Node.dir .empty).look m = none := by
  cases m with
  | nil => contradiction
  | cons s m => simp [Dir.look_cons, Dir.find?]

theorem adds_makeDir {d : Disk} (hd : d.Plain) (h : d.makeDir p = .ok d') : d.Adds d' := by
  unfold makeDir at h
  rw [place_eq hd] at h
  cases hp : d.locate (withoutSlash p) with
  | error e => simp [hp, Except.map] at h
  | ok l =>
    cases hget : d.root.get? l with
    | some node => simp [hp, Except.map, placeAt_of_get? hget] at h
    | none =>
      have hd' : d.put l (.dir .empty) = d' := by
        simpa [hp, Except.map, placeAt_of_none hget] using h
      have hlook : d.look l = none := by simp [look, Dir.look, hget]
      have hroom : d.Room l := room_of_locate hd hp (by simp [hlook])
      rw [← hd']
      refine ⟨hd.put hroom (fun m hm => look_empty hm) rfl, rfl, fun l' => ?_⟩
      rw [look_put hroom (fun m hm => look_empty hm)]
      by_cases hl' : l' = l <;> simp [hl', hlook, Node.entry]

section Repeated

variable {P : Disk → Prop} (hmake : ∀ d d' p, P d → d.makeDir p = .ok d' → P d')

include hmake

/-- What making one directory keeps, making a directory unless it is there keeps. -/
theorem ensureDir_of_makeDir {d d' : Disk} (hd : P d) (h : d.ensureDir p = .ok d') : P d' := by
  unfold ensureDir at h
  cases hmade : d.makeDir p with
  | ok made =>
    obtain rfl : made = d' := by simpa [hmade] using h
    exact hmake d made p hd hmade
  | error e =>
    by_cases hdir : d.hasDir p
    · obtain rfl : d = d' := by simpa [hmade, hdir] using h
      exact hd
    · simp [hmade, hdir] at h

/-- So does making a directory and those above it, as far as that goes. -/
theorem makeDirsUpTo_of_makeDir {d : Disk} (hd : P d) (n : Nat) (p : FilePath) :
    P (makeDirsUpTo n d p).2 := by
  induction n generalizing p with
  | zero => exact hd
  | succ n ih =>
    rw [makeDirsUpTo]
    by_cases hempty : p.text = ""
    · simpa [hempty] using hd
    rw [if_neg hempty]
    cases hmade : d.ensureDir p with
    | ok made => exact ensureDir_of_makeDir hmake hd hmade
    | error e =>
      by_cases hmissing : e = .notFound
      · subst hmissing
        cases hparent : p.parent? with
        | none => exact hd
        | some q =>
          have hq := ih q
          cases hup : makeDirsUpTo n d q with
          | mk result above =>
            rw [hup] at hq
            cases result with
            | error e => simpa [hup] using hq
            | ok _ =>
              -- The directory is tried once more below the ones made now.
              cases hagain : above.ensureDir p with
              | ok made => simpa [hup, hagain] using ensureDir_of_makeDir hmake hq hagain
              | error e => simpa [hup, hagain] using hq
      · cases e with
        | notFound => exact absurd rfl hmissing
        | _ => exact hd

end Repeated

/-- Making directories does nothing else, whether or not all can be made. -/
theorem adds_makeDirs {d : Disk} (hd : d.Plain) (p : FilePath) : d.Adds (d.makeDirs p).2 :=
  makeDirsUpTo_of_makeDir (fun _ _ _ h hmade => h.trans (adds_makeDir h.plain hmade)) (.refl hd)
    _ p

/-! ## Removing -/

/-- A file that a path leads to can be removed. -/
theorem removeFile_of_file {d : Disk} (hd : d.Plain) (hp : d.locate p = .ok l)
    (hl : d.file? l = some data) : d.removeFile p = .ok { d with root := d.root.remove l } := by
  have hget : d.root.get? l = some (.file data) := ((stat_eq_ok_iff hd).1 (stat_of_file hd hp hl)).2
  simp [removeFile, place_eq hd, hp, Except.map, placeAt_of_get? hget]

theorem look_remove {d : Disk} (hd : d.Proper) (hl : d.look l ≠ some .dir) (l' : Location) :
    { d with root := d.root.remove l }.look l' = if l' = l then none else d.look l' :=
  Dir.look_remove hd.names hl l'

theorem Plain.remove {d : Disk} (hd : d.Plain) (hl : d.look l ≠ some .dir) :
    Plain { d with root := d.root.remove l } := by
  refine ⟨Dir.isPlain_remove hd.tree l, ?_⟩
  have hne : d.workingDir ≠ l := by
    rintro rfl
    exact hl hd.here
  rw [look_remove hd.proper hl]
  simpa [hne] using hd.here

theorem keeps_remove {d : Disk} (hd : d.Plain) (hl : d.look l ≠ some .dir) :
    d.Keeps { d with root := d.root.remove l } := by
  refine ⟨rfl, fun l' hl' => ?_⟩
  have hne : l' ≠ l := by
    rintro rfl
    exact hl hl'
  simpa [look_remove hd.proper hl, hne] using hl'

/-! ## Contents left as they are -/

/-- The bytes of the file at a location. -/
def content? (d : Disk) (l : Location) : Option ByteArray := (d.file? l).map (·.bytes)

/-- What stands on a disk stands on another one as well, and files hold there
what they hold here.  They may be read and written if they may be here. -/
structure Untouched (d d' : Disk) : Prop where
  dirs : ∀ l, d.look l = some .dir → d'.look l = some .dir
  file : ∀ l f, d.file? l = some f → ∃ f', d'.file? l = some f' ∧ f'.bytes = f.bytes
    ∧ (f.readable → f'.readable) ∧ (f.writable → f'.writable)

theorem Untouched.content?_eq {d d' : Disk} (h : d.Untouched d')
    (hl : d.content? l = some bytes) : d'.content? l = some bytes := by
  unfold content? at hl ⊢
  obtain ⟨f, hf, rfl⟩ := Option.map_eq_some_iff.1 hl
  obtain ⟨f', hf', hbytes, -⟩ := h.file l f hf
  simp [hf', hbytes]

/-- Absolute paths lead where they led, and so do all paths if the working
directory is the same. -/
theorem Untouched.locate {d d' : Disk} (h : d.Untouched d') (hd : d.Plain)
    (hstart : p.isAbsolute ∨ d'.workingDir = d.workingDir) (hp : d.locate p = .ok l) :
    d'.locate p = .ok l := by
  refine locate_of_dirs hd ?_ h.dirs hp
  unfold start
  cases hstart with
  | inl habsolute => simp [habsolute]
  | inr hhere => rw [hhere]

/-- What stands on a disk does not depend on where one is. -/
theorem untouched_moved (d : Disk) (l : Location) : d.Untouched { d with workingDir := l } :=
  ⟨fun _ h => h, fun _ f h => ⟨f, h, rfl, id, id⟩⟩

theorem Plain.moved {d : Disk} (hd : d.Plain) (hl : d.look l = some .dir) :
    Plain { d with workingDir := l } :=
  ⟨hd.tree, hl⟩

end Disk
end LogPrune
