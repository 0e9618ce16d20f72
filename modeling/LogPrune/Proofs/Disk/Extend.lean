import LogPrune.Proofs.Disk.Refill

/-!
# LogPrune.Proofs.Disk.Extend

Where paths lead when nodes come and go, on a disk that may hold links.

1. A disk extends another one if everything that stands there stands on it too.
   What a path leads to on a disk, it leads to on every disk that extends it
   (`Extends.entryAt_eq`).
2. Making directories extends a disk (`extends_makeDirs`), and so does putting
   back what was removed.  A path to which a text is written leads to it
   (`entryAt_of_writeText`), so the text is read back (`readText_of_writeText`).
3. A path from which a file or a link has been removed leads to nothing
   (`hasNode_remove`).
-/

namespace LogPrune
namespace Disk

/-- Everything that stands on a disk stands on another one too. -/
structure Extends (d d' : Disk) : Prop where
  here : d'.workingDir = d.workingDir
  look : ∀ l entry, d.look l = some entry → d'.look l = some entry

theorem Extends.refl (d : Disk) : d.Extends d := ⟨rfl, fun _ _ h => h⟩

theorem Extends.trans {d d' d'' : Disk} (h : d.Extends d') (h' : d'.Extends d'') :
    d.Extends d'' :=
  ⟨h'.here.trans h.here, fun l entry hl => h'.look l entry (h.look l entry hl)⟩

/-! ## Where a path leads -/

/-- Two ways of following a path, one on each of two disks: where the first leads
to a node, the second leads to the same location. -/
def Follows (d : Disk) (r r' : Except IoError Place) : Prop :=
  ∀ place, r = .ok place → d.look place.location ≠ none →
    ∃ place', r' = .ok place' ∧ place'.location = place.location

theorem Follows.of_error (d : Disk) (e : IoError) (r' : Except IoError Place) :
    d.Follows (.error e) r' := by
  intro place h
  contradiction

theorem Follows.placeAt (d d' : Disk) (l : Location) :
    d.Follows (.ok (d.placeAt l)) (.ok (d'.placeAt l)) := by
  rintro _ ⟨rfl⟩ -
  exact ⟨d'.placeAt l, rfl, by simp⟩

theorem Follows.ite {d : Disk} {c : Prop} [Decidable c] {r r' s s' : Except IoError Place}
    (hr : d.Follows r r') (hs : d.Follows s s') :
    d.Follows (if c then r else s) (if c then r' else s') := by
  split <;> assumption

theorem Extends.follow {d d' : Disk} {lastLink : Bool} (h : d.Extends d')
    {jump jump' : Location → List String → Except IoError Place}
    (hjump : ∀ here segments, d.look here = some .dir →
      d.Follows (jump here segments) (jump' here segments))
    {here : Location} (segments : List String) (hhere : d.look here = some .dir) :
    d.Follows (d.follow jump lastLink here segments) (d'.follow jump' lastLink here segments) := by
  induction segments generalizing here with
  | nil =>
    rw [follow_nil, follow_nil, if_neg (by simp [hhere]), if_neg (by simp [h.look _ _ hhere])]
    exact .placeAt d d' here
  | cons s rest ih =>
    by_cases hdot : s = "."
    · simpa [Disk.follow, hdot] using ih hhere
    by_cases hdots : s = ".."
    · simpa [Disk.follow, hdots] using ih (look_dropLast hhere)
    by_cases hlong : nameLimit < s.utf8ByteSize
    · simpa [Disk.follow, hdot, hdots, hlong] using Follows.of_error d .nameTooLong _
    have hname := Follows.placeAt d d' (here ++ [s])
    rw [follow_name d jump lastLink here rest hdot hdots hlong]
    cases hlook : d.look (here ++ [s]) with
    | none =>
      -- The path leads to no node here.
      intro place hplace hstands
      dsimp only at hplace
      split at hplace
      · rw [← Except.ok.inj hplace, location_placeAt, hlook] at hstands
        contradiction
      · contradiction
    | some entry =>
      rw [follow_name d' jump' lastLink here rest hdot hdots hlong, h.look _ _ hlook]
      cases entry with
      | dir => exact .ite hname (ih hlook)
      | file data => exact .ite hname (.of_error d _ _)
      | link target =>
        exact .ite hname (.ite (.of_error d _ _) (hjump _ _ (look_start_of_dir hhere target)))

theorem Extends.followLinks {d d' : Disk} {lastLink : Bool} (h : d.Extends d') (n : Nat)
    {here : Location} (segments : List String) (hhere : d.look here = some .dir) :
    d.Follows (d.followLinks lastLink n here segments)
      (d'.followLinks lastLink n here segments) := by
  induction n generalizing here segments with
  | zero => exact h.follow (fun _ _ _ => .of_error d _ _) segments hhere
  | succ n ih => exact h.follow (fun _ segments hhere => ih segments hhere) segments hhere

/-- A path that leads to a node leads to the same location on a disk that extends
the disk. -/
theorem Extends.place {d d' : Disk} (h : d.Extends d') (hd : d.Proper) (lastLink : Bool)
    (p : FilePath) : d.Follows (d.place lastLink p) (d'.place lastLink p) := by
  unfold Disk.place
  rw [h.here]
  exact .ite (.of_error d _ _) (.ite (.of_error d _ _) (.ite (.of_error d _ _)
    (h.followLinks linkLimit (steps p) (look_start_of_dir hd.here p))))

theorem entryAt_eq_ok_iff {d : Disk} {p : FilePath} {l : Location} {entry : Entry}
    (hd : d.Proper) : d.entryAt p = .ok (l, entry) ↔
      ∃ place, d.place true p = .ok place ∧ place.location = l ∧ d.look l = some entry := by
  rw [entryAt_eq hd]
  cases d.place true p with
  | error e => simp [Except.map, Except.bind]
  | ok place =>
    simp only [Except.map, Except.bind, Disk.entry]
    cases hlook : d.look place.location <;> grind

/-- What a path leads to, it leads to on a disk that extends the disk. -/
theorem Extends.entryAt_eq {d d' : Disk} (h : d.Extends d') (hd : d.Proper) (hd' : d'.Proper)
    {p : FilePath} {found : Location × Entry} (hp : d.entryAt p = .ok found) :
    d'.entryAt p = .ok found := by
  obtain ⟨l, entry⟩ := found
  obtain ⟨place, hplace, rfl, hlook⟩ := (entryAt_eq_ok_iff hd).1 hp
  obtain ⟨place', hplace', hsame⟩ := h.place hd true p place hplace (by simp [hlook])
  exact (entryAt_eq_ok_iff hd').2 ⟨place', hplace', hsame, h.look _ _ hlook⟩

/-! ## Asking -/

theorem hasNode_eq (d : Disk) (p : FilePath) : d.hasNode p = (d.entryAt p).isOk := by
  unfold hasNode entryAt
  cases d.stat p <;> rfl

theorem exists_entryAt_of_hasNode {d : Disk} {p : FilePath} (h : d.hasNode p) :
    ∃ found, d.entryAt p = .ok found := by
  rw [hasNode_eq] at h
  cases hentry : d.entryAt p with
  | error e => simp [hentry, Except.isOk, Except.toBool] at h
  | ok found => exact ⟨found, rfl⟩

theorem entryAt_file_iff {d : Disk} {p : FilePath} {l : Location} {data : FileData} :
    d.entryAt p = .ok (l, .file data) ↔ d.stat p = .ok (l, .file data) := by
  unfold entryAt
  cases d.stat p with
  | error e => simp [Except.map]
  | ok found =>
    obtain ⟨l', node⟩ := found
    cases node <;> simp [Except.map, Node.entry]

/-! ## Writing -/

/-- A write lands where its path leads. -/
theorem place_of_landing? {d : Disk} {p : FilePath} {l : Location} (h : d.landing? p = some l) :
    ∃ place, d.place true p = .ok place ∧ place.location = l := by
  unfold landing? at h
  cases hslash : endsInSlash p with
  | true => simp [hslash] at h
  | false =>
    rw [hslash, if_neg Bool.false_ne_true, FilePath.withoutSlash_of_endsInSlash hslash,
      Option.filter_eq_some_iff] at h
    cases hplace : d.place true p with
    | error e => simp [hplace, Except.toOption] at h
    | ok place => exact ⟨place, rfl, by simpa [hplace, Except.toOption] using h.1⟩

/-- A path to which a text has been written leads to the file that holds it. -/
theorem entryAt_of_writeText {d d' : Disk} {p : FilePath} {t : Text} (hd : d.Proper)
    (h : d.writeText p t = .ok d') :
    d'.Proper ∧ ∃ l, d.landing? p = some l ∧ d'.entryAt p = .ok (l, .file (d.written l t)) := by
  obtain ⟨l, hland, -⟩ := (writeText_eq_ok_iff_landing? hd).1 h
  have htry : d.tryWrite (p, t) = d' := by rw [tryWrite, h]
  have hproper := proper_tryWrite hd (p, t)
  have hover := overwritten_tryWrite hd (p, t)
  have hlook := look_tryWrite hd (p, t) l
  rw [htry] at hproper hover hlook
  rw [if_pos hland] at hlook
  obtain ⟨place, hplace, rfl⟩ := place_of_landing? hland
  have hlocation := (agree_place hd hover true p).location
  refine ⟨hproper, _, hland, (entryAt_eq_ok_iff hproper).2 ?_⟩
  cases hplace' : d'.place true p with
  | error e => simp [hplace, hplace', Except.toOption] at hlocation
  | ok place' =>
    exact ⟨place', rfl, by simpa [hplace, hplace', Except.toOption] using hlocation, hlook⟩

/-- A text that has been written is read back, unless a file that was there
cannot be read. -/
theorem readText_of_writeText {d d' : Disk} {p : FilePath} {t : Text} (hd : d.Proper)
    (h : d.writeText p t = .ok d')
    (hreadable : ∀ l data, d.entryAt p = .ok (l, .file data) → data.readable) :
    d'.hasNode p ∧ d'.readText p = .ok t := by
  obtain ⟨-, l, hland, hentry⟩ := entryAt_of_writeText hd h
  have hread : (d.written l t).readable := by
    unfold written
    cases hfile : d.file? l with
    | none => rfl
    | some data =>
      obtain ⟨place, hplace, hl⟩ := place_of_landing? hland
      exact hreadable l data
        ((entryAt_eq_ok_iff hd).2 ⟨place, hplace, hl, file?_eq_some_iff.1 hfile⟩)
  have hbytes : d'.readBytes p = .ok t.utf8 := by
    rw [readBytes_eq, hentry]
    simp [Except.bind, hread]
  constructor
  · rw [hasNode_eq, hentry]
    rfl
  · rw [readText, hbytes]
    simp only [bind, Except.bind]
    rw [fromUTF8?_eq_some_iff.2 (Text.utf8.eq_1 t)]
    simp [pure, Except.pure]

/-! ## Making directories -/

/-- A directory is made where nothing stood, below a directory. -/
theorem makeDir_eq_ok {d d' : Disk} {p : FilePath} (hd : d.Proper) (h : d.makeDir p = .ok d') :
    ∃ above s, d' = d.put (above ++ [s]) (.dir .empty) ∧ d.look above = some .dir
      ∧ d.look (above ++ [s]) = none := by
  unfold makeDir at h
  cases hplace : d.place false (withoutSlash p) with
  | error e => simp [hplace] at h
  | ok place =>
    cases place with
    | taken l node => simp [hplace] at h
    | vacant l =>
      have hreached := reached_place hd hplace
      have hnone : d.look l = none := by
        have heq := hreached.eq_placeAt
        rw [Place.location, placeAt] at heq
        split at heq
        · contradiction
        · next hget => exact look_eq_none_iff.2 hget
      obtain hdir | ⟨above, s, hl, habove⟩ := hreached.above
      · simp [Place.location, hnone] at hdir
      · obtain rfl : l = above ++ [s] := hl
        exact ⟨above, s, by simpa [hplace] using h.symm, habove, hnone⟩

theorem look_makeDir {d : Disk} {above : Location} {s : String} (habove : d.look above = some .dir)
    (hnone : d.look (above ++ [s]) = none) (l : Location) :
    (d.put (above ++ [s]) (.dir .empty)).look l
      = if l = above ++ [s] then some .dir else d.look l := by
  have hput : (d.root.put (.dir .empty) (above ++ [s])).look l
      = if l = above ++ [s] then some (Node.entry (.dir .empty)) else d.root.look l :=
    Dir.look_put (fun _ hm => look_empty hm) (by simp) (by rw [List.dropLast_concat]; exact habove)
      (fun _ hm => Dir.look_below (fun hdir => by simp [look, hdir] at hnone) hm) l
  simpa [Disk.put, look, Node.entry] using hput

theorem extends_makeDir {d d' : Disk} {p : FilePath} (hd : d.Proper) (h : d.makeDir p = .ok d') :
    d'.Proper ∧ d.Extends d' := by
  obtain ⟨above, s, rfl, habove, hnone⟩ := makeDir_eq_ok hd h
  have hlook := look_makeDir habove hnone
  have hextends : d.Extends (d.put (above ++ [s]) (.dir .empty)) := by
    refine ⟨rfl, fun l entry hl => ?_⟩
    have hne : l ≠ above ++ [s] := by
      rintro rfl
      simp [hnone] at hl
    rw [hlook, if_neg hne, hl]
  exact ⟨⟨Dir.namesOnce_put hd.names rfl, hextends.look _ _ hd.here⟩, hextends⟩

/-- Making directories extends a disk, whether or not all can be made. -/
theorem extends_makeDirs {d : Disk} (hd : d.Proper) (p : FilePath) :
    (d.makeDirs p).2.Proper ∧ d.Extends (d.makeDirs p).2 :=
  makeDirsUpTo_of_makeDir (P := fun made => made.Proper ∧ d.Extends made)
    (fun _ _ _ ⟨hproper, hextends⟩ hmade =>
      have hnext := extends_makeDir hproper hmade
      ⟨hnext.1, hextends.trans hnext.2⟩)
    ⟨hd, .refl d⟩ _ p

/-! ## Removing -/

theorem proper_remove {d : Disk} (hd : d.Proper) {l : Location} (hl : d.look l ≠ some .dir) :
    Proper { d with root := d.root.remove l } := by
  refine ⟨Dir.namesOnce_remove hd.names l, ?_⟩
  have hne : d.workingDir ≠ l := by
    rintro rfl
    exact hl hd.here
  rw [look_remove hd hl]
  simpa [hne] using hd.here

/-- A disk extends what is left of it. -/
theorem extends_of_remove {d : Disk} (hd : d.Proper) {l : Location} (hl : d.look l ≠ some .dir) :
    Extends { d with root := d.root.remove l } d := by
  refine ⟨rfl, fun l' entry hl' => ?_⟩
  rw [look_remove hd hl] at hl'
  split at hl'
  · contradiction
  · exact hl'

/-- A path leads to nothing once the file or link at it has been removed. -/
theorem hasNode_remove {d : Disk} {p : FilePath} {place : Place} (hd : d.Proper)
    (hplace : d.place false p = .ok place) (hleaf : place.isLeaf) :
    hasNode { d with root := d.root.remove place.location } p = false := by
  have hdir := look_ne_dir_of_isLeaf hd hplace hleaf
  have hleft := proper_remove hd hdir
  rw [Bool.eq_false_iff]
  intro hnode
  obtain ⟨⟨l, entry⟩, hentry⟩ := exists_entryAt_of_hasNode hnode
  obtain ⟨reached, hreached, rfl, hlook⟩ := (entryAt_eq_ok_iff hleft).1 hentry
  -- Without following a last link, the path still leads to a node.
  obtain ⟨last, hlast, hstands⟩ := exists_place_of_lastLink
    (Q := fun place' => look { d with root := d.root.remove place.location } place'.location ≠ none)
    (fun l' target hl' => by simp [hl']) hreached (by simp [hlook])
  -- It led there before, and there a node has been removed.
  obtain ⟨place', hplace', hsame⟩ := (extends_of_remove hd hdir).place hleft false p last hlast
    hstands
  obtain rfl : place = place' := by simpa [hplace] using hplace'
  rw [← hsame, look_remove hd hdir, if_pos rfl] at hstands
  contradiction

theorem removeFile_eq_ok {d d' : Disk} {p : FilePath} (h : d.removeFile p = .ok d') :
    ∃ place, d.place false p = .ok place ∧ place.isLeaf
      ∧ d' = { d with root := d.root.remove place.location } := by
  unfold removeFile at h
  cases hplace : d.place false p with
  | error e => simp [hplace] at h
  | ok place =>
    refine ⟨place, rfl, ?_⟩
    cases place with
    | vacant l => simp [hplace] at h
    | taken l node =>
      cases node with
      | dir entries => simp [hplace] at h
      | file data => exact ⟨rfl, by simpa [hplace, Place.location] using h.symm⟩
      | link target => exact ⟨rfl, by simpa [hplace, Place.location] using h.symm⟩

/-- There is nothing at a path where there is nothing to remove. -/
theorem hasNode_of_removeFile {d : Disk} {p : FilePath} (hd : d.Proper)
    (h : d.removeFile p = .error .notFound) : d.hasNode p = false := by
  rw [Bool.eq_false_iff]
  intro hnode
  obtain ⟨⟨l, entry⟩, hentry⟩ := exists_entryAt_of_hasNode hnode
  obtain ⟨reached, hreached, rfl, hlook⟩ := (entryAt_eq_ok_iff hd).1 hentry
  obtain ⟨last, hlast, hstands⟩ := exists_place_of_lastLink
    (Q := fun place => d.look place.location ≠ none) (fun l' target hl' => by simp [hl']) hreached
    (by simp [hlook])
  have heq := (reached_place hd hlast).eq_placeAt
  cases last with
  | vacant l =>
    rw [Place.location, placeAt] at heq
    split at heq
    · contradiction
    · next hget => exact hstands (look_eq_none_iff.2 hget)
  | taken l node => cases node <;> simp [removeFile, hlast] at h

end Disk
end LogPrune
