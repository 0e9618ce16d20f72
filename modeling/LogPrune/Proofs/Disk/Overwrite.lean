import LogPrune.Proofs.Disk.Links
import LogPrune.Proofs.Disk.Write

/-!
# LogPrune.Proofs.Disk.Overwrite

Writing texts on a disk that may hold links.

1. A write puts a file at the location where it lands (`landing?`) and changes
   nothing else, or is refused (`look_tryWrite`).
2. Writes leave directories, links and the rights of files as they are
   (`overwritten_tryWrite`).  So the disk at the start settles which writes
   succeed, and where they land (`Overwritten.landing?_eq`).
3. In the end each location holds what the last write that lands there leaves
   (`look_foldl_tryWrite`).
-/

namespace LogPrune
namespace Disk

/-! ## Where a write lands -/

/-- Whether a file can be written at a location: nothing stands there, or a file
that may be written. -/
def takesFile (d : Disk) (l : Location) : Bool :=
  match d.look l with
  | none => true
  | some (.file data) => data.writable
  | some _ => false

/-- The location of the file that a write to a path writes, unless it is
refused. -/
def landing? (d : Disk) (p : FilePath) : Option Location :=
  if endsInSlash p then none
  else ((d.place true (withoutSlash p)).toOption.map Place.location).filter d.takesFile

theorem landing?_eq_some {d : Disk} {p : FilePath} {l : Location} (hd : d.Proper)
    (h : d.landing? p = some l) :
    d.takesFile l ∧ ∃ above s, l = above ++ [s] ∧ d.look above = some .dir := by
  unfold landing? at h
  split at h
  · contradiction
  obtain ⟨hplace, htakes⟩ := Option.filter_eq_some_iff.1 h
  refine ⟨htakes, ?_⟩
  cases hr : d.place true (withoutSlash p) with
  | error e => simp [hr, Except.toOption] at hplace
  | ok place =>
    obtain rfl : place.location = l := by simpa [hr, Except.toOption] using hplace
    refine (reached_place hd hr).above.resolve_left fun hdir => ?_
    simp [takesFile, hdir] at htakes

/-- A write puts the file where it lands, and is refused if it lands nowhere. -/
theorem writeText_eq_ok_iff_landing? {d d' : Disk} {p : FilePath} {t : Text} (hd : d.Proper) :
    d.writeText p t = .ok d' ↔
      ∃ l, d.landing? p = some l ∧ d' = d.put l (.file (d.written l t)) := by
  unfold writeText writeBytes landing?
  cases hr : d.place true (withoutSlash p) with
  | error e => simp [Except.toOption]
  | ok place =>
    obtain ⟨l, rfl, hlink⟩ : ∃ l, place = d.placeAt l ∧ ∀ target, d.look l ≠ some (.link target) :=
      have hreached := reached_place hd hr
      ⟨_, hreached.eq_placeAt, hreached.noLink rfl⟩
    by_cases hslash : endsInSlash p
    · simp [hslash]
    simp only [hslash, Bool.false_eq_true, if_false, Except.toOption, Option.map_some,
      location_placeAt, Option.filter_eq_some_iff, Option.some.injEq]
    cases hget : d.root.get? l with
    | none =>
      have hlook := look_eq_none_iff.2 hget
      simp only [placeAt_of_none hget, Except.ok.injEq, written, Text.utf8]
      grind [takesFile, file?_eq_none]
    | some node =>
      have hlook := look_of_get? hget
      cases node with
      | file data =>
        have hfile : d.file? l = some data := file?_eq_some_iff.2 hlook
        simp only [placeAt_of_get? hget, written, Text.utf8]
        grind [takesFile, Node.entry]
      | dir entries => simp [placeAt_of_get? hget, takesFile, hlook, Node.entry]
      | link target => exact absurd hlook (hlink target)

theorem isOk_writeText_iff {d : Disk} {p : FilePath} {t : Text} (hd : d.Proper) :
    (d.writeText p t).isOk ↔ (d.landing? p).isSome := by
  have hok : (d.writeText p t).isOk ↔ ∃ d', d.writeText p t = .ok d' := by
    cases d.writeText p t <;> simp [Except.isOk, Except.toBool]
  simp only [hok, writeText_eq_ok_iff_landing? hd, Option.isSome_iff_exists]
  grind

/-! ## Writing -/

theorem tryWrite_of_none {d : Disk} {w : FilePath × Text} (hd : d.Proper)
    (h : d.landing? w.1 = none) : d.tryWrite w = d := by
  unfold tryWrite
  cases hwrite : d.writeText w.1 w.2 with
  | error e => rfl
  | ok d' =>
    obtain ⟨l, hl, -⟩ := (writeText_eq_ok_iff_landing? hd).1 hwrite
    simp [h] at hl

theorem tryWrite_of_some {d : Disk} {w : FilePath × Text} {l : Location} (hd : d.Proper)
    (h : d.landing? w.1 = some l) : d.tryWrite w = d.put l (.file (d.written l w.2)) := by
  unfold tryWrite
  rw [(writeText_eq_ok_iff_landing? hd).2 ⟨l, h, rfl⟩]

/-- A write changes what stands where it lands, and nothing else. -/
theorem look_tryWrite {d : Disk} (hd : d.Proper) (w : FilePath × Text) (l : Location) :
    (d.tryWrite w).look l
      = if d.landing? w.1 = some l then some (.file (d.written l w.2)) else d.look l := by
  cases hland : d.landing? w.1 with
  | none => simp [tryWrite_of_none hd hland]
  | some l' =>
    obtain ⟨htakes, above, s, hl', habove⟩ := landing?_eq_some hd hland
    have hleaf : d.look l' ≠ some .dir := fun hdir => by simp [takesFile, hdir] at htakes
    have hput : (d.put l' (.file (d.written l' w.2))).look l
        = if l = l' then some (.file (d.written l' w.2)) else d.look l :=
      Dir.look_put (fun _ hm => Node.look_below_file _ hm) (by simp [hl'])
        (by rw [hl', List.dropLast_concat]; exact habove) (fun _ hm => Dir.look_below hleaf hm) l
    rw [tryWrite_of_some hd hland, hput]
    by_cases hl : l = l'
    · simp [hl]
    · have hne : some l' ≠ some l := fun h => hl (Option.some.inj h).symm
      rw [if_neg hl, if_neg hne]

theorem overwritten_tryWrite {d : Disk} (hd : d.Proper) (w : FilePath × Text) :
    d.Overwritten (d.tryWrite w) := by
  constructor
  · cases hland : d.landing? w.1 with
    | none => rw [tryWrite_of_none hd hland]
    | some l => rw [tryWrite_of_some hd hland]; rfl
  · intro l
    rw [look_tryWrite hd]
    split
    · next hland =>
      obtain ⟨htakes, -⟩ := landing?_eq_some hd hland
      cases hlook : d.look l with
      | none => exact .inr (.inr ⟨rfl, w.2.utf8, by simp [written, file?_eq_none hlook]⟩)
      | some entry =>
        cases entry with
        | file old =>
          exact .inr (.inl ⟨old, w.2.utf8, rfl, by simp [written, file?_eq_some_iff.2 hlook]⟩)
        | dir => simp [takesFile, hlook] at htakes
        | link target => simp [takesFile, hlook] at htakes
    · exact .inl rfl

theorem proper_tryWrite {d : Disk} (hd : d.Proper) (w : FilePath × Text) :
    (d.tryWrite w).Proper := by
  have hover := overwritten_tryWrite hd w
  refine ⟨?_, hover.here ▸ (hover.look_dir_iff _).2 hd.here⟩
  cases hland : d.landing? w.1 with
  | none => rw [tryWrite_of_none hd hland]; exact hd.names
  | some l => rw [tryWrite_of_some hd hland]; exact Dir.namesOnce_put hd.names rfl

/-! ## Writing after other writes -/

theorem Overwritten.takesFile_eq {d d' : Disk} (h : d.Overwritten d') (l : Location) :
    d'.takesFile l = d.takesFile l := by
  unfold takesFile
  obtain hsame | ⟨old, bytes, hold, hnew⟩ | ⟨hnone, bytes, hnew⟩ := h.look l
  · rw [hsame]
  · rw [hold, hnew]
  · rw [hnone, hnew]

/-- Writes land where they would have landed before. -/
theorem Overwritten.landing?_eq {d d' : Disk} (h : d.Overwritten d') (hd : d.Proper)
    (p : FilePath) : d'.landing? p = d.landing? p := by
  have htakes : d'.takesFile = d.takesFile := funext h.takesFile_eq
  unfold landing?
  rw [(agree_place hd h true (withoutSlash p)).location, htakes]

/-- A write makes the file that it would have made before. -/
theorem Overwritten.written_eq {d d' : Disk} (h : d.Overwritten d') (l : Location) (t : Text) :
    d'.written l t = d.written l t := by
  obtain hsame | ⟨old, bytes, hold, hnew⟩ | ⟨hnone, bytes, hnew⟩ := h.look l
  · rw [written, written, file?_congr hsame]
  · rw [written, written, file?_eq_some_iff.2 hold, file?_eq_some_iff.2 hnew]
  · rw [written, written, file?_eq_none hnone, file?_eq_some_iff.2 hnew]

theorem proper_foldl_tryWrite {d : Disk} (hd : d.Proper) (writes : List (FilePath × Text)) :
    (writes.foldl tryWrite d).Proper := by
  induction writes generalizing d with
  | nil => exact hd
  | cons w writes ih => exact ih (proper_tryWrite hd w)

theorem overwritten_foldl_tryWrite {d : Disk} (hd : d.Proper) (writes : List (FilePath × Text)) :
    d.Overwritten (writes.foldl tryWrite d) := by
  induction writes generalizing d with
  | nil => exact .refl d
  | cons w writes ih => exact (overwritten_tryWrite hd w).trans (ih (proper_tryWrite hd w))

/-- The last of some writes that lands at a location. -/
def lastTo? (d : Disk) (l : Location) (writes : List (FilePath × Text)) :
    Option (FilePath × Text) :=
  writes.reverse.find? fun w => d.landing? w.1 = some l

/-- Each location holds what the last write that lands there leaves, or what it
held if none does. -/
theorem look_foldl_tryWrite {d : Disk} (hd : d.Proper) (writes : List (FilePath × Text))
    (l : Location) :
    (writes.foldl tryWrite d).look l
      = ((d.lastTo? l writes).map fun w => .file (d.written l w.2)).or (d.look l) := by
  induction writes generalizing d with
  | nil => rfl
  | cons w writes ih =>
    have hover := overwritten_tryWrite hd w
    have hlast : (d.tryWrite w).lastTo? l writes = d.lastTo? l writes := by
      simp only [lastTo?, hover.landing?_eq hd]
    rw [List.foldl_cons, ih (proper_tryWrite hd w), hlast, look_tryWrite hd, lastTo?, lastTo?,
      List.reverse_cons, List.find?_append]
    cases writes.reverse.find? fun w => d.landing? w.1 = some l with
    | some v => exact congrArg some (congrArg Entry.file (hover.written_eq l v.2))
    | none => by_cases hland : d.landing? w.1 = some l <;> simp [hland]

/-! ## Removing -/

theorem removeFile_of_isLeaf {d : Disk} {p : FilePath} {place : Place}
    (h : d.place false p = .ok place) (hleaf : place.isLeaf) :
    d.removeFile p = .ok { d with root := d.root.remove place.location } := by
  rw [removeFile, h]
  cases place with
  | vacant l => contradiction
  | taken l node =>
    cases node with
    | file data => rfl
    | link target => rfl
    | dir entries => contradiction

end Disk
end LogPrune
