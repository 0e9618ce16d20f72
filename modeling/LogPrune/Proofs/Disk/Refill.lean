import LogPrune.Proofs.Disk.Overwrite

/-!
# LogPrune.Proofs.Disk.Refill

What can be read and written after other files have been written.

A disk is refilled when nothing but the bytes of files has changed, and no file
has come into being.  Then what a path leads to is said in the same words, also
where it leads nowhere (`Refilled.entryAt_eq`), and a write is refused for the
same reason (`Refilled.outcome_eq`).
-/

namespace LogPrune
namespace Disk

/-- A disk differs from another one by the bytes of files only. -/
structure Refilled (d d' : Disk) : Prop extends Overwritten d d' where
  none_of_none : ∀ l, d.look l = none → d'.look l = none

theorem Refilled.refl (d : Disk) : d.Refilled d := ⟨.refl d, fun _ h => h⟩

/-! ## Reading -/

/-- The location that a path leads to, and what stands there. -/
def entryAt (d : Disk) (p : FilePath) : Except IoError (Location × Entry) :=
  (d.stat p).map fun found => (found.1, found.2.entry)

/-- What stands at a location, if anything does. -/
def entry (d : Disk) (l : Location) : Except IoError (Location × Entry) :=
  match d.look l with
  | some entry => .ok (l, entry)
  | none => .error .notFound

theorem entryAt_eq {d : Disk} (hd : d.Proper) (p : FilePath) :
    d.entryAt p = ((d.place true p).map Place.location).bind d.entry := by
  unfold entryAt stat
  cases hplace : d.place true p with
  | error e => rfl
  | ok place =>
    have heq := (reached_place hd hplace).eq_placeAt
    generalize place.location = l at heq
    subst heq
    simp only [Except.map, Except.bind, location_placeAt, entry]
    cases hget : d.root.get? l with
    | none => simp [placeAt_of_none hget, look_eq_none_iff.2 hget]
    | some node => simp [placeAt_of_get? hget, look_of_get? hget]

theorem size_eq (d : Disk) (p : FilePath) :
    d.size p = (d.entryAt p).map fun
      | (_, .file data) => data.bytes.size
      | _ => dirSize := by
  unfold size entryAt
  cases d.stat p with
  | error e => rfl
  | ok found =>
    obtain ⟨l, node⟩ := found
    cases node <;> rfl

theorem readBytes_eq (d : Disk) (p : FilePath) :
    d.readBytes p = (d.entryAt p).bind fun
      | (_, .file data) => if data.readable then .ok data.bytes else .error .denied
      | _ => .error .isADirectory := by
  unfold readBytes entryAt
  cases d.stat p with
  | error e => rfl
  | ok found =>
    obtain ⟨l, node⟩ := found
    cases node <;> rfl

/-- The location of the file that a path leads to. -/
def fileAt? (d : Disk) (p : FilePath) : Option Location :=
  match d.entryAt p with
  | .ok (l, .file _) => some l
  | _ => none

theorem fileAt?_eq_some_iff {d : Disk} {p : FilePath} {l : Location} :
    d.fileAt? p = some l ↔ ∃ data, d.entryAt p = .ok (l, .file data) := by
  unfold fileAt?
  split <;> simp_all

theorem look_of_fileAt? {d : Disk} {p : FilePath} {l : Location} (hd : d.Proper)
    (h : d.fileAt? p = some l) : ∃ data, d.look l = some (.file data) := by
  obtain ⟨data, hentry⟩ := fileAt?_eq_some_iff.1 h
  rw [entryAt_eq hd] at hentry
  cases hplace : d.place true p with
  | error e => simp [hplace, Except.map, Except.bind] at hentry
  | ok place =>
    simp only [hplace, Except.map, Except.bind, entry] at hentry
    split at hentry <;> simp_all

/-- A path leads to the same as before, if the file that it leads to is the
same. -/
theorem Refilled.entryAt_eq {d d' : Disk} (h : d.Refilled d') (hd : d.Proper) (hd' : d'.Proper)
    {p : FilePath} (hsame : ∀ l, d.fileAt? p = some l → d'.look l = d.look l) :
    d'.entryAt p = d.entryAt p := by
  have hentry := Disk.entryAt_eq hd p
  have hentry' := Disk.entryAt_eq hd' p
  rw [(agree_place hd h.toOverwritten true p).reason h.none_of_none] at hentry'
  cases hplace : d.place true p with
  | error e => rw [hentry, hentry', hplace]; rfl
  | ok place =>
    have hlook : d'.look place.location = d.look place.location := by
      obtain hlook | ⟨old, bytes, hold, -⟩ | ⟨hnone, -⟩ := h.look place.location
      · exact hlook
      · refine hsame _ (fileAt?_eq_some_iff.2 ⟨old, ?_⟩)
        simp [hentry, hplace, Except.map, Except.bind, entry, hold]
      · rw [hnone, h.none_of_none _ hnone]
    simp only [hentry, hentry', hplace, Except.map, Except.bind, entry, hlook]

/-! ## Writing -/

/-- Whether a file can be written at a location, or why not. -/
def accepts (d : Disk) (l : Location) : Except IoError Unit :=
  match d.look l with
  | none => .ok ()
  | some (.file data) => if data.writable then .ok () else .error .denied
  | some _ => .error .isADirectory

/-- What comes of a write, without the disk. -/
def outcome (d : Disk) (p : FilePath) (t : Text) : Except IoError Unit :=
  (d.writeText p t).map fun _ => ()

theorem outcome_eq {d : Disk} (hd : d.Proper) (p : FilePath) (t : Text) :
    d.outcome p t = ((d.place true (withoutSlash p)).map Place.location).bind fun l =>
      if endsInSlash p then .error .isADirectory else d.accepts l := by
  unfold outcome writeText writeBytes
  cases hplace : d.place true (withoutSlash p) with
  | error e => rfl
  | ok place =>
    obtain ⟨l, rfl, hlink⟩ : ∃ l, place = d.placeAt l ∧ ∀ target, d.look l ≠ some (.link target) :=
      have hreached := reached_place hd hplace
      ⟨_, hreached.eq_placeAt, hreached.noLink rfl⟩
    simp only [Except.map, Except.bind, location_placeAt, accepts]
    by_cases hslash : endsInSlash p
    · simp [hslash]
    cases hget : d.root.get? l with
    | none => simp [placeAt_of_none hget, look_eq_none_iff.2 hget, hslash]
    | some node =>
      have hlook := look_of_get? hget
      cases node with
      | file data =>
        cases hwrite : data.writable <;>
          simp [placeAt_of_get? hget, hlook, Node.entry, hslash, hwrite]
      | dir entries => simp [placeAt_of_get? hget, hlook, Node.entry, hslash]
      | link target => exact absurd hlook (hlink target)

theorem Refilled.accepts_eq {d d' : Disk} (h : d.Refilled d') (l : Location) :
    d'.accepts l = d.accepts l := by
  unfold accepts
  obtain hsame | ⟨old, bytes, hold, hnew⟩ | ⟨hnone, -⟩ := h.look l
  · rw [hsame]
  · rw [hold, hnew]
  · rw [hnone, h.none_of_none l hnone]

/-- A write is refused where it would have been before, for the same reason. -/
theorem Refilled.outcome_eq {d d' : Disk} (h : d.Refilled d') (hd : d.Proper) (hd' : d'.Proper)
    (p : FilePath) (t : Text) : d'.outcome p t = d.outcome p t := by
  have haccepts : d'.accepts = d.accepts := funext h.accepts_eq
  rw [Disk.outcome_eq hd', Disk.outcome_eq hd,
    (agree_place hd h.toOverwritten true (withoutSlash p)).reason h.none_of_none, haccepts]

/-- A write to a path that leads to a file lands there. -/
theorem eq_of_landing? {d : Disk} {p : FilePath} {l l' : Location} (hd : d.Proper)
    (hfile : d.fileAt? p = some l) (hland : d.landing? p = some l') : l' = l := by
  obtain ⟨data, hentry⟩ := fileAt?_eq_some_iff.1 hfile
  rw [entryAt_eq hd] at hentry
  unfold landing? at hland
  cases hslash : endsInSlash p with
  | true => simp [hslash] at hland
  | false =>
    rw [hslash, if_neg Bool.false_ne_true, FilePath.withoutSlash_of_endsInSlash hslash] at hland
    cases hplace : d.place true p with
    | error e => simp [hplace, Except.toOption] at hland
    | ok place =>
      simp only [hplace, Except.map, Except.bind, entry] at hentry
      simp only [hplace, Except.toOption, Option.map_some, Option.filter_eq_some_iff,
        Option.some.injEq] at hland
      split at hentry <;> simp_all

end Disk
end LogPrune
