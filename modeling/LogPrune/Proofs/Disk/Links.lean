import LogPrune.Proofs.Disk.Change

/-!
# LogPrune.Proofs.Disk.Links

Where paths lead on a disk that may hold links.

1. A path that leads anywhere leads to what stands at a location; with the last
   link followed no link stands there (`reached_place`).
2. Where a path leads through its last link to a file, it leads without to the
   file or to a link (`exists_place_of_stat`).
3. Other bytes in files, and new files, turn no path aside (`agree_place`): it
   leads to the same location or nowhere, as before.  Only the reason why it
   leads nowhere may be another one, and only if a file is new.
-/

namespace LogPrune

/-- The location of a place. -/
def Place.location : Place → Location
  | taken l _ => l
  | vacant l => l

/-- Whether a file or a link stands at a place. -/
def Place.isLeaf : Place → Bool
  | taken _ (.dir _) => false
  | taken _ _ => true
  | vacant _ => false

namespace Disk

theorem look_root (d : Disk) : d.look [] = some .dir := Dir.look_nil d.root

theorem look_start_of_dir {d : Disk} {here : Location} (hhere : d.look here = some .dir)
    (p : FilePath) : d.look (start p here) = some .dir := by
  unfold start
  split
  · exact look_root d
  · exact hhere

theorem look_eq_none_iff {d : Disk} {l : Location} : d.look l = none ↔ d.root.get? l = none := by
  simp [look, Dir.look]

theorem look_of_get? {d : Disk} {l : Location} {node : Node} (h : d.root.get? l = some node) :
    d.look l = some node.entry := by
  simp [look, Dir.look, h]

@[simp] theorem location_placeAt (d : Disk) (l : Location) : (d.placeAt l).location = l := by
  cases hget : d.root.get? l with
  | none => rw [placeAt_of_none hget, Place.location]
  | some node => rw [placeAt_of_get? hget, Place.location]

/-! ## Where a path leads -/

section Follow

variable (d : Disk) (jump : Location → List String → Except IoError Place) (lastLink : Bool)
  (here : Location)

theorem follow_nil : d.follow jump lastLink here []
    = if d.look here = none then .error .notFound else .ok (d.placeAt here) := by
  rw [follow]
  cases hget : d.root.get? here with
  | none => simp [look_eq_none_iff.2 hget]
  | some node => simp [look_eq_none_iff, hget, placeAt_of_get? hget]

/-- What following does at a name depends on what stands there. -/
theorem follow_name {s : String} (rest : List String) (hdot : s ≠ ".") (hdots : s ≠ "..")
    (hlong : ¬ nameLimit < s.utf8ByteSize) :
    d.follow jump lastLink here (s :: rest) = match d.look (here ++ [s]) with
      | none => if rest = [] then .ok (d.placeAt (here ++ [s])) else .error .notFound
      | some .dir =>
        if rest = [] then .ok (d.placeAt (here ++ [s]))
        else d.follow jump lastLink (here ++ [s]) rest
      | some (.file _) =>
        if rest = [] then .ok (d.placeAt (here ++ [s])) else .error .notADirectory
      | some (.link target) =>
        if rest = [] && !lastLink then .ok (d.placeAt (here ++ [s]))
        else if target.text = "" then .error .notFound
        else jump (start target here) (steps target ++ rest) := by
  rw [follow, if_neg hdot, if_neg hdots, if_neg hlong]
  cases hget : d.root.get? (here ++ [s]) with
  | none => simp [look, Dir.look, hget, placeAt_of_none hget]
  | some node => cases node <;> simp [look, Dir.look, hget, Node.entry, placeAt_of_get? hget]

end Follow

/-- What a path leads to: what stands at a location, which is that of a directory
or of a name below one, and not that of a link unless a last link is left. -/
structure Reached (d : Disk) (lastLink : Bool) (place : Place) : Prop where
  eq_placeAt : place = d.placeAt place.location
  above : d.look place.location = some .dir ∨
    ∃ above s, place.location = above ++ [s] ∧ d.look above = some .dir
  noLink : lastLink → ∀ target, d.look place.location ≠ some (.link target)

theorem reached_placeAt {d : Disk} {lastLink : Bool} {l : Location}
    (habove : d.look l = some .dir ∨ ∃ above s, l = above ++ [s] ∧ d.look above = some .dir)
    (hlink : lastLink → ∀ target, d.look l ≠ some (.link target)) :
    d.Reached lastLink (d.placeAt l) :=
  ⟨by simp, by simpa using habove, by simpa using hlink⟩

theorem reached_follow {d : Disk} {lastLink : Bool}
    {jump : Location → List String → Except IoError Place}
    (hjump : ∀ here segments place, d.look here = some .dir →
      jump here segments = .ok place → d.Reached lastLink place)
    {here : Location} {segments : List String} {place : Place} (hhere : d.look here = some .dir)
    (h : d.follow jump lastLink here segments = .ok place) : d.Reached lastLink place := by
  induction segments generalizing here with
  | nil =>
    rw [follow_nil, if_neg (by simp [hhere]), Except.ok.injEq] at h
    exact h ▸ reached_placeAt (.inl hhere) (by simp [hhere])
  | cons s rest ih =>
    by_cases hdot : s = "."
    · exact ih hhere (by simpa [follow, hdot] using h)
    by_cases hdots : s = ".."
    · exact ih (look_dropLast hhere) (by simpa [follow, hdots] using h)
    by_cases hlong : nameLimit < s.utf8ByteSize
    · simp [follow, hdot, hdots, hlong] at h
    have hname : (lastLink → ∀ target, d.look (here ++ [s]) ≠ some (.link target)) →
        d.Reached lastLink (d.placeAt (here ++ [s])) :=
      reached_placeAt (.inr ⟨here, s, rfl, hhere⟩)
    rw [follow_name d jump lastLink here rest hdot hdots hlong] at h
    cases hlook : d.look (here ++ [s]) with
    | none =>
      simp only [hlook] at h
      split at h
      · exact Except.ok.inj h ▸ hname (by simp [hlook])
      · contradiction
    | some entry =>
      cases entry with
      | dir =>
        simp only [hlook] at h
        split at h
        · exact Except.ok.inj h ▸ hname (by simp [hlook])
        · exact ih hlook h
      | file data =>
        simp only [hlook] at h
        split at h
        · exact Except.ok.inj h ▸ hname (by simp [hlook])
        · contradiction
      | link target =>
        simp only [hlook] at h
        split at h
        · next hlast =>
          obtain rfl : lastLink = false := by simp_all
          exact Except.ok.inj h ▸ hname (by simp)
        split at h
        · contradiction
        · exact hjump _ _ _ (look_start_of_dir hhere target) h

theorem reached_followLinks {d : Disk} {lastLink : Bool} (n : Nat) {here : Location}
    {segments : List String} {place : Place} (hhere : d.look here = some .dir)
    (h : d.followLinks lastLink n here segments = .ok place) : d.Reached lastLink place := by
  induction n generalizing here segments place with
  | zero => exact reached_follow (by simp) hhere h
  | succ n ih => exact reached_follow (fun _ _ _ hhere h => ih hhere h) hhere h

theorem reached_place {d : Disk} {lastLink : Bool} {p : FilePath} {place : Place} (hd : d.Proper)
    (h : d.place lastLink p = .ok place) : d.Reached lastLink place := by
  unfold Disk.place at h
  split at h
  · contradiction
  split at h
  · contradiction
  split at h
  · contradiction
  exact reached_followLinks linkLimit (look_start_of_dir hd.here p) h

/-! ## Other contents -/

/-- A disk differs from another one by the bytes of files and by new files. -/
structure Overwritten (d d' : Disk) : Prop where
  here : d'.workingDir = d.workingDir
  look : ∀ l, d'.look l = d.look l
    ∨ (∃ old bytes, d.look l = some (.file old) ∧ d'.look l = some (.file { old with bytes }))
    ∨ d.look l = none ∧ ∃ bytes, d'.look l = some (.file { bytes })

theorem Overwritten.refl (d : Disk) : d.Overwritten d := ⟨rfl, fun _ => .inl rfl⟩

theorem Overwritten.trans {d d' d'' : Disk} (h : d.Overwritten d') (h' : d'.Overwritten d'') :
    d.Overwritten d'' := by
  refine ⟨h'.here.trans h.here, fun l => ?_⟩
  have := h.look l
  have := h'.look l
  grind

theorem Overwritten.look_dir_iff {d d' : Disk} (h : d.Overwritten d') (l : Location) :
    d'.look l = some .dir ↔ d.look l = some .dir := by
  have := h.look l
  grind

/-- Two ways of following a path, one on each of two disks, lead to one location
or both nowhere, and if no file is new for the same reason. -/
structure Agree (d d' : Disk) (r r' : Except IoError Place) : Prop where
  location : r'.toOption.map Place.location = r.toOption.map Place.location
  reason : (∀ l, d.look l = none → d'.look l = none) →
    r'.map Place.location = r.map Place.location

theorem Agree.of_error (d d' : Disk) (e : IoError) : Agree d d' (.error e) (.error e) :=
  ⟨rfl, fun _ => rfl⟩

theorem Agree.placeAt (d d' : Disk) (l : Location) :
    Agree d d' (.ok (d.placeAt l)) (.ok (d'.placeAt l)) :=
  ⟨by simp [Except.toOption], fun _ => by simp [Except.map]⟩

theorem Agree.ite {d d' : Disk} {c : Prop} [Decidable c] {r r' s s' : Except IoError Place}
    (hr : Agree d d' r r') (hs : Agree d d' s s') :
    Agree d d' (if c then r else s) (if c then r' else s') := by
  split <;> assumption

theorem agree_follow {d d' : Disk} {lastLink : Bool} (h : d.Overwritten d')
    {jump jump' : Location → List String → Except IoError Place}
    (hjump : ∀ here segments, d.look here = some .dir →
      Agree d d' (jump here segments) (jump' here segments))
    {here : Location} (segments : List String) (hhere : d.look here = some .dir) :
    Agree d d' (d.follow jump lastLink here segments)
      (d'.follow jump' lastLink here segments) := by
  induction segments generalizing here with
  | nil =>
    have hhere' := (h.look_dir_iff here).2 hhere
    rw [follow_nil, follow_nil, if_neg (by simp [hhere]), if_neg (by simp [hhere'])]
    exact .placeAt d d' here
  | cons s rest ih =>
    by_cases hdot : s = "."
    · simpa [follow, hdot] using ih hhere
    by_cases hdots : s = ".."
    · simpa [follow, hdots] using ih (look_dropLast hhere)
    by_cases hlong : nameLimit < s.utf8ByteSize
    · simpa [follow, hdot, hdots, hlong] using Agree.of_error d d' .nameTooLong
    have hname := Agree.placeAt d d' (here ++ [s])
    rw [follow_name d jump lastLink here rest hdot hdots hlong,
      follow_name d' jump' lastLink here rest hdot hdots hlong]
    obtain hsame | ⟨old, bytes, hold, hnew⟩ | ⟨hnone, bytes, hnew⟩ := h.look (here ++ [s])
    · rw [hsame]
      cases hlook : d.look (here ++ [s]) with
      | none => exact .ite hname (.of_error d d' _)
      | some entry =>
        cases entry with
        | dir => exact .ite hname (ih hlook)
        | file data => exact .ite hname (.of_error d d' _)
        | link target =>
          exact .ite hname (.ite (.of_error d d' _)
            (hjump _ _ (look_start_of_dir hhere target)))
    · rw [hold, hnew]
      exact .ite hname (.of_error d d' _)
    · -- behind the name of a new file a path leads nowhere, for another reason
      rw [hnone, hnew]
      exact .ite hname ⟨rfl, fun hold => by simp [hold _ hnone] at hnew⟩

theorem agree_followLinks {d d' : Disk} {lastLink : Bool} (h : d.Overwritten d') (n : Nat)
    {here : Location} (segments : List String) (hhere : d.look here = some .dir) :
    Agree d d' (d.followLinks lastLink n here segments)
      (d'.followLinks lastLink n here segments) := by
  induction n generalizing here segments with
  | zero => exact agree_follow h (fun _ _ _ => .of_error d d' _) segments hhere
  | succ n ih => exact agree_follow h (fun _ segments hhere => ih segments hhere) segments hhere

/-- Paths lead where they led. -/
theorem agree_place {d d' : Disk} (hd : d.Proper) (h : d.Overwritten d') (lastLink : Bool)
    (p : FilePath) : Agree d d' (d.place lastLink p) (d'.place lastLink p) := by
  unfold Disk.place
  rw [h.here]
  exact .ite (.of_error d d' _) (.ite (.of_error d d' _) (.ite (.of_error d d' _)
    (agree_followLinks h linkLimit (steps p) (look_start_of_dir hd.here p))))

/-! ## Files and links -/

theorem isLeaf_placeAt_iff {d : Disk} {l : Location} :
    (d.placeAt l).isLeaf ↔ ∃ entry, d.look l = some entry ∧ entry ≠ .dir := by
  cases hget : d.root.get? l with
  | none => simp [placeAt_of_none hget, Place.isLeaf, look_eq_none_iff.2 hget]
  | some node =>
    cases node <;> simp [placeAt_of_get? hget, look_of_get? hget, Place.isLeaf, Node.entry]

section LastLink

variable {d : Disk} {Q : Place → Prop} (hlink : ∀ l target, d.look l = some (.link target) →
  Q (d.placeAt l))

include hlink

/-- Where following all links leads to a place of some kind, leaving the last one
leads to one too, if links are of that kind. -/
theorem exists_follow_of_lastLink {jump jump' : Location → List String → Except IoError Place}
    (hjump : ∀ here segments place, jump here segments = .ok place → Q place →
      ∃ place', jump' here segments = .ok place' ∧ Q place')
    {here : Location} {segments : List String} {place : Place}
    (h : d.follow jump true here segments = .ok place) (hplace : Q place) :
    ∃ place', d.follow jump' false here segments = .ok place' ∧ Q place' := by
  induction segments generalizing here with
  | nil =>
    rw [follow_nil] at h ⊢
    exact ⟨place, h, hplace⟩
  | cons s rest ih =>
    by_cases hdot : s = "."
    · simpa [follow, hdot] using ih (by simpa [follow, hdot] using h)
    by_cases hdots : s = ".."
    · simpa [follow, hdots] using ih (by simpa [follow, hdots] using h)
    by_cases hlong : nameLimit < s.utf8ByteSize
    · simp [follow, hdot, hdots, hlong] at h
    rw [follow_name d _ _ here rest hdot hdots hlong] at h ⊢
    cases hlook : d.look (here ++ [s]) with
    | none =>
      rw [hlook] at h
      exact ⟨place, h, hplace⟩
    | some entry =>
      cases entry with
      | file data =>
        rw [hlook] at h
        exact ⟨place, h, hplace⟩
      | dir =>
        simp only [hlook] at h
        dsimp only
        split at h
        · next hrest => exact ⟨place, by rw [if_pos hrest, h], hplace⟩
        · next hrest => simpa [hrest] using ih h
      | link target =>
        simp only [hlook, Bool.not_true, Bool.and_false, Bool.false_eq_true, if_false] at h
        dsimp only
        by_cases hrest : rest = []
        · exact ⟨_, by simp [hrest], hlink _ _ hlook⟩
        · split at h
          · contradiction
          · next hempty => simpa [hrest, hempty] using hjump _ _ _ h hplace

theorem exists_followLinks_of_lastLink (n : Nat) {here : Location} {segments : List String}
    {place : Place} (h : d.followLinks true n here segments = .ok place) (hplace : Q place) :
    ∃ place', d.followLinks false n here segments = .ok place' ∧ Q place' := by
  induction n generalizing here segments place with
  | zero => exact exists_follow_of_lastLink hlink (by simp) h hplace
  | succ n ih => exact exists_follow_of_lastLink hlink (fun _ _ _ h hplace => ih h hplace) h hplace

theorem exists_place_of_lastLink {p : FilePath} {place : Place} (h : d.place true p = .ok place)
    (hplace : Q place) : ∃ place', d.place false p = .ok place' ∧ Q place' := by
  unfold Disk.place at h ⊢
  split at h
  · contradiction
  split at h
  · contradiction
  split at h
  · contradiction
  next hnul hempty hlong =>
    rw [if_neg hnul, if_neg hempty, if_neg hlong]
    exact exists_followLinks_of_lastLink hlink linkLimit h hplace

end LastLink

theorem exists_place_of_stat {d : Disk} {p : FilePath} {l : Location} {data : FileData}
    (h : d.stat p = .ok (l, .file data)) : ∃ place, d.place false p = .ok place ∧ place.isLeaf := by
  have hplace : d.place true p = .ok (.taken l (.file data)) := by
    unfold stat at h
    split at h <;> simp_all
  exact exists_place_of_lastLink (Q := fun place => place.isLeaf)
    (fun l target hlook => isLeaf_placeAt_iff.2 ⟨.link target, hlook, by simp⟩) hplace rfl

/-- No directory stands where a file or a link does. -/
theorem look_ne_dir_of_isLeaf {d : Disk} {lastLink : Bool} {p : FilePath} {place : Place}
    (hd : d.Proper) (hplace : d.place lastLink p = .ok place) (hleaf : place.isLeaf) :
    d.look place.location ≠ some .dir := by
  rw [(reached_place hd hplace).eq_placeAt, isLeaf_placeAt_iff] at hleaf
  obtain ⟨entry, hlook, hentry⟩ := hleaf
  rwa [hlook, ne_eq, Option.some.injEq]

/-- Other contents leave a file or link at its place. -/
theorem Overwritten.exists_place {d d' : Disk} {p : FilePath} {place : Place}
    (h : d.Overwritten d') (hd : d.Proper) (hd' : d'.Proper) (hplace : d.place false p = .ok place)
    (hleaf : place.isLeaf) :
    ∃ place', d'.place false p = .ok place' ∧ place'.isLeaf
      ∧ place'.location = place.location := by
  have hlocation := (agree_place hd h false p).location
  cases hplace' : d'.place false p with
  | error e => simp [hplace, hplace', Except.toOption] at hlocation
  | ok place' =>
    have hsame : place'.location = place.location := by
      simpa [hplace, hplace', Except.toOption] using hlocation
    have heq := (reached_place hd hplace).eq_placeAt
    have heq' := (reached_place hd' hplace').eq_placeAt
    refine ⟨place', rfl, ?_, hsame⟩
    rw [heq, isLeaf_placeAt_iff] at hleaf
    rw [heq', isLeaf_placeAt_iff, hsame]
    obtain ⟨entry, hlook, hentry⟩ := hleaf
    obtain hsame | ⟨old, bytes, -, hnew⟩ | ⟨hnone, -⟩ := h.look place.location
    · exact ⟨entry, hsame.trans hlook, hentry⟩
    · exact ⟨_, hnew, by simp⟩
    · simp [hnone] at hlook

end Disk
end LogPrune
