import LogPrune.Proofs.Disk.Change

/-!
# LogPrune.Proofs.Disk.Write

Writing texts one after another, whether or not each write succeeds.

1. A write succeeds where the path leads to a location that may be written
   (`writeText_eq_ok_iff`); it changes what stands there and nothing else.
2. The writes before it do not matter for that: they put files where files or
   nothing stood, and never change what may be done with a file.  So the disk
   at the start settles which writes succeed (`Wrote.writeText_isOk_iff`).
3. In the end each location holds what some write to it has left, or what it
   held at the start if none could be made (`wrote_foldl`).
-/

namespace LogPrune
namespace Disk

/-! ## One write -/

/-- Whether a text can be written at a location: no directory stands there,
nor a file that may not be written. -/
def MayWrite (d : Disk) (l : Location) : Prop :=
  d.look l ≠ some .dir ∧ ∀ data, d.file? l = some data → data.writable

theorem mayWrite_of_vacant {d : Disk} (h : d.look l = none) : d.MayWrite l := by
  simp [MayWrite, h, file?_eq_none h]

theorem mayWrite_of_file {d : Disk} (h : d.file? l = some data) (hwrite : data.writable) :
    d.MayWrite l := by
  simp [MayWrite, file?_eq_some_iff.1 h, h, hwrite]

/-- The file that a text makes at a location. -/
def written (d : Disk) (l : Location) (t : Text) : FileData :=
  match d.file? l with
  | some data => { data with bytes := t.utf8 }
  | none => { bytes := t.utf8 }

@[simp] theorem bytes_written (d : Disk) (l : Location) (t : Text) :
    (d.written l t).bytes = t.utf8 := by
  unfold written
  cases d.file? l <;> rfl

/-- On a disk without links stand files and directories. -/
theorem Plain.look_cases {d : Disk} (hd : d.Plain) (l : Location) :
    d.look l = none ∨ d.look l = some .dir ∨ ∃ data, d.look l = some (.file data) := by
  unfold look Dir.look
  cases hget : d.root.get? l with
  | none => simp
  | some node =>
    cases node with
    | file data => simp [Node.entry]
    | dir entries => simp [Node.entry]
    | link target => simpa [Dir.nodeIsPlain] using (Dir.isPlain_of_get? hd.tree hget).1

/-- A write succeeds exactly where the path leads to a location that may be
written, and puts the file there. -/
theorem writeText_eq_ok_iff {d : Disk} (hd : d.Plain) :
    d.writeText p t = .ok d' ↔
      ∃ l, d.locate p = .ok l ∧ d.MayWrite l ∧ d' = d.put l (.file (d.written l t)) := by
  constructor
  · intro h
    obtain ⟨l, data, hp, hroom, hd', -, hdata⟩ := writeBytes_eq_ok hd h
    obtain ⟨hlook, hdata⟩ | ⟨old, hold, hwrite, hdata⟩ := hdata
    · have hnone : d.file? l = none := file?_eq_none hlook
      refine ⟨l, hp, ⟨hroom.notDir, by simp [hnone]⟩, ?_⟩
      rw [hd', hdata, written, hnone]
      rfl
    · refine ⟨l, hp, ⟨hroom.notDir, by simp [hold, hwrite]⟩, ?_⟩
      rw [hd', hdata, written, hold]
      rfl
  · rintro ⟨l, hp, ⟨hdir, hwrite⟩, rfl⟩
    obtain hlook | hlook | ⟨data, hlook⟩ := hd.look_cases l
    · rw [written, file?_eq_none hlook]
      exact writeBytes_of_vacant hd hp hlook t.utf8
    · exact absurd hlook hdir
    · have hfile := file?_eq_some_iff.2 hlook
      rw [written, hfile]
      have hwrites := writeBytes_of_file hd hp hfile t.utf8
      rwa [if_pos (hwrite data hfile)] at hwrites

/-- The disk after a write, whether or not it succeeds. -/
def tryWrite (d : Disk) (w : FilePath × Text) : Disk :=
  match d.writeText w.1 w.2 with
  | .ok d => d
  | .error _ => d

/-! ## Many writes -/

/-- What has become of a disk by some writes.  The directories are those of
the start, and so are all files but those that could be written. -/
structure Wrote (start d : Disk) (writes : List (FilePath × Text)) : Prop where
  plain : d.Plain
  keeps : start.Keeps d
  kept : d.Keeps start
  file : ∀ l,
    (d.file? l = start.file? l
      ∧ ∀ w ∈ writes, start.locate w.1 = .ok l → ¬ start.MayWrite l)
    ∨ (start.MayWrite l
      ∧ ∃ w ∈ writes, start.locate w.1 = .ok l ∧ d.file? l = some (start.written l w.2))

theorem Wrote.nil {d : Disk} (hd : d.Plain) : Wrote d d [] :=
  ⟨hd, Keeps.refl d, Keeps.refl d, fun _ => .inl ⟨rfl, by simp⟩⟩

theorem Wrote.locate_eq_ok_iff {start d : Disk} (h : Wrote start d writes) (hs : start.Plain) :
    d.locate p = .ok l ↔ start.locate p = .ok l :=
  ⟨h.kept.locate h.plain, h.keeps.locate hs⟩

/-- What may be done with a location has not changed. -/
theorem Wrote.mayWrite_iff {start d : Disk} (h : Wrote start d writes) :
    d.MayWrite l ↔ start.MayWrite l := by
  have hdir : d.look l = some .dir ↔ start.look l = some .dir := ⟨h.kept.dirs l, h.keeps.dirs l⟩
  obtain ⟨hfile, -⟩ | ⟨hmay, w, -, -, hfile⟩ := h.file l
  · simp only [MayWrite, ne_eq, hdir, hfile]
  · refine ⟨fun _ => hmay, fun _ => ⟨by simpa [hdir] using hmay.1, ?_⟩⟩
    intro data hdata
    rw [hfile, Option.some.injEq] at hdata
    rw [← hdata, written]
    cases hold : start.file? l with
    | none => rfl
    | some old => exact hmay.2 old hold

/-- Writing a text makes the file that it would have made at the start. -/
theorem Wrote.written_eq {start d : Disk} (h : Wrote start d writes) (l : Location) (t : Text) :
    d.written l t = start.written l t := by
  obtain ⟨hfile, -⟩ | ⟨-, w, -, -, hfile⟩ := h.file l
  · simp only [written, hfile]
  · rw [written, hfile, written]
    cases hold : start.file? l <;> simp [written, hold]

/-- The disk at the start settles whether a write succeeds. -/
theorem Wrote.writeText_isOk_iff {start d : Disk} (h : Wrote start d writes) (hs : start.Plain) :
    (d.writeText p t).isOk ↔ ∃ l, start.locate p = .ok l ∧ start.MayWrite l := by
  have hok : (d.writeText p t).isOk ↔ ∃ d', d.writeText p t = .ok d' := by
    cases d.writeText p t <;> simp [Except.isOk, Except.toBool]
  rw [hok]
  simp only [writeText_eq_ok_iff h.plain, h.locate_eq_ok_iff hs, h.mayWrite_iff]
  grind

/-- One more write leaves the files to which it does not lead as they were, and so it does
those that cannot be written. -/
theorem Wrote.file_concat {start d d' : Disk} (h : Wrote start d writes) {w : FilePath × Text}
    {l : Location} (hsame : d'.file? l = d.file? l)
    (hw : start.locate w.1 = .ok l → ¬ start.MayWrite l) :
    (d'.file? l = start.file? l
      ∧ ∀ v ∈ writes ++ [w], start.locate v.1 = .ok l → ¬ start.MayWrite l)
    ∨ (start.MayWrite l
      ∧ ∃ v ∈ writes ++ [w], start.locate v.1 = .ok l ∧ d'.file? l = some (start.written l v.2)) := by
  rw [hsame]
  obtain ⟨hfile, hnone⟩ | ⟨hmay, v, hv, hl, hfile⟩ := h.file l
  · refine .inl ⟨hfile, fun v hv hvl => ?_⟩
    obtain hv | hv := List.mem_append.1 hv
    · exact hnone v hv hvl
    · rw [List.mem_singleton.1 hv] at hvl
      exact hw hvl
  · exact .inr ⟨hmay, v, List.mem_append_left _ hv, hl, hfile⟩

/-- One more write. -/
theorem Wrote.step {start d : Disk} (h : Wrote start d writes) (hs : start.Plain)
    (w : FilePath × Text) : Wrote start (d.tryWrite w) (writes ++ [w]) := by
  unfold tryWrite
  cases hwrite : d.writeText w.1 w.2 with
  | error e =>
    have hrefused : ∀ l, start.locate w.1 = .ok l → ¬ start.MayWrite l := by
      intro l hl hmay
      have := (h.writeText_isOk_iff hs (t := w.2)).2 ⟨l, hl, hmay⟩
      simp [hwrite, Except.isOk, Except.toBool] at this
    exact ⟨h.plain, h.keeps, h.kept, fun l => h.file_concat rfl (hrefused l)⟩
  | ok d' =>
    obtain ⟨l₀, hl₀, hmay₀, rfl⟩ := (writeText_eq_ok_iff h.plain).1 hwrite
    have hroom : d.Room l₀ := room_of_locate h.plain hl₀ hmay₀.1
    have hput := file?_put_file hroom (d.written l₀ w.2)
    rw [h.locate_eq_ok_iff hs] at hl₀
    rw [h.mayWrite_iff] at hmay₀
    refine ⟨h.plain.put_file hroom _, h.keeps.trans (keeps_put_file hroom _), ?_, fun l => ?_⟩
    · refine ⟨h.kept.here, fun l hl => h.kept.dirs l ?_⟩
      rw [look_put_file hroom] at hl
      grind
    · by_cases hl : l = l₀
      · subst hl
        refine .inr ⟨hmay₀, w, by simp, hl₀, ?_⟩
        rw [hput, if_pos rfl, h.written_eq]
      · refine h.file_concat (by rw [hput, if_neg hl]) fun hwl => ?_
        rw [hl₀, Except.ok.injEq] at hwl
        exact absurd hwl.symm hl

theorem Wrote.foldl {start d : Disk} (h : Wrote start d writes) (hs : start.Plain)
    (more : List (FilePath × Text)) : Wrote start (more.foldl tryWrite d) (writes ++ more) := by
  induction more generalizing d writes with
  | nil => simpa using h
  | cons w more ih => simpa using ih (h.step hs w)

/-- What some writes leave behind. -/
theorem wrote_foldl {d : Disk} (hd : d.Plain) (writes : List (FilePath × Text)) :
    Wrote d (writes.foldl tryWrite d) writes := by
  simpa using (Wrote.nil hd).foldl hd writes

/-- A file that no write leads to stays as it is. -/
theorem Wrote.file?_of_forall_ne {start d : Disk} (h : Wrote start d writes)
    (hl : ∀ w ∈ writes, start.locate w.1 ≠ .ok l) : d.file? l = start.file? l := by
  obtain ⟨hfile, -⟩ | ⟨-, w, hw, hwl, -⟩ := h.file l
  · exact hfile
  · exact absurd hwl (hl w hw)

end Disk
end LogPrune
