import LogPrune.Proofs.Disk.Overwrite
import LogPrune.Undo

/-!
# LogPrune.Proofs.Undo.Attempts

Writing the entries of a journal back, on any disk.

1. Undoing is one write for each entry (`restoreAll_disk`).
2. An entry is restored exactly where a write to its path would have landed at
   the start (`isRestored_iff`).  So no entry stands in the way of another one.
3. The counters add up over the entries, each taken with the disk on which it is
   written back (`restoreAll_outcome`).  All entries are counted, as failed
   exactly where the write is refused (`restored_add_failed`,
   `failed_restoreAll`).
-/

namespace LogPrune
namespace UndoStore

/-! ## Restoring -/

/-- The write that restores an entry. -/
def restoring (e : JournalEntry) : FilePath × Text := (e.path, e.oldContent)

theorem restore_disk (d : Disk) (o : UndoOutcome) (e : JournalEntry) :
    (restore d o e).1 = d.tryWrite (restoring e) := by
  unfold restore Disk.tryWrite restoring
  cases d.writeText e.path e.oldContent <;> rfl

theorem restoreAll_disk (d : Disk) (entries : List JournalEntry) :
    (restoreAll d entries).1 = (entries.map restoring).foldl Disk.tryWrite d := by
  unfold restoreAll
  generalize ({} : UndoOutcome) = o
  induction entries generalizing d o with
  | nil => rfl
  | cons e entries ih =>
    rw [List.foldl_cons, List.map_cons, List.foldl_cons, ← restore_disk d o e]
    exact ih _ _

/-! ## Attempts -/

/-- The entries, each with the disk on which it is written back. -/
def attempts (d : Disk) : List JournalEntry → List (Disk × JournalEntry)
  | [] => []
  | e :: entries => (d, e) :: attempts (d.tryWrite (restoring e)) entries

/-- Whether an entry is written back. -/
def isRestored (a : Disk × JournalEntry) : Bool := (a.1.writeText a.2.path a.2.oldContent).isOk

/-- The disk of an attempt is what the entries before it have made. -/
theorem exists_before_of_mem_attempts {d : Disk} {entries : List JournalEntry}
    {a : Disk × JournalEntry} (h : a ∈ attempts d entries) :
    ∃ before after, entries = before ++ a.2 :: after
      ∧ a.1 = (before.map restoring).foldl Disk.tryWrite d := by
  induction entries generalizing d with
  | nil => contradiction
  | cons e entries ih =>
    obtain rfl | h := List.mem_cons.1 h
    · exact ⟨[], entries, rfl, rfl⟩
    · obtain ⟨before, after, rfl, ha⟩ := ih h
      exact ⟨e :: before, after, rfl, ha⟩

theorem map_snd_attempts (d : Disk) (entries : List JournalEntry) :
    (attempts d entries).map (·.2) = entries := by
  induction entries generalizing d with
  | nil => rfl
  | cons e entries ih => rw [attempts, List.map_cons, ih]

theorem overwritten_of_mem_attempts {d : Disk} (hd : d.Proper) {entries : List JournalEntry}
    {a : Disk × JournalEntry} (h : a ∈ attempts d entries) : a.1.Proper ∧ d.Overwritten a.1 := by
  obtain ⟨before, -, -, ha⟩ := exists_before_of_mem_attempts h
  rw [ha]
  exact ⟨Disk.proper_foldl_tryWrite hd _, Disk.overwritten_foldl_tryWrite hd _⟩

/-- An entry is restored where a write to its path would have landed at the
start. -/
theorem isRestored_iff {d : Disk} (hd : d.Proper) {entries : List JournalEntry}
    {a : Disk × JournalEntry} (h : a ∈ attempts d entries) :
    isRestored a ↔ (d.landing? a.2.path).isSome := by
  obtain ⟨hproper, hover⟩ := overwritten_of_mem_attempts hd h
  rw [isRestored, Disk.isOk_writeText_iff hproper, hover.landing?_eq hd]

/-- An entry that is restored is written where it lands, and nothing else is. -/
theorem look_of_isRestored {d : Disk} (hd : d.Proper) {entries : List JournalEntry}
    {a : Disk × JournalEntry} (h : a ∈ attempts d entries) (hrestored : isRestored a) :
    ∃ l, d.landing? a.2.path = some l ∧ ∀ l', (a.1.tryWrite (restoring a.2)).look l'
      = if l' = l then some (.file (d.written l a.2.oldContent)) else a.1.look l' := by
  obtain ⟨hproper, hover⟩ := overwritten_of_mem_attempts hd h
  obtain ⟨l, hl⟩ := Option.isSome_iff_exists.1 ((isRestored_iff hd h).1 hrestored)
  refine ⟨l, hl, fun l' => ?_⟩
  rw [Disk.look_tryWrite hproper, restoring, hover.landing?_eq hd, hl, hover.written_eq]
  by_cases hl' : l' = l
  · simp [hl']
  · rw [if_neg (fun h => hl' (Option.some.inj h).symm), if_neg hl']

theorem tryWrite_of_not_isRestored {a : Disk × JournalEntry} (h : ¬ isRestored a) :
    a.1.tryWrite (restoring a.2) = a.1 := by
  unfold isRestored at h
  unfold Disk.tryWrite restoring
  cases hwrite : a.1.writeText a.2.path a.2.oldContent with
  | ok d => simp [hwrite, Except.isOk, Except.toBool] at h
  | error e => rfl

/-! ## Counting -/

theorem restore_outcome (d : Disk) (o : UndoOutcome) (e : JournalEntry) :
    (restore d o e).2 =
      { restored := o.restored + [(d, e)].countP isRestored
        failed := o.failed + [(d, e)].countP fun a => !isRestored a
        changed := o.changed + [(d, e)].countP fun a => !isUnchanged a.1 a.2 } := by
  unfold restore
  cases hwrite : d.writeText e.path e.oldContent <;> cases hsame : isUnchanged d e <;>
    simp [isRestored, hwrite, hsame, Except.isOk, Except.toBool]

/-- Undoing counts attempt by attempt. -/
theorem restoreAll_outcome (d : Disk) (entries : List JournalEntry) :
    (restoreAll d entries).2 =
      { restored := (attempts d entries).countP isRestored
        failed := (attempts d entries).countP fun a => !isRestored a
        changed := (attempts d entries).countP fun a => !isUnchanged a.1 a.2 } := by
  have hall : ∀ (now : Disk × UndoOutcome),
      (entries.foldl (fun (now : Disk × UndoOutcome) e => restore now.1 now.2 e) now).2 =
        { restored := now.2.restored + (attempts now.1 entries).countP isRestored
          failed := now.2.failed + (attempts now.1 entries).countP fun a => !isRestored a
          changed :=
            now.2.changed + (attempts now.1 entries).countP fun a => !isUnchanged a.1 a.2 } := by
    induction entries with
    | nil => exact fun _ => rfl
    | cons e entries ih =>
      intro now
      have hcons : attempts now.1 (e :: entries)
          = [(now.1, e)] ++ attempts (restore now.1 now.2 e).1 entries := by
        rw [restore_disk]
        rfl
      rw [List.foldl_cons, ih, restore_outcome, hcons]
      simp only [List.countP_append, Nat.add_assoc]
  have hstart := hall (d, {})
  simp only [Nat.zero_add] at hstart
  exact hstart

/-- Every entry is counted once. -/
theorem restored_add_failed (d : Disk) (entries : List JournalEntry) :
    (restoreAll d entries).2.restored + (restoreAll d entries).2.failed = entries.length := by
  have hcount := List.length_eq_countP_add_countP isRestored (l := attempts d entries)
  have hlength : (attempts d entries).length = entries.length := by
    rw [← List.length_map (·.2), map_snd_attempts]
  rw [hlength] at hcount
  simpa [restoreAll_outcome] using hcount.symm

/-- Those are failed whose write is refused, as it would be at the start. -/
theorem failed_restoreAll {d : Disk} (hd : d.Proper) (entries : List JournalEntry) :
    (restoreAll d entries).2.failed
      = entries.countP fun e => !(d.writeText e.path e.oldContent).isOk := by
  have hsame : ∀ a ∈ attempts d entries,
      (!isRestored a) = !(d.writeText a.2.path a.2.oldContent).isOk := by
    intro a ha
    rw [Bool.not_inj_iff, Bool.eq_iff_iff, isRestored_iff hd ha, Disk.isOk_writeText_iff hd]
  calc (restoreAll d entries).2.failed
      = (attempts d entries).countP fun a => !(d.writeText a.2.path a.2.oldContent).isOk := by
        rw [restoreAll_outcome]
        exact List.countP_congr fun a ha => by rw [hsame a ha]
    _ = ((attempts d entries).map (·.2)).countP
          fun e => !(d.writeText e.path e.oldContent).isOk := by rw [List.countP_map]; rfl
    _ = entries.countP fun e => !(d.writeText e.path e.oldContent).isOk := by
        rw [map_snd_attempts]

end UndoStore
end LogPrune
