import LogPrune.Proofs.Disk.Extend
import LogPrune.Proofs.Undo.Account

/-!
# LogPrune.Proofs.Undo.Register

A store of journals is a register with one slot, on any disk.

1. What a store holds is decided by what its path leads to (`load_congr`).
2. A call leaves in the slot what its answer says: saving the journal that was
   saved, undoing and clearing nothing, and what was there if the call was
   refused (`load_event`).  So the answers of a run tell what the slot holds
   (`slotAfter`), and each call does what it does to a register with that in its
   slot (`trace_agrees`).
3. One thing comes in between: where a path passes through the place of its own
   journal, making its directories can put one there (`directory_in_slot`).
-/

namespace LogPrune
namespace UndoStore

/-! ## Calls -/

/-- A call on a store.  A journal that is saved has a proper time. -/
inductive Call
  | save (j : Journal) (timely : Timestamp.isValid j.timestamp.toList)
  | load
  | canUndo
  | summary
  | undo
  | clear

/-- The answer to a call. -/
inductive Answer
  /-- Whether a journal was saved or removed. -/
  | done (result : Except Error Unit)
  | journal (result : Except Error (Option Journal))
  | flag (b : Bool)
  | text (result : Except Error (Option String))
  | outcome (result : Except Error UndoOutcome)

/-- The answer to a call on a disk, and the disk after it. -/
def ask (s : UndoStore) (d : Disk) : Call → Answer × Disk
  | .save j _ => (.done (s.trySave d j).1, (s.trySave d j).2)
  | .load => (.journal (s.load d), d)
  | .canUndo => (.flag (s.canUndo d), d)
  | .summary => (.text (s.summary d), d)
  | .undo => (.outcome (s.undo d).1, (s.undo d).2)
  | .clear => match s.clear d with
    | .ok d' => (.done (.ok ()), d')
    | .error e => (.done (.error e), d)

/-- A call with the disk before it, its answer and the disk after it. -/
structure Event where
  before : Disk
  call : Call
  answer : Answer
  after : Disk

/-- What happens when a call is made on a disk. -/
def event (s : UndoStore) (d : Disk) (c : Call) : Event := ⟨d, c, (s.ask d c).1, (s.ask d c).2⟩

/-- What happens when calls are made one after another. -/
def trace (s : UndoStore) : Disk → List Call → List Event
  | _, [] => []
  | d, c :: cs => s.event d c :: trace s (s.event d c).after cs

/-! ## The slot -/

/-- What the slot holds after an event, given what it held before. -/
def Event.slot (held : Option Journal) (e : Event) : Option Journal :=
  match e.call, e.answer with
  | .save j _, .done (.ok _) => some j
  | .undo, .outcome (.ok _) => none
  | .clear, .done (.ok _) => none
  | _, _ => held

/-- What the slot holds after some events: the journal of the last save that
succeeded, unless undoing or clearing has succeeded after it. -/
def slotAfter (held : Option Journal) (events : List Event) : Option Journal :=
  events.foldl Event.slot held

/-- Making the directories of the journal brings no node into its place, unless
it is a file that can be read and that the journal is saved to. -/
def Event.Undisturbed (s : UndoStore) (e : Event) : Prop :=
  match e.call with
  | .save .. => e.before.hasNode s.journalPath ∨
    (s.makeDir e.before).2.hasNode s.journalPath = false ∨
    e.answer = .done (.ok ()) ∧
      ∃ l data, (s.makeDir e.before).2.stat s.journalPath = .ok (l, .file data) ∧ data.readable
  | _ => True

/-- An event is what it is on a register that holds a journal or nothing. -/
structure Event.Agrees (s : UndoStore) (held : Option Journal) (e : Event) : Prop where
  load : e.call = .load → e.answer = .journal (.ok held) ∧ e.after = e.before
  canUndo : e.call = .canUndo → e.answer = .flag held.isSome ∧ e.after = e.before
  summary : e.call = .summary →
    e.answer = .text (.ok (held.map (·.summary))) ∧ e.after = e.before
  /-- There is nothing to undo just where the slot is empty. -/
  nothing : e.call = .undo → (e.answer = .outcome (.error .nothingToUndo) ↔ held = none)
  same : e.call = .undo → held = none → e.after = e.before
  /-- Undoing restores the entries of the journal in the slot, and no others. -/
  undone : e.call = .undo → ∀ j, held = some j →
    e.answer = .outcome (.ok (restoreAll e.before j.entries).2) ∧
    ∃ place, e.before.place false s.journalPath = .ok place ∧ e.after.look place.location = none ∧
      ∀ l, l ≠ place.location → e.after.look l
        = ((e.before.lastTo? l (j.entries.map restoring)).map
            fun w => .file (e.before.written l w.2)).or (e.before.look l)

/-! ## What the slot holds -/

section
variable {d d' : Disk} {s : UndoStore}

/-- What a store holds is decided by what its path leads to. -/
theorem load_congr (h : d'.entryAt s.journalPath = d.entryAt s.journalPath) :
    s.load d' = s.load d := by
  have hbytes : d'.readBytes s.journalPath = d.readBytes s.journalPath := by
    rw [Disk.readBytes_eq, Disk.readBytes_eq, h]
  unfold load
  rw [Disk.hasNode_eq, Disk.hasNode_eq, h, Disk.readText, Disk.readText, hbytes]

theorem load_eq_none_iff : s.load d = .ok none ↔ d.hasNode s.journalPath = false := by
  unfold load
  cases d.hasNode s.journalPath with
  | false => simp
  | true =>
    cases d.readText s.journalPath with
    | error e => simp [Except.mapError, bind, Except.bind]
    | ok t =>
      cases hparse : Journal.parse t <;>
        simp [hparse, Except.mapError, bind, Except.bind, pure, Except.pure]

theorem canUndo_of_load (h : s.load d = .ok held) : s.canUndo d = held.isSome := by
  unfold canUndo
  rw [h]
  cases held <;> rfl

theorem summary_of_load (h : s.load d = .ok held) :
    s.summary d = .ok (held.map (·.summary)) := by
  simp [summary, h, Except.map]

theorem hasNode_of_load (h : s.load d = .ok (some j)) : d.hasNode s.journalPath := by
  cases hnode : d.hasNode s.journalPath with
  | true => rfl
  | false => simp [load_eq_none_iff.2 hnode] at h

/-- A journal stays in the slot when more comes to stand on the disk. -/
theorem load_of_extends (hd : d.Proper) (hd' : d'.Proper) (h : d.Extends d')
    (hload : s.load d = .ok (some j)) : s.load d' = .ok (some j) := by
  obtain ⟨found, hfound⟩ := Disk.exists_entryAt_of_hasNode (hasNode_of_load hload)
  rw [load_congr ((h.entryAt_eq hd hd' hfound).trans hfound.symm), hload]

/-! ## Saving -/

theorem extends_makeDir (hd : d.Proper) (s : UndoStore) :
    (s.makeDir d).2.Proper ∧ d.Extends (s.makeDir d).2 := by
  unfold makeDir
  cases s.journalPath.parent? with
  | none => exact ⟨hd, .refl d⟩
  | some dir => exact Disk.extends_makeDirs hd dir

/-- Saving makes directories and, unless it is refused, writes the journal. -/
theorem trySave_cases (s : UndoStore) (d : Disk) (j : Journal) :
    (∃ e, s.trySave d j = (.error e, (s.makeDir d).2)) ∨
      ∃ d', s.trySave d j = (.ok (), d')
        ∧ (s.makeDir d).2.writeText s.journalPath j.write = .ok d' := by
  unfold trySave
  cases hsave : s.save d j with
  | error e => exact .inl ⟨e, rfl⟩
  | ok d' =>
    right
    refine ⟨d', rfl, ?_⟩
    unfold save at hsave
    split at hsave
    · contradiction
    · next made hmade =>
      cases hwrite : made.writeText s.journalPath j.write with
      | error e => simp [hwrite, Except.mapError] at hsave
      | ok written => simpa [hmade, hwrite, Except.mapError] using hsave

/-- A journal is read from a file that can be read. -/
theorem exists_file_of_load (h : s.load d = .ok (some j)) :
    ∃ l data, d.entryAt s.journalPath = .ok (l, .file data) ∧ data.readable := by
  obtain ⟨l, data, hstat⟩ := exists_stat_of_load h
  refine ⟨l, data, Disk.entryAt_file_iff.2 hstat, ?_⟩
  cases hread : data.readable with
  | true => rfl
  | false =>
    have hnode := hasNode_of_load h
    simp [load, hnode, Disk.readText, Disk.readBytes, hstat, hread, bind, Except.bind,
      Except.mapError] at h

/-- A journal that is written is in the slot, if a file that was there can be
read. -/
theorem load_of_writeText (hd : d.Proper) (hj : Timestamp.isValid j.timestamp.toList)
    (hwrite : d.writeText s.journalPath j.write = .ok d')
    (hreadable : ∀ l data, d.entryAt s.journalPath = .ok (l, .file data) → data.readable) :
    d'.Proper ∧ s.load d' = .ok (some j) := by
  obtain ⟨hproper, -⟩ := Disk.entryAt_of_writeText hd hwrite
  obtain ⟨hnode, htext⟩ := Disk.readText_of_writeText hd hwrite hreadable
  refine ⟨hproper, ?_⟩
  simp [load, hnode, htext, Except.mapError, Journal.parse_write hj, bind, Except.bind, pure,
    Except.pure]

/-- A file in the place of the journal can be read once its directories are made, unless
making them disturbs the slot. -/
theorem readable_of_undisturbed (hd : d.Proper) (hheld : s.load d = .ok held)
    (hj : Timestamp.isValid j.timestamp.toList)
    (hplace : (s.event d (.save j hj)).Undisturbed s) {l : Location} {data : FileData}
    (hentry : (s.makeDir d).2.entryAt s.journalPath = .ok (l, .file data)) : data.readable := by
  obtain ⟨hmade, hextends⟩ := extends_makeDir hd s
  cases held with
  | some j' =>
    -- it is the file that the journal in the slot is read from
    obtain ⟨l', data', hfound, hread⟩ := exists_file_of_load hheld
    have hsame := (hextends.entryAt_eq hd hmade hfound).symm.trans hentry
    simp_all
  | none =>
    have hnone := load_eq_none_iff.1 hheld
    have hnode : (s.makeDir d).2.hasNode s.journalPath := by
      rw [Disk.hasNode_eq, hentry]
      rfl
    obtain hbefore | hmissing | ⟨-, l', data', hstat, hread⟩ := hplace
    · simp [event, hnone] at hbefore
    · simp [event, hnode] at hmissing
    · have hsame := (Disk.entryAt_file_iff.2 hstat).symm.trans hentry
      simp_all

/-- What is in the slot after an attempt to save a journal. -/
theorem load_trySave (hd : d.Proper) (hheld : s.load d = .ok held)
    (hj : Timestamp.isValid j.timestamp.toList)
    (hplace : (s.event d (.save j hj)).Undisturbed s) :
    (s.trySave d j).2.Proper ∧
      s.load (s.trySave d j).2 = .ok ((s.event d (.save j hj)).slot held) := by
  obtain ⟨hmade, hextends⟩ := extends_makeDir hd s
  have hslot : (s.event d (.save j hj)).slot held
      = if (s.trySave d j).1 = .ok () then some j else held := by
    cases hresult : (s.trySave d j).1 <;> simp [event, ask, Event.slot, hresult]
  rw [hslot]
  obtain ⟨e, hrefused⟩ | ⟨d', hsaved, hwrite⟩ := trySave_cases s d j
  · -- only directories have been made
    rw [hrefused]
    refine ⟨hmade, ?_⟩
    cases held with
    | some j' => simpa using load_of_extends hd hmade hextends hheld
    | none =>
      have hnone := load_eq_none_iff.1 hheld
      obtain hnode | hnode | ⟨hdone, -⟩ := hplace
      · simp [event, hnone] at hnode
      · rw [if_neg (by simp)]
        exact load_eq_none_iff.2 hnode
      · simp [event, ask, hrefused] at hdone
  · rw [hsaved]
    simpa using load_of_writeText hmade hj hwrite fun l data hentry =>
      readable_of_undisturbed hd hheld hj hplace hentry

/-! ## Undoing and clearing -/

/-- Undoing writes the entries of the journal back, and takes the journal out of
the slot. -/
theorem load_undo (hd : d.Proper) (hload : s.load d = .ok (some j)) :
    (s.undo d).2.Proper ∧ s.load (s.undo d).2 = .ok none ∧
    (s.undo d).1 = .ok (restoreAll d j.entries).2 ∧
    ∃ place, d.place false s.journalPath = .ok place ∧ (s.undo d).2.look place.location = none ∧
      ∀ l, l ≠ place.location → (s.undo d).2.look l
        = ((d.lastTo? l (j.entries.map restoring)).map
            fun w => .file (d.written l w.2)).or (d.look l) := by
  obtain ⟨jl, data, hstat⟩ := exists_stat_of_load hload
  obtain ⟨place, hplace, hleaf⟩ := Disk.exists_place_of_stat hstat
  have hdisk := restoreAll_disk d j.entries
  generalize hrestored : (restoreAll d j.entries).1 = restored at hdisk
  have hproper : restored.Proper := hdisk ▸ Disk.proper_foldl_tryWrite hd _
  have hover : d.Overwritten restored := hdisk ▸ Disk.overwritten_foldl_tryWrite hd _
  obtain ⟨place', hplace', hleaf', hsame⟩ := hover.exists_place hd hproper hplace hleaf
  have hdir := Disk.look_ne_dir_of_isLeaf hproper hplace' hleaf'
  have hclear : s.clear (restoreAll d j.entries).1
      = .ok { restored with root := restored.root.remove place'.location } := by
    rw [hrestored, clear, Disk.removeFile_of_isLeaf hplace' hleaf']
  rw [undo_of_clear hload hclear]
  refine ⟨Disk.proper_remove hproper hdir,
    load_eq_none_iff.2 (Disk.hasNode_remove hproper hplace' hleaf'), rfl, place, hplace, ?_, ?_⟩
  · rw [← hsame, Disk.look_remove hproper hdir, if_pos rfl]
  · intro l hl
    rw [← hsame] at hl
    rw [Disk.look_remove hproper hdir, if_neg hl, hdisk, Disk.look_foldl_tryWrite hd]

/-- Clearing empties the slot, or is refused. -/
theorem load_clear (hd : d.Proper) (hclear : s.clear d = .ok d') :
    d'.Proper ∧ s.load d' = .ok none := by
  unfold clear at hclear
  cases hremove : d.removeFile s.journalPath with
  | error e =>
    cases e with
    | notFound =>
      obtain rfl : d = d' := by simpa [hremove] using hclear
      exact ⟨hd, load_eq_none_iff.2 (Disk.hasNode_of_removeFile hd hremove)⟩
    | _ => simp [hremove] at hclear
  | ok left =>
    obtain rfl : left = d' := by simpa [hremove] using hclear
    obtain ⟨place, hplace, hleaf, rfl⟩ := Disk.removeFile_eq_ok hremove
    exact ⟨Disk.proper_remove hd (Disk.look_ne_dir_of_isLeaf hd hplace hleaf),
      load_eq_none_iff.2 (Disk.hasNode_remove hd hplace hleaf)⟩

/-! ## Events -/

/-- A call leaves in the slot what its answer says. -/
theorem load_event (hd : d.Proper) (hheld : s.load d = .ok held) (c : Call)
    (hplace : (s.event d c).Undisturbed s) :
    (s.event d c).after.Proper ∧ s.load (s.event d c).after = .ok ((s.event d c).slot held) := by
  cases c with
  | save j hj =>
    have hafter : (s.event d (.save j hj)).after = (s.trySave d j).2 := by
      rw [event, ask]
    rw [hafter]
    exact load_trySave hd hheld hj hplace
  | load => exact ⟨hd, hheld⟩
  | canUndo => exact ⟨hd, hheld⟩
  | summary => exact ⟨hd, hheld⟩
  | undo =>
    cases held with
    | none =>
      have hundo := undo_of_vacant hheld
      simp [event, ask, Event.slot, hundo, hd, hheld]
    | some j =>
      obtain ⟨hproper, hload, hanswer, -⟩ := load_undo hd hheld
      simp [event, ask, Event.slot, hanswer, hproper, hload]
  | clear =>
    cases hclear : s.clear d with
    | error e => simp [event, ask, Event.slot, hclear, hd, hheld]
    | ok d' =>
      obtain ⟨hproper, hload⟩ := load_clear hd hclear
      simp [event, ask, Event.slot, hclear, hproper, hload]

/-- A call does what it does to a register. -/
theorem agrees_event (hd : d.Proper) (hheld : s.load d = .ok held) (c : Call) :
    (s.event d c).Agrees s held where
  load := by
    rintro rfl
    exact ⟨congrArg Answer.journal hheld, rfl⟩
  canUndo := by
    rintro rfl
    exact ⟨congrArg Answer.flag (canUndo_of_load hheld), rfl⟩
  summary := by
    rintro rfl
    exact ⟨congrArg Answer.text (summary_of_load hheld), rfl⟩
  nothing := by
    rintro rfl
    cases held with
    | none => simp [event, ask, undo_of_vacant hheld]
    | some j =>
      obtain ⟨-, -, hanswer, -⟩ := load_undo hd hheld
      simp [event, ask, hanswer]
  same := by
    rintro rfl rfl
    simp [event, ask, undo_of_vacant hheld]
  undone := by
    rintro rfl j rfl
    obtain ⟨-, -, hanswer, hlook⟩ := load_undo hd hheld
    exact ⟨congrArg Answer.outcome hanswer, hlook⟩

/-- **One slot**: in every run of calls, each call does what it does to a register
that holds the journal saved last, or nothing once undoing or clearing has
succeeded, as long as making directories brings nothing else into its place. -/
theorem trace_agrees (hd : d.Proper) (hheld : s.load d = .ok held) (calls : List Call)
    (hplace : ∀ e ∈ s.trace d calls, e.Undisturbed s) (before : List Event) (e : Event)
    (after : List Event) (htrace : s.trace d calls = before ++ e :: after) :
    e.Agrees s (slotAfter held before) := by
  induction calls generalizing d held before with
  | nil => simp [trace] at htrace
  | cons c calls ih =>
    rw [trace] at htrace
    have hfirst := hplace _ List.mem_cons_self
    cases before with
    | nil =>
      obtain rfl : s.event d c = e := (List.cons.inj htrace).1
      exact agrees_event hd hheld c
    | cons e₀ before =>
      rw [List.cons_append] at htrace
      have hcons := List.cons.inj htrace
      obtain ⟨hproper, hload⟩ := load_event hd hheld c hfirst
      rw [slotAfter, List.foldl_cons, ← hcons.1]
      exact ih hproper hload (fun e he => hplace e (List.mem_cons_of_mem _ he)) before hcons.2

end

/-! ## Runs -/

theorem isValid_journalOf (entries : List JournalEntry) :
    Timestamp.isValid (journalOf entries).timestamp.toList := by
  have htime : Timestamp.isValid "2024-01-01T00:00:00Z".toList := by decide
  exact htime

/-- Saves a journal over another one and undoes. -/
def savedOver : List Call := [.save (journalOf [goodEntry]) (isValid_journalOf _), .undo]

/-- Undoing restores the journal that was saved last, and not the one before. -/
theorem trace_agrees_saved_over :
    ∃ (before : List Event) (e : Event),
      (UndoStore.mk ⟨".logsweep"⟩).trace (journaled [goneEntry]) savedOver = before ++ [e] ∧
      e.call = .undo ∧ e.Agrees ⟨⟨".logsweep"⟩⟩ (some (journalOf [goodEntry])) := by
  have hload := load_journaled [goneEntry]
  have hplace : ∀ e ∈ (UndoStore.mk ⟨".logsweep"⟩).trace (journaled [goneEntry]) savedOver,
      e.Undisturbed ⟨⟨".logsweep"⟩⟩ := by
    intro e he
    obtain rfl | he := List.mem_cons.1 he
    · exact .inl (hasNode_of_load hload)
    · obtain rfl := List.mem_singleton.1 he
      trivial
  have hagrees := trace_agrees (plain_journaled [goneEntry]).proper hload savedOver hplace [_] _ []
    rfl
  have hsaved : ((UndoStore.mk ⟨".logsweep"⟩).trySave (journaled [goneEntry])
      (journalOf [goodEntry])).1 = .ok () := by
    decide +kernel
  have hslot : slotAfter (some (journalOf [goneEntry]))
      [(UndoStore.mk ⟨".logsweep"⟩).event (journaled [goneEntry])
        (.save (journalOf [goodEntry]) (isValid_journalOf _))]
      = some (journalOf [goodEntry]) := by
    simp only [slotAfter, List.foldl_cons, List.foldl_nil, event, ask, Event.slot, hsaved]
  rw [hslot] at hagrees
  exact ⟨[_], _, rfl, rfl, hagrees⟩

/-- **A directory in the slot**: a save that is refused makes a directory in the
place of its journal, and the store, which held nothing, can no longer be
read. -/
theorem directory_in_slot :
    ∃ (before : List Event) (e : Event), (UndoStore.mk ⟨"undo.json/.."⟩).trace { root := .empty }
        [.load, .save (journalOf []) (isValid_journalOf _), .load] = before ++ [e] ∧
      slotAfter none before = none ∧ e.call = .load ∧
      e.answer = .journal (.error (.read ⟨"undo.json/../undo.json"⟩ .isADirectory)) ∧
      ¬ e.Agrees ⟨⟨"undo.json/.."⟩⟩ none := by
  have hrefused : ((UndoStore.mk ⟨"undo.json/.."⟩).trySave { root := .empty } (journalOf [])).1
      = .error (.write ⟨"undo.json/../undo.json"⟩ .isADirectory) := by
    decide +kernel
  have hload : (UndoStore.mk ⟨"undo.json/.."⟩).load
      ((UndoStore.mk ⟨"undo.json/.."⟩).trySave { root := .empty } (journalOf [])).2
      = .error (.read ⟨"undo.json/../undo.json"⟩ .isADirectory) := by
    decide +kernel
  refine ⟨[_, _], _, rfl, ?_, rfl, ?_, fun hagrees => ?_⟩
  · simp only [slotAfter, List.foldl_cons, List.foldl_nil, event, ask, Event.slot, hrefused]
  · simp only [event, ask, hload]
  · have hanswer := (hagrees.load rfl).1
    simp only [event, ask, hload] at hanswer
    exact nomatch hanswer

end UndoStore
end LogPrune
