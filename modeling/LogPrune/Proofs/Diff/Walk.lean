import LogPrune.Diff
import Mathlib

/-!
# LogPrune.Proofs.Diff.Walk

What the hunks of a walk say about the two texts.

1. Seen from the positions that a walk has reached, what is left of both texts
   begins with lines that they share, goes on with what the next hunk takes
   out of one and puts into the other, and so on; behind a hunk they share at
   least one line (`Aligned`).  A walk that has a hunk open completes it first
   (`continues_hunksFrom`).
2. So hunks are apart from each other (`Aligned.isChain_gap`), their lines are
   those of the texts at the numbers that they give (`Aligned.removed_at`,
   `Aligned.added_at`), and they lead from each text to the other
   (`Aligned.patchFrom_eq`, `Aligned.reverse`).
-/

namespace LogPrune

/-! ## Hunks -/

namespace DiffLine

/-- A line as it is when the texts change places. -/
def reverse : DiffLine → DiffLine
  | removed l => added l
  | added l => removed l

end DiffLine

namespace Hunk

/-- The number of lines of the old text up to the end of a hunk. -/
def oldStop (h : Hunk) : Nat := h.oldStart - 1 + h.removedLines.length

/-- A hunk as it is when the texts change places. -/
def reverse (h : Hunk) : Hunk where
  oldStart := h.newStart
  newStart := h.oldStart
  lines := h.lines.map .reverse

@[simp] theorem removedLines_reverse (h : Hunk) : h.reverse.removedLines = h.addedLines := by
  simp only [removedLines, addedLines, reverse, List.filterMap_map]
  congr 1
  funext l
  cases l <;> rfl

@[simp] theorem addedLines_reverse (h : Hunk) : h.reverse.addedLines = h.removedLines := by
  simp only [removedLines, addedLines, reverse, List.filterMap_map]
  congr 1
  funext l
  cases l <;> rfl

/-- Every line of a hunk is taken out or put in. -/
theorem length_lines (h : Hunk) :
    h.lines.length = h.removedLines.length + h.addedLines.length := by
  unfold removedLines addedLines
  induction h.lines with
  | nil => rfl
  | cons l ls ih => cases l <;> simp [ih] <;> omega

end Hunk

namespace Diff

/-! ## Walking -/

/-- Hunks lead from one list of lines to another, both seen from given
positions.  Behind a hunk that has just ended both share a line. -/
def Aligned (ended : Prop) (i j : Nat) (old new : List Text) : List Hunk → Prop
  | [] => old = new
  | h :: hs => ∃ common old' new',
    old = common ++ h.removedLines ++ old' ∧ new = common ++ h.addedLines ++ new'
      ∧ h.oldStart = i + common.length + 1 ∧ h.newStart = j + common.length + 1
      ∧ (ended → common ≠ [])
      ∧ Aligned True (i + common.length + h.removedLines.length)
        (j + common.length + h.addedLines.length) old' new' hs

/-- Hunks lead on from given positions, the first one from the hunk that is
open there. -/
def Continues (i j : Nat) (old new : List Text) : Option Hunk → List Hunk → Prop
  | none, hs => Aligned False i j old new hs
  | some current, hs => ∃ h rest removed added old' new',
    hs = h :: rest ∧ h.oldStart = current.oldStart ∧ h.newStart = current.newStart
      ∧ h.removedLines = current.removedLines ++ removed
      ∧ h.addedLines = current.addedLines ++ added
      ∧ old = removed ++ old' ∧ new = added ++ new'
      ∧ Aligned True (i + removed.length) (j + added.length) old' new' rest

/-- A line that both texts have leads on. -/
theorem Aligned.cons {ended : Prop} (a : Text) (h : Aligned False (i + 1) (j + 1) old new hs) :
    Aligned ended i j (a :: old) (a :: new) hs := by
  cases hs with
  | nil => exact congrArg (a :: ·) h
  | cons k hs =>
    obtain ⟨common, old', new', rfl, rfl, hold, hnew, -, hrest⟩ := h
    refine ⟨a :: common, old', new', rfl, rfl, ?_, ?_, by simp, ?_⟩
    · rw [hold, List.length_cons]
      omega
    · rw [hnew, List.length_cons]
      omega
    · have hi : i + (a :: common).length = i + 1 + common.length := by simp; omega
      have hj : j + (a :: common).length = j + 1 + common.length := by simp; omega
      rw [hi, hj]
      exact hrest

/-- A step that puts lines into the open hunk, or into a new one, leads on. -/
theorem Continues.extend {current : Option Hunk} {lines : List DiffLine} (removed added : List Text)
    (hremoved : (Hunk.mk 0 0 lines).removedLines = removed)
    (hadded : (Hunk.mk 0 0 lines).addedLines = added)
    (h : Continues (i + removed.length) (j + added.length) old new
      (some ((current.getD ⟨i + 1, j + 1, []⟩).extend lines)) hs) :
    Continues i j (removed ++ old) (added ++ new) current hs := by
  obtain ⟨k, rest, removed', added', old', new', rfl, hold, hnew, hout, hin, rfl, rfl, hrest⟩ := h
  have hparts : ∀ c : Hunk, (c.extend lines).removedLines = c.removedLines ++ removed
      ∧ (c.extend lines).addedLines = c.addedLines ++ added := by
    intro c
    rw [← hremoved, ← hadded]
    simp [Hunk.extend, Hunk.removedLines, Hunk.addedLines]
  rw [(hparts _).1] at hout
  rw [(hparts _).2] at hin
  cases current with
  | none =>
    have hout' : k.removedLines = removed ++ removed' := hout
    have hin' : k.addedLines = added ++ added' := hin
    refine ⟨[], old', new', by simp [hout'], by simp [hin'], hold, hnew, by simp, ?_⟩
    simpa [hout', hin', Nat.add_assoc] using hrest
  | some c =>
    refine ⟨k, rest, removed ++ removed', added ++ added', old', new', rfl, hold, hnew,
      by simpa using hout, by simpa using hin, by simp, by simp, ?_⟩
    simpa [Nat.add_assoc] using hrest

/-- Where both texts go on with the same line, the open hunk ends. -/
theorem Continues.close {current : Option Hunk} (a : Text)
    (h : Aligned False (i + 1) (j + 1) old new hs) :
    Continues i j (a :: old) (a :: new) current (current.toList ++ hs) := by
  cases current with
  | none => exact h.cons a
  | some c => exact ⟨c, hs, [], [], _, _, rfl, rfl, rfl, by simp, by simp, rfl, rfl, h.cons a⟩

/-- The hunks of a walk lead on from where it stands. -/
theorem continues_hunksFrom (i j : Nat) (current : Option Hunk) (old new : List Text) :
    Continues i j old new current (hunksFrom i j current old new) := by
  fun_induction hunksFrom i j current old new with
  | case1 i j current =>
    cases current with
    | none => rfl
    | some c => exact ⟨c, [], [], [], [], [], rfl, rfl, rfl, by simp, by simp, rfl, rfl, rfl⟩
  | case2 i j current b new ih => exact .extend [] [b] rfl rfl ih
  | case3 i j current a old ih => exact .extend [a] [] rfl rfl ih
  | case4 i j current old a new ih => exact .close a ih
  | case5 i j current a old b new _ _ _ ih => exact .extend [] [b] rfl rfl ih
  | case6 i j current a old b new _ _ _ _ ih =>
    exact .extend [a] [] rfl rfl ih
  | case7 i j current a old b new _ _ _ _ ih =>
    exact .extend [a] [b] rfl rfl ih

/-! ## What the hunks say -/

/-- The lines of a text from a position on, where hunks put lines in place of
those that they take out. -/
def patchFrom (i : Nat) : List Hunk → List Text → List Text
  | [], ls => ls
  | h :: hs, ls =>
    ls.take (h.oldStart - 1 - i) ++ h.addedLines ++ patchFrom h.oldStop hs (ls.drop (h.oldStop - i))

/-- Between two hunks there are lines, one at least, that both texts have. -/
def Gap (old new : List Text) (h k : Hunk) : Prop :=
  ∃ common, common ≠ []
    ∧ (∃ before after, old = before ++ h.removedLines ++ common ++ k.removedLines ++ after
      ∧ h.oldStart = before.length + 1
      ∧ k.oldStart = h.oldStart + h.removedLines.length + common.length)
    ∧ ∃ before after, new = before ++ h.addedLines ++ common ++ k.addedLines ++ after
      ∧ h.newStart = before.length + 1
      ∧ k.newStart = h.newStart + h.addedLines.length + common.length

namespace Aligned

variable {ended : Prop} {old new : List Text} {hs : List Hunk}

/-- The same hunks, each the other way round, lead back. -/
theorem reverse (h : Aligned ended i j old new hs) :
    Aligned ended j i new old (hs.map .reverse) := by
  induction hs generalizing ended i j old new with
  | nil => exact h.symm
  | cons k hs ih =>
    obtain ⟨common, old', new', hold, hnew, holdStart, hnewStart, hended, hrest⟩ := h
    refine ⟨common, new', old', by simpa using hnew, by simpa using hold, hnewStart, holdStart,
      hended, ?_⟩
    simpa using ih hrest

/-- Patching the one text gives the other. -/
theorem patchFrom_eq (h : Aligned ended i j old new hs) : patchFrom i hs old = new := by
  induction hs generalizing ended i j old new with
  | nil => exact h
  | cons k hs ih =>
    obtain ⟨common, old', new', rfl, rfl, hold, -, -, hrest⟩ := h
    have hstart : k.oldStart - 1 - i = common.length := by omega
    have hstop : k.oldStop = i + common.length + k.removedLines.length := by
      rw [Hunk.oldStop, hold]
      omega
    have hskip : k.oldStop - i = (common ++ k.removedLines).length := by
      rw [hstop, List.length_append]
      omega
    rw [patchFrom, hstart, hskip, List.drop_left, hstop, ih hrest, List.append_assoc common,
      List.take_left]

/-- What a hunk takes out stands in the old text at the number that it gives. -/
theorem removed_at (h : Aligned ended i j old new hs) (hk : k ∈ hs) :
    ∃ before after, old = before ++ k.removedLines ++ after
      ∧ k.oldStart = i + before.length + 1 := by
  induction hs generalizing ended i j old new with
  | nil => contradiction
  | cons k' hs ih =>
    obtain ⟨common, old', new', rfl, -, hold, -, -, hrest⟩ := h
    rcases List.mem_cons.1 hk with rfl | hk
    · exact ⟨common, old', rfl, hold⟩
    · obtain ⟨before, after, rfl, hstart⟩ := ih hrest hk
      refine ⟨common ++ k'.removedLines ++ before, after, by simp, ?_⟩
      rw [hstart, List.length_append, List.length_append]
      omega

/-- What a hunk puts in stands in the new text at the number that it gives. -/
theorem added_at (h : Aligned ended i j old new hs) (hk : k ∈ hs) :
    ∃ before after, new = before ++ k.addedLines ++ after
      ∧ k.newStart = j + before.length + 1 := by
  obtain ⟨before, after, hnew, hstart⟩ := h.reverse.removed_at (List.mem_map_of_mem hk)
  exact ⟨before, after, by simpa using hnew, hstart⟩

/-- Hunks that lead from text to text are apart. -/
theorem isChain_gap (h : Aligned ended a.length b.length old new hs) :
    hs.IsChain (Gap (a ++ old) (b ++ new)) := by
  induction hs generalizing ended a b old new with
  | nil => exact .nil
  | cons k hs ih =>
    obtain ⟨common, old', new', rfl, rfl, hold, hnew, -, hrest⟩ := h
    have hchain : hs.IsChain (Gap (a ++ common ++ k.removedLines ++ old')
        (b ++ common ++ k.addedLines ++ new')) := ih (by simpa [Nat.add_assoc] using hrest)
    cases hs with
    | nil => exact .singleton k
    | cons k' hs =>
      refine .cons_cons ?_ (by simpa using hchain)
      obtain ⟨between, old'', new'', rfl, rfl, hold', hnew', hsome, -⟩ := hrest
      refine ⟨between, hsome trivial, ⟨a ++ common, old'', by simp, ?_, ?_⟩,
        b ++ common, new'', by simp, ?_, ?_⟩
      · rw [hold, List.length_append]
      · rw [hold', hold]
        omega
      · rw [hnew, List.length_append]
      · rw [hnew', hnew]
        omega

/-- Each line of either text is in one hunk at most. -/
theorem length_lines_le (h : Aligned ended i j old new hs) :
    (hs.map (·.lines.length)).sum ≤ old.length + new.length := by
  induction hs generalizing ended i j old new with
  | nil => simp
  | cons k hs ih =>
    obtain ⟨common, old', new', rfl, rfl, -, -, -, hrest⟩ := h
    have hle := ih hrest
    simp only [List.map_cons, List.sum_cons, List.length_append, k.length_lines]
    omega

end Aligned

/-- The hunks between two texts lead from the one to the other. -/
theorem aligned_hunks (old new : List Text) : Aligned False 0 0 old new (hunks old new) :=
  continues_hunksFrom 0 0 none old new

/-- There are no hunks exactly between equal texts. -/
theorem hunks_eq_nil_iff (old new : List Text) : hunks old new = [] ↔ old = new := by
  constructor
  · intro h
    have haligned := aligned_hunks old new
    rw [h] at haligned
    exact haligned
  · rintro rfl
    have hsame : ∀ i j, hunksFrom i j none old old = [] := by
      induction old with
      | nil => simp [hunksFrom]
      | cons a old ih => simp [hunksFrom, ih]
    exact hsame 0 0

end Diff
end LogPrune
