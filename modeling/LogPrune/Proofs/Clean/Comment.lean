import LogPrune.Clean.Comment
import LogPrune.Proofs.Clean.Remnant

/-!
# LogPrune.Proofs.Clean.Comment

Commenting findings out, against commenting each line out that one of them
covers.

Lines are commented out finding by finding, with a list of those done so far.
`Marks` says what the list is for: the lines commented out are those of which
the number came up, each once (`Marks.commentLine`).  So the order of the
findings does not matter, nor how many of them share a line
(`getElem?_commentFindings`).
-/

namespace LogPrune

/-! ## One line -/

/-- A line without a carriage return at its end. -/
def Text.body (line : Text) : Text := (Text.dropEnding? ['\r'] line).getD line

/-- What is put behind a line to close the comment it becomes. -/
def closing (closer line : Text) : Text :=
  if Text.trim closer = [] || Text.includes line.body (Text.trim closer) then [] else closer

/-- A line that is commented out is the opener, its body, the closer where one is
needed, and the carriage return if it had one. -/
theorem Text.exists_append_of_body (line : Text) :
    ∃ e, line = line.body ++ e ∧ ∀ opener closer, commentOut opener closer line =
      opener ++ line.body ++ closing closer line ++ e := by
  cases h : Text.dropEnding? ['\r'] line with
  | none =>
      have hbody : line.body = line := by rw [body, h]; rfl
      refine ⟨[], by rw [hbody, List.append_nil], fun opener closer => ?_⟩
      simp only [commentOut, h, closing, hbody]
      split <;> simp
  | some rest =>
      have hbody : line.body = rest := by rw [body, h]; rfl
      refine ⟨['\r'], by rw [hbody]; exact Text.append_of_dropEnding? h, fun opener closer => ?_⟩
      simp only [commentOut, h, closing, hbody]
      split <;> simp

/-! ## All lines -/

namespace CommentedLines

/-- Of some lines, those with numbers in a list have been commented out, and
their numbers are recorded. -/
structure Marks (opener closer : Text) (lines : List Text) (numbers : List Nat)
    (s : CommentedLines) : Prop where
  getElem? : ∀ i, s.lines[i]? =
    lines[i]?.map fun line => if i ∈ numbers then commentOut opener closer line else line
  done : ∀ i, i < lines.length → (i ∈ s.done ↔ i ∈ numbers)

variable {opener closer : Text} {lines : List Text} {numbers : List Nat} {s : CommentedLines}

/-- A number that is in the list, or that no line has, adds nothing. -/
theorem Marks.cons (h : Marks opener closer lines numbers s) {i : Nat}
    (hi : i < lines.length → i ∈ numbers) : Marks opener closer lines (i :: numbers) s := by
  have hmem : ∀ j, j < lines.length → (j ∈ i :: numbers ↔ j ∈ numbers) := fun j hj => by
    rw [List.mem_cons]
    exact ⟨fun hor => hor.elim (fun heq => heq ▸ hi (heq ▸ hj)) id, .inr⟩
  refine ⟨fun j => ?_, fun j hj => (h.done j hj).trans (hmem j hj).symm⟩
  rw [h.getElem? j]
  cases hline : lines[j]? with
  | none => rfl
  | some line =>
      have hj : j < lines.length := (List.getElem?_eq_some_iff.1 hline).1
      simp only [Option.map_some, hmem j hj]

/-- Commenting a line out adds its number, if it is new. -/
theorem Marks.commentLine (h : Marks opener closer lines numbers s) (i : Nat) :
    Marks opener closer lines (i :: numbers) (s.commentLine opener closer i) := by
  have hi := h.getElem? i
  rw [CommentedLines.commentLine]
  cases hline : lines[i]? with
  | none =>
      rw [hline, Option.map_none] at hi
      rw [hi]
      exact h.cons fun hlt => absurd hlt (Nat.not_lt.2 (List.getElem?_eq_none_iff.1 hline))
  | some line =>
      rw [hline, Option.map_some] at hi
      have hdone := h.done i (List.getElem?_eq_some_iff.1 hline).1
      rw [hi]
      by_cases hmem : i ∈ numbers
      · simp only [List.contains_iff_mem, hdone, hmem, if_true]
        exact h.cons fun _ => hmem
      · simp only [List.contains_iff_mem, hdone, hmem, if_false]
        refine ⟨fun j => ?_, fun j hj => ?_⟩
        · rw [List.getElem?_set]
          by_cases hji : i = j
          · subst hji
            have hslen : i < s.lines.length := (List.getElem?_eq_some_iff.1 hi).1
            simp [hslen, hline]
          · rw [if_neg hji, h.getElem? j]
            simp [Ne.symm hji]
        · rw [List.mem_cons, List.mem_cons, h.done j hj]

/-- Commenting several lines out adds their numbers. -/
theorem Marks.foldl (h : Marks opener closer lines numbers s) (more : List Nat) :
    ∃ all, Marks opener closer lines all (more.foldl (CommentedLines.commentLine opener closer) s) ∧
      ∀ i, i ∈ all ↔ i ∈ more ∨ i ∈ numbers := by
  induction more generalizing numbers s with
  | nil => exact ⟨numbers, h, by simp⟩
  | cons j more ih =>
      obtain ⟨all, hall, hmem⟩ := ih (h.commentLine j)
      refine ⟨all, hall, fun i => ?_⟩
      rw [hmem, List.mem_cons, List.mem_cons]
      exact or_left_comm.trans or_assoc.symm

/-- Commenting findings out adds the numbers of the lines that they cover. -/
theorem Marks.findings (h : Marks opener closer lines numbers s) (fs : List Finding) :
    ∃ all, Marks opener closer lines all
        (fs.foldl (CommentedLines.commentFinding opener closer) s) ∧
      ∀ i, i ∈ all ↔ (∃ f ∈ fs, f.covers i) ∨ i ∈ numbers := by
  induction fs generalizing numbers s with
  | nil => exact ⟨numbers, h, by simp⟩
  | cons f fs ih =>
      obtain ⟨some, hsome, hmem⟩ :=
        h.foldl (List.range' f.startLine (f.endLine + 1 - f.startLine))
      obtain ⟨all, hall, hmem'⟩ := ih hsome
      refine ⟨all, hall, fun i => ?_⟩
      have hcovers : i ∈ List.range' f.startLine (f.endLine + 1 - f.startLine) ↔ f.covers i := by
        simp only [List.mem_range'_1, Finding.covers, Bool.and_eq_true, decide_eq_true_eq]
        omega
      rw [hmem', hmem, hcovers]
      simp only [List.mem_cons, exists_eq_or_imp]
      exact or_left_comm.trans or_assoc.symm

end CommentedLines

/-- Lines with findings commented out: each line that one of them covers which
is not a comment itself. -/
theorem getElem?_commentFindings (language : String) (fs : List Finding) (lines : List Text)
    (i : Nat) :
    (commentFindings language fs lines)[i]? = lines[i]?.map fun line =>
      if (liveFindings fs).any (·.covers i) then
        commentOut (commentOpener language).toList (commentCloser language).toList line
      else line := by
  have hstart : CommentedLines.Marks (commentOpener language).toList
      (commentCloser language).toList lines [] ⟨lines, []⟩ :=
    ⟨fun i => by simp, fun i _ => Iff.rfl⟩
  obtain ⟨all, hall, hmem⟩ := hstart.findings (liveFindings fs).reverse
  rw [commentFindings, hall.getElem? i]
  have hiff : i ∈ all ↔ (liveFindings fs).any (·.covers i) := by
    rw [hmem]
    simp
  simp only [hiff]

theorem length_commentFindings (language : String) (fs : List Finding) (lines : List Text) :
    (commentFindings language fs lines).length = lines.length := by
  have hnone : ∀ i, (commentFindings language fs lines)[i]? = none ↔ lines[i]? = none := fun i => by
    rw [getElem?_commentFindings, Option.map_eq_none_iff]
  apply Nat.le_antisymm
  · exact List.getElem?_eq_none_iff.1 ((hnone _).2 (List.getElem?_eq_none (Nat.le_refl _)))
  · exact List.getElem?_eq_none_iff.1 ((hnone _).1 (List.getElem?_eq_none (Nat.le_refl _)))

end LogPrune
