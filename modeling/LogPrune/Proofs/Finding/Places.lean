import LogPrune.Proofs.Finding.Layout
import Mathlib

/-!
# LogPrune.Proofs.Finding.Places

Findings read back from the lines of their text.

`between?` reads what stands between two places of some lines.  It reads the text that
leads from the first place to the second one (`between?_advance`), so that the lines and
characters which a finding reports always give its text back (`all_between`).
-/

namespace LogPrune
namespace Text

/-- What stands in some lines from one place up to another: a part of a line, or else the
end of a line, all lines below it and the beginning of the one that follows them. -/
def between? (lines : List Text) (p q : Nat × Nat) : Option Text :=
  if p.1 = q.1 then do
    let line ← lines[p.1]?
    slice? p.2 q.2 line
  else if p.1 < q.1 then do
    let (_, first) ← cut? p.2 (← lines[p.1]?)
    let (last, _) ← cut? q.2 (← lines[q.1]?)
    return unlines (first :: (lines.take q.1).drop (p.1 + 1) ++ [last])
  else none

/-- Between the place where a part of a text begins and the one where it ends stands the
part. -/
theorem between?_advance (a t b : Text) :
    between? (a ++ t ++ b).lines (advance (0, 0) a) (advance (0, 0) (a ++ t)) = some t := by
  obtain ⟨above, left, ha⟩ := exists_lines_eq_append a
  obtain ⟨right, below, hb⟩ := exists_lines_eq_cons b
  obtain ⟨first, more, ht⟩ := exists_lines_eq_cons t
  have hat := lines_append ha ht
  have htext : t = unlines (first :: more) := by rw [← ht, unlines_lines]
  rw [advance_of_lines ha]
  rcases List.eq_nil_or_concat more with rfl | ⟨mid, last, rfl⟩
  · -- the part stands on one line
    have hsize : size (left ++ first) = size left + size first := size_append left first
    have hline : (a ++ t ++ b).lines[above.length]? = some (left ++ first ++ right) := by
      rw [lines_append hat hb]; simp
    rw [advance_of_lines hat, between?, if_pos rfl, hline, hsize, show t = first from htext]
    exact slice?_append left first right
  · rw [List.concat_eq_append] at ht hat htext
    have hend : (a ++ t).lines = (above ++ (left ++ first) :: mid) ++ [last] := by
      rw [hat]; simp
    have hlines := lines_append hend hb
    have habove : (a ++ t ++ b).lines[above.length]? = some (left ++ first) := by
      rw [hlines]; simp
    have hbelow : (a ++ t ++ b).lines[(above ++ (left ++ first) :: mid).length]? =
        some (last ++ right) := by
      rw [hlines]; simp
    have hmid : ((a ++ t ++ b).lines.take (above ++ (left ++ first) :: mid).length).drop
        (above.length + 1) = mid := by
      rw [hlines, List.take_left, List.drop_append]
      simp
    have hlt : above.length < (above ++ (left ++ first) :: mid).length := by simp
    rw [advance_of_lines hend, between?, if_neg (Nat.ne_of_lt hlt), if_pos hlt, habove, hbelow, hmid]
    simp [cut?_append, htext]

end Text

namespace Finding

/-- The findings of a text stand at their places: the lines exist, what stands between
the two places is the text of the finding, which is not empty and does not end with a
blank, and each finding ends no later than the next one starts. -/
theorem all_between (content : Text) (rules : List Rule) (tags : List String) :
    (∀ f ∈ all content rules tags,
      f.startLine ≤ f.endLine ∧ f.endLine < content.lines.length ∧
      Text.between? content.lines f.startPlace f.endPlace = some f.text ∧
      f.text ≠ [] ∧ Text.trimEnd f.text = f.text) ∧
    (all content rules tags).Pairwise fun f g => Text.NoLater f.endPlace g.startPlace := by
  have hlaid := laid_all content rules tags
  refine ⟨fun f hf => ?_, hlaid.pairwise_before⟩
  have hfits := hlaid.fitsIn hf
  obtain ⟨a, b, hcontent, hs, he⟩ := hlaid.exists_of_mem hf
  obtain ⟨s, x, htext, hsolid⟩ := endsSolid_of_mem_all hf
  refine ⟨hfits.line_le, hfits.inside, ?_, by simp [htext], ?_⟩
  · rw [hs, he, hcontent, Text.between?_advance]
  · rw [htext, Text.trimEnd_append_singleton hsolid]

/-- A call over three lines, of which the middle one is empty but for its carriage return
and the last one has a character of two bytes, and a call on one line. -/
theorem all_between_over_lines :
    (∃ f ∈ all "é print(\r\n\r\n \"ü\")\r\n\nprint(2) \n".toList (Ruleset.python.rules {}) [],
      f.text = "print(\r\n\r\n \"ü\")".toList ∧ f.startPlace = (0, 3) ∧ f.endPlace = (2, 6) ∧
      Text.between? (Text.lines "é print(\r\n\r\n \"ü\")\r\n\nprint(2) \n".toList)
        f.startPlace f.endPlace = some f.text ∧ Text.trimEnd f.text = f.text) ∧
    ∃ f ∈ all "é print(\r\n\r\n \"ü\")\r\n\nprint(2) \n".toList (Ruleset.python.rules {}) [],
      f.text = "print(2)".toList ∧ f.startPlace = (4, 0) ∧ f.endPlace = (4, 8) ∧
      Text.between? (Text.lines "é print(\r\n\r\n \"ü\")\r\n\nprint(2) \n".toList)
        f.startPlace f.endPlace = some f.text ∧ Text.trimEnd f.text = f.text := by
  have hall : all "é print(\r\n\r\n \"ü\")\r\n\nprint(2) \n".toList
      (Ruleset.python.rules {}) [] = [
      { text := "print(\r\n\r\n \"ü\")".toList, startLine := 0, endLine := 2, startChar := 3,
        endChar := 6, description := "Python print() statements", priority := 10,
        keep := false },
      { text := "print(2)".toList, startLine := 4, endLine := 4, startChar := 0, endChar := 8,
        description := "Python print() statements", priority := 10, keep := false }] := by cbv
  obtain ⟨hplaces, -⟩ := all_between
    "é print(\r\n\r\n \"ü\")\r\n\nprint(2) \n".toList (Ruleset.python.rules {}) []
  rw [hall] at hplaces ⊢
  obtain ⟨-, -, hfirst, -, hsolid⟩ := hplaces _ List.mem_cons_self
  obtain ⟨-, -, hsecond, -, hsolid'⟩ := hplaces _ (List.mem_cons_of_mem _ List.mem_cons_self)
  exact ⟨⟨_, List.mem_cons_self, rfl, rfl, rfl, hfirst, hsolid⟩,
    _, List.mem_cons_of_mem _ List.mem_cons_self, rfl, rfl, rfl, hsecond, hsolid'⟩

end Finding
end LogPrune
