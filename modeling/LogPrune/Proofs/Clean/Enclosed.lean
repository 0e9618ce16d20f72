import LogPrune.Proofs.Clean.CommentedOut
import LogPrune.Proofs.Clean.Found

/-!
# LogPrune.Proofs.Clean.Enclosed

Statements commented out on the lines of a page, where comments have a closer.

1. Each line of a statement holds its part of the statement, between what stands in
   front of it and what stands behind it (`exists_standsOn`).
2. A line that is commented out opens with a comment and holds a closer, its own one or
   the one put behind it.  What stands on the line is inside the comment up to the first
   closer (`encloses_commentOut_iff`).
3. So a statement is disabled exactly when on none of its lines a closer stands before
   its part ends (`live_statement_enclosed_iff`); behind a comment that closes on its line
   it stays live (`note_closes_comment`).
-/

namespace LogPrune

/-! ## Parts of a statement -/

namespace Finding

/-- The part of a statement that stands on the line with a number, without a carriage
return at its end. -/
def partOn (f : Finding) (i : Nat) : Text := (f.text.lines.getD (i - f.startLine) []).body

/-- Where the part of a statement on a line stands: behind what is in front of the
statement on its first line, and before what is behind it on its last one. -/
structure StandsOn (f : Finding) (i : Nat) (line front behind : Text) : Prop where
  body_eq : line.body = front ++ f.partOn i ++ behind
  first : if i = f.startLine then Text.size front = f.startChar else front = []
  last : if i = f.endLine then Text.size (front ++ f.partOn i) = f.endChar else behind = []

/-- The first line of a finding is not empty, and neither is the last one, which does not end
with a carriage return. -/
theorem outer_lines_of_mem_all {content : Text} {rules : List Rule} {tags : List String}
    {f : Finding} {j : Nat} {p : Text} (hrules : ∀ r ∈ rules, r.WellFormed)
    (hf : f ∈ all content rules tags) (hp : f.text.lines[j]? = some p) :
    (j = 0 → p ≠ []) ∧
      (j + 1 = f.text.lines.length → p ≠ [] ∧ p.getLast? ≠ some '\r') := by
  constructor
  · rintro rfl
    obtain ⟨x, xs, htext, hcode⟩ := isCode_of_mem_all hrules hf
    obtain ⟨first, more, hlines⟩ := Text.exists_lines_eq_cons f.text
    obtain rfl : first = p := by simpa [hlines] using hp
    rw [htext] at hlines
    apply Text.ne_nil_of_lines ?_ hlines
    rintro rfl
    exact absurd hcode (by decide)
  · intro hlast
    obtain ⟨s, x, htext, hx⟩ := endsSolid_of_mem_all hf
    obtain ⟨ls, l, hlines⟩ := Text.exists_lines_eq_append f.text
    obtain rfl : j = ls.length := by simp [hlines] at hlast; omega
    obtain rfl : l = p := by simpa [hlines] using hp
    rw [htext] at hlines
    have hblank : ∀ c, isBlank c → x ≠ c := by
      rintro c hc rfl
      simp [hx] at hc
    have hend := Text.getLast?_of_lines (hblank '\n' (by decide)) hlines
    refine ⟨by rintro rfl; simp at hend, ?_⟩
    rw [hend]
    simpa using hblank '\r' (by decide)

/-- Each line that a finding covers holds its part of it. -/
theorem exists_standsOn {content : Text} {rules : List Rule} {tags : List String} {f : Finding}
    {i : Nat} (hrules : ∀ r ∈ rules, r.WellFormed) (hf : f ∈ all content rules tags)
    (hcovers : f.covers i) :
    ∃ line front behind, content.lines[i]? = some line ∧ f.StandsOn i line front behind := by
  obtain ⟨left, right, hleft, hcount, hlines⟩ := (laid_all content rules tags).exists_lines hf
  simp only [covers, Bool.and_eq_true, decide_eq_true_eq] at hcovers
  obtain ⟨j, rfl⟩ : ∃ j, i = f.startLine + j := ⟨i - f.startLine, by omega⟩
  have hfirst : f.startLine + j = f.startLine ↔ j = 0 := by omega
  have hlast : f.startLine + j = f.endLine ↔ j + 1 = f.text.lines.length := by omega
  obtain ⟨p, hp⟩ : ∃ p, f.text.lines[j]? = some p :=
    ⟨_, List.getElem?_eq_getElem (show j < f.text.lines.length by omega)⟩
  have hpart : f.partOn (f.startLine + j) = p.body := by
    rw [partOn, Nat.add_sub_cancel_left, List.getD_eq_getElem?_getD, hp]; rfl
  obtain ⟨hline, hend⟩ := hlines j p hp
  obtain ⟨houter, houter'⟩ := outer_lines_of_mem_all hrules hf hp
  refine ⟨_, if j = 0 then left else [],
    if j + 1 = f.text.lines.length then Text.body right else [], hline, ?_, ?_, ?_⟩
  · rw [hpart]
    by_cases hj : j + 1 = f.text.lines.length
    · obtain ⟨hne, hreturn⟩ := houter' hj
      rw [if_pos hj, if_pos hj, Text.body_of_getLast?_ne hreturn]
      apply Text.body_append
      right
      rwa [List.getLast?_append_of_ne_nil _ hne]
    · rw [if_neg hj, if_neg hj, List.append_nil, List.append_nil]
      apply Text.body_append
      by_cases hzero : j = 0
      · exact .inl (houter hzero)
      · rw [if_neg hzero]
        exact .inr (by simp)
  · rw [if_congr hfirst rfl rfl]
    split_ifs
    · exact hleft
    · rfl
  · by_cases hj : j + 1 = f.text.lines.length
    · rw [if_pos (hlast.2 hj), hpart, Text.body_of_getLast?_ne (houter' hj).2]
      exact hend hj
    · rw [if_neg (mt hlast.1 hj), if_neg hj]

end Finding

/-! ## Lines of a page -/

/-- A line is a comment that has a closer, and what stands on it up to the end of a beginning
is inside the comment. -/
structure Encloses (opener mark head line : Text) : Prop where
  opens : opener ++ head <+: line
  closes : line.includes mark
  inside : (opener ++ head).includes mark = false

/-- An opener holds no closer, nor does it begin one. -/
theorem includes_opener (head : Text) :
    Text.includes ("<!-- ".toList ++ head) "-->".toList = head.includes "-->".toList := by
  have hopener : ¬ "-->".toList <:+: "<!--".toList := by decide
  rw [Bool.eq_iff_iff, Text.includes_iff_infix, Text.includes_iff_infix]
  exact (Text.infix_append_cons_iff (s := "<!--".toList)
    (show ' ' ∉ "-->".toList by decide)).trans (or_iff_right hopener)

/-- What stands at the beginning of a line of a page is inside the comment that the line
becomes exactly when no closer stands there.  The line has an opener and a closer in any
case. -/
theorem encloses_commentOut_iff {line head comment : Text} (hhead : head <+: line.body)
    (hcomment : comment = commentOut "<!-- ".toList " -->".toList line) :
    "<!-- ".toList ++ head <+: comment ∧ comment.includes "-->".toList ∧
      (Encloses "<!-- ".toList "-->".toList head comment ↔
        head.includes "-->".toList = false) := by
  rw [commentOut_eq] at hcomment
  have hopens : "<!-- ".toList ++ head <+: comment := by
    obtain ⟨rest, hrest⟩ := hhead
    rw [hcomment, ← hrest]
    exact ⟨rest ++ closing " -->".toList line ++ line.ending, by simp⟩
  have hcloses : comment.includes "-->".toList := by
    rw [hcomment, Text.includes_iff_infix, closing,
      show Text.trim " -->".toList = "-->".toList by decide]
    split
    · next h =>
      have hbody : line.body.includes "-->".toList := by simpa using h
      obtain ⟨a, b, hab⟩ := Text.includes_iff_infix.1 hbody
      exact ⟨"<!-- ".toList ++ a, b ++ line.ending, by simp [← hab]⟩
    · exact ⟨"<!-- ".toList ++ line.body ++ [' '], line.ending, by simp⟩
  refine ⟨hopens, hcloses, fun h => ?_, fun h => ⟨hopens, hcloses, ?_⟩⟩
  · rw [← includes_opener]
    exact h.inside
  · rw [includes_opener]
    exact h

/-- Statements on a page that are commented out.  Each line of such a statement begins with an
opener and has a closer.  The part of the statement on the line is inside that comment
exactly when no closer stands in front of the end of the part, in the line as it was. -/
theorem live_statement_enclosed_iff {content : Text} {config : Config}
    (hmode : config.mode = .comment) :
    ∃ cleaned, clean? content "html" config = some cleaned ∧
      ∀ f ∈ cleaned.findings, isComment f.text = false → ∀ i, f.covers i →
        ∃ line line' front behind, content.lines[i]? = some line ∧
          cleaned.newContent.lines[i]? = some line' ∧ f.StandsOn i line front behind ∧
          "<!-- ".toList ++ (front ++ f.partOn i) <+: line' ∧ line'.includes "-->".toList ∧
          (Encloses "<!-- ".toList "-->".toList (front ++ f.partOn i) line' ↔
            Text.includes (front ++ f.partOn i) "-->".toList = false) := by
  obtain ⟨cleaned, h⟩ := exists_clean? content config
    (show "html" ∈ Ruleset.supportedLanguages by decide)
  refine ⟨cleaned, h, fun f hf hlive i hcovers => ?_⟩
  obtain ⟨line, front, behind, hline, hstands⟩ := Finding.exists_standsOn
    (fun r hr => wellFormed_of_mem_rulesFor hr) ((mem_findings_iff h).1 hf).1 hcovers
  have hany : (liveFindings cleaned.findings).any (·.covers i) := by
    refine List.any_eq_true.2 ⟨f, List.mem_filter.2 ⟨hf, ?_⟩, hcovers⟩
    simp [hlive]
  have hline' : cleaned.newContent.lines[i]? =
      some (commentOut "<!-- ".toList " -->".toList line) := by
    rw [lines_of_comment h hmode, getElem?_commentFindings, hline, Option.map_some, if_pos hany]
    rfl
  have hhead : front ++ f.partOn i <+: line.body := ⟨behind, hstands.body_eq.symm⟩
  exact ⟨line, _, front, behind, hline, hline', hstands, encloses_commentOut_iff hhead rfl⟩

/-- A call on two lines with a note behind it: on the second line the closer of the note closes
the comment as well. -/
theorem live_statement_enclosed_iff_call :
    ({ mode := .comment } : Config).mode = .comment ∧
    ∃ cleaned, clean? "run(); console.log(1,\r\n  2); <!-- b -->".toList "html"
        { mode := .comment } = some cleaned ∧
      cleaned.newContent = "<!-- run(); console.log(1, -->\r\n<!--   2); <!-- b -->".toList ∧
      ∃ f ∈ cleaned.findings, isComment f.text = false ∧ f.covers 1 ∧
        ∃ line', cleaned.newContent.lines[1]? = some line' ∧
          Encloses "<!-- ".toList "-->".toList "  2);".toList line' := by
  have h : clean? "run(); console.log(1,\r\n  2); <!-- b -->".toList "html"
      { mode := .comment } = some
      { newContent := "<!-- run(); console.log(1, -->\r\n<!--   2); <!-- b -->".toList
        findings := [
          { text := "console.log(1,\r\n  2);".toList, startLine := 0, endLine := 1, startChar := 7,
            endChar := 5, description := "HTML inline console statements", priority := 10,
            keep := false },
          { text := "<!-- b -->".toList, startLine := 1, endLine := 1, startChar := 6,
            endChar := 16, description := "HTML comments", priority := 5, keep := false }]
        kept := 0, removed := 0, commented := 1 } := by cbv
  obtain ⟨cleaned, hcleaned, hlive⟩ := @live_statement_enclosed_iff
    "run(); console.log(1,\r\n  2); <!-- b -->".toList { mode := .comment } rfl
  obtain rfl := Option.some.inj (hcleaned.symm.trans h)
  obtain ⟨line, line', front, behind, -, hline', hstands, -, -, hiff⟩ :=
    hlive _ (List.mem_cons_self ..) (by decide) 1 (by decide)
  obtain rfl : front = [] := hstands.first
  exact ⟨rfl, _, h, rfl, _, List.mem_cons_self .., by decide, by decide, line', hline',
    hiff.2 (by cbv)⟩

/-- A note in front of a call closes the comment, and the call behind it stays live. -/
theorem note_closes_comment :
    ∃ cleaned, clean? "<!-- note --> console.log(1);".toList "html" { mode := .comment } =
        some cleaned ∧
      cleaned.newContent = "<!-- <!-- note --> console.log(1);".toList ∧
      ∃ f ∈ cleaned.findings, isComment f.text = false ∧ f.covers 0 ∧
        ∃ line front behind, f.StandsOn 0 line front behind ∧
          ¬ Encloses "<!-- ".toList "-->".toList (front ++ f.partOn 0) cleaned.newContent := by
  have h : clean? "<!-- note --> console.log(1);".toList "html" { mode := .comment } = some
      { newContent := "<!-- <!-- note --> console.log(1);".toList
        findings := [
          { text := "<!-- note -->".toList, startLine := 0, endLine := 0, startChar := 0,
            endChar := 13, description := "HTML comments", priority := 5, keep := false },
          { text := "console.log(1);".toList, startLine := 0, endLine := 0, startChar := 14,
            endChar := 29, description := "HTML inline console statements", priority := 10,
            keep := false }]
        kept := 0, removed := 0, commented := 1 } := by cbv
  refine ⟨_, h, rfl, _, List.mem_cons_of_mem _ List.mem_cons_self, by decide, by decide,
    "<!-- note --> console.log(1);".toList, "<!-- note --> ".toList, [], ⟨?_, ?_, ?_⟩, ?_⟩
  · cbv
  · rw [if_pos rfl]; rfl
  · rw [if_pos rfl]; cbv
  · intro hencloses
    have hinside := hencloses.inside
    rw [show Text.includes _ _ = true by cbv] at hinside
    contradiction

end LogPrune
