import LogPrune.Proofs.Clean.Apart
import LogPrune.Proofs.Clean.Comment

/-!
# LogPrune.Proofs.Clean.CommentedOut

The text that commenting statements out leaves.

It has the lines of the text before, by their numbers (`lines_of_comment`).  A line
changes exactly when a statement that is no comment itself stands on it, and what
it becomes depends on the line alone, not on how many statements stand there nor on
the order in which they come (`newContent_lines_commented`).
-/

namespace LogPrune

/-! ## Openers and closers -/

theorem commentOpener_mem (language : String) :
    commentOpener language ∈ ["# ", "-- ", "<!-- ", "/* ", "// "] := by
  unfold commentOpener
  split_ifs <;> decide

theorem commentCloser_mem (language : String) :
    commentCloser language ∈ [" -->", " */", ""] := by
  unfold commentCloser
  split_ifs <;> decide

/-- An opener is not empty, stays on its line and does not end with a carriage
return. -/
theorem commentOpener_spec (language : String) :
    (commentOpener language).toList ≠ [] ∧ '\n' ∉ (commentOpener language).toList ∧
      (commentOpener language).toList.getLast? ≠ some '\r' := by
  have hall : ∀ s ∈ ["# ", "-- ", "<!-- ", "/* ", "// "],
      s.toList ≠ [] ∧ '\n' ∉ s.toList ∧ s.toList.getLast? ≠ some '\r' := by decide
  exact hall _ (commentOpener_mem language)

theorem commentCloser_spec (language : String) :
    '\n' ∉ (commentCloser language).toList ∧
      (commentCloser language).toList.getLast? ≠ some '\r' := by
  have hall : ∀ s ∈ [" -->", " */", ""],
      '\n' ∉ s.toList ∧ s.toList.getLast? ≠ some '\r' := by decide
  exact hall _ (commentCloser_mem language)

/-- The marker of the line comments of a language. -/
def lineMarker (language : String) : Text := Text.trim (commentOpener language).toList

theorem lineMarker_spec (language : String) :
    lineMarker language ∈ commentMarkers.map String.toList ∧
      (commentOpener language).toList = lineMarker language ++ [' '] := by
  have hall : ∀ s ∈ ["# ", "-- ", "<!-- ", "/* ", "// "],
      Text.trim s.toList ∈ commentMarkers.map String.toList ∧
        s.toList = Text.trim s.toList ++ [' '] := by decide
  exact hall _ (commentOpener_mem language)

/-! ## One line -/

namespace Text

/-- The carriage return at the end of a line, if there is one. -/
def ending (line : Text) : Text := if line.getLast? = some '\r' then ['\r'] else []

theorem body_of_getLast? {line : Text} (h : line.getLast? = some '\r') :
    line = line.body ++ ['\r'] := by
  obtain ⟨front, rfl⟩ := List.getLast?_eq_some_iff.1 h
  rw [body, dropEnding?_append]
  rfl

theorem body_of_getLast?_ne {line : Text} (h : line.getLast? ≠ some '\r') : line.body = line := by
  cases hdrop : dropEnding? ['\r'] line with
  | none => rw [body, hdrop]; rfl
  | some rest =>
      rw [append_of_dropEnding? hdrop] at h
      exact absurd (by simp) h

/-- A carriage return at the end of two texts is one of the second text. -/
theorem body_append {s t : Text} (h : t ≠ [] ∨ s.getLast? ≠ some '\r') :
    (s ++ t).body = s ++ t.body := by
  by_cases ht : t.getLast? = some '\r'
  · obtain ⟨front, rfl⟩ := List.getLast?_eq_some_iff.1 ht
    rw [← List.append_assoc, body, body, dropEnding?_append, dropEnding?_append]
    rfl
  · have hst : (s ++ t).getLast? ≠ some '\r' := by
      rcases List.eq_nil_or_concat t with rfl | ⟨u, x, rfl⟩ <;> simp_all
    rw [body_of_getLast?_ne hst, body_of_getLast?_ne ht]

/-- A line is its body and its ending. -/
theorem body_append_ending (line : Text) : line.body ++ line.ending = line := by
  rw [ending]
  split
  · next h => exact (body_of_getLast? h).symm
  · next h => rw [List.append_nil, body_of_getLast?_ne h]

end Text

/-- What a line reads as when it is commented out: the opener, the body of the
line, nothing or the closer, and a carriage return when the line had one. -/
structure ReadsAsComment (opener closer line comment : Text) : Prop where
  parts : ∃ tail, (tail = [] ∨ tail = closer) ∧
    comment = opener ++ line.body ++ tail ++ line.ending
  getLast?_iff : comment.getLast? = some '\r' ↔ line.getLast? = some '\r'

theorem commentOut_eq (opener closer line : Text) :
    commentOut opener closer line =
      opener ++ line.body ++ closing closer line ++ line.ending := by
  obtain ⟨e, he, hcomment⟩ := Text.exists_append_of_body line
  have hending : e = line.ending :=
    List.append_cancel_left (he.symm.trans (Text.body_append_ending line).symm)
  rw [hcomment, hending]

theorem readsAsComment_commentOut (language : String) (line : Text) :
    ReadsAsComment (commentOpener language).toList (commentCloser language).toList line
      (commentOut (commentOpener language).toList (commentCloser language).toList line) := by
  obtain ⟨hne, -, hopener⟩ := commentOpener_spec language
  obtain ⟨-, hcloser⟩ := commentCloser_spec language
  have htail : closing (commentCloser language).toList line = [] ∨
      closing (commentCloser language).toList line = (commentCloser language).toList := by
    unfold closing
    split
    · exact .inl rfl
    · exact .inr rfl
  refine ⟨⟨_, htail, commentOut_eq ..⟩, ?_⟩
  rw [commentOut_eq]
  by_cases hreturn : line.getLast? = some '\r'
  · rw [Text.ending, if_pos hreturn]
    simp [hreturn]
  · -- whatever stands last, the closer, the body or the opener, is no carriage return
    rw [Text.ending, if_neg hreturn, List.append_nil, Text.body_of_getLast?_ne hreturn]
    simp only [List.getLast?_append, hreturn, iff_false]
    rcases htail with h | h <;> rw [h] <;> grind

/-- A line that is commented out is another one, because it is longer. -/
theorem commentOut_ne {opener : Text} (hne : opener ≠ []) (closer line : Text) :
    commentOut opener closer line ≠ line := by
  intro h
  have hlen := congrArg List.length h
  have hline := congrArg List.length (Text.body_append_ending line)
  have hpos := List.length_pos_of_ne_nil hne
  rw [commentOut_eq] at hlen
  simp only [List.length_append] at hlen hline
  omega

theorem newline_not_mem_commentOut {language : String} {line : Text} (h : '\n' ∉ line) :
    '\n' ∉ commentOut (commentOpener language).toList (commentCloser language).toList line := by
  obtain ⟨-, hopener, -⟩ := commentOpener_spec language
  obtain ⟨hcloser, -⟩ := commentCloser_spec language
  have hline : '\n' ∉ line.body ++ line.ending := by rwa [Text.body_append_ending]
  rw [commentOut_eq, closing]
  split <;> simp_all

/-! ## All lines -/

/-- The lines of a text in which statements were commented out. -/
theorem lines_of_comment {content : Text} {language : String} {config : Config}
    {cleaned : Cleaned} (h : clean? content language config = some cleaned)
    (hmode : config.mode = .comment) :
    cleaned.newContent.lines = commentFindings language cleaned.findings content.lines := by
  obtain ⟨ruleset, -, rfl⟩ := exists_ruleset_of_clean? h
  rw [hmode]
  apply Text.lines_unlines
  · intro l hl
    obtain ⟨i, hi⟩ := List.mem_iff_getElem?.1 hl
    rw [getElem?_commentFindings, Option.map_eq_some_iff] at hi
    obtain ⟨line, hline, rfl⟩ := hi
    have hnew := Text.not_mem_of_mem_lines (List.mem_of_getElem? hline)
    split
    · exact newline_not_mem_commentOut hnew
    · exact hnew
  · intro hnil
    have hlen := congrArg List.length hnil
    rw [length_commentFindings] at hlen
    exact Text.lines_ne_nil content (List.eq_nil_of_length_eq_zero hlen)

theorem commented_of_comment {content : Text} {language : String} {config : Config}
    {cleaned : Cleaned} (h : clean? content language config = some cleaned)
    (hmode : config.mode = .comment) :
    cleaned.commented = (liveFindings cleaned.findings).length := by
  obtain ⟨ruleset, -, rfl⟩ := exists_ruleset_of_clean? h
  rw [hmode]
  rfl

/-- The order of the findings does not matter to what is commented out. -/
theorem commentFindings_of_perm {fs gs : List Finding} (h : gs.Perm fs) (language : String)
    (lines : List Text) : commentFindings language gs lines = commentFindings language fs lines := by
  apply List.ext_getElem?
  intro i
  have hlive : (liveFindings gs).Perm (liveFindings fs) := h.filter _
  rw [getElem?_commentFindings, getElem?_commentFindings, hlive.any_eq]

/-- Commenting statements out keeps the lines and their number.  A line changes
exactly when a statement that is no comment itself stands on it, and then reads as
a comment, whatever else stands on it.  The statements that are no comments are
counted, and their order does not matter. -/
theorem newContent_lines_commented {content : Text} {language : String} {config : Config}
    (hlang : language ∈ Ruleset.supportedLanguages) (hmode : config.mode = .comment) :
    ∃ cleaned, clean? content language config = some cleaned ∧
      cleaned.newContent.lines.length = content.lines.length ∧
      (∀ i line line', content.lines[i]? = some line → cleaned.newContent.lines[i]? = some line' →
        (line' ≠ line ↔ ∃ f ∈ cleaned.findings, isComment f.text = false ∧ f.covers i) ∧
        (line' ≠ line →
          line' = commentOut (commentOpener language).toList (commentCloser language).toList line ∧
          ReadsAsComment (commentOpener language).toList (commentCloser language).toList
            line line')) ∧
      cleaned.commented = (cleaned.findings.filter fun f => !isComment f.text).length ∧
      ∀ order : List Finding, order.Perm cleaned.findings →
        Text.unlines (commentFindings language order content.lines) = cleaned.newContent ∧
        (liveFindings order).length = cleaned.commented := by
  obtain ⟨cleaned, h⟩ := exists_clean? content config hlang
  have hlines := lines_of_comment h hmode
  refine ⟨cleaned, h, ?_, ?_, commented_of_comment h hmode, ?_⟩
  · rw [hlines, length_commentFindings]
  · intro i line line' hline hline'
    rw [hlines, getElem?_commentFindings, hline, Option.map_some, Option.some.injEq] at hline'
    have hlive : (liveFindings cleaned.findings).any (·.covers i) ↔
        ∃ f ∈ cleaned.findings, isComment f.text = false ∧ f.covers i := by
      simp [liveFindings]
    have hne := commentOut_ne (commentOpener_spec language).1 (commentCloser language).toList line
    subst hline'
    split
    · next hcovers =>
      exact ⟨iff_of_true hne (hlive.1 hcovers), fun _ =>
        ⟨rfl, readsAsComment_commentOut language line⟩⟩
    · next hcovers =>
      exact ⟨iff_of_false (fun hself => hself rfl) fun hf => hcovers (hlive.2 hf),
        fun hself => absurd rfl hself⟩
  · intro order hperm
    refine ⟨?_, ?_⟩
    · rw [commentFindings_of_perm hperm, ← hlines, Text.unlines_lines]
    · rw [commented_of_comment h hmode]
      exact (hperm.filter _).length_eq

/-- Two calls share a line that ends with a carriage return, and the comment below
them stays as it is. -/
theorem newContent_lines_commented_calls :
    "javascript" ∈ Ruleset.supportedLanguages ∧
    ∃ cleaned, clean? "console.log(1); console.log(2);\r\n// console.log(3);\nb".toList
        "javascript" { mode := .comment } = some cleaned ∧
      cleaned.newContent.lines.length = 3 ∧
      cleaned.findings.length = 3 ∧ cleaned.commented = 2 ∧
      cleaned.newContent =
        "// console.log(1); console.log(2);\r\n// console.log(3);\nb".toList := by
  have hlang : "javascript" ∈ Ruleset.supportedLanguages := by decide
  obtain ⟨cleaned, h, hlen, -, hcount, -⟩ := @newContent_lines_commented
    "console.log(1); console.log(2);\r\n// console.log(3);\nb".toList "javascript"
    { mode := .comment } hlang rfl
  have hcleaned : clean? "console.log(1); console.log(2);\r\n// console.log(3);\nb".toList
      "javascript" { mode := .comment } = some
      { newContent := "// console.log(1); console.log(2);\r\n// console.log(3);\nb".toList
        findings := [
          { text := "console.log(1);".toList, startLine := 0, endLine := 0, startChar := 0,
            endChar := 15, description := "JavaScript console.* statements", priority := 10,
            keep := false },
          { text := "console.log(2);".toList, startLine := 0, endLine := 0, startChar := 16,
            endChar := 31, description := "JavaScript console.* statements", priority := 10,
            keep := false },
          { text := "// console.log(3);".toList, startLine := 1, endLine := 1, startChar := 0,
            endChar := 18, description := "Single-line commented console statements",
            priority := 8, keep := false }]
        kept := 0, removed := 0, commented := 2 } := by cbv
  obtain rfl := Option.some.inj (h.symm.trans hcleaned)
  exact ⟨hlang, _, h, hlen, rfl, hcount, rfl⟩

end LogPrune
