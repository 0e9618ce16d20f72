import LogPrune.Proofs.Clean.CommentRules

/-!
# LogPrune.Proofs.Clean.Again

Commenting statements out in a text in which they were commented out before.

This changes nothing exactly when every hit in the text is spared, or starts in a
finding that is: one that is kept or a comment itself (`commented_eq_zero_iff`).
A call that was commented out is spared where its line reads as a comment of which
the rules know the call (`newContent_commented_again`).  They know some calls only,
and those at the beginning of the comment only: others are commented out again
(`printf_commented_twice`).
-/

namespace LogPrune

/-- Whether commenting out leaves a statement alone: it is kept, or a comment
itself. -/
def Finding.Spared (f : Finding) : Prop := f.keep ∨ isComment f.text

instance (f : Finding) : Decidable f.Spared := inferInstanceAs (Decidable (_ ∨ _))

variable {content : Text} {language : String} {config : Config} {cleaned : Cleaned}

/-! ## When nothing is commented out -/

/-- The statements to be commented out are the findings that are not spared. -/
theorem mem_liveFindings_iff (h : clean? content language config = some cleaned) {f : Finding} :
    f ∈ liveFindings cleaned.findings ↔ f ∈ findingsIn content language config ∧ ¬ f.Spared := by
  rw [liveFindings, List.mem_filter, mem_findings_iff h, Finding.Spared, and_assoc]
  simp

/-- Commenting out changes the text exactly when there is something to comment
out. -/
theorem newContent_eq_self_iff (h : clean? content language config = some cleaned)
    (hmode : config.mode = .comment) : cleaned.newContent = content ↔ cleaned.commented = 0 := by
  rw [commented_of_comment h hmode, List.length_eq_zero_iff]
  have hlines := lines_of_comment h hmode
  constructor
  · intro hself
    by_contra hlive
    obtain ⟨f, fs, hfs⟩ := List.exists_cons_of_ne_nil hlive
    have hf : f ∈ liveFindings cleaned.findings := by
      rw [hfs]
      exact List.mem_cons_self
    have hfits := (orderly_of_clean? h).fits f (List.mem_filter.1 hf).1
    have hcovers : (liveFindings cleaned.findings).any (·.covers f.startLine) :=
      List.any_eq_true.2 ⟨f, hf, Finding.covers_of_le (Nat.le_refl _) hfits.line_le⟩
    -- the line on which the statement starts is another one
    have hlen : f.startLine < content.lines.length := Nat.lt_of_le_of_lt hfits.line_le hfits.inside
    have hline := getElem?_commentFindings language cleaned.findings content.lines f.startLine
    rw [← hlines, hself, List.getElem?_eq_getElem hlen, Option.map_some, if_pos hcovers] at hline
    exact commentOut_ne (commentOpener_spec language).1 _ _ (Option.some.inj hline).symm
  · intro hlive
    have hself : commentFindings language cleaned.findings content.lines = content.lines := by
      rw [commentFindings, hlive]
      rfl
    rw [← Text.unlines_lines cleaned.newContent, hlines, hself, Text.unlines_lines]

/-- Nothing is commented out exactly when every hit is spared, or starts in a
finding that is. -/
theorem commented_eq_zero_iff (h : clean? content language config = some cleaned)
    (hmode : config.mode = .comment) :
    cleaned.commented = 0 ↔ ∀ c ∈ hitsIn content language config,
      c.Spared ∨ ∃ f ∈ findingsIn content language config, f.Spared ∧ c.StartsIn f := by
  rw [commented_of_comment h hmode, List.length_eq_zero_iff, List.eq_nil_iff_forall_not_mem]
  constructor
  · intro hnone c hc
    obtain ⟨f, hf, hcf⟩ := exists_mem_findingsIn hc
    refine .inr ⟨f, hf, ?_, hcf⟩
    by_contra hspared
    exact hnone f ((mem_liveFindings_iff h).2 ⟨hf, hspared⟩)
  · intro hhits f hf
    obtain ⟨hf, hlive⟩ := (mem_liveFindings_iff h).1 hf
    rcases hhits f (mem_hitsIn hf) with hspared | ⟨g, hg, hspared, hfg⟩
    · exact hlive hspared
    · rw [← eq_of_startsIn_findingsIn hf hg hfg] at hspared
      exact hlive hspared

/-! ## Lines that read as comments -/

/-- A comment marker makes a text a comment. -/
theorem isComment_of_marker {marker t : Text} (hmarker : marker ∈ commentMarkers.map String.toList)
    (h : marker <+: t) : isComment t := by
  obtain ⟨hne, hsolid⟩ := marker_spec hmarker
  obtain ⟨m, hm, rfl⟩ := List.mem_map.1 hmarker
  obtain ⟨x, xs, hx⟩ := List.exists_cons_of_ne_nil hne
  have htrim : Text.trimStart t = t := by
    obtain ⟨rest, rfl⟩ := h
    rw [Text.trimStart, hx]
    exact List.dropWhile_cons_of_neg (by simp [(hsolid x (by rw [hx]; simp)).1])
  exact List.any_eq_true.2 ⟨m, hm, by rw [htrim]; exact List.isPrefixOf_iff_prefix.2 h⟩

theorem hasLineComments_styleRules (hstyles : Ruleset.takesComments config)
    (inLine inBlock : String) :
    Finding.HasLineComments (Ruleset.styleRules inLine inBlock config) "//".toList := by
  refine ⟨Ruleset.lineCommentRule "//" inLine 5, ?_, rfl, rfl⟩
  rw [Ruleset.styleRules, if_pos hstyles]
  exact List.mem_cons_self

/-- The rules of every language with line comments know them, unless the rules or
the comments are switched off. -/
theorem hasLineComments_rulesFor (hlang : language ∈ Ruleset.supportedLanguages)
    (hcloser : commentCloser language = "") (hflag : config.removeCommentedLogs)
    (hmethods : config.logTypes.javascript.methods ≠ []) (hothers : config.logTypes.allOtherLogs)
    (hstyles : config.htmlCssHandling) :
    Finding.HasLineComments (rulesFor language config) (lineMarker language) := by
  have htakes : Ruleset.takesComments config := by simp [Ruleset.takesComments, hflag, hstyles]
  by_cases hsheets : language ∈ ["scss", "less"]
  · rcases List.mem_pair.1 hsheets with rfl | rfl
    · exact hasLineComments_styleRules htakes _ _
    · exact hasLineComments_styleRules htakes _ _
  · obtain ⟨inLine, inBlock, hrules⟩ :=
      exists_commentRules hlang hcloser hflag hmethods (fun _ => hothers) hsheets
    exact hrules.hasLineComments

/-- Nothing is commented out where all lines with hits that are not spared open
with a marker and a call that the rules know, and no spared finding reaches into
one of them from above. -/
theorem commented_eq_zero_of_opensCall {marker : Text}
    (h : clean? content language config = some cleaned) (hmode : config.mode = .comment)
    (hmarker : marker ∈ commentMarkers.map String.toList)
    (hcomments : Finding.HasLineComments (rulesFor language config) marker)
    (hopens : ∀ c ∈ hitsIn content language config, ¬ c.Spared →
      ∀ line, content.lines[c.startLine]? = some line → line.OpensCall marker)
    (hapart : ∀ c ∈ hitsIn content language config, ¬ c.Spared →
      ∀ f ∈ findingsIn content language config, f.Spared →
        f.startLine < c.startLine → f.endLine < c.startLine) :
    cleaned.commented = 0 := by
  have hspared : ∀ n, ∀ f ∈ findingsIn content language config, f.startLine = n → f.Spared := by
    intro n
    induction n using Nat.strongRecOn with
    | ind n ih =>
        rintro f hf rfl
        by_contra hlive
        have hfits := (Finding.laid_all ..).fitsIn hf
        have hline := List.getElem?_eq_getElem (Nat.lt_of_le_of_lt hfits.line_le hfits.inside)
        -- a finding further up reaches into the line: neither a spared one nor another
        obtain ⟨e, he, habove, hreach⟩ := Finding.exists_above_of_opensCall
          (fun r hr => wellFormed_of_mem_rulesFor hr) hmarker hcomments hf hline
          (hopens f (mem_hitsIn hf) hlive _ hline)
          fun hcomment => hlive (.inr (isComment_of_marker hmarker hcomment))
        have hapart := hapart f (mem_hitsIn hf) hlive e he (ih _ habove e he rfl) habove
        omega
  rw [commented_eq_zero_iff h hmode]
  intro c hc
  obtain ⟨f, hf, hcf⟩ := exists_mem_findingsIn hc
  exact .inr ⟨f, hf, hspared _ f hf rfl, hcf⟩

/-- A line that opens with a call opens with a comment when it is commented out. -/
theorem opensCall_commentOut {line : Text} (hcloser : commentCloser language = "")
    (h : line.OpensCall []) :
    (commentOut (commentOpener language).toList (commentCloser language).toList line).OpensCall
      (lineMarker language) := by
  have hout : commentOut (commentOpener language).toList (commentCloser language).toList line =
      lineMarker language ++ [' '] ++ line := by
    have hclosing : closing (commentCloser language).toList line = [] := by rw [hcloser]; rfl
    rw [commentOut_eq, hclosing, List.append_nil, List.append_assoc, Text.body_append_ending,
      (lineMarker_spec language).2]
  obtain ⟨blanks, gap, call, rest, rfl, hblanks, hgap, hcall⟩ := h
  refine ⟨[], ' ' :: blanks ++ gap, call, rest, ?_, by simp, ?_, hcall⟩
  · rw [hout]
    simp
  · intro x hx
    rcases List.mem_append.1 hx with hx | hx
    · rcases List.mem_cons.1 hx with rfl | hx
      · decide
      · exact hblanks x hx
    · exact hgap x hx

/-- Commenting out a second time.  It changes nothing exactly when every hit in the
text is spared or starts in a spared finding.  This is so where the rules know
line comments, every line with another hit opens with a call that they know, or
with a comment of one, and no spared finding reaches into such a line from
above. -/
theorem newContent_commented_again {content : Text} {language : String} {config : Config}
    (hlang : language ∈ Ruleset.supportedLanguages) (hmode : config.mode = .comment) :
    ∃ once again, clean? content language config = some once ∧
      clean? once.newContent language config = some again ∧
      (again.newContent = once.newContent ↔ again.commented = 0) ∧
      (again.commented = 0 ↔ ∀ c ∈ hitsIn once.newContent language config,
        c.Spared ∨ ∃ f ∈ findingsIn once.newContent language config, f.Spared ∧ c.StartsIn f) ∧
      (commentCloser language = "" →
        Finding.HasLineComments (rulesFor language config) (lineMarker language) →
        (∀ c ∈ hitsIn once.newContent language config, ¬ c.Spared →
          (∀ line, content.lines[c.startLine]? = some line → line.OpensCall
            (if (liveFindings once.findings).any (·.covers c.startLine) then []
              else lineMarker language)) ∧
          ∀ f ∈ findingsIn once.newContent language config, f.Spared →
            f.startLine < c.startLine → f.endLine < c.startLine) →
        again.commented = 0) := by
  obtain ⟨once, honce⟩ := exists_clean? content config hlang
  obtain ⟨again, hagain⟩ := exists_clean? once.newContent config hlang
  refine ⟨once, again, honce, hagain, newContent_eq_self_iff hagain hmode,
    commented_eq_zero_iff hagain hmode, fun hcloser hcomments hhits => ?_⟩
  refine commented_eq_zero_of_opensCall hagain hmode (lineMarker_spec language).1 hcomments ?_
    fun c hc hlive => (hhits c hc hlive).2
  intro c hc hlive line' hline'
  have hopens := (hhits c hc hlive).1
  rw [lines_of_comment honce hmode, getElem?_commentFindings, Option.map_eq_some_iff] at hline'
  obtain ⟨line, hline, rfl⟩ := hline'
  have hopens := hopens line hline
  split
  · next hcovers =>
    rw [if_pos hcovers] at hopens
    exact opensCall_commentOut hcloser hopens
  · next hcovers => rwa [if_neg hcovers] at hopens

/-- A call that is commented out, and commented out again. -/
theorem newContent_commented_again_call :
    "javascript" ∈ Ruleset.supportedLanguages ∧
    ∃ once again, clean? "console.log(1);\nfoo();".toList "javascript" { mode := .comment } =
        some once ∧
      clean? once.newContent "javascript" { mode := .comment } = some again ∧
      once.newContent = "// console.log(1);\nfoo();".toList ∧ once.commented = 1 ∧
      again.newContent = once.newContent ∧ again.commented = 0 := by
  have hlang : "javascript" ∈ Ruleset.supportedLanguages := by decide
  obtain ⟨once, again, honce, hagain, hself, -, hnone⟩ := @newContent_commented_again
    "console.log(1);\nfoo();".toList "javascript" { mode := .comment } hlang rfl
  have h : clean? "console.log(1);\nfoo();".toList "javascript" { mode := .comment } = some
      { newContent := "// console.log(1);\nfoo();".toList
        findings := [
          { text := "console.log(1);".toList, startLine := 0, endLine := 0, startChar := 0,
            endChar := 15, description := "JavaScript console.* statements", priority := 10,
            keep := false }]
        kept := 0, removed := 0, commented := 1 } := by cbv
  obtain rfl := Option.some.inj (honce.symm.trans h)
  have hcomments := @hasLineComments_rulesFor "javascript" { mode := .comment } hlang rfl rfl
    (by decide) rfl rfl
  have hhits : hitsIn "// console.log(1);\nfoo();".toList "javascript" { mode := .comment } = [
      { text := "console.log(1);".toList, startLine := 0, endLine := 0, startChar := 3,
        endChar := 18, description := "JavaScript console.* statements", priority := 10,
        keep := false },
      { text := "// console.log(1);".toList, startLine := 0, endLine := 0, startChar := 0,
        endChar := 18, description := "Single-line commented console statements",
        priority := 8, keep := false }] := by cbv
  have hopens : Text.OpensCall "console.log(1);".toList [] :=
    ⟨[], [], "console.".toList, "log(1);".toList, rfl, by simp, by simp,
      .inl (spells_text_iff.2 rfl)⟩
  have hcommented : again.commented = 0 := by
    apply hnone rfl hcomments
    rw [hhits]
    intro c hc hlive
    rcases List.mem_pair.1 hc with rfl | rfl
    · refine ⟨?_, fun f _ _ habove => absurd habove (Nat.not_lt_zero _)⟩
      rintro line hline
      obtain rfl := Option.some.inj hline
      exact hopens
    · exact absurd (by decide) hlive
  exact ⟨hlang, _, again, h, hagain, rfl, rfl, hself.2 hcommented, hcommented⟩

/-- The rules do not know a commented `printf`, so it is commented out again. -/
theorem printf_commented_twice :
    ∃ once again, clean? "printf(\"x\");\n".toList "c" { mode := .comment } = some once ∧
      clean? once.newContent "c" { mode := .comment } = some again ∧
      once.newContent = "// printf(\"x\");\n".toList ∧
      again.newContent = "// // printf(\"x\");\n".toList ∧ again.commented = 1 := by
  have honce : clean? "printf(\"x\");\n".toList "c" { mode := .comment } = some
      { newContent := "// printf(\"x\");\n".toList
        findings := [
          { text := "printf(\"x\");".toList, startLine := 0, endLine := 0, startChar := 0,
            endChar := 12, description := "C printf/fprintf statements", priority := 10,
            keep := false }]
        kept := 0, removed := 0, commented := 1 } := by cbv
  have hagain : clean? "// printf(\"x\");\n".toList "c" { mode := .comment } = some
      { newContent := "// // printf(\"x\");\n".toList
        findings := [
          { text := "printf(\"x\");".toList, startLine := 0, endLine := 0, startChar := 3,
            endChar := 15, description := "C printf/fprintf statements", priority := 10,
            keep := false }]
        kept := 0, removed := 0, commented := 1 } := by cbv
  exact ⟨_, _, honce, hagain, rfl, rfl, rfl⟩

end LogPrune
