import LogPrune.Clean
import LogPrune.Proofs.Clean.Stray
import Mathlib

/-!
# LogPrune.Proofs.Clean.Frame

What removing the statements of a text leaves of the lines on which none stands.

Such a line stays as it is unless it is a stray, and if none of them is one they
are all there afterwards, in their order (`uncovered_sublist_lines`).  Strays
exist: when a statement over several lines ends on the line where the next one
starts, the line below them is lost (`keep_me_lost`).
-/

namespace LogPrune

/-! ## The findings of a cleaned text -/

/-- A text is cleaned of the statements that the rules of its language find. -/
theorem exists_ruleset_of_clean? {content : Text} {language : String} {config : Config}
    {cleaned : Cleaned} (h : clean? content language config = some cleaned) :
    ∃ ruleset, Ruleset.forLanguage? language = some ruleset ∧
      cleaned = cleanFindings content language config.mode
        (Finding.all content (ruleset.rules config) config.whitelistTags) := by
  obtain ⟨ruleset, hlang, rfl⟩ := Option.map_eq_some_iff.1 h
  exact ⟨ruleset, hlang, rfl⟩

/-- The statements reported are those that are not kept. -/
theorem findings_cleanFindings (content : Text) (language : String) (mode : Mode)
    (all : List Finding) :
    (cleanFindings content language mode all).findings = all.filter (!·.keep) := by
  unfold cleanFindings
  split <;> rfl

namespace Finding

/-- Some of the findings of a text, in order. -/
theorem orderly_of_sublist_all {content : Text} {rules : List Rule} {tags : List String}
    (hrules : ∀ r ∈ rules, r.WellFormed) {fs : List Finding}
    (hsub : fs.Sublist (all content rules tags)) : Orderly content.lines fs := by
  have hlaid := (laid_all content rules tags).sublist hsub
  refine ⟨fun l => Text.not_mem_of_mem_lines, fun f => hlaid.fitsIn, hlaid.pairwise_before, ?_⟩
  intro f hf
  obtain ⟨x, xs, htext, hcode⟩ := isCode_of_mem_all hrules (hsub.mem hf)
  exact ⟨x, by rw [htext]; exact List.mem_cons_self, hcode⟩

/-! ## Lines without findings -/

/-- The lines on which no finding stands. -/
def uncovered (fs : List Finding) (lines : List Text) : List Text :=
  (List.range lines.length).filterMap fun i => if fs.any (·.covers i) then none else lines[i]?

/-- Leaving out more of numbered lines leaves fewer. -/
theorem filterMap_sublist_filterMap {left left' : Nat → Option Text} {numbers : List Nat}
    (h : ∀ i ∈ numbers, left i = none ∨ left i = left' i) :
    (numbers.filterMap left).Sublist (numbers.filterMap left') := by
  induction numbers with
  | nil => exact .slnil
  | cons i numbers ih =>
      have ih := ih fun j hj => h j (List.mem_cons_of_mem _ hj)
      rcases h i List.mem_cons_self with hnone | hsame
      · rw [List.filterMap_cons_none hnone]
        exact ih.trans ((List.sublist_cons_self i numbers).filterMap left')
      · rw [List.filterMap_cons, List.filterMap_cons, hsame]
        cases left' i with
        | none => exact ih
        | some line => exact ih.cons_cons line

/-- If lines on which no finding stands are no strays, they are left. -/
theorem uncovered_sublist {lines : List Text} {fs : List Finding}
    (htext : ∀ f ∈ fs, f.text ≠ []) (hstray : ∀ i, Stray lines fs i → ∃ f ∈ fs, f.covers i) :
    (uncovered fs lines).Sublist ((List.range lines.length).filterMap (erased? lines fs)) := by
  apply filterMap_sublist_filterMap
  intro i _
  by_cases hany : fs.any (·.covers i)
  · exact .inl (if_pos hany)
  · have hcovers : ∀ f ∈ fs, f.covers i = false := by simpa using hany
    have hno : ¬ Stray lines fs i := fun h => by
      obtain ⟨f, hf, hfi⟩ := hstray i h
      simp [hcovers f hf] at hfi
    right
    rw [if_neg hany, (not_stray_iff htext hcovers).1 hno]

/-! ## Characters of the lines left -/

/-- What is left of a line is a part of it. -/
theorem sublist_of_strip? {f : Finding} {line rest : Text} (h : f.strip? line = some rest) :
    rest.Sublist line := by
  rw [strip?] at h
  split at h
  · contradiction
  · obtain rfl := Option.some.inj h
    rcases f.cutFrom_eq line with heq | ⟨a, b, hline, heq⟩
    · rw [heq]
    · rw [heq, hline, List.append_assoc]
      exact (List.sublist_append_right f.text b).append_left a

theorem not_mem_of_erased? {lines : List Text} {fs : List Finding} {i : Nat} {rest : Text}
    {c : Char} (hlines : ∀ l ∈ lines, c ∉ l) (h : erased? lines fs i = some rest) : c ∉ rest := by
  induction fs generalizing rest with
  | nil => exact hlines rest (List.mem_of_getElem? h)
  | cons f gs ih =>
      rw [erased?] at h
      split at h
      · obtain ⟨line, hline, hedit⟩ := Option.bind_eq_some_iff.1 h
        rw [edit?] at hedit
        split at hedit
        · exact fun hc => ih hline ((sublist_of_strip? hedit).mem hc)
        · contradiction
      · exact ih h

end Finding

/-- Joined lines have these lines, or are empty when there are none. -/
theorem Text.sublist_lines_unlines {ls : List Text} (h : ∀ l ∈ ls, '\n' ∉ l) :
    ls.Sublist (unlines ls).lines := by
  cases ls with
  | nil => exact List.nil_sublist _
  | cons l ls => rw [lines_unlines h (List.cons_ne_nil l ls)]

/-! ## The lines of a cleaned text -/

/-- The statements reported for a text stand in their order in its lines. -/
theorem orderly_of_clean? {content : Text} {language : String} {config : Config}
    {cleaned : Cleaned} (h : clean? content language config = some cleaned) :
    Finding.Orderly content.lines cleaned.findings := by
  obtain ⟨ruleset, hlang, rfl⟩ := exists_ruleset_of_clean? h
  rw [findings_cleanFindings]
  exact Finding.orderly_of_sublist_all
    (fun r hr => Ruleset.wellFormed_of_forLanguage? hlang hr) List.filter_sublist

theorem newContent_of_delete {content : Text} {language : String} {config : Config}
    {cleaned : Cleaned} (h : clean? content language config = some cleaned)
    (hmode : config.mode = .delete) :
    cleaned.newContent = .unlines ((List.range content.lines.length).filterMap
      (Finding.erased? content.lines cleaned.findings)) := by
  rw [← (orderly_of_clean? h).eraseAll_eq]
  obtain ⟨ruleset, -, rfl⟩ := exists_ruleset_of_clean? h
  rw [hmode]
  rfl

/-- What becomes of the lines on which no statement stands when statements are
removed: each stays as it is exactly when it is no stray, and when none is one
they are all left, in their order. -/
theorem uncovered_sublist_lines {content : Text} {language : String} {config : Config}
    {cleaned : Cleaned} (h : clean? content language config = some cleaned)
    (hmode : config.mode = .delete) :
    let lines := content.lines
    let fs := cleaned.findings
    cleaned.newContent =
      .unlines ((List.range lines.length).filterMap (Finding.erased? lines fs)) ∧
    (∀ i, (∀ f ∈ fs, f.covers i = false) →
      (Finding.erased? lines fs i = lines[i]? ↔ ¬ Finding.Stray lines fs i)) ∧
    ((∀ i, Finding.Stray lines fs i → ∃ f ∈ fs, f.covers i) →
      (Finding.uncovered fs lines).Sublist cleaned.newContent.lines) := by
  intro lines fs
  have horderly : Finding.Orderly lines fs := orderly_of_clean? h
  have hnew := newContent_of_delete h hmode
  have htext : ∀ f ∈ fs, f.text ≠ [] := fun f hf => by
    obtain ⟨x, hx, -⟩ := horderly.code f hf
    exact List.ne_nil_of_mem hx
  refine ⟨hnew, fun i hi => (Finding.not_stray_iff htext hi).symm, fun hstray => ?_⟩
  rw [hnew]
  refine (Finding.uncovered_sublist htext hstray).trans (Text.sublist_lines_unlines ?_)
  intro l hl
  obtain ⟨i, -, hi⟩ := List.mem_filterMap.1 hl
  exact Finding.not_mem_of_erased? horderly.noNewline hi

/-- Calls that share no line leave the line below them as it is. -/
theorem uncovered_sublist_lines_two_calls :
    ∃ cleaned, clean? "console.log(1);\nconsole.log(\n 2);\nkeep me\n".toList "javascript"
        { mode := .delete } = some cleaned ∧
      (∀ i, Finding.Stray (Text.lines "console.log(1);\nconsole.log(\n 2);\nkeep me\n".toList)
        cleaned.findings i → ∃ f ∈ cleaned.findings, f.covers i) ∧
      (Finding.uncovered cleaned.findings
        (Text.lines "console.log(1);\nconsole.log(\n 2);\nkeep me\n".toList)).Sublist
        cleaned.newContent.lines := by
  have h : clean? "console.log(1);\nconsole.log(\n 2);\nkeep me\n".toList "javascript"
      { mode := .delete } = some
      { newContent := "keep me\n".toList
        findings := [
          { text := "console.log(1);".toList, startLine := 0, endLine := 0, startChar := 0,
            endChar := 15, description := "JavaScript console.* statements", priority := 10,
            keep := false },
          { text := "console.log(\n 2);".toList, startLine := 1, endLine := 2, startChar := 0,
            endChar := 4, description := "JavaScript console.* statements", priority := 10,
            keep := false }]
        kept := 0, removed := 2, commented := 0 } := by cbv
  have hstray : ∀ i, ¬ Finding.Stray _ _ i := fun i =>
    (orderly_of_clean? h).not_stray_of_apart (by decide)
  obtain ⟨-, -, hsub⟩ := uncovered_sublist_lines h rfl
  exact ⟨_, h, fun i hi => absurd hi (hstray i), hsub fun i hi => absurd hi (hstray i)⟩

/-- The second of two calls over several lines starts on the line where the
first one ends: the line below them is lost. -/
theorem keep_me_lost :
    ∃ cleaned, clean? "console.log(\n 1); console.log(\n 2);\nkeep me\n".toList "javascript"
        { mode := .delete } = some cleaned ∧
      ¬ (Finding.uncovered cleaned.findings
        (Text.lines "console.log(\n 1); console.log(\n 2);\nkeep me\n".toList)).Sublist
        cleaned.newContent.lines := by
  have h : clean? "console.log(\n 1); console.log(\n 2);\nkeep me\n".toList "javascript"
      { mode := .delete } = some
      { newContent := []
        findings := [
          { text := "console.log(\n 1);".toList, startLine := 0, endLine := 1, startChar := 0,
            endChar := 4, description := "JavaScript console.* statements", priority := 10,
            keep := false },
          { text := "console.log(\n 2);".toList, startLine := 1, endLine := 2, startChar := 5,
            endChar := 4, description := "JavaScript console.* statements", priority := 10,
            keep := false }]
        kept := 0, removed := 2, commented := 0 } := by cbv
  refine ⟨_, h, fun hsub => ?_⟩
  have hmem := hsub.mem (show "keep me".toList ∈ _ by decide)
  exact absurd hmem (by decide)

end LogPrune
