import LogPrune.Proofs.Clean.Frame

/-!
# LogPrune.Proofs.Clean.Apart

Removing the statements of a text that do not get in each other's way.

Statements that keep apart make no strays, and removing them one by one is cutting
all of them out of the lines as they were at first (`newContent_eq_remnants`).
-/

namespace LogPrune

/-- A language with rules is cleaned. -/
theorem exists_clean? (content : Text) {language : String} (config : Config)
    (hlang : language ∈ Ruleset.supportedLanguages) :
    ∃ cleaned, clean? content language config = some cleaned := by
  obtain ⟨ruleset, hmem, hserves⟩ := List.mem_flatMap.1 hlang
  have hfind : (Ruleset.forLanguage? language).isSome :=
    List.find?_isSome.2 ⟨ruleset, hmem, by simpa using hserves⟩
  obtain ⟨found, hfound⟩ := Option.isSome_iff_exists.1 hfind
  exact ⟨_, by rw [clean?, hfound]; rfl⟩

/-- Removing statements that keep apart leaves of each line what is to be left of
it: nothing where a statement over several lines stood, the line with all spans of
the statements on it cut out where that is no leftover, and every other line. -/
theorem newContent_eq_remnants {content : Text} {language : String} {config : Config}
    (hlang : language ∈ Ruleset.supportedLanguages) (hmode : config.mode = .delete) :
    ∃ cleaned, clean? content language config = some cleaned ∧
      (cleaned.findings.Pairwise Finding.KeepsApart →
        cleaned.newContent = .unlines ((List.range content.lines.length).filterMap
          (Finding.remnant? content.lines cleaned.findings))) := by
  obtain ⟨cleaned, h⟩ := exists_clean? content config hlang
  refine ⟨cleaned, h, fun hapart => ?_⟩
  have horderly := orderly_of_clean? h
  rw [newContent_of_delete h hmode]
  congr 1
  apply List.filterMap_congr
  intro i _
  exact horderly.erased?_eq_remnant? (horderly.not_stray_of_keepsApart hapart)

/-- Two calls share a line of code, and one fills the lines below it. -/
theorem newContent_eq_remnants_calls :
    "javascript" ∈ Ruleset.supportedLanguages ∧
    ∃ cleaned, clean? "a(console.log(1), console.log(2));\nconsole.log(\n 3);\nb".toList
        "javascript" { mode := .delete } = some cleaned ∧
      cleaned.findings.Pairwise Finding.KeepsApart ∧
      cleaned.newContent = .unlines ((List.range 4).filterMap (Finding.remnant?
        (Text.lines "a(console.log(1), console.log(2));\nconsole.log(\n 3);\nb".toList)
        cleaned.findings)) ∧
      cleaned.newContent = "a(, );\nb".toList := by
  have hlang : "javascript" ∈ Ruleset.supportedLanguages := by decide
  have h : clean? "a(console.log(1), console.log(2));\nconsole.log(\n 3);\nb".toList
      "javascript" { mode := .delete } = some
      { newContent := "a(, );\nb".toList
        findings := [
          { text := "console.log(1)".toList, startLine := 0, endLine := 0, startChar := 2,
            endChar := 16, description := "JavaScript console.* statements", priority := 10,
            keep := false },
          { text := "console.log(2)".toList, startLine := 0, endLine := 0, startChar := 18,
            endChar := 32, description := "JavaScript console.* statements", priority := 10,
            keep := false },
          { text := "console.log(\n 3);".toList, startLine := 1, endLine := 2, startChar := 0,
            endChar := 4, description := "JavaScript console.* statements", priority := 10,
            keep := false }]
        kept := 0, removed := 3, commented := 0 } := by cbv
  obtain ⟨cleaned, hcleaned, hnew⟩ := @newContent_eq_remnants
    "a(console.log(1), console.log(2));\nconsole.log(\n 3);\nb".toList "javascript"
    { mode := .delete } hlang rfl
  obtain rfl := Option.some.inj (hcleaned.symm.trans h)
  have hnew := hnew (by decide)
  exact ⟨hlang, _, h, by decide, hnew, rfl⟩

end LogPrune
