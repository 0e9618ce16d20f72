import LogPrune.Proofs.Clean.CommentLines

/-!
# LogPrune.Proofs.Clean.CommentRules

The rules of a language with line comments: those for its statements and, behind them,
one for its line comments and perhaps one for block comments (`exists_commentRules`).

The exceptions are style sheets, whose rules are for comments alone, and Python with its
rules switched off, which has none at all.
-/

namespace LogPrune

open Regex Pattern Ruleset

/-- Line comments and block comments have different patterns. -/
theorem commentedCall_ne_blockComment (marker : Text) : commentedCall marker ≠ blockComment := by
  intro h
  have hbody := congrArg Pattern.body h
  exact nomatch (Regex.seq.inj hbody).2

/-- The rules for the statements of a language, without those for its comments. -/
def statementRules (language : String) (config : Config) : List Rule :=
  rulesFor language { config with removeCommentedLogs := false }

/-- The rules for comments of a language, behind those for its statements. -/
structure HasCommentRules (language : String) (config : Config) (inLine : Rule)
    (inBlock : Option Rule) : Prop where
  rulesFor_eq : rulesFor language config =
    statementRules language config ++ inLine :: inBlock.toList
  inLine_eq : inLine.pattern = commentedCall (lineMarker language) ∧ inLine.filter = none
  inBlock_eq : ∀ b ∈ inBlock, b.pattern = blockComment ∧ lineMarker language = "//".toList

variable {language : String} {config : Config} {r b inLine : Rule} {inBlock : Option Rule}

theorem HasCommentRules.mem_rulesFor (h : HasCommentRules language config inLine inBlock)
    (hr : r ∈ rulesFor language config) :
    r ∈ statementRules language config ∨ r = inLine ∨ r ∈ inBlock := by
  rw [h.rulesFor_eq] at hr
  simpa using hr

/-- Only one rule is for block comments. -/
theorem HasCommentRules.mem_inBlock (h : HasCommentRules language config inLine inBlock)
    (hb : b ∈ rulesFor language config) (hblock : b.pattern = blockComment) : b ∈ inBlock := by
  rcases h.mem_rulesFor hb with hb | rfl | hb
  · have hopens := (opensNoComment_of_mem_rulesFor rfl hb).opens
    rw [hblock] at hopens
    exact absurd hopens (by decide)
  · exact absurd (h.inLine_eq.1.symm.trans hblock) (commentedCall_ne_blockComment _)
  · exact hb

theorem HasCommentRules.hasLineComments (h : HasCommentRules language config inLine inBlock) :
    Finding.HasLineComments (rulesFor language config) (lineMarker language) :=
  ⟨inLine, by rw [h.rulesFor_eq]; simp, h.inLine_eq⟩

theorem hasCommentRules_slashComments (first : List Rule) {line block : String} {calls : Regex}
    (hflag : config.removeCommentedLogs) (hmarker : lineMarker language = "//".toList)
    (hstatements : statementRules language config = first)
    (hrules : rulesFor language config = first ++ slashComments config line block calls) :
    ∃ inLine inBlock, HasCommentRules language config inLine inBlock := by
  refine ⟨lineCommentRule "//" line 8, some (blockCommentRule block calls), ?_, ?_, ?_⟩
  · rw [hrules, hstatements, slashComments, if_pos hflag]
    rfl
  · rw [hmarker]
    exact ⟨rfl, rfl⟩
  · intro b hb
    obtain rfl := Option.some.inj hb
    exact ⟨rfl, hmarker⟩

theorem hasCommentRules_markerComments (first : List Rule) (marker : String)
    {description : String} (hflag : config.removeCommentedLogs)
    (hmarker : lineMarker language = marker.toList)
    (hstatements : statementRules language config = first)
    (hrules : rulesFor language config = first ++ markerComments config marker description) :
    ∃ inLine inBlock, HasCommentRules language config inLine inBlock := by
  refine ⟨lineCommentRule marker description 8, none, ?_, ?_, by simp⟩
  · rw [hrules, hstatements, markerComments, if_pos hflag]
    rfl
  · rw [hmarker]
    exact ⟨rfl, rfl⟩

theorem hasCommentRules_consoleRules {description : String} (hflag : config.removeCommentedLogs)
    (hmethods : config.logTypes.javascript.methods ≠ [])
    (hmarker : lineMarker language = "//".toList)
    (hrules : rulesFor language = consoleRules description) :
    ∃ inLine inBlock, HasCommentRules language config inLine inBlock := by
  have hoff : ∀ line block calls, slashComments { config with removeCommentedLogs := false }
      line block calls = [] := slashComments_off rfl
  apply hasCommentRules_slashComments _ hflag hmarker rfl
  rw [statementRules, hrules]
  simp only [consoleRules, List.isEmpty_iff, if_neg hmethods, hoff, List.append_nil]
  rfl

/-- A language with line comments has rules for them behind those for its statements,
unless it has none for statements. -/
theorem exists_commentRules (hlang : language ∈ supportedLanguages)
    (hcloser : commentCloser language = "") (hflag : config.removeCommentedLogs)
    (hmethods : config.logTypes.javascript.methods ≠ [])
    (hothers : language = "python" → config.logTypes.allOtherLogs)
    (hsheets : language ∉ ["scss", "less"]) :
    ∃ inLine inBlock, HasCommentRules language config inLine inBlock := by
  have hlangs : language ∈ ["javascript", "javascriptreact", "typescript", "typescriptreact",
      "python", "java", "php", "csharp", "go", "rust", "swift", "c", "cpp", "ruby", "dart",
      "shellscript", "sql", "html", "css", "scss", "less", "markdown"] := hlang
  simp only [List.mem_cons, List.not_mem_nil, or_false] at hlangs
  rcases hlangs with rfl | rfl | rfl | rfl | rfl | rfl | rfl | rfl | rfl | rfl | rfl | rfl | rfl |
    rfl | rfl | rfl | rfl | rfl | rfl | rfl | rfl | rfl
  · exact hasCommentRules_consoleRules hflag hmethods rfl rfl
  · exact hasCommentRules_consoleRules hflag hmethods rfl rfl
  · exact hasCommentRules_consoleRules hflag hmethods rfl rfl
  · exact hasCommentRules_consoleRules hflag hmethods rfl rfl
  · exact hasCommentRules_markerComments [_] "#" hflag rfl (if_pos (hothers rfl))
      (if_pos (hothers rfl))
  · exact hasCommentRules_slashComments [_] hflag rfl rfl rfl
  · exact hasCommentRules_slashComments [_] hflag rfl rfl rfl
  · exact hasCommentRules_slashComments [_] hflag rfl rfl rfl
  · exact hasCommentRules_slashComments [_] hflag rfl rfl rfl
  · exact hasCommentRules_slashComments [_] hflag rfl rfl rfl
  · exact hasCommentRules_slashComments [_] hflag rfl rfl rfl
  · exact hasCommentRules_slashComments [_] hflag rfl rfl rfl
  · exact hasCommentRules_slashComments [_, _] hflag rfl rfl rfl
  · exact hasCommentRules_markerComments [_] "#" hflag rfl rfl rfl
  · exact hasCommentRules_slashComments [_] hflag rfl rfl rfl
  · exact hasCommentRules_markerComments [_] "#" hflag rfl rfl rfl
  · exact hasCommentRules_markerComments [_] "--" hflag rfl rfl rfl
  · exact absurd hcloser (by decide)
  · exact absurd hcloser (by decide)
  · exact absurd hsheets (by decide)
  · exact absurd hsheets (by decide)
  · exact absurd hcloser (by decide)

theorem not_mem_statementRules_of_styles {inLine inBlock : String}
    (hrules : rulesFor language = styleRules inLine inBlock) :
    r ∉ statementRules language config := by
  rw [statementRules, hrules]
  exact not_mem_of_takesComments rfl

/-- A language with line comments that has rules for statements has rules for its
comments. -/
theorem exists_commentRules_of_mem (hlang : language ∈ supportedLanguages)
    (hcloser : commentCloser language = "") (hflag : config.removeCommentedLogs)
    (hmethods : config.logTypes.javascript.methods ≠ []) (hr : r ∈ statementRules language config) :
    ∃ inLine inBlock, HasCommentRules language config inLine inBlock := by
  apply exists_commentRules hlang hcloser hflag hmethods
  · rintro rfl
    by_contra hoff
    have hnone : statementRules "python" config = [] := if_neg hoff
    rw [hnone] at hr
    contradiction
  · intro hsheet
    rcases List.mem_pair.1 hsheet with rfl | rfl
    · exact not_mem_statementRules_of_styles rfl hr
    · exact not_mem_statementRules_of_styles rfl hr

end LogPrune
