import LogPrune.Clean.Comment
import LogPrune.Clean.Delete
import LogPrune.Ruleset

/-!
# LogPrune.Clean

Cleaning a text: finding its log statements and, depending on the mode,
removing them, commenting them out or only reporting them.

Statements that a marker protects are counted and otherwise left alone.
-/

namespace LogPrune

/-- A text that was cleaned. -/
structure Cleaned where
  newContent : Text
  /-- The statements acted on or, in preview mode, to be acted on. -/
  findings : List Finding
  kept : Nat
  removed : Nat
  commented : Nat
  deriving DecidableEq, Repr

/-- A text cleaned of the statements found in it. -/
def cleanFindings (content : Text) (language : String) (mode : Mode)
    (all : List Finding) : Cleaned :=
  let findings := all.filter (!·.keep)
  let kept := (all.filter (·.keep)).length
  match mode with
  | .delete =>
    { newContent := .unlines (Finding.eraseAll findings content.lines)
      findings, kept, removed := findings.length, commented := 0 }
  | .comment =>
    { newContent := .unlines (commentFindings language findings content.lines)
      findings, kept, removed := 0, commented := (liveFindings findings).length }
  | .preview => { newContent := content, findings, kept, removed := 0, commented := 0 }

/-- A text in a language cleaned as configured, if the language has rules. -/
def clean? (content : Text) (language : String) (config : Config) : Option Cleaned :=
  (Ruleset.forLanguage? language).map fun ruleset =>
    cleanFindings content language config.mode
      (Finding.all content (ruleset.rules config) config.whitelistTags)

end LogPrune
