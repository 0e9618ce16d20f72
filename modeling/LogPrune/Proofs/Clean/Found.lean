import LogPrune.Proofs.Clean.Frame
import LogPrune.Proofs.Finding.Collapse

/-!
# LogPrune.Proofs.Clean.Found

What is found in a text of a language, and what of it is only hit.

The rules of the language hit more than is reported: hits that start inside a
finding are none themselves.  Each hit starts in exactly one finding
(`exists_mem_findingsIn`), so the findings and the hits together say what a text
holds.
-/

namespace LogPrune

/-- The rules for a text in a language, as configured. -/
def rulesFor (language : String) (config : Config) : List Rule :=
  (Ruleset.forLanguage? language).elim [] (·.rules config)

/-- The statements found in a text, kept ones included. -/
def findingsIn (content : Text) (language : String) (config : Config) : List Finding :=
  Finding.all content (rulesFor language config) config.whitelistTags

/-- The hits of all rules in a text, also those inside other ones. -/
def hitsIn (content : Text) (language : String) (config : Config) : List Finding :=
  Finding.candidates content (rulesFor language config) config.whitelistTags

variable {content : Text} {language : String} {config : Config} {cleaned : Cleaned} {c f : Finding}

theorem wellFormed_of_mem_rulesFor {r : Rule} (h : r ∈ rulesFor language config) :
    r.WellFormed := by
  cases hlang : Ruleset.forLanguage? language with
  | none => rw [rulesFor, hlang] at h; contradiction
  | some ruleset =>
      rw [rulesFor, hlang] at h
      exact Ruleset.wellFormed_of_forLanguage? hlang h

/-- Cleaning acts on the findings. -/
theorem eq_cleanFindings_of_clean? (h : clean? content language config = some cleaned) :
    cleaned = cleanFindings content language config.mode (findingsIn content language config) := by
  obtain ⟨ruleset, hlang, rfl⟩ := exists_ruleset_of_clean? h
  rw [findingsIn, rulesFor, hlang]
  rfl

/-- What is reported are the findings that are not kept. -/
theorem mem_findings_iff (h : clean? content language config = some cleaned) :
    f ∈ cleaned.findings ↔ f ∈ findingsIn content language config ∧ f.keep = false := by
  rw [eq_cleanFindings_of_clean? h, findings_cleanFindings]
  simp

theorem mem_hitsIn (h : f ∈ findingsIn content language config) :
    f ∈ hitsIn content language config := Finding.mem_candidates_of_mem_all h

/-- Every hit starts in a finding. -/
theorem exists_mem_findingsIn (h : c ∈ hitsIn content language config) :
    ∃ f ∈ findingsIn content language config, c.StartsIn f := by
  obtain ⟨f, hf, hcf, -⟩ := Finding.exists_all_of_mem_candidates h
  exact ⟨f, hf, hcf⟩

/-- A finding starts in no other one. -/
theorem eq_of_startsIn_findingsIn (hc : c ∈ findingsIn content language config)
    (hf : f ∈ findingsIn content language config) (h : c.StartsIn f) : c = f :=
  Finding.eq_of_startsIn hc hf h

end LogPrune
