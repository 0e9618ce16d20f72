import LogPrune.Clean.Delete
import LogPrune.Proofs.Pattern.Spell
import LogPrune.Ruleset

/-!
# LogPrune.Proofs.Pattern.Opening

How the hits of the rules begin.

`Regex.opensWith` finds from the syntax of a pattern that whatever it spells
begins with a character of some kind (`kind_of_spells`).

A character of code is neither blank nor a semicolon: a line that holds one is
never a leftover.  The patterns of every rule of every language begin with such a
character, and all these rules heed the keep markers (`wellFormed_of_mem_rules`).
-/

namespace LogPrune

/-! ## Characters of code -/

/-- Whether a character is neither blank nor a semicolon. -/
def isCode (c : Char) : Bool := !isBlank c && c != ';'

theorem isBlank_of_isCode {c : Char} (h : isCode c) : isBlank c = false := by
  rw [isCode, Bool.and_eq_true] at h
  simpa using h.1

/-- Folding changes capital letters and letters beyond ASCII only, which are
characters of code. -/
theorem isCode_of_foldCase {c : Char} (h : isCode (foldCase c)) : isCode c := by
  rw [foldCase] at h
  split at h
  · next hc => subst hc; decide
  · split at h
    · next hc => subst hc; decide
    · delta Char.toLower at h
      split at h
      · next hc =>
        have hlow : 65 ≤ c.toNat ∧ c.toNat ≤ 90 :=
          ⟨UInt32.le_iff_toNat_le.1 hc.1, UInt32.le_iff_toNat_le.1 hc.2⟩
        have hsemi : c ≠ ';' := by
          rintro rfl
          exact absurd hlow.1 (by decide)
        have hblank : isBlank c = false := by grind [isBlank]
        simp [isCode, hblank, hsemi]
      · exact h

theorem isLeftover_of_mem {line : Text} {c : Char} (hmem : c ∈ line) (hc : isCode c) :
    isLeftover line = false := by
  obtain ⟨hblank, hsemi⟩ : isBlank c = false ∧ c ≠ ';' := by simpa [isCode] using hc
  have hsolid : c ∈ Text.solid (Text.trim line) := by
    rw [Text.solid_trim]
    exact List.mem_filter.2 ⟨hmem, by simp [hblank]⟩
  have hmem' : c ∈ Text.trim line := (List.mem_filter.1 hsolid).1
  have hnil : Text.trim line ≠ [] := List.ne_nil_of_mem hmem'
  have hone : Text.trim line ≠ [';'] := by
    intro h
    rw [h, List.mem_singleton] at hmem'
    exact hsemi hmem'
  simp [isLeftover, hnil, hone]

/-- A leftover has no characters that are not blank, or a single semicolon. -/
theorem isLeftover_iff {line : Text} :
    isLeftover line ↔ Text.solid line = [] ∨ Text.solid line = [';'] := by
  rw [isLeftover, Bool.or_eq_true, decide_eq_true_iff, decide_eq_true_iff]
  constructor
  · rintro (h | h)
    · left
      rw [← Text.solid_trim, h, Text.solid_nil]
    · right
      rw [← Text.solid_trim, h]
      decide
  · rintro (h | h)
    · exact .inl (Text.trim_eq_nil h)
    · exact .inr (Text.trim_eq_singleton h)

/-! ## Beginnings of matches -/

namespace Regex

/-- Whether a pattern may spell the empty text. -/
def mayBeEmpty : Regex → Bool
  | text t => t.isEmpty
  | one _ => false
  | many1 _ => false
  | seq p q => p.mayBeEmpty && q.mayBeEmpty
  | choice p q => p.mayBeEmpty || q.mayBeEmpty
  | group p => p.mayBeEmpty
  | plainGroup p => p.mayBeEmpty
  | _ => true

/-- Whether the syntax shows that all texts that a pattern spells begin with a
character of a kind, apart from the empty one. -/
def opensWith (kind : Char → Bool) : Regex → Bool
  | text t => t.head?.all fun x => kind x && kind (foldCase x)
  | optional p => p.opensWith kind
  | repeated p => p.opensWith kind
  | seq p q => p.opensWith kind && (!p.mayBeEmpty || q.opensWith kind)
  | choice p q => p.opensWith kind && q.opensWith kind
  | group p => p.opensWith kind
  | plainGroup p => p.opensWith kind
  | wordEdge => true
  | lineEnd => true
  | _ => false

/-- Whether matches begin with a character of code. -/
def opensWithCode (p : Regex) : Bool := p.opensWith isCode

theorem mayBeEmpty_of_spells {p : Regex} (h : p.Spells ignoreCase []) : p.mayBeEmpty := by
  induction p with
  | text s =>
      obtain rfl : s = [] := by simpa [Spells] using h
      rfl
  | one s => obtain ⟨x, hx, -⟩ := h; contradiction
  | many1 s => exact absurd rfl h.1
  | seq p q ihp ihq =>
      obtain ⟨a, b, hab, hp, hq⟩ := h
      obtain ⟨rfl, rfl⟩ := List.append_eq_nil_iff.1 hab.symm
      simp [mayBeEmpty, ihp hp, ihq hq]
  | choice p q ihp ihq =>
      rcases h with h | h
      · simp [mayBeEmpty, ihp h]
      · simp [mayBeEmpty, ihq h]
  | group p ih => exact ih h
  | plainGroup p ih => exact ih h
  | _ => rfl

/-- What the syntax shows about the beginnings of matches is true. -/
theorem kind_of_spells {kind : Char → Bool} (hfold : ∀ c, kind (foldCase c) → kind c) {p : Regex}
    (hp : p.opensWith kind) {x : Char} {t : Text} (h : p.Spells ignoreCase (x :: t)) :
    kind x := by
  induction p generalizing t with
  | text s =>
      cases s with
      | nil => simp [Spells] at h
      | cons y s =>
          obtain ⟨hy, hfolded⟩ : kind y ∧ kind (foldCase y) := by
            simpa [opensWith] using hp
          rcases (List.forall₂_cons.1 h).1 with rfl | ⟨-, hyx⟩
          · exact hy
          · exact hfold x (hyx ▸ hfolded)
  | optional p ih =>
      rcases h with h | h
      · contradiction
      · exact ih hp h
  | repeated p ih =>
      obtain ⟨ts, hts, hspell⟩ := h
      induction ts with
      | nil => contradiction
      | cons u ts ihts =>
          cases u with
          | nil => exact ihts hts fun v hv => hspell v (List.mem_cons_of_mem _ hv)
          | cons y u =>
              obtain ⟨rfl, -⟩ := List.cons.inj hts
              exact ih hp (hspell _ List.mem_cons_self)
  | seq p q ihp ihq =>
      obtain ⟨a, b, hab, ha, hb⟩ := h
      obtain ⟨hpo, hqo⟩ : p.opensWith kind ∧ (p.mayBeEmpty = false ∨ q.opensWith kind) := by
        simpa [opensWith] using hp
      cases a with
      | nil =>
          have hempty := mayBeEmpty_of_spells ha
          have hqo : q.opensWith kind := by simpa [hempty] using hqo
          rw [List.nil_append] at hab
          exact ihq hqo (hab ▸ hb)
      | cons y a =>
          obtain ⟨rfl, -⟩ := List.cons.inj hab
          exact ihp hpo ha
  | choice p q ihp ihq =>
      obtain ⟨hpo, hqo⟩ : p.opensWith kind ∧ q.opensWith kind := by
        simpa [opensWith] using hp
      rcases h with h | h
      · exact ihp hpo h
      · exact ihq hqo h
  | group p ih => exact ih hp h
  | plainGroup p ih => exact ih hp h
  | wordEdge => contradiction
  | lineEnd => contradiction
  | one s => contradiction
  | many s => contradiction
  | many1 s => contradiction
  | fewest s => contradiction

end Regex

/-! ## The rules of the languages -/

/-- What all rules of the registry have in common: their hits begin with a
character of code, and keep markers protect them. -/
structure Rule.WellFormed (r : Rule) : Prop where
  opens : r.pattern.body.opensWithCode
  heeds : r.heedsMarkers

namespace Ruleset

open Regex Pattern

/-- The rules for commented calls are well formed: their comments open with a
marker of code characters. -/
theorem wellFormed_slashComments {config : Config} {r : Rule}
    (h : r ∈ slashComments config inLine inBlock calls) : r.WellFormed := by
  rw [slashComments] at h
  split at h
  · rcases List.mem_pair.1 h with rfl | rfl <;> exact ⟨rfl, rfl⟩
  · contradiction

theorem wellFormed_markerComments {config : Config} {r : Rule}
    (hmarker : (lineCommentRule marker description 8).WellFormed)
    (h : r ∈ markerComments config marker description) : r.WellFormed := by
  rw [markerComments] at h
  split at h
  · obtain rfl := List.mem_singleton.1 h
    exact hmarker
  · contradiction

/-- A rule in front of the rules for commented calls. -/
theorem wellFormed_of_mem_cons {config : Config} {r first : Rule} (hfirst : first.WellFormed)
    (h : r ∈ first :: slashComments config inLine inBlock calls) : r.WellFormed := by
  rcases List.mem_cons.1 h with rfl | h
  · exact hfirst
  · exact wellFormed_slashComments h

theorem wellFormed_of_mem_cons_marker {config : Config} {r first : Rule}
    (hfirst : first.WellFormed) (hmarker : (lineCommentRule marker description 8).WellFormed)
    (h : r ∈ first :: markerComments config marker description) : r.WellFormed := by
  rcases List.mem_cons.1 h with rfl | h
  · exact hfirst
  · exact wellFormed_markerComments hmarker h

theorem wellFormed_python {config : Config} {r : Rule} (h : r ∈ python.rules config) :
    r.WellFormed := by
  simp only [python] at h
  split at h
  · exact wellFormed_of_mem_cons_marker ⟨rfl, rfl⟩ ⟨rfl, rfl⟩ h
  · contradiction

theorem wellFormed_cpp {config : Config} {r : Rule} (h : r ∈ cpp.rules config) :
    r.WellFormed := by
  rcases List.mem_cons.1 h with rfl | h
  · exact ⟨rfl, rfl⟩
  · exact wellFormed_of_mem_cons ⟨rfl, rfl⟩ h

theorem wellFormed_consoleRules {config : Config} {r : Rule}
    (h : r ∈ consoleRules description config) : r.WellFormed := by
  simp only [consoleRules, List.mem_append] at h
  rcases h with (h | h) | h
  · split at h
    · contradiction
    · obtain rfl := List.mem_singleton.1 h
      exact ⟨rfl, rfl⟩
  · split at h
    · obtain rfl := List.mem_singleton.1 h
      exact ⟨rfl, rfl⟩
    · contradiction
  · split at h
    · contradiction
    · exact wellFormed_slashComments h

theorem wellFormed_styleRules {config : Config} {r : Rule}
    (h : r ∈ styleRules inLine inBlock config) : r.WellFormed := by
  rw [styleRules] at h
  split at h
  · rcases List.mem_pair.1 h with rfl | rfl <;> exact ⟨rfl, rfl⟩
  · contradiction

theorem wellFormed_anyComment {config : Config} {r : Rule}
    (hcomment : (anyComment pattern description).WellFormed)
    (h : r ∈ if takesComments config then [anyComment pattern description] else []) :
    r.WellFormed := by
  split at h
  · obtain rfl := List.mem_singleton.1 h
    exact hcomment
  · contradiction

theorem wellFormed_html {config : Config} {r : Rule} (h : r ∈ html.rules config) :
    r.WellFormed := by
  rcases List.mem_append.1 h with h | h
  all_goals
    split at h
    · obtain rfl := List.mem_singleton.1 h
      exact ⟨rfl, rfl⟩
    · contradiction

/-- All rules of all languages are well formed, under all settings. -/
theorem wellFormed_of_mem_rules {ruleset : Ruleset} (hmem : ruleset ∈ registry)
    {config : Config} {r : Rule} (h : r ∈ ruleset.rules config) : r.WellFormed := by
  simp only [registry, List.mem_cons, List.not_mem_nil, or_false] at hmem
  rcases hmem with rfl | rfl | rfl | rfl | rfl | rfl | rfl | rfl | rfl | rfl | rfl | rfl | rfl |
    rfl | rfl | rfl | rfl | rfl | rfl | rfl
  · exact wellFormed_consoleRules h
  · exact wellFormed_consoleRules h
  · exact wellFormed_python h
  · exact wellFormed_of_mem_cons ⟨rfl, rfl⟩ h
  · exact wellFormed_of_mem_cons ⟨rfl, rfl⟩ h
  · exact wellFormed_of_mem_cons ⟨rfl, rfl⟩ h
  · exact wellFormed_of_mem_cons ⟨rfl, rfl⟩ h
  · exact wellFormed_of_mem_cons ⟨rfl, rfl⟩ h
  · exact wellFormed_of_mem_cons ⟨rfl, rfl⟩ h
  · exact wellFormed_of_mem_cons ⟨rfl, rfl⟩ h
  · exact wellFormed_cpp h
  · exact wellFormed_of_mem_cons_marker ⟨rfl, rfl⟩ ⟨rfl, rfl⟩ h
  · exact wellFormed_of_mem_cons ⟨rfl, rfl⟩ h
  · exact wellFormed_of_mem_cons_marker ⟨rfl, rfl⟩ ⟨rfl, rfl⟩ h
  · exact wellFormed_of_mem_cons_marker ⟨rfl, rfl⟩ ⟨rfl, rfl⟩ h
  · exact wellFormed_html h
  · exact wellFormed_anyComment ⟨rfl, rfl⟩ h
  · exact wellFormed_styleRules h
  · exact wellFormed_styleRules h
  · exact wellFormed_anyComment ⟨rfl, rfl⟩ h

theorem wellFormed_of_forLanguage? {language : String} {ruleset : Ruleset}
    (hlang : forLanguage? language = some ruleset) {config : Config} {r : Rule}
    (h : r ∈ ruleset.rules config) : r.WellFormed :=
  wellFormed_of_mem_rules (List.mem_of_find?_eq_some hlang) h

end Ruleset
end LogPrune
