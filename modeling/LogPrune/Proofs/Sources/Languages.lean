import LogPrune.Proofs.Sources
import Mathlib.Data.List.Nodup

/-!
# LogPrune.Proofs.Sources.Languages

Which languages a configuration has to list for a file to be cleaned.

1. A file is in a language just if its extension, in lower case, is one of those
   of the language (`languageOfExtension?_eq_some_iff`).
2. A file that is named is found if its language is cleaned, whatever the globs
   say (`findSources_of_hasFile`).
3. Its language is cleaned if it is listed, or the one that it is a dialect of.
   Other names for a language are followed where the language of a file is asked
   for, which never goes by another name, and not where the list is read.  So
   listing them has no effect (`named_file_found_iff`).
-/

namespace LogPrune

/-! ## Extensions -/

section
variable {table : List (String × List String)} {x id : String}

theorem mem_of_map_find?_eq_some
    (h : (table.find? (·.2.contains x)).map (·.1) = some id) : id ∈ table.map (·.1) := by
  obtain ⟨row, hrow, rfl⟩ := Option.map_eq_some_iff.1 h
  exact List.mem_map_of_mem (List.mem_of_find?_eq_some hrow)

theorem mem_of_mem_map_find?
    (h : x ∈ ((table.find? (·.1 = id)).map (·.2)).getD []) : x ∈ table.flatMap (·.2) := by
  cases hrow : table.find? (·.1 = id) with
  | none => simp [hrow] at h
  | some row =>
    exact List.mem_flatMap.2 ⟨row, List.mem_of_find?_eq_some hrow, by simpa [hrow] using h⟩

/-- Where ids and extensions stand in a table only once, the id of an extension is
the one whose extensions it is among. -/
theorem map_find?_eq_some_iff (hids : (table.map (·.1)).Nodup)
    (hextensions : (table.flatMap (·.2)).Nodup) :
    (table.find? (·.2.contains x)).map (·.1) = some id
      ↔ x ∈ ((table.find? (·.1 = id)).map (·.2)).getD [] := by
  induction table with
  | nil => simp
  | cons row table ih =>
    rw [List.map_cons, List.nodup_cons] at hids
    rw [List.flatMap_cons, List.nodup_append] at hextensions
    obtain ⟨hrow, hids⟩ := hids
    obtain ⟨-, hextensions, hapart⟩ := hextensions
    by_cases hx : x ∈ row.2
    · by_cases hid : row.1 = id
      · simp [hx, hid]
      · have hnot : x ∉ ((table.find? (·.1 = id)).map (·.2)).getD [] := fun h =>
          hapart x hx x (mem_of_mem_map_find? h) rfl
        simpa [hx, hid] using hnot
    · by_cases hid : row.1 = id
      · have hnot : (table.find? (·.2.contains x)).map (·.1) ≠ some id := fun h =>
          hrow (hid ▸ mem_of_map_find?_eq_some h)
        simpa [hx, hid] using hnot
      · simpa [hx, hid] using ih hids hextensions

end

/-- A file is in the language whose extensions its own is among, in lower case. -/
theorem languageOfExtension?_eq_some_iff {extension language : String} :
    languageOfExtension? extension = some language
      ↔ lowerAscii extension ∈ extensionsOf language :=
  map_find?_eq_some_iff (by decide) (by decide)

/-! ## Files that are named -/

/-- A file that is named is found if its language is cleaned. -/
theorem findSources_of_hasFile {d : Disk} {c : Config} {e : Exclusion} {p : FilePath}
    (hc : c.exclusion = .ok e) (hfile : d.hasFile p) :
    findSources d c [p] = .ok (if c.covers p then [p] else []) := by
  have hbelow : [p].mapM (sourcesBelow d c e) = .ok [if c.covers p then [p] else []] := by
    simp [sourcesBelow, hfile, pure, Except.pure, bind, Except.bind]
  rw [findSources, hc]
  simp only [bind, Except.bind, pure, Except.pure, hbelow]
  split <;> simp [FilePath.dropRepeated]

/-! ## Listed languages -/

namespace Config

/-- Other names that a language is said to go by in a configuration. -/
def aliases (language : String) : List String :=
  if language = "shellscript" then ["bash", "sh"] else []

/-- Whether a configuration lists a language, the one that it is a dialect of, or
another name for it. -/
def Lists (c : Config) (language : String) : Prop :=
  language ∈ c.languages ∨ baseLanguage language ∈ c.languages
    ∨ ∃ name ∈ aliases language, name ∈ c.languages

theorem enables_iff {c : Config} {language : String} :
    c.enables language ↔ language ∈ c.languages ∨ baseLanguage language ∈ c.languages := by
  simp only [enables, List.any_eq_true, Bool.or_eq_true, decide_eq_true_eq]
  constructor
  · rintro ⟨l, hl, rfl | rfl⟩
    · exact .inl hl
    · exact .inr hl
  · rintro (h | h)
    · exact ⟨_, h, .inl rfl⟩
    · exact ⟨_, h, .inr rfl⟩

theorem covers_iff {c : Config} {p : FilePath} {language : String}
    (hlanguage : p.language? = some language) :
    c.covers p ↔ language ∈ c.languages ∨ baseLanguage language ∈ c.languages := by
  rw [covers, hlanguage, Option.any_some, enables_iff]

/-- Other names for a language do not stand for it in the list. -/
theorem lists_imp_iff {c : Config} {language : String} :
    (c.Lists language → language ∈ c.languages ∨ baseLanguage language ∈ c.languages)
      ↔ ∀ name ∈ aliases language, name ∈ c.languages → language ∈ c.languages := by
  by_cases hshell : language = "shellscript"
  · subst hshell
    simp [Lists, aliases, baseLanguage]
    tauto
  · simp [Lists, aliases, hshell]

end Config

/-- A file is in no language that goes by another name, nor in a dialect of one. -/
theorem ne_alias_of_language? {p : FilePath} {language name : String}
    (hp : p.language? = some language) (hname : name ∈ ["bash", "sh"]) :
    language ≠ name ∧ Config.baseLanguage language ≠ name := by
  obtain ⟨extension, -, hextension⟩ := Option.bind_eq_some_iff.1 hp
  have hrows : ∀ language ∈ languageTable.map (·.1), ∀ name ∈ ["bash", "sh"],
      language ≠ name ∧ Config.baseLanguage language ≠ name := by
    decide
  exact hrows language (mem_of_map_find?_eq_some hextension) name hname

/-- **Listed languages**: a file is in a language by its extension, in any letter
case, and where it is named it is found exactly if the configuration lists the
language or the one that it is a dialect of.  So all that is said to have a
language cleaned does so exactly if another name is listed only together with the
language itself; the other names make no difference. -/
theorem named_file_found_iff {p : FilePath} {extension language : String}
    (hextension : p.extension? = some extension)
    (hlanguage : lowerAscii extension ∈ extensionsOf language) (c : Config) :
    (c.covers p ↔ language ∈ c.languages ∨ Config.baseLanguage language ∈ c.languages) ∧
    (∀ d e, c.exclusion = .ok e → d.hasFile p →
      findSources d c [p] = .ok (if c.covers p then [p] else [])) ∧
    ((c.Lists language → c.covers p)
      ↔ ∀ name ∈ Config.aliases language, name ∈ c.languages → language ∈ c.languages) ∧
    Config.covers { c with languages := c.languages.filter fun l => !(["bash", "sh"].contains l) } p
      = c.covers p := by
  have hp : p.language? = some language := by
    rw [FilePath.language?, hextension, Option.bind_some]
    exact languageOfExtension?_eq_some_iff.2 hlanguage
  refine ⟨Config.covers_iff hp, fun d e => findSources_of_hasFile, ?_, ?_⟩
  · rw [Config.covers_iff hp]
    exact Config.lists_imp_iff
  · rw [Bool.eq_iff_iff, Config.covers_iff hp, Config.covers_iff hp]
    simp [ne_alias_of_language? hp]

/-- A directory with a script. -/
def oneScript : Disk := { root := .file "run.SH" { bytes := "echo hi\n".toUTF8 } .empty }

theorem hasFile_oneScript : oneScript.hasFile ⟨"run.SH"⟩ := by decide

theorem language_oneScript : (⟨"run.SH"⟩ : FilePath).extension? = some "SH" ∧
    lowerAscii "SH" ∈ extensionsOf "shellscript" := by
  decide

/-- A script is found where its language is listed. -/
theorem named_file_found_iff_script :
    ((⟨"run.SH"⟩ : FilePath).extension? = some "SH" ∧
        lowerAscii "SH" ∈ extensionsOf "shellscript") ∧
      ∃ e, Config.exclusion { languages := ["shellscript"] } = .ok e ∧
        findSources oneScript { languages := ["shellscript"] } [⟨"run.SH"⟩] = .ok [⟨"run.SH"⟩] := by
  obtain ⟨e, he⟩ := exists_exclusion_default
  obtain ⟨hcovers, hfound, -⟩ := named_file_found_iff language_oneScript.1 language_oneScript.2
    { languages := ["shellscript"] }
  refine ⟨language_oneScript, e, he, ?_⟩
  rw [hfound oneScript e he hasFile_oneScript, if_pos (hcovers.2 (.inl (by simp)))]

/-- It is not found where another name for the language is listed. -/
theorem listed_alias_ignored :
    Config.Lists { languages := ["bash"] } "shellscript" ∧
      (⟨"run.SH"⟩ : FilePath).language? = some "shellscript" ∧
      findSources oneScript { languages := ["bash"] } [⟨"run.SH"⟩] = .ok [] := by
  obtain ⟨e, he⟩ := exists_exclusion_default
  have hcovers : Config.covers { languages := ["bash"] } ⟨"run.SH"⟩ = false := by decide
  refine ⟨.inr (.inr ⟨"bash", by decide, by decide⟩), by decide, ?_⟩
  rw [findSources_of_hasFile (c := { languages := ["bash"] }) he hasFile_oneScript, hcovers]
  rfl

end LogPrune
