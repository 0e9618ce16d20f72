import LogPrune.Config.Location
import LogPrune.Proofs.Disk.Extend
import LogPrune.Proofs.Toml.Document

/-!
# LogPrune.Proofs.Config.Document

A configuration is read back from its document, also when keys are missing.

1. Keys may be taken out of a document at any level (`Toml.prune`).  What is left
   of it is read back (`parse?_pretty_prune`).
2. So a setting is read from what is left as it was written if its key is still
   there, and otherwise as its default (`Settings.get?_prune`).
3. What is left of the document of a configuration is therefore read as the
   configuration with the defaults of the settings whose keys are missing
   (`ofToml?_prune`), and the whole of it as the configuration (`parse_of_write`).
4. A configuration that is saved is loaded (`load_of_save`).
-/

namespace LogPrune
namespace Toml

/-! ## Missing keys -/

mutual

/-- What is left of a value without some of its keys, which are given by their
paths.  With a key, all that is under it goes. -/
def prune (keep : List String → Bool) : Toml → Toml
  | table es => table (pruneEntries keep es)
  | v => v

/-- What is left of entries. -/
def pruneEntries (keep : List String → Bool) : List (String × Toml) → List (String × Toml)
  | [] => []
  | e :: es => pruneEntry keep e ++ pruneEntries keep es

/-- What is left of an entry. -/
def pruneEntry (keep : List String → Bool) : String × Toml → List (String × Toml)
  | (key, v) => if keep [key] then [(key, prune (fun path => keep (key :: path)) v)] else []

end

mutual

/-- Without missing keys a value is as it was. -/
theorem prune_true (v : Toml) : prune (fun _ => true) v = v := by
  match v with
  | .table es => rw [prune, pruneEntries_true es]
  | .string _ | .integer _ | .float _ | .boolean _ | .date _ | .array _ => rw [prune]; simp

theorem pruneEntries_true (es : List (String × Toml)) : pruneEntries (fun _ => true) es = es := by
  match es with
  | [] => rfl
  | (key, v) :: es =>
    rw [pruneEntries, pruneEntry, if_pos rfl, prune_true v, pruneEntries_true es,
      List.singleton_append]

end

section
variable {keep : List String → Bool} {es : List (String × Toml)} {key : String}

theorem keys_pruneEntries :
    (pruneEntries keep es).map (·.1) = (es.map (·.1)).filter fun key => keep [key] := by
  induction es with
  | nil => rfl
  | cons e es ih =>
    obtain ⟨key, v⟩ := e
    cases hkeep : keep [key] <;> simp [pruneEntries, pruneEntry, hkeep, ih]

theorem exists_of_mem_pruneEntries {e : String × Toml} (he : e ∈ pruneEntries keep es) :
    ∃ w, (e.1, w) ∈ es ∧ e.2 = prune (fun path => keep (e.1 :: path)) w := by
  induction es with
  | nil => simp [pruneEntries] at he
  | cons e' es ih =>
    obtain ⟨key, v⟩ := e'
    rw [pruneEntries, pruneEntry, List.mem_append] at he
    obtain he | he := he
    · cases hkeep : keep [key] with
      | true =>
        obtain rfl : e = (key, prune (fun path => keep (key :: path)) v) := by
          simpa [hkeep] using he
        exact ⟨v, List.mem_cons_self, rfl⟩
      | false => simp [hkeep] at he
    · obtain ⟨w, hw, heq⟩ := ih he
      exact ⟨w, List.mem_cons_of_mem _ hw, heq⟩

/-- What is left of a tree is a tree. -/
theorem isTree_prune {n : Nat} {v : Toml} (hv : isTree n v) : isTree n (prune keep v) := by
  induction n generalizing v keep with
  | zero => cases v <;> simp_all [isTree, isSimple, isScalar, prune]
  | succ n ih =>
    cases v with
    | table es =>
      simp only [isTree, Bool.and_eq_true, decide_eq_true_eq, List.all_eq_true] at hv
      simp only [prune, isTree, Bool.and_eq_true, decide_eq_true_eq, List.all_eq_true]
      refine ⟨?_, fun e he => ?_⟩
      · rw [keys_pruneEntries]
        exact hv.1.filter _
      · obtain ⟨w, hw, heq⟩ := exists_of_mem_pruneEntries he
        rw [heq]
        exact ih (hv.2 _ hw)
    | _ => simpa [prune] using hv

end

/-! ## Looking up keys -/

/-- The entries of a table. -/
def entries : Toml → List (String × Toml)
  | table es => es
  | _ => []

section
variable {key : String} {es : List (String × Toml)}

theorem find?_cons (e : String × α) (es : List (String × α)) :
    find? key (e :: es) = if e.1 = key then some e.2 else find? key es := by
  by_cases h : e.1 = key <;> simp [find?, h]

theorem find?_append (as bs : List (String × α)) :
    find? key (as ++ bs) = (find? key as).or (find? key bs) := by
  simp [find?, List.find?_append, Option.map_or]

theorem tidy_of_not_isTable {v : Toml} (h : isTable v = false) : tidy v = v := by
  cases v <;> simp_all [tidy, isTable]

/-- An entry is found wherever it stands. -/
theorem find?_tidy (hkeys : (es.map (·.1)).Nodup) :
    find? key (tidy (table es)).entries = (find? key es).map tidy := by
  rw [tidy, entries]
  induction es with
  | nil => rfl
  | cons e es ih =>
    obtain ⟨k, v⟩ := e
    obtain ⟨hnew, hkeys⟩ := List.nodup_cons.1 hkeys
    have hrest := ih hkeys
    rw [find?_cons, tidyTables, tidyEntry]
    cases htable : isTable v with
    | true =>
      rw [List.filter_cons_of_neg (by simp [htable]), if_pos rfl, find?_append,
        List.singleton_append, find?_cons]
      by_cases hkey : k = key
      · have hnone : find? key (es.filter (!isTable ·.2)) = none := by
          subst hkey
          exact find?_eq_none fun hmem => hnew ((List.filter_sublist.map _).subset hmem)
        simp [hkey, hnone]
      · rw [if_neg hkey, if_neg hkey, ← find?_append, hrest]
    | false =>
      rw [List.filter_cons_of_pos (by simp [htable]), if_neg Bool.false_ne_true, List.nil_append,
        List.cons_append, find?_cons]
      by_cases hkey : k = key
      · simp [hkey, tidy_of_not_isTable htable]
      · rw [if_neg hkey, if_neg hkey, hrest]

/-- What is left under a key. -/
theorem find?_pruneEntries (keep : List String → Bool) (key : String) (es : List (String × Toml)) :
    find? key (pruneEntries keep es)
      = if keep [key] then (find? key es).map (prune fun path => keep (key :: path)) else none := by
  induction es with
  | nil => simp [pruneEntries, find?]
  | cons e es ih =>
    obtain ⟨k, v⟩ := e
    rw [pruneEntries, pruneEntry, find?_append, ih, find?_cons]
    by_cases hkey : k = key
    · subst hkey
      cases hkeep : keep [k] <;> simp [find?]
    · rw [if_neg hkey]
      cases hkeep : keep [k] <;> simp [find?, hkey]

end

/-- What is left of a document is read back. -/
theorem parse?_pretty_prune {v : Toml} (hv : isTree depthLimit v) (htable : isTable v)
    (keep : List String → Bool) :
    parse? (pretty (prune keep v)) = some (tidy (prune keep v)) := by
  cases v with
  | table es => exact parse?_pretty (isTree_prune hv)
  | _ => simp [isTable] at htable

end Toml

/-! ## Settings -/

namespace Settings

theorem ofToml?_prune {v : Toml} (htable : v.isTable) (keep : List String → Bool) :
    ofToml? (v.prune keep).tidy = some (named (v.prune keep).tidy.entries) := by
  cases v with
  | table es => simp [Toml.prune, Toml.tidy, ofToml?, Toml.entries]
  | _ => simp [Toml.isTable] at htable

/-- A setting is read as it was written if its key is left, and otherwise as its
default. -/
theorem get?_prune {v w : Toml} (htable : v.isTable) (hkeys : (v.entries.map (·.1)).Nodup)
    (key : String) (hfind : Toml.find? key v.entries = some w) {keep : List String → Bool}
    {read? : Toml → Option α} {a : α}
    (hread : read? (w.prune fun path => keep (key :: path)).tidy = some a) (position : Nat)
    (default : α) :
    (named (v.prune keep).tidy.entries).get? key position read? default
      = some (if keep [key] then a else default) := by
  cases v with
  | table es =>
    have hleft : ((Toml.pruneEntries keep es).map (·.1)).Nodup := by
      rw [Toml.keys_pruneEntries]
      exact hkeys.filter _
    have hfind' : Toml.find? key es = some w := hfind
    rw [get?, find?, Toml.prune, Toml.find?_tidy hleft, Toml.find?_pruneEntries, hfind']
    cases keep [key] with
    | true => exact hread
    | false => rfl
  | _ => simp [Toml.isTable] at htable

theorem get?_boolean_prune {v : Toml} (htable : v.isTable) (hkeys : (v.entries.map (·.1)).Nodup)
    (keep : List String → Bool) (key : String) (b : Bool)
    (hfind : Toml.find? key v.entries = some (.boolean b)) (position : Nat) (default : Bool) :
    (named (v.prune keep).tidy.entries).get? key position Toml.boolean? default
      = some (if keep [key] then b else default) := by
  have hread :
      Toml.boolean? ((Toml.boolean b).prune fun path => keep (key :: path)).tidy = some b := rfl
  exact get?_prune htable hkeys key hfind hread position default

end Settings

/-! ## Console switches -/

namespace ConsoleSwitches

/-- The switches whose keys are kept, with the defaults of the others. -/
def restricted (s : ConsoleSwitches) (keep : List String → Bool) : ConsoleSwitches :=
  let default : ConsoleSwitches := {}
  { log := if keep ["log"] then s.log else default.log
    debug := if keep ["debug"] then s.debug else default.debug
    info := if keep ["info"] then s.info else default.info
    warn := if keep ["warn"] then s.warn else default.warn
    error := if keep ["error"] then s.error else default.error
    trace := if keep ["trace"] then s.trace else default.trace
    table := if keep ["table"] then s.table else default.table
    dir := if keep ["dir"] then s.dir else default.dir
    assert := if keep ["assert"] then s.assert else default.assert
    count := if keep ["count"] then s.count else default.count
    group := if keep ["group"] then s.group else default.group
    time := if keep ["time"] then s.time else default.time }

theorem ofToml?_prune (s : ConsoleSwitches) (keep : List String → Bool) :
    ofToml? (s.toToml.prune keep).tidy = some (s.restricted keep) := by
  have hkeys : (s.toToml.entries.map (·.1)).Nodup := by
    simp [toToml, Toml.entries]
  have hget := Settings.get?_boolean_prune rfl hkeys keep
  rw [ofToml?, Settings.ofToml?_prune rfl]
  simp only [Option.bind_eq_bind, Option.bind_some,
    hget "log" s.log rfl, hget "debug" s.debug rfl, hget "info" s.info rfl,
    hget "warn" s.warn rfl, hget "error" s.error rfl, hget "trace" s.trace rfl,
    hget "table" s.table rfl, hget "dir" s.dir rfl, hget "assert" s.assert rfl,
    hget "count" s.count rfl, hget "group" s.group rfl, hget "time" s.time rfl]
  rfl

end ConsoleSwitches

/-! ## Kinds of log statement -/

namespace LogTypes

/-- The switches whose keys are kept, with the defaults of the others. -/
def restricted (l : LogTypes) (keep : List String → Bool) : LogTypes :=
  let default : LogTypes := {}
  { javascript :=
      if keep ["javascript"] then l.javascript.restricted fun path => keep ("javascript" :: path)
      else default.javascript
    debugger := if keep ["debugger"] then l.debugger else default.debugger
    allOtherLogs := if keep ["all_other_logs"] then l.allOtherLogs else default.allOtherLogs }

theorem ofToml?_prune (l : LogTypes) (keep : List String → Bool) :
    ofToml? (l.toToml.prune keep).tidy = some (l.restricted keep) := by
  have hkeys : (l.toToml.entries.map (·.1)).Nodup := by
    simp [toToml, Toml.entries]
  have hjavascript := Settings.get?_prune rfl hkeys "javascript" rfl
    (l.javascript.ofToml?_prune fun path => keep ("javascript" :: path))
  have hget := Settings.get?_boolean_prune rfl hkeys keep
  rw [ofToml?, Settings.ofToml?_prune rfl]
  simp only [Option.bind_eq_bind, Option.bind_some, hjavascript,
    hget "debugger" l.debugger rfl, hget "all_other_logs" l.allOtherLogs rfl]
  rfl

end LogTypes

/-! ## Configurations -/

theorem Mode.ofName?_name (m : Mode) : ofName? m.name = some m := by
  cases m <;> decide

namespace Toml

/-- A list of texts is read back. -/
theorem texts?_ofTexts (texts : List String) : texts? (ofTexts texts) = some texts := by
  rw [ofTexts, texts?]
  exact mapM_map_eq_some (fun s => by rw [text?, String.ofList_toList]) texts

theorem isTree_of_isSimple {v : Toml} (hv : isSimple v) (n : Nat) : isTree n v := by
  cases n with
  | zero => simpa [isTree] using hv
  | succ n => cases v <;> simp_all [isTree, isSimple, isScalar]

theorem isSimple_ofTexts (texts : List String) : isSimple (ofTexts texts) := by
  simp [ofTexts, isSimple, isScalar]

end Toml

namespace Config

/-- The settings whose keys are kept, with the defaults of the others. -/
def restricted (c : Config) (keep : List String → Bool) : Config :=
  let default : Config := {}
  { languages := if keep ["languages"] then c.languages else default.languages
    mode := if keep ["mode"] then c.mode else default.mode
    removeCommentedLogs :=
      if keep ["remove_commented_logs"] then c.removeCommentedLogs else default.removeCommentedLogs
    maxFileSizeKb := if keep ["max_file_size_kb"] then c.maxFileSizeKb else default.maxFileSizeKb
    whitelistTags := if keep ["whitelist_tags"] then c.whitelistTags else default.whitelistTags
    exclude := if keep ["exclude"] then c.exclude else default.exclude
    dryRunDefault := if keep ["dry_run_default"] then c.dryRunDefault else default.dryRunDefault
    htmlCssHandling :=
      if keep ["html_css_handling"] then c.htmlCssHandling else default.htmlCssHandling
    logTypes :=
      if keep ["log_types"] then c.logTypes.restricted fun path => keep ("log_types" :: path)
      else default.logTypes }

theorem restricted_true (c : Config) : c.restricted (fun _ => true) = c := rfl

theorem ofToml?_prune (c : Config) (keep : List String → Bool) :
    ofToml? (c.toToml.prune keep).tidy = some (c.restricted keep) := by
  have hkeys : (c.toToml.entries.map (·.1)).Nodup := by
    simp [toToml, Toml.entries]
  have hget := Settings.get?_boolean_prune rfl hkeys keep
  have htexts : ∀ key texts, Toml.find? key c.toToml.entries = some (.ofTexts texts) → ∀ i default,
      (Settings.named (c.toToml.prune keep).tidy.entries).get? key i Toml.texts? default
        = some (if keep [key] then texts else default) :=
    fun key texts hfind => Settings.get?_prune rfl hkeys key hfind (Toml.texts?_ofTexts texts)
  have hmode : Toml.mode? (.string c.mode.name.toList) = some c.mode := by
    rw [Toml.mode?, String.ofList_toList, Mode.ofName?_name]
  have hsize : Toml.natural? (.integer c.maxFileSizeKb) = some c.maxFileSizeKb := by
    simp [Toml.natural?]
  rw [ofToml?, Settings.ofToml?_prune rfl]
  simp only [Option.bind_eq_bind, Option.bind_some, htexts "languages" c.languages rfl,
    Settings.get?_prune rfl hkeys "mode" rfl hmode,
    hget "remove_commented_logs" c.removeCommentedLogs rfl,
    Settings.get?_prune rfl hkeys "max_file_size_kb" rfl hsize,
    htexts "whitelist_tags" c.whitelistTags rfl, htexts "exclude" c.exclude rfl,
    hget "dry_run_default" c.dryRunDefault rfl, hget "html_css_handling" c.htmlCssHandling rfl,
    Settings.get?_prune rfl hkeys "log_types" rfl
      (c.logTypes.ofToml?_prune fun path => keep ("log_types" :: path))]
  rfl

theorem isTree_toToml {c : Config} (hsize : c.maxFileSizeKb < Toml.integerBound) :
    Toml.isTree Toml.depthLimit c.toToml := by
  have hinteger : Toml.isSimple (.integer c.maxFileSizeKb) := by
    simp only [Toml.isSimple, Toml.isScalar, Bool.and_eq_true, decide_eq_true_eq]
    omega
  have hboolean : ∀ b, Toml.isSimple (.boolean b) := fun b => rfl
  have hmode : Toml.isSimple (.string c.mode.name.toList) := rfl
  rw [show Toml.depthLimit = 77 + 1 + 1 + 1 from rfl]
  simp [toToml, LogTypes.toToml, ConsoleSwitches.toToml, Toml.isTree, Toml.isTree_of_isSimple,
    Toml.isSimple_ofTexts, hinteger, hboolean, hmode]

/-- What is left of a document is read as the settings that are left. -/
theorem parse_pretty_prune {c : Config} (hsize : c.maxFileSizeKb < Toml.integerBound)
    (keep : List String → Bool) :
    parse (Toml.pretty (c.toToml.prune keep)) = .ok (c.restricted keep) := by
  rw [parse, Toml.parse?_pretty_prune (isTree_toToml hsize) rfl, Option.bind_some, ofToml?_prune]

theorem parse_pretty {c : Config} (hsize : c.maxFileSizeKb < Toml.integerBound) :
    parse (Toml.pretty c.toToml) = .ok c := by
  have hread := parse_pretty_prune hsize fun _ => true
  rwa [Toml.prune_true, restricted_true] at hread

/-- **A written configuration is read back**, and what is left of it without some
keys is read as the configuration with the defaults of these. -/
theorem parse_of_write (c : Config) (hsize : c.maxFileSizeKb < Toml.integerBound) :
    (∃ t, c.write = .ok t ∧ parse t = .ok c) ∧
      ∀ keep, parse (Toml.pretty (c.toToml.prune keep)) = .ok (c.restricted keep) :=
  ⟨⟨_, if_pos hsize, parse_pretty hsize⟩, parse_pretty_prune hsize⟩

theorem parse_of_write_peculiar :
    let c : Config :=
      { languages := ["a\"b\\c\n\x01\u00E9", ""], mode := .delete,
        maxFileSizeKb := 9223372036854775807, whitelistTags := [], exclude := ["\x27\x27\x27"],
        logTypes := { debugger := false } }
    c.maxFileSizeKb < Toml.integerBound ∧ (∃ t, c.write = .ok t ∧ parse t = .ok c) ∧
      ∀ keep, parse (Toml.pretty (c.toToml.prune keep)) = .ok (c.restricted keep) :=
  ⟨by decide, parse_of_write _ (by decide)⟩

/-- A configuration that is saved is loaded, unless it was saved to a file that
cannot be read. -/
theorem load_of_save {c : Config} {d d' : Disk} {p : FilePath} (hd : d.Proper)
    (h : c.save d p = .ok d')
    (hreadable : ∀ l data, d.entryAt p = .ok (l, .file data) → data.readable) :
    load d' p = .ok c := by
  by_cases hsize : c.maxFileSizeKb < Toml.integerBound
  · have hwrite : d.writeText p (Toml.pretty c.toToml) = .ok d' := by
      cases hresult : d.writeText p (Toml.pretty c.toToml) with
      | error e => simp [save, write, hsize, hresult, bind, Except.bind, Except.mapError] at h
      | ok _ => simpa [save, write, hsize, hresult, bind, Except.bind, Except.mapError] using h
    obtain ⟨-, htext⟩ := Disk.readText_of_writeText hd hwrite hreadable
    simp only [load, htext, bind, Except.bind, Except.mapError]
    exact parse_pretty hsize
  · simp [save, write, hsize, bind, Except.bind] at h

end Config
end LogPrune
