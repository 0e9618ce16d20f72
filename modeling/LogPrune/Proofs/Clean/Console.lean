import LogPrune.Proofs.Clean.Found
import LogPrune.Proofs.Finding.LineComment
import LogPrune.Proofs.Pattern.Arguments

/-!
# LogPrune.Proofs.Clean.Console

The switches for console methods, in JavaScript and its dialects.

1. A switch covers the variants of its method, and each method belongs to one switch
   (`mem_methods_iff`).
2. What is found as a console statement is a call of a method that is switched on, and
   each such call is found or lies in what is found or hit before it; with no method
   switched on nothing is found but `debugger` (`console_switches_obeyed`).
-/

namespace LogPrune

open Regex Pattern

/-! ## Switches -/

namespace ConsoleSwitches

/-- Whether the switch of a console method is on. -/
def enables (s : ConsoleSwitches) : String → Bool
  | "log" => s.log
  | "debug" => s.debug
  | "info" => s.info
  | "warn" => s.warn
  | "error" => s.error
  | "trace" => s.trace
  | "table" => s.table
  | "dir" | "dirxml" => s.dir
  | "assert" => s.assert
  | "count" | "countReset" => s.count
  | "group" | "groupCollapsed" | "groupEnd" => s.group
  | "time" | "timeEnd" | "timeLog" => s.time
  | _ => false

/-- All switches off. -/
def off : ConsoleSwitches where
  log := false
  debug := false
  info := false
  warn := false
  error := false
  trace := false
  table := false
  dir := false
  assert := false
  count := false
  group := false
  time := false

theorem mem_methods_iff {s : ConsoleSwitches} {m : String} : m ∈ s.methods ↔ s.enables m := by
  unfold enables
  split <;> simp_all [methods]

end ConsoleSwitches

/-! ## Rules -/

/-- The languages whose rules the switches are for. -/
def scriptLanguages : List String :=
  ["javascript", "javascriptreact", "typescript", "typescriptreact"]

/-- What console statements are reported as. -/
def consoleDescription (language : String) : String :=
  if ["javascript", "javascriptreact"].contains language then "JavaScript console.* statements"
  else "TypeScript console.* statements"

variable {content : Text} {language description : String} {config : Config} {f : Finding}
  {r : Rule}

theorem rulesFor_of_mem_scriptLanguages (hlang : language ∈ scriptLanguages) :
    rulesFor language config = Ruleset.consoleRules (consoleDescription language) config := by
  simp only [scriptLanguages, List.mem_cons, List.not_mem_nil, or_false] at hlang
  rcases hlang with rfl | rfl | rfl | rfl <;> rfl

/-- The rules are the one for console calls and those for comments, if a method is switched
on, and the one for `debugger`. -/
theorem mem_consoleRules (h : r ∈ Ruleset.consoleRules description config) :
    (r.pattern = debuggerStatement ∧ r.description = "Debugger statements") ∨
      config.logTypes.javascript.methods ≠ [] ∧
        ((r.pattern = consoleCall config.logTypes.javascript.methods ∧
            r.description = description) ∨
          (r.pattern = commentedCall "//".toList ∧
            r.description = "Single-line commented console statements") ∨
          (r.pattern = blockComment ∧ r.description = "Block commented console statements")) := by
  have hdebugger : r ∈ (if config.logTypes.debugger then
      [{ pattern := debuggerStatement, description := "Debugger statements", priority := 5 }]
      else [] : List Rule) →
      r.pattern = debuggerStatement ∧ r.description = "Debugger statements" := by
    intro h
    split at h
    · obtain rfl := List.mem_singleton.1 h
      exact ⟨rfl, rfl⟩
    · contradiction
  simp only [Ruleset.consoleRules, List.isEmpty_iff, List.mem_append] at h
  by_cases hmethods : config.logTypes.javascript.methods = []
  · simp only [if_pos hmethods, List.not_mem_nil, false_or, or_false] at h
    exact .inl (hdebugger h)
  · simp only [if_neg hmethods] at h
    rcases h with (h | h) | h
    · obtain rfl := List.mem_singleton.1 h
      exact .inr ⟨hmethods, .inl ⟨rfl, rfl⟩⟩
    · exact .inl (hdebugger h)
    · rw [Ruleset.slashComments] at h
      split at h
      · rcases List.mem_pair.1 h with rfl | rfl
        · exact .inr ⟨hmethods, .inr (.inl ⟨rfl, rfl⟩)⟩
        · exact .inr ⟨hmethods, .inr (.inr ⟨rfl, rfl⟩)⟩
      · contradiction

/-! ## Matches -/

theorem consoleCall_body {methods : List String} (hne : methods ≠ []) :
    (consoleCall methods).body =
      lit "console." ++ .group (oneOf methods) ++ spacedArguments ++ terminator := by
  simp [consoleCall, hne]

/-- The match of a console call, without the blanks at its end, is `console.`, a method, and a
blank or a bracket behind it. -/
theorem exists_of_spells_consoleCall {methods : List String} (hne : methods ≠ []) {t : Text}
    (h : (consoleCall methods).body.Spells false t) :
    ∃ m ∈ methods, ∃ x rest, Text.trimEnd t = "console.".toList ++ m.toList ++ x :: rest ∧
      (isBlank x ∨ x = '(') := by
  rw [consoleCall_body hne] at h
  obtain ⟨_, ending, rfl, ⟨_, _, rfl, ⟨_, w, rfl, hconsole, hw⟩, gap, args, rfl, hgap, hargs⟩, -⟩ :=
    h
  obtain ⟨m, hm, rfl⟩ := List.mem_map.1 (mem_of_spells_oneOf hne hw)
  obtain ⟨inside, rfl, -⟩ := spells_arguments_iff.1 hargs
  rw [spells_text_iff.1 hconsole]
  have hprefix : "console.".toList ++ m.toList ++ gap ++ ['('] <+: Text.trimEnd
      ("console.".toList ++ m.toList ++ (gap ++ ('(' :: inside ++ [')'])) ++ ending) := by
    apply Text.prefix_trimEnd (by decide)
    exact ⟨inside ++ [')'] ++ ending, by simp⟩
  obtain ⟨rest, hrest⟩ := hprefix
  refine ⟨m, hm, ?_⟩
  rw [← hrest]
  cases gap with
  | nil => exact ⟨'(', rest, by simp, .inr rfl⟩
  | cons x gap => exact ⟨x, gap ++ ['('] ++ rest, by simp, .inl (hgap x List.mem_cons_self)⟩

/-- A match of `debugger` begins with it and holds no `c`. -/
theorem of_spells_debuggerStatement {t : Text} (h : debuggerStatement.body.Spells false t) :
    (∃ rest, t = 'd' :: rest) ∧ 'c' ∉ t := by
  obtain ⟨_, _, rfl, hword, gap, semicolon, rfl, hgap, hsemicolon⟩ := h
  rw [spells_text_iff.1 hword]
  refine ⟨⟨_, rfl⟩, ?_⟩
  have hgap' : 'c' ∉ gap := fun hmem => absurd (hgap _ hmem) (by decide)
  have hsemicolon' : 'c' ∉ semicolon := by
    rcases hsemicolon with rfl | hsemicolon
    · simp
    · rw [spells_text_iff.1 hsemicolon]
      decide
  simp [hgap', hsemicolon']

/-! ## Findings -/

/-- What is found as a console statement is a call of a method that is switched on. -/
theorem exists_of_consoleDescription (hlang : language ∈ scriptLanguages)
    (hf : f ∈ findingsIn content language config)
    (hdescription : f.description = consoleDescription language) :
    ∃ m, config.logTypes.javascript.enables m ∧ ∃ x rest,
      f.text = "console.".toList ++ m.toList ++ x :: rest ∧ (isBlank x ∨ x = '(') := by
  have hother : consoleDescription language ∉ ["Debugger statements",
      "Single-line commented console statements", "Block commented console statements"] := by
    unfold consoleDescription
    split <;> decide
  obtain ⟨rule, hrule, hname, -, t, htext, hspell⟩ := Finding.exists_rule_of_mem_all hf
  rw [hdescription] at hname
  rw [rulesFor_of_mem_scriptLanguages hlang] at hrule
  rcases mem_consoleRules hrule with ⟨-, h⟩ | ⟨hne, ⟨hpattern, -⟩ | ⟨-, h⟩ | ⟨-, h⟩⟩
  · simp [hname, h] at hother
  · rw [hpattern] at hspell
    obtain ⟨m, hm, x, rest, ht, hx⟩ := exists_of_spells_consoleCall hne hspell
    exact ⟨m, ConsoleSwitches.mem_methods_iff.1 hm, x, rest, htext.trans ht, hx⟩
  · simp [hname, h] at hother
  · simp [hname, h] at hother

/-- Only console statements begin as a console call does. -/
theorem description_of_head (hlang : language ∈ scriptLanguages)
    (hf : f ∈ findingsIn content language config) {xs : Text} (htext : f.text = 'c' :: xs) :
    f.description = consoleDescription language := by
  obtain ⟨rule, hrule, hname, -, t, ht, hspell⟩ := Finding.exists_rule_of_mem_all hf
  obtain ⟨blanks, hblanks, -⟩ := Text.exists_append_of_trimEnd t
  rw [← ht, htext] at hblanks
  rw [rulesFor_of_mem_scriptLanguages hlang] at hrule
  rw [hblanks] at hspell
  rcases mem_consoleRules hrule with ⟨hpattern, -⟩ | ⟨-, ⟨-, h⟩ | ⟨hpattern, -⟩ | ⟨hpattern, -⟩⟩
  · rw [hpattern] at hspell
    exact absurd List.mem_cons_self (of_spells_debuggerStatement hspell).2
  · exact hname.trans h
  · rw [hpattern] at hspell
    obtain ⟨_, _, htext, hmarker⟩ := exists_front_of_spells hspell
    rw [spells_text_iff.1 hmarker] at htext
    exact absurd (List.cons.inj htext).1 (by decide)
  · rw [hpattern] at hspell
    obtain ⟨_, _, htext, hopener⟩ := exists_front_of_spells hspell
    rw [spells_text_iff.1 hopener] at htext
    exact absurd (List.cons.inj htext).1 (by decide)

/-- A call of a console method that is switched on. -/
def IsConsoleCall (s : ConsoleSwitches) (t : Text) : Prop :=
  ∃ m gap args, s.enables m ∧ t = "console.".toList ++ m.toList ++ (gap ++ args) ∧
    (∀ x ∈ gap, isBlank x) ∧ args.IsArguments

theorem IsConsoleCall.spells {s : ConsoleSwitches} {t : Text} (h : IsConsoleCall s t) :
    s.methods ≠ [] ∧ (consoleCall s.methods).body.Spells false t := by
  obtain ⟨m, gap, args, hm, rfl, hgap, hargs⟩ := h
  have hmem := ConsoleSwitches.mem_methods_iff.2 hm
  have hne := List.ne_nil_of_mem hmem
  refine ⟨hne, ?_⟩
  rw [consoleCall_body hne]
  have hcall : (lit "console." ++ .group (oneOf s.methods)).Spells false
      ("console.".toList ++ m.toList) :=
    ⟨_, _, rfl, spells_text_iff.2 rfl, spells_oneOf_of_mem hmem⟩
  have hargs : spacedArguments.Spells false (gap ++ args) :=
    ⟨gap, args, rfl, hgap, spells_arguments_iff.2 hargs⟩
  have hnothing : terminator.Spells false [] :=
    ⟨[], [], rfl, fun _ h => absurd h List.not_mem_nil, .inl rfl⟩
  exact ⟨_, [], (List.append_nil _).symm, ⟨_, _, rfl, hcall, hargs⟩, hnothing⟩

/-- Where a console call stands, the pattern of such calls has a hit, or an earlier one reaches
over the place. -/
theorem IsConsoleCall.exists_hit {s : ConsoleSwitches} {call : Text} (h : IsConsoleCall s call)
    (a b : Text) :
    ∃ hit ∈ (consoleCall s.methods).hits (a ++ (call ++ b)),
      hit.start ≤ Text.size a ∧ Text.size a < hit.stop := by
  obtain ⟨hne, hspell⟩ := h.spells
  apply exists_hit_of_spells ?_ ?_ hspell
  · rw [consoleCall_body hne]
    show ((false || (oneOf s.methods).looksAround) || spacedArguments.looksAround ||
      terminator.looksAround) = false
    rw [looksAround_oneOf]
    rfl
  · intro hnil
    obtain ⟨_, _, htext, hconsole⟩ := exists_front_of_spells hnil
    rw [consoleCall_body hne] at hconsole
    rw [spells_text_iff.1 hconsole] at htext
    simp at htext

/-- A hit of the console pattern starts in a finding, which is a console statement where they
start together. -/
theorem exists_finding_of_hit (hlang : language ∈ scriptLanguages) {a t : Text} {hit : Hit}
    (hmethods : config.logTypes.javascript.methods ≠ [])
    (hhit : hit ∈ (consoleCall config.logTypes.javascript.methods).hits (a ++ t))
    (hstart : hit.start = Text.size a) :
    ∃ f ∈ findingsIn (a ++ t) language config, Text.NoLater f.startPlace (Text.advance (0, 0) a) ∧
      ¬ Text.NoLater f.endPlace (Text.advance (0, 0) a) ∧
      (f.startPlace = Text.advance (0, 0) a → f.description = consoleDescription language) := by
  have hrule : ⟨consoleCall config.logTypes.javascript.methods, consoleDescription language, 10,
      .singleLine, true, none⟩ ∈ rulesFor language config := by
    rw [rulesFor_of_mem_scriptLanguages hlang, Ruleset.consoleRules]
    simp [hmethods]
  obtain ⟨-, -, -, -, hspell⟩ := exists_of_mem_hits hhit
  obtain ⟨m, -, x, rest, htrim, -⟩ := exists_of_spells_consoleCall hmethods hspell
  have hc := Candidate.mem_all_of_mem_hits hrule rfl hhit (by rw [htrim]; simp)
  obtain ⟨a', b, hcontent, ha'⟩ := Candidate.standsIn_of_mem_all hc
  obtain rfl : a' = a := by
    rw [List.append_assoc] at hcontent
    exact Text.eq_of_size_eq hcontent.symm (ha'.symm.trans hstart)
  obtain ⟨hplace, -⟩ := Finding.places_of_ofCandidate config.whitelistTags hcontent ha'
    (Candidate.endsSolid_of_mem_all hc)
  obtain ⟨f, hf, ⟨hle, hlt⟩, htogether⟩ :=
    Finding.exists_all_of_mem_candidates (List.mem_map_of_mem hc)
  rw [hplace] at hle hlt htogether
  refine ⟨f, hf, hle, hlt, fun hsame => ?_⟩
  obtain ⟨more, hmore⟩ := htogether hsame
  have hhead : f.text = 'c' :: ("onsole.".toList ++ m.toList ++ x :: rest ++ more) := by
    rw [← hmore]
    exact congrArg (· ++ more) htrim
  exact description_of_head hlang hf hhead

/-- Each console call is found, or lies in what is found or hit before it. -/
theorem found_of_isConsoleCall (hlang : language ∈ scriptLanguages) {a call b : Text}
    (hcall : IsConsoleCall config.logTypes.javascript call) :
    (∃ f ∈ findingsIn (a ++ call ++ b) language config,
        f.description = consoleDescription language ∧ f.startPlace = Text.advance (0, 0) a) ∨
      (∃ f ∈ findingsIn (a ++ call ++ b) language config,
        f.startPlace ≠ Text.advance (0, 0) a ∧
        Text.NoLater f.startPlace (Text.advance (0, 0) a) ∧
        ¬ Text.NoLater f.endPlace (Text.advance (0, 0) a)) ∨
      ∃ h ∈ (consoleCall config.logTypes.javascript.methods).hits (a ++ call ++ b),
        h.start < Text.size a ∧ Text.size a < h.stop := by
  rw [List.append_assoc]
  obtain ⟨hit, hhit, hle, hlt⟩ := hcall.exists_hit a b
  rcases Nat.lt_or_eq_of_le hle with hbefore | hhere
  · exact .inr (.inr ⟨hit, hhit, hbefore, hlt⟩)
  · obtain ⟨f, hf, hstart, hend, hsame⟩ := exists_finding_of_hit hlang hcall.spells.1 hhit hhere
    by_cases hplace : f.startPlace = Text.advance (0, 0) a
    · exact .inl ⟨f, hf, hsame hplace, hplace⟩
    · exact .inr (.inl ⟨f, hf, hplace, hstart, hend⟩)

/-- With no console method switched on there are no rules for console statements, and no
finding holds one. -/
theorem nothing_of_off (hlang : language ∈ scriptLanguages)
    (hoff : config.logTypes.javascript = .off) :
    (∀ r ∈ rulesFor language config, r.pattern = debuggerStatement) ∧
      ∀ f ∈ findingsIn content language config, f.text.includes "console.".toList = false := by
  have hnone : config.logTypes.javascript.methods = [] := by rw [hoff]; rfl
  have hrules : ∀ r ∈ rulesFor language config, r.pattern = debuggerStatement := by
    intro r hr
    rw [rulesFor_of_mem_scriptLanguages hlang] at hr
    rcases mem_consoleRules hr with ⟨hpattern, -⟩ | ⟨hne, -⟩
    · exact hpattern
    · exact absurd hnone hne
  refine ⟨hrules, fun f hf => ?_⟩
  obtain ⟨rule, hrule, -, -, t, htext, hspell⟩ := Finding.exists_rule_of_mem_all hf
  rw [hrules rule hrule] at hspell
  obtain ⟨blanks, hblanks, -⟩ := Text.exists_append_of_trimEnd t
  rw [Bool.eq_false_iff, ne_eq, Text.includes_iff_infix]
  intro hpart
  have hmem : 'c' ∈ f.text := hpart.subset (by decide)
  apply (of_spells_debuggerStatement hspell).2
  rw [hblanks, ← htext]
  exact List.mem_append_left _ hmem

/-- The switches for console methods.  What is found as a console statement is a call of a
method that is switched on.  Each call of such a method is found where it stands, unless it
starts inside a finding or a hit that starts before it.  With all switches off no console
statement is found, live or commented. -/
theorem console_switches_obeyed (content : Text) (config : Config)
    (hlang : language ∈ scriptLanguages) :
    (∀ f ∈ findingsIn content language config, f.description = consoleDescription language →
      ∃ m, config.logTypes.javascript.enables m ∧ ∃ x rest,
        f.text = "console.".toList ++ m.toList ++ x :: rest ∧ (isBlank x ∨ x = '(')) ∧
    (∀ a call b, content = a ++ call ++ b → IsConsoleCall config.logTypes.javascript call →
      (∃ f ∈ findingsIn content language config,
        f.description = consoleDescription language ∧ f.startPlace = Text.advance (0, 0) a) ∨
      (∃ f ∈ findingsIn content language config,
        f.startPlace ≠ Text.advance (0, 0) a ∧
        Text.NoLater f.startPlace (Text.advance (0, 0) a) ∧
        ¬ Text.NoLater f.endPlace (Text.advance (0, 0) a)) ∨
      ∃ h ∈ (consoleCall config.logTypes.javascript.methods).hits content,
        h.start < Text.size a ∧ Text.size a < h.stop) ∧
    (config.logTypes.javascript = .off →
      (∀ r ∈ rulesFor language config, r.pattern = debuggerStatement) ∧
      ∀ f ∈ findingsIn content language config, f.text.includes "console.".toList = false) := by
  refine ⟨fun f hf => exists_of_consoleDescription hlang hf, ?_, nothing_of_off hlang⟩
  rintro a call b rfl hcall
  exact found_of_isConsoleCall hlang hcall

/-- With `console.log` switched on alone, a call of it is found and one of `console.table` is
not. -/
theorem console_switches_obeyed_log :
    "typescript" ∈ scriptLanguages ∧
    IsConsoleCall { ConsoleSwitches.off with log := true } "console.log(f(1))".toList ∧
    (∃ f ∈ findingsIn "go(); console.log(f(1)); console.table(t);".toList "typescript"
        { logTypes := { javascript := { ConsoleSwitches.off with log := true } } },
      f.startPlace = (0, 6) ∧ ∃ m x rest,
        ({ ConsoleSwitches.off with log := true } : ConsoleSwitches).enables m ∧
        f.text = "console.".toList ++ m.toList ++ x :: rest) ∧
    (findingsIn "go(); console.log(f(1)); console.table(t);".toList "typescript"
      { logTypes := { javascript := { ConsoleSwitches.off with log := true } } }).length = 1 := by
  have hlang : "typescript" ∈ scriptLanguages := by decide
  have hcall : IsConsoleCall { ConsoleSwitches.off with log := true } "console.log(f(1))".toList :=
    ⟨"log", [], "(f(1))".toList, rfl, rfl, by simp, "f(1)".toList, rfl, by decide⟩
  have hfound : findingsIn "go(); console.log(f(1)); console.table(t);".toList "typescript"
      { logTypes := { javascript := { ConsoleSwitches.off with log := true } } } = [
        { text := "console.log(f(1));".toList, startLine := 0, endLine := 0, startChar := 6,
          endChar := 24, description := "TypeScript console.* statements", priority := 10,
          keep := false }] := by cbv
  have hhits : (consoleCall ["log"]).hits "go(); console.log(f(1)); console.table(t);".toList =
      [⟨6, "console.log(f(1));".toList⟩] := by cbv
  obtain ⟨hstarts, hcalls, -⟩ := console_switches_obeyed
    "go(); console.log(f(1)); console.table(t);".toList
    { logTypes := { javascript := { ConsoleSwitches.off with log := true } } } hlang
  refine ⟨hlang, hcall, ?_, by rw [hfound]; rfl⟩
  rcases hcalls "go(); ".toList _ "; console.table(t);".toList rfl hcall with
    ⟨f, hf, hname, hplace⟩ | ⟨f, hf, hne, -⟩ | ⟨h, hh, hlt, -⟩
  · obtain ⟨m, hm, x, rest, htext, -⟩ := hstarts f hf hname
    exact ⟨f, hf, hplace, m, x, rest, hm, htext⟩
  · rw [hfound] at hf
    obtain rfl := List.mem_singleton.1 hf
    exact absurd rfl hne
  · have hh : h ∈ (consoleCall ["log"]).hits
        "go(); console.log(f(1)); console.table(t);".toList := hh
    rw [hhits] at hh
    obtain rfl := List.mem_singleton.1 hh
    exact absurd hlt (by decide)

end LogPrune
