import LogPrune.Proofs.Clean.CommentRules
import LogPrune.Proofs.Finding.Whole

/-!
# LogPrune.Proofs.Clean.WholeComment

A statement that was commented out, as the only thing in a text.

The comment is found as one finding exactly when the rules for comments know the call in
it: behind a line marker one of the calls that all languages share, and in a block comment
one of those that the language filters for (`commented_statement_found_once`).  These
lists do not have all calls that the rules for statements have, so that of some comments
only the call inside is found (`commented_printf_found_inside`).
-/

namespace LogPrune

open Regex Pattern Ruleset

variable {language : String} {config : Config} {s : Text} {r b inLine : Rule}
  {inBlock : Option Rule}

/-! ## Comments to the end of the line -/

/-- What a rule for statements spells begins with no character of a marker. -/
theorem not_isMark_of_spells (hr : r ∈ statementRules language config) {t rest : Text} {x : Char}
    (hspell : r.pattern.body.Spells r.pattern.ignoreCase t) (hne : t ≠ []) (ht : t <+: x :: rest) :
    isMark x = false := by
  obtain ⟨y, ys, rfl⟩ := List.exists_cons_of_ne_nil hne
  obtain ⟨rfl, -⟩ := List.cons_prefix_cons.1 ht
  simpa using kind_of_spells not_isMark_of_foldCase (opensNoComment_of_mem_rulesFor rfl hr).opens
    hspell

/-- Behind the marker of a line comment with a call, blanks apart, the call begins. -/
theorem opensCall_of_spells_commentedCall {marker t : Text}
    (hspell : (commentedCall marker).body.Spells false t) (ht : t <+: marker ++ ' ' :: s) :
    s.OpensCall [] := by
  obtain ⟨t, _, rfl, hspell, rfl⟩ := hspell
  obtain ⟨gap, call, rest, rfl, hgap, hcall, -⟩ := spells_commentedLine_iff.1 hspell
  obtain ⟨-, y, ys, hy, hblank, -⟩ := call_spec hcall
  obtain ⟨more, hmore⟩ := ht
  have hbehind : gap ++ (call ++ (rest ++ more)) = ' ' :: s := by
    have hfront : marker ++ (gap ++ (call ++ (rest ++ more))) = marker ++ ' ' :: s := by
      rw [← hmore]
      simp
    exact List.append_cancel_left hfront
  cases gap with
  | nil =>
      rw [hy] at hbehind
      obtain ⟨rfl, -⟩ := List.cons.inj hbehind
      exact absurd hblank (by decide)
  | cons x gap =>
      obtain ⟨-, rfl⟩ := List.cons.inj hbehind
      exact ⟨gap, [], call, rest ++ more, by simp,
        fun x hx => hgap x (List.mem_cons_of_mem _ hx), by simp, hcall⟩

/-- A line comment with a call that is the only line of a text is a hit as a whole. -/
theorem mem_hits_commentedCall {marker t : Text}
    (hmarker : marker ∈ commentMarkers.map String.toList)
    (hspell : (commentedLine marker).Spells false t) (hline : '\n' ∉ t) :
    ⟨0, t⟩ ∈ (commentedCall marker).hits t := by
  obtain ⟨gap, call, rest, rfl, hgap, hcall, -⟩ := spells_commentedLine_iff.1 hspell
  have hlines : Text.lines (marker ++ gap ++ call ++ rest) =
      [] ++ ([] ++ (marker ++ gap ++ call ++ rest)) :: [] := Text.pieces_of_not_mem hline
  obtain ⟨⟨start, text⟩, hhit, hstart, hprefix⟩ :=
    exists_hit_of_opensCall hmarker hlines (by simp) hgap hcall
  obtain rfl : start = 0 := hstart
  obtain ⟨a, b, hcontent, -⟩ := exists_of_mem_hits hhit
  have hwhole : marker ++ gap ++ call ++ rest = text := by
    apply hprefix.eq_of_length_le
    rw [hcontent]
    simp only [List.length_append]
    omega
  rwa [← hwhole] at hhit

/-- A statement that begins with a call that is known in comments, behind a marker. -/
theorem spells_commentedLine_of_opensCall {marker : Text} (hline : '\n' ∉ s)
    (hopens : s.OpensCall []) : (commentedLine marker).Spells false (marker ++ ' ' :: s) := by
  obtain ⟨blanks, gap, call, rest, rfl, hblanks, hgap, hcall⟩ := hopens
  refine spells_commentedLine_iff.2 ⟨' ' :: (blanks ++ gap), call, rest, by simp, ?_, hcall, ?_⟩
  · intro y hy
    rcases List.mem_cons.1 hy with rfl | hy
    · decide
    · exact (List.mem_append.1 hy).elim (hblanks y) (hgap y)
  · exact fun hmem => hline (by simp [hmem])

/-- A line comment is found as one finding exactly when it begins with a call that is known
in comments. -/
theorem found_at_start_iff_opensCall
    (hrules : HasCommentRules language config inLine inBlock) (hline : '\n' ∉ s) :
    (∃ f, findingsIn (lineMarker language ++ ' ' :: s) language config = [f] ∧
      f.startPlace = (0, 0)) ↔ s.OpensCall [] := by
  obtain ⟨hpattern, hfilter⟩ := hrules.inLine_eq
  obtain ⟨hmarker, hopener⟩ := lineMarker_spec language
  obtain ⟨hne, hsolid⟩ := marker_spec hmarker
  obtain ⟨x, xs, hmark⟩ := List.exists_cons_of_ne_nil hne
  have hx : x ∈ lineMarker language := by rw [hmark]; exact List.mem_cons_self
  constructor
  · rintro ⟨f, hall, hstart⟩
    have hf : f ∈ findingsIn (lineMarker language ++ ' ' :: s) language config := by
      rw [hall]
      exact List.mem_cons_self
    obtain ⟨rule, hrule, -, t, htne, ht, -, hspell⟩ := Finding.exists_rule_of_startPlace hf hstart
    rcases hrules.mem_rulesFor hrule with hrule | rfl | hrule
    · rw [hmark, List.cons_append] at ht
      have := isMark_of_mem hmarker hx
      rw [not_isMark_of_spells hrule hspell htne ht] at this
      exact absurd this Bool.false_ne_true
    · rw [hpattern] at hspell
      exact opensCall_of_spells_commentedCall hspell ht
    · obtain ⟨hblock, hslashes⟩ := hrules.inBlock_eq rule hrule
      rw [hblock] at hspell
      obtain ⟨inner, rfl⟩ := spells_blockComment_iff.1 hspell
      rw [hslashes] at ht
      exact absurd (List.cons_prefix_cons.1 (List.cons_prefix_cons.1 ht).2).1 (by decide)
  · intro hopens
    have hnew : '\n' ∉ lineMarker language := by
      have hopener := hopener ▸ (commentOpener_spec language).2.1
      exact fun hmem => hopener (List.mem_append_left _ hmem)
    have hhit := mem_hits_commentedCall hmarker (spells_commentedLine_of_opensCall hline hopens)
      (by simp [hnew, hline])
    have hrule : inLine ∈ rulesFor language config := by rw [hrules.rulesFor_eq]; simp
    have htrim := Text.trimEnd_ne_nil (List.mem_append_left (' ' :: s) hx) (hsolid x hx).1
    generalize lineMarker language ++ ' ' :: s = content at hhit htrim ⊢
    have hc := Candidate.mem_all_of_mem_hits hrule hfilter (hpattern ▸ hhit) htrim
    obtain ⟨f, hall, -, hstart⟩ := Finding.all_eq_singleton hc rfl rfl
    exact ⟨f, hall, hstart⟩

/-! ## Comments between an opener and a closer -/

/-- A block comment is found as one finding exactly when the rule for such comments accepts
what it holds. -/
theorem found_whole_iff_accepts
    (hrules : HasCommentRules language config inLine inBlock)
    (hs : s.includes "*/".toList = false) (hb : b ∈ rulesFor language config)
    (hblock : b.pattern = blockComment) :
    (∃ f, findingsIn ("/* ".toList ++ s ++ " */".toList) language config = [f] ∧
      f.text = "/* ".toList ++ s ++ " */".toList) ↔
      b.accepts ("/* ".toList ++ s ++ " */".toList) := by
  have hb' := hrules.mem_inBlock hb hblock
  have hhit := mem_hits_blockComment hs
  have htrim : Text.trimEnd ("/* ".toList ++ s ++ " */".toList) =
      "/* ".toList ++ s ++ " */".toList := by
    have hlast : "/* ".toList ++ s ++ " */".toList = "/* ".toList ++ s ++ " *".toList ++ ['/'] := by
      simp
    rw [hlast, Text.trimEnd_append_singleton (by decide)]
  constructor
  · rintro ⟨f, hall, htext⟩
    have hf : f ∈ findingsIn ("/* ".toList ++ s ++ " */".toList) language config := by
      rw [hall]
      exact List.mem_cons_self
    obtain ⟨rule, hrule, haccepts, t, htne, ht, -, hspell⟩ :=
      Finding.exists_rule_of_startPlace hf (Finding.startPlace_of_text_eq hf htext)
    rcases hrules.mem_rulesFor hrule with hrule | rfl | hrule
    · exact absurd (not_isMark_of_spells hrule hspell htne ht) (by decide)
    · rw [hrules.inLine_eq.1, (hrules.inBlock_eq b hb').2] at hspell
      obtain ⟨_, _, rfl, hline, -⟩ := hspell
      obtain ⟨gap, call, rest, rfl, -⟩ := spells_commentedLine_iff.1 hline
      exact absurd (List.cons_prefix_cons.1 (List.cons_prefix_cons.1 ht).2).1 (by decide)
    · obtain rfl : rule = b := Option.some.inj (hrule.symm.trans hb')
      rwa [htext] at haccepts
  · intro haccepts
    have hc := Candidate.mem_all_of_accepts hb (hblock ▸ hhit) (by rw [htrim]; simp)
      (htrim.symm ▸ haccepts)
    obtain ⟨f, hall, htext, -⟩ := Finding.all_eq_singleton hc rfl rfl
    exact ⟨f, hall, htext.trans htrim⟩

/-! ## Calls that rules of both kinds know -/

/-- A statement of a pattern that begins with a call that is known in comments. -/
theorem opensCall_of_front {p : Regex} (call : String) (hp : p.front = lit call)
    (hcall : commentedCalls.Spells false call.toList) (h : p.Spells false s) : s.OpensCall [] := by
  obtain ⟨a, b, rfl, ha⟩ := exists_front_of_spells h
  rw [hp] at ha
  exact ⟨[], [], a, b, rfl, by simp, by simp, by rwa [spells_text_iff.1 ha]⟩

/-- A block comment around a text that holds what the rule filters for. -/
theorem accepts_of_filter {calls : Regex} (hfilter : b.filter = some ⟨calls, false⟩)
    (hcalls : calls.looksAround = false) (h : ∃ t, calls.Spells false t ∧ t <:+: s) :
    b.accepts ("/* ".toList ++ s ++ " */".toList) := by
  obtain ⟨t, ht, hpart⟩ := h
  rw [Rule.accepts, hfilter]
  exact occursIn_of_spells hcalls ht (hpart.trans ⟨"/* ".toList, " */".toList, rfl⟩)

theorem filter_of_slashComments (first : List Rule) {line block : String} {calls : Regex}
    (hflag : config.removeCommentedLogs)
    (hrules : rulesFor language config = first ++ slashComments config line block calls)
    (hfirst : ∀ r ∈ first, r.pattern ≠ blockComment) (hb : b ∈ rulesFor language config)
    (hblock : b.pattern = blockComment) : b.filter = some ⟨calls, false⟩ := by
  rw [hrules, slashComments, if_pos hflag] at hb
  rcases List.mem_append.1 hb with hb | hb
  · exact absurd hblock (hfirst b hb)
  · rcases List.mem_pair.1 hb with rfl | rfl
    · exact absurd hblock (commentedCall_ne_blockComment _)
    · rfl

/-- Every printing macro of Rust is one of those that block comments are filtered for, or has
one of them at its end. -/
theorem exists_of_spells_rustPrintMacro (h : rustPrintMacro.body.Spells false s) :
    ∃ t, (Regex.group (oneOf ["println!", "print!", "dbg!"])).Spells false t ∧ t <:+: s := by
  obtain ⟨a, b, rfl, ha⟩ := exists_front_of_spells h
  exact exists_spells_of_words (by simp) (by decide) ha

theorem exists_of_spells_cPrintCall (h : cPrintCall.body.Spells false s) :
    (∃ t, (Regex.group (oneOf ["printf", "fprintf"])).Spells false t ∧ t <:+: s) ∧
    ∃ t, (Regex.group (oneOf ["cout", "printf"])).Spells false t ∧ t <:+: s := by
  obtain ⟨a, b, rfl, ha⟩ := exists_front_of_spells h
  exact ⟨exists_spells_of_words (by simp) (by decide) ha,
    exists_spells_of_words (by simp) (by decide) ha⟩

theorem exists_of_spells_coutChain (h : coutChain.body.Spells false s) :
    ∃ t, (Regex.group (oneOf ["cout", "printf"])).Spells false t ∧ t <:+: s := by
  obtain ⟨_, rest, rfl, ⟨_, angles, rfl, ⟨_, gap, rfl, ⟨space, _, rfl, -, hcout⟩, -⟩, -⟩, -⟩ := h
  rw [spells_text_iff.1 hcout]
  exact ⟨"cout".toList, spells_oneOf_of_mem (by decide), space, gap ++ angles ++ rest, by simp⟩

theorem exists_of_spells_printCall (h : printCall.body.Spells false s) :
    ∃ t, (lit "print" ++ .many .blank ++ lit "(").Spells false t ∧ t <:+: s := by
  obtain ⟨_, _, rfl, hword, gap, _, rfl, hgap, hargs⟩ := h
  obtain ⟨a, b, rfl, ha⟩ := exists_front_of_spells hargs
  exact ⟨_, ⟨_, a, rfl, ⟨_, gap, rfl, hword, hgap⟩, ha⟩, [], b, by simp⟩

theorem exists_of_spells_javaStreamCall (h : javaStreamCall.body.Spells false s) :
    ∃ t, (lit "System." ++ .group (oneOf ["out", "err"]) ++ lit "."
      ++ .group (oneOf ["print", "println"])).Spells false t ∧ t <:+: s := by
  obtain ⟨_, endings, rfl, ⟨_, args, rfl, ⟨front, w, rfl, hfront, hw⟩, -⟩, -⟩ := h
  have hprint : ∀ w ∈ ["print", "println", "printf"].map String.toList, "print".toList <+: w := by
    decide
  obtain ⟨rest, rfl⟩ := hprint w (mem_of_spells_oneOf (by simp) hw)
  exact ⟨front ++ "print".toList, ⟨front, _, rfl, hfront, spells_oneOf_of_mem (by decide)⟩, [],
    rest ++ args ++ endings, by simp⟩

/-- The calls of Go, of a shell and of a console are known behind a line marker. -/
theorem opensCall_of_mem_statementRules (hr : r ∈ statementRules language config)
    (hspell : r.pattern.body.Spells r.pattern.ignoreCase s)
    (h : language ∈ ["go", "shellscript"] ∨
      r.pattern = consoleCall config.logTypes.javascript.methods) : s.OpensCall [] := by
  rcases h with h | h
  · simp only [List.mem_cons, List.not_mem_nil, or_false] at h
    rcases h with rfl | rfl
    · obtain rfl := List.mem_singleton.1 hr
      exact opensCall_of_front "fmt." rfl (spells_oneOf_of_mem (by decide)) hspell
    · obtain rfl := List.mem_singleton.1 hr
      exact opensCall_of_front "echo" rfl (spells_oneOf_of_mem (by decide)) hspell
  · rw [h] at hspell
    exact opensCall_of_front "console." rfl (spells_oneOf_of_mem (by decide)) hspell

/-- The calls of these languages are known in block comments. -/
theorem accepts_of_mem_statementRules (hflag : config.removeCommentedLogs)
    (hr : r ∈ statementRules language config)
    (hspell : r.pattern.body.Spells r.pattern.ignoreCase s)
    (h : language ∈ ["java", "rust", "swift", "dart", "c", "cpp"])
    (hb : b ∈ rulesFor language config) (hblock : b.pattern = blockComment) :
    b.accepts ("/* ".toList ++ s ++ " */".toList) := by
  simp only [List.mem_cons, List.not_mem_nil, or_false] at h
  rcases h with rfl | rfl | rfl | rfl | rfl | rfl
  · have hfilter := filter_of_slashComments [_] hflag rfl (by decide) hb hblock
    obtain rfl := List.mem_singleton.1 hr
    exact accepts_of_filter hfilter rfl (exists_of_spells_javaStreamCall hspell)
  · have hfilter := filter_of_slashComments [_] hflag rfl (by decide) hb hblock
    obtain rfl := List.mem_singleton.1 hr
    exact accepts_of_filter hfilter rfl (exists_of_spells_rustPrintMacro hspell)
  · have hfilter := filter_of_slashComments [_] hflag rfl (by decide) hb hblock
    obtain rfl := List.mem_singleton.1 hr
    exact accepts_of_filter hfilter rfl (exists_of_spells_printCall hspell)
  · have hfilter := filter_of_slashComments [_] hflag rfl (by decide) hb hblock
    obtain rfl := List.mem_singleton.1 hr
    exact accepts_of_filter hfilter rfl (exists_of_spells_printCall hspell)
  · have hfilter := filter_of_slashComments [_] hflag rfl (by decide) hb hblock
    obtain rfl := List.mem_singleton.1 hr
    exact accepts_of_filter hfilter rfl (exists_of_spells_cPrintCall hspell).1
  · have hfilter := filter_of_slashComments [_, _] hflag rfl (by decide) hb hblock
    rcases List.mem_pair.1 hr with rfl | rfl
    · exact accepts_of_filter hfilter rfl (exists_of_spells_coutChain hspell)
    · exact accepts_of_filter hfilter rfl (exists_of_spells_cPrintCall hspell).2

/-- A statement on one line, commented out as the only thing in a text.  Behind a line marker
the comment is found as one finding exactly when the statement begins with a call that is
known in comments; in a block comment it is found as one, the whole comment, exactly when
the rule for such comments accepts it.  The calls of Go, of a shell and of a console are
known behind a line marker, and those of Java, Rust, Swift, Dart, C and C++ in block
comments. -/
theorem commented_statement_found_once (hlang : language ∈ supportedLanguages)
    (hcloser : commentCloser language = "") (hflag : config.removeCommentedLogs)
    (hmethods : config.logTypes.javascript.methods ≠ []) (hr : r ∈ statementRules language config)
    (hs : r.pattern.matchesWhole s) (hline : '\n' ∉ s) (hclose : s.includes "*/".toList = false) :
    ((∃ f, findingsIn (lineMarker language ++ ' ' :: s) language config = [f] ∧
        f.startPlace = (0, 0)) ↔ s.OpensCall []) ∧
      (∀ b ∈ rulesFor language config, b.pattern = blockComment →
        ((∃ f, findingsIn ("/* ".toList ++ s ++ " */".toList) language config = [f] ∧
          f.text = "/* ".toList ++ s ++ " */".toList) ↔
          b.accepts ("/* ".toList ++ s ++ " */".toList))) ∧
      (language ∈ ["go", "shellscript"] ∨
        r.pattern = consoleCall config.logTypes.javascript.methods → s.OpensCall []) ∧
      (language ∈ ["java", "rust", "swift", "dart", "c", "cpp"] →
        ∀ b ∈ rulesFor language config, b.pattern = blockComment →
          b.accepts ("/* ".toList ++ s ++ " */".toList)) := by
  obtain ⟨inLine, inBlock, hrules⟩ := exists_commentRules_of_mem hlang hcloser hflag hmethods hr
  have hspell := spells_of_matchesWhole hs
  refine ⟨found_at_start_iff_opensCall hrules hline, fun b hb hblock => ?_, ?_, ?_⟩
  · exact found_whole_iff_accepts hrules hclose hb hblock
  · exact opensCall_of_mem_statementRules hr hspell
  · exact fun h b hb hblock => accepts_of_mem_statementRules hflag hr hspell h hb hblock

/-- A printed line of Java is known in comments of both kinds. -/
theorem commented_statement_found_once_println :
    "java" ∈ supportedLanguages ∧ commentCloser "java" = "" ∧
    ({} : Config).removeCommentedLogs ∧ ({} : Config).logTypes.javascript.methods ≠ [] ∧
    ∃ r ∈ statementRules "java" {}, r.pattern.matchesWhole "System.out.println(1);".toList ∧
      '\n' ∉ "System.out.println(1);".toList ∧
      Text.includes "System.out.println(1);".toList "*/".toList = false ∧
      (∃ f, findingsIn "// System.out.println(1);".toList "java" {} = [f] ∧
        f.startPlace = (0, 0)) ∧
      ∃ f, findingsIn "/* System.out.println(1); */".toList "java" {} = [f] ∧
        f.text = "/* System.out.println(1); */".toList := by
  have hlang : "java" ∈ supportedLanguages := by decide
  have hmethods : ({} : Config).logTypes.javascript.methods ≠ [] := by decide
  have hr : ⟨javaStreamCall, "Java System.out/err statements", 10, .singleLine, true, none⟩ ∈
      statementRules "java" {} := List.mem_cons_self
  have hs : javaStreamCall.matchesWhole "System.out.println(1);".toList := by cbv
  have hline : '\n' ∉ "System.out.println(1);".toList := by decide
  have hclose : Text.includes "System.out.println(1);".toList "*/".toList = false := by cbv
  obtain ⟨hfound, hblock, -, haccepts⟩ :=
    commented_statement_found_once hlang rfl rfl hmethods hr hs hline hclose
  have hopens : Text.OpensCall "System.out.println(1);".toList [] :=
    ⟨[], [], "System.out".toList, ".println(1);".toList, rfl, by simp, by simp,
      spells_oneOf_of_mem (by decide)⟩
  have hb : blockCommentRule "Block commented System.out statements"
      (lit "System." ++ .group (oneOf ["out", "err"]) ++ lit "."
        ++ .group (oneOf ["print", "println"])) ∈ rulesFor "java" {} :=
    List.mem_cons_of_mem _ (List.mem_cons_of_mem _ List.mem_cons_self)
  exact ⟨hlang, rfl, rfl, hmethods, _, hr, hs, hline, hclose, hfound.2 hopens,
    (hblock _ hb rfl).2 (haccepts (by decide) _ hb rfl)⟩

/-- A commented `printf` of C is not known behind a line marker, nor a commented
`console.table` in a block comment: the call inside is found. -/
theorem commented_printf_found_inside :
    (∃ r ∈ statementRules "c" {}, r.pattern.matchesWhole "printf(1);".toList ∧
      ∃ f, findingsIn "// printf(1);".toList "c" {} = [f] ∧ f.startPlace = (0, 3) ∧
        f.text = "printf(1);".toList) ∧
    ∃ r ∈ statementRules "javascript" {}, r.pattern.matchesWhole "console.table(1);".toList ∧
      ∃ f, findingsIn "/* console.table(1); */".toList "javascript" {} = [f] ∧
        f.startPlace = (0, 3) ∧ f.text = "console.table(1);".toList := by
  have hline : findingsIn "// printf(1);".toList "c" {} = [
      { text := "printf(1);".toList, startLine := 0, endLine := 0, startChar := 3,
        endChar := 13, description := "C printf/fprintf statements", priority := 10,
        keep := false }] := by cbv
  have hblock : findingsIn "/* console.table(1); */".toList "javascript" {} = [
      { text := "console.table(1);".toList, startLine := 0, endLine := 0, startChar := 3,
        endChar := 20, description := "JavaScript console.* statements", priority := 10,
        keep := false }] := by cbv
  have hprintf : cPrintCall.matchesWhole "printf(1);".toList := by cbv
  have htable : (consoleCall (({} : Config).logTypes.javascript.methods)).matchesWhole
      "console.table(1);".toList := by cbv
  exact ⟨⟨_, List.mem_cons_self, hprintf, _, hline, rfl, rfl⟩,
    _, List.mem_cons_self, htable, _, hblock, rfl, rfl⟩

end LogPrune
