import LogPrune.Proofs.Clean.CommentedOut
import LogPrune.Proofs.Clean.Found
import LogPrune.Proofs.Finding.LineComment

/-!
# LogPrune.Proofs.Clean.CommentLines

Lines of comments, when commented calls are not to be removed.

The rules then have no patterns for comments, so that no hit begins like one
(`not_mark_of_mem_hitsIn`).  The patterns for calls go on to hit inside comments:
a line of a comment is left alone exactly when all calls that are hit in the
comment are protected (`comment_line_left_alone`), and a comment that is nothing but
a call loses it (`commented_call_removed`).
-/

namespace LogPrune

/-! ## Rules without comments -/

/-- Whether a character occurs in a comment marker. -/
def isMark (c : Char) : Bool := commentMarkers.any (·.toList.contains c)

theorem foldCase_of_isMark {c : Char} (h : isMark c) : foldCase c = c := by
  have hall : ∀ x ∈ ['/', '*', '<', '!', '-', '#', '-'], foldCase x = x := by
    simp [foldCase]
  apply hall
  simpa [isMark, commentMarkers, or_assoc] using h

theorem not_isMark_of_foldCase (c : Char) (h : !isMark (foldCase c)) : !isMark c := by
  by_contra hmark
  rw [foldCase_of_isMark (by simpa using hmark)] at h
  exact hmark h

/-- No match of the rule begins like a comment. -/
structure Rule.OpensNoComment (r : Rule) : Prop where
  opens : r.pattern.body.opensWith fun c => !isMark c

namespace Ruleset

variable {config : Config} {r : Rule}

theorem slashComments_off (hflag : config.removeCommentedLogs = false) (inLine inBlock : String)
    (calls : Regex) : slashComments config inLine inBlock calls = [] := by
  rw [slashComments, hflag]; rfl

theorem markerComments_off (hflag : config.removeCommentedLogs = false)
    (marker description : String) : markerComments config marker description = [] := by
  rw [markerComments, hflag]; rfl

theorem takesComments_off (hflag : config.removeCommentedLogs = false) :
    ¬ takesComments config := by
  simp [takesComments, hflag]

/-- Of a rule and the rules for commented calls only the first one is left. -/
theorem opensNoComment_of_mem_cons (hflag : config.removeCommentedLogs = false) {first : Rule}
    (hfirst : first.OpensNoComment) (h : r ∈ first :: slashComments config inLine inBlock calls) :
    r.OpensNoComment := by
  rw [slashComments_off hflag] at h
  obtain rfl := List.mem_singleton.1 h
  exact hfirst

theorem opensNoComment_of_mem_cons_marker (hflag : config.removeCommentedLogs = false)
    {first : Rule} (hfirst : first.OpensNoComment)
    (h : r ∈ first :: markerComments config marker description) : r.OpensNoComment := by
  rw [markerComments_off hflag] at h
  obtain rfl := List.mem_singleton.1 h
  exact hfirst

theorem opensNoComment_consoleRules (hflag : config.removeCommentedLogs = false)
    (h : r ∈ consoleRules description config) : r.OpensNoComment := by
  simp only [consoleRules, slashComments_off hflag, ite_self, List.append_nil,
    List.mem_append] at h
  rcases h with h | h
  · split at h
    · contradiction
    · obtain rfl := List.mem_singleton.1 h
      exact ⟨rfl⟩
  · split at h
    · obtain rfl := List.mem_singleton.1 h
      exact ⟨rfl⟩
    · contradiction

theorem opensNoComment_python (hflag : config.removeCommentedLogs = false)
    (h : r ∈ python.rules config) : r.OpensNoComment := by
  simp only [python] at h
  split at h
  · exact opensNoComment_of_mem_cons_marker hflag ⟨rfl⟩ h
  · contradiction

theorem opensNoComment_cpp (hflag : config.removeCommentedLogs = false)
    (h : r ∈ cpp.rules config) : r.OpensNoComment := by
  rcases List.mem_cons.1 h with rfl | h
  · exact ⟨rfl⟩
  · exact opensNoComment_of_mem_cons hflag ⟨rfl⟩ h

theorem opensNoComment_html (hflag : config.removeCommentedLogs = false)
    (h : r ∈ html.rules config) : r.OpensNoComment := by
  simp only [html, if_neg (takesComments_off hflag), List.append_nil] at h
  split at h
  · obtain rfl := List.mem_singleton.1 h
    exact ⟨rfl⟩
  · contradiction

/-- The rules of style sheets and of Markdown are for comments only. -/
theorem not_mem_of_takesComments {rules : List Rule}
    (hflag : config.removeCommentedLogs = false) :
    r ∉ if takesComments config then rules else [] := by
  rw [if_neg (takesComments_off hflag)]
  exact List.not_mem_nil

/-- When commented calls are not to be removed, no match of any rule begins like a
comment. -/
theorem opensNoComment_of_mem_rules {ruleset : Ruleset} (hmem : ruleset ∈ registry)
    (hflag : config.removeCommentedLogs = false) (h : r ∈ ruleset.rules config) :
    r.OpensNoComment := by
  simp only [registry, List.mem_cons, List.not_mem_nil, or_false] at hmem
  rcases hmem with rfl | rfl | rfl | rfl | rfl | rfl | rfl | rfl | rfl | rfl | rfl | rfl | rfl |
    rfl | rfl | rfl | rfl | rfl | rfl | rfl
  · exact opensNoComment_consoleRules hflag h
  · exact opensNoComment_consoleRules hflag h
  · exact opensNoComment_python hflag h
  · exact opensNoComment_of_mem_cons hflag ⟨rfl⟩ h
  · exact opensNoComment_of_mem_cons hflag ⟨rfl⟩ h
  · exact opensNoComment_of_mem_cons hflag ⟨rfl⟩ h
  · exact opensNoComment_of_mem_cons hflag ⟨rfl⟩ h
  · exact opensNoComment_of_mem_cons hflag ⟨rfl⟩ h
  · exact opensNoComment_of_mem_cons hflag ⟨rfl⟩ h
  · exact opensNoComment_of_mem_cons hflag ⟨rfl⟩ h
  · exact opensNoComment_cpp hflag h
  · exact opensNoComment_of_mem_cons_marker hflag ⟨rfl⟩ h
  · exact opensNoComment_of_mem_cons hflag ⟨rfl⟩ h
  · exact opensNoComment_of_mem_cons_marker hflag ⟨rfl⟩ h
  · exact opensNoComment_of_mem_cons_marker hflag ⟨rfl⟩ h
  · exact opensNoComment_html hflag h
  · exact absurd h (not_mem_of_takesComments hflag)
  · exact absurd h (not_mem_of_takesComments hflag)
  · exact absurd h (not_mem_of_takesComments hflag)
  · exact absurd h (not_mem_of_takesComments hflag)

end Ruleset

/-! ## Hits in comments -/

variable {content line : Text} {language : String} {config : Config} {cleaned : Cleaned}
  {c : Finding} {i : Nat}

theorem opensNoComment_of_mem_rulesFor (hflag : config.removeCommentedLogs = false) {r : Rule}
    (h : r ∈ rulesFor language config) : r.OpensNoComment := by
  cases hlang : Ruleset.forLanguage? language with
  | none => rw [rulesFor, hlang] at h; contradiction
  | some ruleset =>
      rw [rulesFor, hlang] at h
      exact Ruleset.opensNoComment_of_mem_rules (List.mem_of_find?_eq_some hlang) hflag h

/-- When commented calls are not to be removed, no hit begins like a comment. -/
theorem not_mark_of_mem_hitsIn (hflag : config.removeCommentedLogs = false)
    (hc : c ∈ hitsIn content language config) :
    ∃ x xs, c.text = x :: xs ∧ isMark x = false := by
  obtain ⟨k, hk, rfl⟩ := List.mem_map.1 hc
  obtain ⟨x, xs, htext, hx⟩ := Candidate.kind_of_mem_all not_isMark_of_foldCase
    (fun r hr => (opensNoComment_of_mem_rulesFor hflag hr).opens) hk
  exact ⟨x, xs, htext, by simpa using hx⟩

theorem isMark_of_mem {marker : Text} (hmarker : marker ∈ commentMarkers.map String.toList)
    {x : Char} (hx : x ∈ marker) : isMark x := by
  obtain ⟨m, hm, rfl⟩ := List.mem_map.1 hmarker
  exact List.any_eq_true.2 ⟨m, hm, List.contains_iff_mem.2 hx⟩

/-- When commented calls are not to be removed, no hit is a comment. -/
theorem not_isComment_of_mem_hitsIn (hflag : config.removeCommentedLogs = false)
    (hc : c ∈ hitsIn content language config) : isComment c.text = false := by
  obtain ⟨x, xs, htext, hmark⟩ := not_mark_of_mem_hitsIn hflag hc
  obtain ⟨x', xs', -, -, -, -, htext', hcode, -⟩ :=
    Finding.exists_line_of_mem_candidates (fun r hr => wellFormed_of_mem_rulesFor hr) hc
  obtain ⟨rfl, rfl⟩ := List.cons.inj (htext.symm.trans htext')
  have hblank : ¬ isBlank x := by simp [isBlank_of_isCode hcode]
  rw [htext, isComment, Text.trimStart, List.dropWhile_cons_of_neg hblank, List.any_eq_false]
  intro m hm hprefix
  obtain ⟨hne, -⟩ := marker_spec (List.mem_map_of_mem hm)
  obtain ⟨y, ys, hy⟩ := List.exists_cons_of_ne_nil hne
  obtain ⟨rest, hrest⟩ := List.isPrefixOf_iff_prefix.1 hprefix
  rw [hy] at hrest
  obtain ⟨rfl, -⟩ := List.cons.inj hrest
  have := isMark_of_mem (List.mem_map_of_mem hm) (by rw [hy]; exact List.mem_cons_self)
  rw [hmark] at this
  contradiction

/-- What is hit on a line of a comment is code, behind the marker. -/
theorem exists_behind_marker (hflag : config.removeCommentedLogs = false)
    (hc : c ∈ hitsIn content language config) (hline : content.lines[c.startLine]? = some line)
    (hcomment : lineMarker language <+: Text.trim line) :
    ∃ blanks behind, line = blanks ++ lineMarker language ++ behind ∧
      (∀ x ∈ blanks, isBlank x) ∧ Text.size (blanks ++ lineMarker language) ≤ c.startChar := by
  obtain ⟨x, xs, htext, hmark⟩ := not_mark_of_mem_hitsIn hflag hc
  have hsplit : line.takeWhile isBlank ++ Text.trimStart line = line :=
    List.takeWhile_append_dropWhile
  have hblanks : ∀ y ∈ line.takeWhile isBlank, isBlank y := List.all_eq_true.1 List.all_takeWhile
  rw [← hsplit] at hline
  obtain ⟨x', xs', left, right, above, below, htext', -, hrest, -, hstart, -⟩ :=
    Finding.exists_behind_blanks (fun r hr => wellFormed_of_mem_rulesFor hr) hc hline hblanks
  obtain ⟨rfl, rfl⟩ := List.cons.inj (htext.symm.trans htext')
  obtain ⟨behind, hbehind⟩ : lineMarker language <+: Text.trimStart line := by
    obtain ⟨b, hb, -⟩ := Text.exists_append_of_trimEnd (Text.trimStart line)
    exact hcomment.trans ⟨b, hb.symm⟩
  refine ⟨_, behind, by rw [List.append_assoc, hbehind, hsplit], hblanks, ?_⟩
  -- the hit starts with no character of the marker
  have hleft : lineMarker language <+: left := by
    rcases List.append_eq_append_iff.1 (hbehind.trans hrest) with ⟨m, hm, -⟩ | ⟨m, hm, hx'⟩
    · exact ⟨m, hm.symm⟩
    · cases m with
      | nil => exact ⟨[], by simpa using hm⟩
      | cons y m =>
          obtain ⟨rfl, -⟩ := List.cons.inj hx'
          have := isMark_of_mem (lineMarker_spec language).1 (x := x) (by rw [hm]; simp)
          rw [hmark] at this
          contradiction
  obtain ⟨m, rfl⟩ := hleft
  rw [(Prod.mk.inj hstart).2, ← List.append_assoc, Text.size_append _ m]
  exact Nat.le_add_right ..

/-! ## What becomes of a line -/

/-- What cleaning makes of the line with a number, if anything is left of it. -/
def lineLeft? (mode : Mode) (language : String) (lines : List Text) (fs : List Finding)
    (i : Nat) : Option Text :=
  match mode with
  | .delete => Finding.erased? lines fs i
  | .comment => (commentFindings language fs lines)[i]?
  | .preview => lines[i]?

theorem newContent_eq_linesLeft (h : clean? content language config = some cleaned) :
    cleaned.newContent = .unlines ((List.range content.lines.length).filterMap
      (lineLeft? config.mode language content.lines cleaned.findings)) := by
  have hself : ∀ lines : List Text, (List.range lines.length).filterMap (lines[·]?) = lines := by
    intro lines
    rw [Finding.filterMap_range_eq_take (Nat.le_refl _) fun _ _ => rfl, List.take_length]
  cases hmode : config.mode with
  | delete => exact newContent_of_delete h hmode
  | comment =>
      rw [← Text.unlines_lines cleaned.newContent, lines_of_comment h hmode]
      conv_lhs => rw [← hself (commentFindings language cleaned.findings content.lines)]
      rw [length_commentFindings]
      rfl
  | preview =>
      obtain ⟨ruleset, -, rfl⟩ := exists_ruleset_of_clean? h
      rw [hmode]
      show content = Text.unlines ((List.range content.lines.length).filterMap (content.lines[·]?))
      rw [hself, Text.unlines_lines]

/-- Statements on one line each leave a line as it is exactly when none of them is
on it. -/
theorem lineLeft?_eq_self_iff (h : clean? content language config = some cleaned)
    (hmode : config.mode = .delete ∨ config.mode = .comment)
    (hone : ∀ f ∈ cleaned.findings, f.onOneLine)
    (hlive : ∀ f ∈ cleaned.findings, isComment f.text = false)
    (hline : content.lines[i]? = some line) :
    lineLeft? config.mode language content.lines cleaned.findings i = some line ↔
      ∀ f ∈ cleaned.findings, f.covers i = false := by
  rcases hmode with hmode | hmode
  · have horderly := orderly_of_clean? h
    have hapart : cleaned.findings.Pairwise Finding.KeepsApart :=
      List.pairwise_of_forall_mem_list fun f hf g hg _ _ _ => ⟨hone f hf, hone g hg⟩
    rw [hmode, lineLeft?]
    constructor
    · intro hself f hf
      rw [Bool.eq_false_iff]
      intro hcovers
      obtain rfl := (Finding.covers_of_onOneLine (hone f hf)).1 hcovers
      have hlt := horderly.bytesLeft_erased?_lt hapart hf (hone f hf)
      rw [hself, hline] at hlt
      exact Nat.lt_irrefl _ hlt
    · intro hnot
      rw [horderly.erased?_eq_remnant? (horderly.not_stray_of_keepsApart hapart),
        Finding.remnant?_of_not_covers hnot, hline]
  · have hall : liveFindings cleaned.findings = cleaned.findings :=
      List.filter_eq_self.2 fun f hf => by simp [hlive f hf]
    rw [hmode, lineLeft?, getElem?_commentFindings, hall, hline, Option.map_some,
      Option.some.injEq]
    have hne := commentOut_ne (commentOpener_spec language).1 (commentCloser language).toList line
    split
    · next hcovers =>
      obtain ⟨f, hf, hfi⟩ := List.any_eq_true.1 hcovers
      exact iff_of_false hne fun hnot => by simp [hnot f hf] at hfi
    · next hcovers => exact iff_of_true rfl (by simpa using hcovers)

/-- No statement reported stands on a line exactly when all hits on it start in
statements that are kept. -/
theorem not_covers_iff_hits_kept (h : clean? content language config = some cleaned)
    (hone : ∀ f ∈ cleaned.findings, f.onOneLine) :
    (∀ f ∈ cleaned.findings, f.covers i = false) ↔
      ∀ c ∈ hitsIn content language config, c.startLine = i →
        ∃ k ∈ findingsIn content language config, k.keep ∧ c.StartsIn k := by
  constructor
  · rintro hnot c hc rfl
    obtain ⟨f, hf, hcf⟩ := exists_mem_findingsIn hc
    refine ⟨f, hf, ?_, hcf⟩
    by_contra hkeep
    have hmem := (mem_findings_iff h).2 ⟨hf, by simpa using hkeep⟩
    have hcovers := Finding.covers_of_noLater hcf.1 hcf.2
    rw [show c.startPlace.1 = c.startLine from rfl, hnot f hmem] at hcovers
    contradiction
  · intro hhits f hf
    rw [Bool.eq_false_iff]
    intro hcovers
    obtain ⟨hfound, hkeep⟩ := (mem_findings_iff h).1 hf
    obtain ⟨k, hk, hkkeep, hfk⟩ := hhits f (mem_hitsIn hfound)
      ((Finding.covers_of_onOneLine (hone f hf)).1 hcovers)
    rw [← eq_of_startsIn_findingsIn hfound hk hfk, hkeep] at hkkeep
    contradiction

/-- Comments, when commented calls are not to be removed and the statements
reported stand on one line each.  A line that begins with a comment marker stays as
it is exactly when none of them is on it, and this is so exactly when all that is
hit on it, behind the marker, is protected. -/
theorem comment_line_left_alone {content : Text} {language : String} {config : Config}
    (hlang : language ∈ Ruleset.supportedLanguages)
    (hmode : config.mode = .delete ∨ config.mode = .comment)
    (hflag : config.removeCommentedLogs = false) :
    ∃ cleaned, clean? content language config = some cleaned ∧
      cleaned.newContent = .unlines ((List.range content.lines.length).filterMap
        (lineLeft? config.mode language content.lines cleaned.findings)) ∧
      ((∀ f ∈ cleaned.findings, f.onOneLine) →
        ∀ i line, content.lines[i]? = some line → lineMarker language <+: Text.trim line →
          (lineLeft? config.mode language content.lines cleaned.findings i = some line ↔
            ∀ f ∈ cleaned.findings, f.covers i = false) ∧
          ((∀ f ∈ cleaned.findings, f.covers i = false) ↔
            ∀ c ∈ hitsIn content language config, c.startLine = i →
              ∃ k ∈ findingsIn content language config, k.keep ∧ c.StartsIn k) ∧
          ∀ c ∈ hitsIn content language config, c.startLine = i → isComment c.text = false ∧
            ∃ blanks behind, line = blanks ++ lineMarker language ++ behind ∧
              (∀ x ∈ blanks, isBlank x) ∧
              Text.size (blanks ++ lineMarker language) ≤ c.startChar) := by
  obtain ⟨cleaned, h⟩ := exists_clean? content config hlang
  refine ⟨cleaned, h, newContent_eq_linesLeft h, fun hone i line hline hcomment => ?_⟩
  refine ⟨lineLeft?_eq_self_iff h hmode hone ?_ hline, not_covers_iff_hits_kept h hone, ?_⟩
  · intro f hf
    exact not_isComment_of_mem_hitsIn hflag (mem_hitsIn ((mem_findings_iff h).1 hf).1)
  · rintro c hc rfl
    exact ⟨not_isComment_of_mem_hitsIn hflag hc, exists_behind_marker hflag hc hline hcomment⟩

/-- A comment without a call stays, whatever is removed below it. -/
theorem comment_line_left_alone_above_call :
    "javascript" ∈ Ruleset.supportedLanguages ∧
    ∃ cleaned, clean? "// a note\nconsole.log(1);\nrun();".toList "javascript"
        { mode := .delete, removeCommentedLogs := false } = some cleaned ∧
      cleaned.newContent = "// a note\nrun();".toList ∧ cleaned.removed = 1 ∧
      lineLeft? .delete "javascript"
        (Text.lines "// a note\nconsole.log(1);\nrun();".toList) cleaned.findings 0 =
          some "// a note".toList ∧
      ∀ f ∈ cleaned.findings, f.covers 0 = false := by
  have hlang : "javascript" ∈ Ruleset.supportedLanguages := by decide
  have h : clean? "// a note\nconsole.log(1);\nrun();".toList "javascript"
      { mode := .delete, removeCommentedLogs := false } = some
      { newContent := "// a note\nrun();".toList
        findings := [
          { text := "console.log(1);".toList, startLine := 1, endLine := 1, startChar := 0,
            endChar := 15, description := "JavaScript console.* statements", priority := 10,
            keep := false }]
        kept := 0, removed := 1, commented := 0 } := by cbv
  have hhits : hitsIn "// a note\nconsole.log(1);\nrun();".toList "javascript"
      { mode := .delete, removeCommentedLogs := false } = [
        { text := "console.log(1);".toList, startLine := 1, endLine := 1, startChar := 0,
          endChar := 15, description := "JavaScript console.* statements", priority := 10,
          keep := false }] := by cbv
  obtain ⟨cleaned, hcleaned, -, hleft⟩ := @comment_line_left_alone
    "// a note\nconsole.log(1);\nrun();".toList "javascript"
    { mode := .delete, removeCommentedLogs := false } hlang (.inl rfl) rfl
  obtain rfl := Option.some.inj (hcleaned.symm.trans h)
  obtain ⟨hself, hkept, -⟩ := hleft (by decide) 0 "// a note".toList rfl (by decide)
  have hnot := hkept.2 fun c hc hzero => by
    rw [hhits] at hc
    obtain rfl := List.mem_singleton.1 hc
    exact absurd hzero (by decide)
  exact ⟨hlang, _, h, rfl, rfl, hself.2 hnot, hnot⟩

/-- A call is removed from the comment in which it was commented out. -/
theorem commented_call_removed :
    ∃ cleaned, clean? "// console.log(1);\nrun();".toList "javascript"
        { mode := .delete, removeCommentedLogs := false } = some cleaned ∧
      (∀ f ∈ cleaned.findings, f.onOneLine) ∧
      lineMarker "javascript" <+: Text.trim "// console.log(1);".toList ∧
      cleaned.newContent = "// \nrun();".toList ∧
      ∃ f ∈ cleaned.findings, f.covers 0 := by
  have h : clean? "// console.log(1);\nrun();".toList "javascript"
      { mode := .delete, removeCommentedLogs := false } = some
      { newContent := "// \nrun();".toList
        findings := [
          { text := "console.log(1);".toList, startLine := 0, endLine := 0, startChar := 3,
            endChar := 18, description := "JavaScript console.* statements", priority := 10,
            keep := false }]
        kept := 0, removed := 1, commented := 0 } := by cbv
  exact ⟨_, h, by decide, by decide, rfl, _, List.mem_singleton.2 rfl, by decide⟩

end LogPrune
