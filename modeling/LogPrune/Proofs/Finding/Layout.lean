import LogPrune.Finding
import LogPrune.Proofs.Pattern.Opening

/-!
# LogPrune.Proofs.Finding.Layout

How the findings of a text lie in it.

1. Every candidate stands in the text where it says it does, and the ones
   accepted do not overlap (`pairwise_accepted`).
2. A text with findings is a sequence of gaps and findings, and the lines and
   characters of a finding are the places that the text before its start and
   before its end lead to (`laid_all`).  `Laid` says this with one clause a
   finding, so that what holds of all findings follows by induction on them.
3. Of two findings the first one ends before the second one starts
   (`pairwise_before`), and a finding on one line is cut out of that line by its
   characters (`Laid.fitsIn`).
-/

namespace LogPrune

/-! ## Candidates -/

namespace Candidate

/-- A candidate stands in a text, at its offset. -/
def StandsIn (content : Text) (c : Candidate) : Prop :=
  ∃ a b, content = a ++ c.text ++ b ∧ c.start = Text.size a

/-- A candidate is not empty, and its last character is not blank. -/
def EndsSolid (c : Candidate) : Prop := ∃ s x, c.text = s ++ [x] ∧ isBlank x = false

theorem mem_all {content : Text} {rules : List Rule} {c : Candidate}
    (h : c ∈ all content rules) :
    ∃ rule ∈ rules, ∃ hit ∈ rule.pattern.hits content, ofHit? rule hit = some c := by
  simpa [all] using h

/-- What a hit becomes a candidate with. -/
theorem of_ofHit? {rule : Rule} {h : Hit} {c : Candidate} (hc : ofHit? rule h = some c) :
    c.start = h.start ∧ c.text = Text.trimEnd h.text ∧ c.rule = rule ∧ c.text ≠ [] := by
  rw [ofHit?] at hc
  split at hc
  · contradiction
  · next hne =>
    split at hc
    · obtain rfl := Option.some.inj hc
      exact ⟨rfl, rfl, rfl, hne⟩
    · contradiction

/-- A hit stands in its text also without the blanks at its end. -/
theorem standsIn_of_mem_hits {content : Text} {rule : Rule} {hit : Hit}
    (h : hit ∈ rule.pattern.hits content) :
    StandsIn content ⟨hit.start, Text.trimEnd hit.text, rule⟩ := by
  obtain ⟨a, b, hcontent, ha, -⟩ := Pattern.exists_of_mem_hits h
  obtain ⟨blanks, hblanks, -⟩ := Text.exists_append_of_trimEnd hit.text
  refine ⟨a, blanks ++ b, ?_, ha⟩
  rw [hcontent]
  conv_lhs => rw [hblanks]
  simp

theorem standsIn_of_mem_all {content : Text} {rules : List Rule} {c : Candidate}
    (h : c ∈ all content rules) : c.StandsIn content := by
  obtain ⟨rule, -, hit, hhit, hc⟩ := mem_all h
  obtain ⟨hstart, htext, -, -⟩ := of_ofHit? hc
  rw [StandsIn, hstart, htext]
  exact standsIn_of_mem_hits hhit

theorem endsSolid_of_mem_all {content : Text} {rules : List Rule} {c : Candidate}
    (h : c ∈ all content rules) : c.EndsSolid := by
  obtain ⟨rule, -, hit, -, hc⟩ := mem_all h
  obtain ⟨-, htext, -, hne⟩ := of_ofHit? hc
  refine ⟨c.text.dropLast, c.text.getLast hne, (List.dropLast_concat_getLast hne).symm, ?_⟩
  apply Text.not_isBlank_of_trimEnd (t := hit.text) (s := c.text.dropLast)
  rw [← htext, List.dropLast_concat_getLast hne]

/-- Candidates of rules begin with a character of the kind with which the patterns
open. -/
theorem kind_of_mem_all {content : Text} {rules : List Rule} {kind : Char → Bool}
    (hfold : ∀ c, kind (foldCase c) → kind c)
    (hrules : ∀ r ∈ rules, r.pattern.body.opensWith kind) {c : Candidate}
    (h : c ∈ all content rules) : ∃ x xs, c.text = x :: xs ∧ kind x := by
  obtain ⟨rule, hrule, hit, hhit, hc⟩ := mem_all h
  obtain ⟨-, htext, -, hne⟩ := of_ofHit? hc
  obtain ⟨-, -, -, -, hspell⟩ := Pattern.exists_of_mem_hits hhit
  obtain ⟨x, xs, hx⟩ := List.exists_cons_of_ne_nil hne
  obtain ⟨blanks, hblanks, -⟩ := Text.exists_append_of_trimEnd hit.text
  rw [← htext, hx, List.cons_append] at hblanks
  rw [hblanks] at hspell
  exact ⟨x, xs, hx, Regex.kind_of_spells hfold (hrules rule hrule) hspell⟩

/-- Candidates of well-formed rules begin with a character of code. -/
theorem isCode_of_mem_all {content : Text} {rules : List Rule}
    (hrules : ∀ r ∈ rules, r.WellFormed) {c : Candidate} (h : c ∈ all content rules) :
    ∃ x xs, c.text = x :: xs ∧ isCode x :=
  kind_of_mem_all (fun _ => isCode_of_foldCase) (fun r hr => (hrules r hr).opens) h

theorem rule_of_mem_all {content : Text} {rules : List Rule} {c : Candidate}
    (h : c ∈ all content rules) : c.rule ∈ rules := by
  obtain ⟨rule, hrule, hit, -, hc⟩ := mem_all h
  obtain ⟨-, -, rfl, -⟩ := of_ofHit? hc
  exact hrule

/-! ## Acceptance -/

theorem accepted_sublist (covered : Nat) (cs : List Candidate) :
    (accepted covered cs).Sublist cs := by
  induction cs generalizing covered with
  | nil => exact .slnil
  | cons c cs ih =>
      rw [accepted]
      split
      · exact .cons c (ih covered)
      · exact .cons_cons c (ih c.stop)

/-- Accepted candidates start where the text is not covered yet, and do not
overlap. -/
theorem pairwise_accepted (covered : Nat) (cs : List Candidate) :
    (∀ c ∈ accepted covered cs, covered ≤ c.start) ∧
      (accepted covered cs).Pairwise (·.stop ≤ ·.start) := by
  induction cs generalizing covered with
  | nil => exact ⟨by simp [accepted], by simp [accepted]⟩
  | cons c cs ih =>
      rw [accepted]
      split
      · exact ih covered
      · next hle =>
        obtain ⟨hstart, hpair⟩ := ih c.stop
        refine ⟨?_, List.pairwise_cons.2 ⟨hstart, hpair⟩⟩
        intro d hd
        rcases List.mem_cons.1 hd with rfl | hd
        · omega
        · have hstop : c.start ≤ c.stop := Nat.le_add_right ..
          have := hstart d hd
          omega

end Candidate

/-! ## Places -/

namespace Finding

/-- The place where a finding starts: a line and an offset within it. -/
def startPlace (f : Finding) : Nat × Nat := (f.startLine, f.startChar)

/-- The place just behind a finding. -/
def endPlace (f : Finding) : Nat × Nat := (f.endLine, f.endChar)

/-- The findings lie one behind the other in a text that begins at a place:
behind a gap comes the first one, and the others lie in what follows it. -/
def Laid (p : Nat × Nat) (t : Text) : List Finding → Prop
  | [] => True
  | f :: fs => ∃ gap rest, t = gap ++ f.text ++ rest ∧
      f.startPlace = Text.advance p gap ∧ f.endPlace = Text.advance p (gap ++ f.text) ∧
      Laid (Text.advance p (gap ++ f.text)) rest fs

/-- The places of a finding are those that the texts up to its start and up to
its end lead to. -/
theorem places_of_ofCandidate {content a b : Text} (tags : List String) {c : Candidate}
    (hcontent : content = a ++ c.text ++ b) (hstart : c.start = Text.size a) (hend : c.EndsSolid) :
    let f := ofCandidate tags content.lines (content.lines.map Text.size) c
    f.startPlace = Text.advance (0, 0) a ∧ f.endPlace = Text.advance (0, 0) (a ++ c.text) := by
  intro f
  obtain ⟨s, x, htext, hx⟩ := hend
  have hnewline : x ≠ '\n' := by
    rintro rfl
    exact absurd hx (by decide)
  have hpos := x.utf8Size_pos
  constructor
  · have h := Text.locate_size a (c.text ++ b) (.inl (rfl : 0 = 0))
    rw [← List.append_assoc, ← hcontent, ← hstart] at h
    exact h
  · have h := Text.locate_size (a ++ s) (x :: b) (k := x.utf8Size - 1)
      (.inr ⟨x, b, rfl, hnewline, Nat.sub_le ..⟩)
    have hjoin : a ++ s ++ x :: b = content := by rw [hcontent, htext]; simp
    have hstop : Text.size (a ++ s) + (x.utf8Size - 1) = c.stop - 1 := by
      rw [Candidate.stop, hstart, htext]
      simp only [Text.size_append, Text.size_cons, Text.size_nil]
      omega
    rw [hjoin, hstop] at h
    have hend : f.endPlace = ((Text.advance (0, 0) (a ++ s)).1,
        (Text.advance (0, 0) (a ++ s)).2 + (x.utf8Size - 1) + 1) := by
      show (Prod.fst (Text.locate _ (c.stop - 1)), Prod.snd (Text.locate _ (c.stop - 1)) + 1) = _
      rw [h]
    rw [hend, htext, ← List.append_assoc, Text.advance_append _ (a ++ s) [x],
      Text.advance, if_neg hnewline, Text.advance]
    congr 1
    omega

/-- Candidates that do not overlap and stand in what follows a beginning are
laid there. -/
theorem laid_map {content : Text} {tags : List String} {cs : List Candidate} {a t : Text}
    (hcontent : content = a ++ t) (hstands : ∀ c ∈ cs, c.StandsIn content)
    (hend : ∀ c ∈ cs, c.EndsSolid) (hstart : ∀ c ∈ cs, Text.size a ≤ c.start)
    (hpair : cs.Pairwise (·.stop ≤ ·.start)) :
    Laid (Text.advance (0, 0) a) t
      (cs.map (ofCandidate tags content.lines (content.lines.map Text.size))) := by
  induction cs generalizing a t with
  | nil => trivial
  | cons c cs ih =>
      obtain ⟨b, rest, hb, hcb⟩ := hstands c List.mem_cons_self
      have hjoin : a ++ t = b ++ (c.text ++ rest) := by rw [← hcontent, hb]; simp
      obtain ⟨gap, rfl, ht⟩ := Text.exists_append_of_size_le hjoin
        (by have := hstart c List.mem_cons_self; omega)
      obtain ⟨hs, he⟩ := places_of_ofCandidate tags hb hcb (hend c List.mem_cons_self)
      obtain ⟨hstop, hpair⟩ := List.pairwise_cons.1 hpair
      have hrest := ih (a := a ++ gap ++ c.text) (t := rest) hb
        (fun d hd => hstands d (List.mem_cons_of_mem _ hd))
        (fun d hd => hend d (List.mem_cons_of_mem _ hd))
        (fun d hd => by
          have := hstop d hd
          rw [Candidate.stop] at this
          rw [Text.size_append]
          omega)
        hpair
      have hadv : Text.advance (0, 0) (a ++ gap ++ c.text) =
          Text.advance (Text.advance (0, 0) a) (gap ++ c.text) := by
        rw [List.append_assoc, Text.advance_append]
      refine ⟨gap, rest, by rw [ht]; simp [ofCandidate], ?_, ?_, ?_⟩
      · rw [hs, Text.advance_append]
      · rw [he, hadv]; rfl
      · rw [hadv] at hrest
        exact hrest

theorem mem_all {content : Text} {rules : List Rule} {tags : List String} {f : Finding}
    (h : f ∈ all content rules tags) :
    ∃ c ∈ Candidate.all content rules,
      f = ofCandidate tags content.lines (content.lines.map Text.size) c := by
  obtain ⟨c, hc, rfl⟩ := List.mem_map.1 h
  exact ⟨c, List.mem_mergeSort.1 ((Candidate.accepted_sublist _ _).mem hc), rfl⟩

/-- The findings of a text are laid in it. -/
theorem laid_all (content : Text) (rules : List Rule) (tags : List String) :
    Laid (0, 0) content (all content rules tags) := by
  have hmem : ∀ c ∈ Candidate.accepted 0
      ((Candidate.all content rules).mergeSort Candidate.ranksBefore),
      c ∈ Candidate.all content rules := fun c hc =>
    List.mem_mergeSort.1 ((Candidate.accepted_sublist _ _).mem hc)
  exact laid_map (a := []) rfl
    (fun c hc => Candidate.standsIn_of_mem_all (hmem c hc))
    (fun c hc => Candidate.endsSolid_of_mem_all (hmem c hc))
    (fun c _ => Nat.zero_le _)
    (Candidate.pairwise_accepted 0 _).2

/-- The text of a finding of well-formed rules begins with a character of
code. -/
theorem isCode_of_mem_all {content : Text} {rules : List Rule} {tags : List String}
    (hrules : ∀ r ∈ rules, r.WellFormed) {f : Finding} (h : f ∈ all content rules tags) :
    ∃ x xs, f.text = x :: xs ∧ isCode x := by
  obtain ⟨c, hc, rfl⟩ := mem_all h
  exact Candidate.isCode_of_mem_all hrules hc

/-- The text of a finding ends with a character that is not blank. -/
theorem endsSolid_of_mem_all {content : Text} {rules : List Rule} {tags : List String}
    {f : Finding} (h : f ∈ all content rules tags) :
    ∃ s x, f.text = s ++ [x] ∧ isBlank x = false := by
  obtain ⟨c, hc, rfl⟩ := mem_all h
  exact Candidate.endsSolid_of_mem_all hc

/-- A finding is what a rule spells, without the blanks at its end, and bears the name of the
rule. -/
theorem exists_rule_of_mem_all {content : Text} {rules : List Rule} {tags : List String}
    {f : Finding} (h : f ∈ all content rules tags) :
    ∃ rule ∈ rules, f.description = rule.description ∧ f.text ≠ [] ∧
      ∃ t, f.text = Text.trimEnd t ∧ rule.pattern.body.Spells rule.pattern.ignoreCase t := by
  obtain ⟨c, hc, rfl⟩ := mem_all h
  obtain ⟨rule, hrule, hit, hhit, hhitc⟩ := Candidate.mem_all hc
  obtain ⟨-, htext, rfl, hne⟩ := Candidate.of_ofHit? hhitc
  obtain ⟨-, -, -, -, hspell⟩ := Pattern.exists_of_mem_hits hhit
  exact ⟨c.rule, hrule, rfl, hne, hit.text, htext, hspell⟩

/-- A finding of well-formed rules is kept when its lines are protected. -/
theorem keep_of_mem_all {content : Text} {rules : List Rule} {tags : List String}
    (hrules : ∀ r ∈ rules, r.WellFormed) {f : Finding} (h : f ∈ all content rules tags) :
    f.keep = isProtectedRange tags content.lines f.startLine f.endLine := by
  obtain ⟨c, hc, rfl⟩ := mem_all h
  have hheeds := (hrules c.rule (Candidate.rule_of_mem_all hc)).heeds
  simp [ofCandidate, hheeds]

/-- What is laid behind a beginning is laid in the text with that beginning. -/
theorem Laid.append {p : Nat × Nat} {a t : Text} {fs : List Finding}
    (h : Laid (Text.advance p a) t fs) : Laid p (a ++ t) fs := by
  cases fs with
  | nil => trivial
  | cons f fs =>
      obtain ⟨gap, rest, rfl, hs, he, hrest⟩ := h
      refine ⟨a ++ gap, rest, by simp, by rw [hs, Text.advance_append], ?_, ?_⟩
      · rw [he, List.append_assoc, Text.advance_append p a]
      · rwa [List.append_assoc, Text.advance_append p a]

/-- What is laid in a text is laid in the text with more behind it. -/
theorem Laid.append_right {p : Nat × Nat} {t : Text} {fs : List Finding} (h : Laid p t fs)
    (more : Text) : Laid p (t ++ more) fs := by
  induction fs generalizing p t with
  | nil => trivial
  | cons f fs ih =>
      obtain ⟨gap, rest, rfl, hs, he, hrest⟩ := h
      exact ⟨gap, rest ++ more, by simp, hs, he, ih hrest⟩

/-- Some of the findings are laid in the text as well. -/
theorem Laid.sublist {p : Nat × Nat} {t : Text} {fs gs : List Finding} (h : Laid p t fs)
    (hsub : gs.Sublist fs) : Laid p t gs := by
  induction hsub generalizing p t with
  | slnil => exact h
  | cons f hsub ih =>
      obtain ⟨gap, rest, rfl, -, -, hrest⟩ := h
      exact (ih hrest).append
  | cons_cons f hsub ih =>
      obtain ⟨gap, rest, rfl, hs, he, hrest⟩ := h
      exact ⟨gap, rest, rfl, hs, he, ih hrest⟩

/-! ## Findings on lines -/

/-- Each of the findings laid in a text stands in it, at its places. -/
theorem Laid.exists_of_mem {p : Nat × Nat} {t : Text} {fs : List Finding} (h : Laid p t fs)
    {f : Finding} (hf : f ∈ fs) :
    ∃ a b, t = a ++ f.text ++ b ∧
      f.startPlace = Text.advance p a ∧ f.endPlace = Text.advance p (a ++ f.text) := by
  induction fs generalizing p t with
  | nil => contradiction
  | cons g fs ih =>
      obtain ⟨gap, rest, rfl, hs, he, hrest⟩ := h
      rcases List.mem_cons.1 hf with rfl | hf
      · exact ⟨gap, rest, rfl, hs, he⟩
      · obtain ⟨a, b, rfl, hs, he⟩ := ih hrest hf
        refine ⟨gap ++ g.text ++ a, b, by simp, ?_, ?_⟩
        · rw [hs, ← Text.advance_append]
        · rw [he, ← Text.advance_append, List.append_assoc _ a]

/-- A finding does not end before it starts. -/
theorem Laid.start_noLater_end {p : Nat × Nat} {t : Text} {fs : List Finding} (h : Laid p t fs)
    {f : Finding} (hf : f ∈ fs) : Text.NoLater f.startPlace f.endPlace := by
  obtain ⟨a, b, -, hs, he⟩ := h.exists_of_mem hf
  rw [hs, he, Text.advance_append]
  exact Text.noLater_advance _ _

/-- Of two findings the first one ends before the second one starts. -/
def Before (f g : Finding) : Prop := Text.NoLater f.endPlace g.startPlace

theorem Before.line_le {f g : Finding} (h : f.Before g) : f.endLine ≤ g.startLine := by
  simp only [Before, endPlace, startPlace, Text.NoLater] at h
  omega

theorem Before.char_le {f g : Finding} (h : f.Before g) (hline : f.endLine = g.startLine) :
    f.endChar ≤ g.startChar := by
  simp only [Before, endPlace, startPlace, Text.NoLater] at h
  omega

/-- Findings laid in a text stand in their order. -/
theorem Laid.pairwise_before {p : Nat × Nat} {t : Text} {fs : List Finding}
    (h : Laid p t fs) : fs.Pairwise Before := by
  induction fs generalizing p t with
  | nil => exact .nil
  | cons f fs ih =>
      obtain ⟨gap, rest, rfl, -, he, hrest⟩ := h
      refine List.pairwise_cons.2 ⟨fun g hg => ?_, ih hrest⟩
      obtain ⟨a, b, -, hs, -⟩ := hrest.exists_of_mem hg
      rw [Before, he, hs]
      exact Text.noLater_advance _ _

/-- Of two findings in a row each stands before or behind the other one. -/
theorem before_or_before {fs : List Finding} {f g : Finding} (h : fs.Pairwise Before)
    (hf : f ∈ fs) (hg : g ∈ fs) (hne : f ≠ g) : f.Before g ∨ g.Before f := by
  induction fs with
  | nil => contradiction
  | cons a fs ih =>
      obtain ⟨ha, h⟩ := List.pairwise_cons.1 h
      rcases List.mem_cons.1 hf with rfl | hf'
      · rcases List.mem_cons.1 hg with rfl | hg'
        · contradiction
        · exact .inl (ha g hg')
      · rcases List.mem_cons.1 hg with rfl | hg'
        · exact .inr (ha f hf')
        · exact ih h hf' hg'

/-- The lines of a text that a finding covers are its own lines, with what stands in front
of the first one and behind the last one. -/
theorem Laid.exists_lines {t : Text} {fs : List Finding} (h : Laid (0, 0) t fs) {f : Finding}
    (hf : f ∈ fs) :
    ∃ left right, Text.size left = f.startChar ∧
      f.startLine + f.text.lines.length = f.endLine + 1 ∧
      ∀ j p, f.text.lines[j]? = some p →
        t.lines[f.startLine + j]? = some ((if j = 0 then left else []) ++ p ++
          if j + 1 = f.text.lines.length then right else []) ∧
        (j + 1 = f.text.lines.length →
          Text.size ((if j = 0 then left else []) ++ p) = f.endChar) := by
  obtain ⟨a, b, rfl, hs, he⟩ := h.exists_of_mem hf
  obtain ⟨above, left, ha⟩ := Text.exists_lines_eq_append a
  obtain ⟨right, below, hb⟩ := Text.exists_lines_eq_cons b
  obtain ⟨first, more, ht⟩ := Text.exists_lines_eq_cons f.text
  obtain ⟨above', left', hat⟩ := Text.exists_lines_eq_append (a ++ f.text)
  rw [Text.advance_of_lines ha] at hs
  rw [Text.advance_of_lines hat] at he
  obtain ⟨hstartLine, hstartChar⟩ := Prod.mk.inj hs
  obtain ⟨hendLine, hendChar⟩ := Prod.mk.inj he
  have hcount : above.length + f.text.lines.length = above'.length + 1 := by
    have hlen := congrArg List.length ((Text.lines_append ha ht).symm.trans hat)
    rw [ht]
    simpa using hlen
  refine ⟨left, right, hstartChar.symm, by rw [hstartLine, hendLine, hcount], fun j p hj => ?_⟩
  rw [hstartLine]
  refine ⟨Text.getElem?_lines_append ha hb hj, fun hlast => ?_⟩
  -- with nothing behind it the last line ends where the finding does
  have hend := Text.getElem?_lines_append ha (show Text.lines [] = [] :: [] from rfl) hj
  have hnumber : above.length + j = above'.length := by omega
  rw [List.append_nil, hat, hnumber, List.getElem?_concat_length, Option.some.injEq,
    ite_self, List.append_nil] at hend
  rw [← hend, hendChar]

/-- What the edits of lines rely on: a finding lies within the lines, and if it
stands on one line its characters tell where. -/
structure FitsIn (lines : List Text) (f : Finding) : Prop where
  noLater : Text.NoLater f.startPlace f.endPlace
  inside : f.endLine < lines.length
  onLine : f.startLine = f.endLine → ∃ a b, lines[f.startLine]? = some (a ++ f.text ++ b) ∧
    Text.size a = f.startChar ∧ Text.size (a ++ f.text) = f.endChar

theorem FitsIn.line_le {lines : List Text} {f : Finding} (h : f.FitsIn lines) :
    f.startLine ≤ f.endLine := by
  have := h.noLater
  simp only [startPlace, endPlace, Text.NoLater] at this
  omega

/-- A finding on one line ends further on than it starts. -/
theorem FitsIn.startChar_lt {lines : List Text} {f : Finding} (h : f.FitsIn lines)
    (htext : f.text ≠ []) (hone : f.startLine = f.endLine) : f.startChar < f.endChar := by
  obtain ⟨a, b, -, ha, hb⟩ := h.onLine hone
  have hpos := Text.size_pos htext
  rw [Text.size_append] at hb
  omega

/-- Findings laid in a text fit in its lines. -/
theorem Laid.fitsIn {t : Text} {fs : List Finding} (h : Laid (0, 0) t fs)
    {f : Finding} (hf : f ∈ fs) : f.FitsIn t.lines := by
  obtain ⟨left, right, hleft, hcount, hlines⟩ := h.exists_lines hf
  obtain ⟨first, more, ht⟩ := Text.exists_lines_eq_cons f.text
  refine ⟨h.start_noLater_end hf, ?_, fun hone => ?_⟩
  · have hlast : f.text.lines.length - 1 < f.text.lines.length := by rw [ht]; simp
    obtain ⟨hline, -⟩ := hlines _ _ (List.getElem?_eq_getElem hlast)
    have := (List.getElem?_eq_some_iff.1 hline).1
    omega
  · -- on one line the text of the finding is a single line
    obtain rfl : more = [] := by
      rw [ht, List.length_cons] at hcount
      exact List.eq_nil_of_length_eq_zero (by omega)
    have htext : f.text = first := by
      rw [← Text.unlines_lines f.text, ht]; rfl
    obtain ⟨hline, hend⟩ := hlines 0 first (by rw [ht]; rfl)
    have hlen : 0 + 1 = f.text.lines.length := by rw [ht]; rfl
    rw [if_pos rfl, if_pos hlen, ← htext] at hline
    rw [if_pos rfl, ← htext] at hend
    exact ⟨left, right, hline, hleft, hend hlen⟩

end Finding
end LogPrune
