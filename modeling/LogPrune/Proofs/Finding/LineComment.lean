import LogPrune.Language
import LogPrune.Proofs.Finding.Collapse
import LogPrune.Proofs.Pattern.Words

/-!
# LogPrune.Proofs.Finding.LineComment

Lines that read as a call that was commented out.

The rule for such comments hits where the comment begins
(`exists_hit_of_opensCall`).  A finding that starts on the line is therefore the
comment, unless one from a line above reaches into the line
(`exists_above_of_opensCall`).
-/

namespace LogPrune

/-! ## Markers and calls -/

/-- A marker holds neither blanks nor letters. -/
theorem marker_spec {marker : Text} (h : marker ∈ commentMarkers.map String.toList) :
    marker ≠ [] ∧ ∀ x ∈ marker, isBlank x = false ∧ x.isAlpha = false := by
  have hall : ∀ m ∈ commentMarkers.map String.toList,
      m ≠ [] ∧ ∀ x ∈ m, isBlank x = false ∧ x.isAlpha = false := by
    simp [commentMarkers, isBlank]
  exact hall marker h

/-- A marker is no blank that is trimmed from the end. -/
theorem marker_prefix_trimEnd {marker t : Text} (h : marker ∈ commentMarkers.map String.toList)
    (ht : marker <+: t) : marker <+: Text.trimEnd t := by
  obtain ⟨hne, hsolid⟩ := marker_spec h
  rw [← List.dropLast_append_getLast hne] at ht ⊢
  exact Text.prefix_trimEnd (hsolid _ (List.getLast_mem hne)).1 ht

/-- The beginning of a call starts with a letter and stays on its line. -/
theorem call_spec {call : Text} (h : Pattern.commentedCalls.Spells false call) :
    '\n' ∉ call ∧ ∃ x xs, call = x :: xs ∧ isBlank x = false ∧ x.isAlpha := by
  have hall : ∀ c ∈ ["console.", "print(", "System.out", "echo", "fmt.", "println!",
      "cout"].map String.toList, '\n' ∉ c ∧ c.head?.any fun x => !isBlank x && x.isAlpha := by
    decide
  obtain ⟨hnew, hhead⟩ := hall call (mem_of_spells_oneOf (List.cons_ne_nil _ _) h)
  cases call with
  | nil => contradiction
  | cons x xs =>
      obtain ⟨hblank, halpha⟩ : isBlank x = false ∧ x.isAlpha := by simpa using hhead
      exact ⟨hnew, x, xs, rfl, hblank, halpha⟩

namespace Text

/-- Blanks at the beginning of a line stand in front of every other character. -/
theorem exists_append_of_blanks {blanks s left right : Text} {y : Char}
    (h : blanks ++ s = left ++ y :: right) (hblanks : ∀ x ∈ blanks, isBlank x)
    (hy : isBlank y = false) : ∃ m, left = blanks ++ m ∧ s = m ++ y :: right := by
  rcases List.append_eq_append_iff.1 h with ⟨m, hleft, hs⟩ | ⟨m, hb, hyright⟩
  · exact ⟨m, hleft, hs⟩
  · cases m with
    | nil => exact ⟨[], by simpa using hb.symm, by simpa using hyright.symm⟩
    | cons z m =>
        obtain ⟨rfl, -⟩ := List.cons.inj hyright
        have := hblanks y (by rw [hb]; simp)
        rw [hy] at this
        contradiction

/-- Behind a blank of a solid text with blanks at its end, blanks go on. -/
theorem isBlank_of_behind_blank {solid gap left right : Text} {c x : Char}
    (h : solid ++ gap = left ++ c :: x :: right) (hsolid : ∀ y ∈ solid, isBlank y = false)
    (hgap : ∀ y ∈ gap, isBlank y) (hc : isBlank c) : isBlank x := by
  rcases List.append_eq_append_iff.1 h with ⟨m, -, hgap'⟩ | ⟨m, hsolid', hm⟩
  · exact hgap x (by rw [hgap']; simp)
  · cases m with
    | nil => exact hgap x (by rw [← List.nil_append gap, ← hm]; simp)
    | cons y m =>
        obtain ⟨rfl, -⟩ := List.cons.inj hm
        have := hsolid c (by rw [hsolid']; simp)
        rw [hc] at this
        contradiction

/-- Between a character that is not blank and a beginning of blanks on a line
further down stands a newline. -/
theorem newline_mem_of_terminated {above : List Text} {s r blanks : Text} {c : Char}
    (h : s ++ c :: r = terminated above ++ blanks) (hblanks : ∀ x ∈ blanks, isBlank x)
    (hc : isBlank c = false) : '\n' ∈ r := by
  rcases List.append_eq_append_iff.1 h with ⟨m, habove, hcr⟩ | ⟨m, -, hb⟩
  · cases m with
    | nil =>
        have := hblanks c (by rw [← List.nil_append blanks, ← hcr]; exact List.mem_cons_self)
        rw [hc] at this
        contradiction
    | cons y m =>
        obtain ⟨rfl, rfl⟩ := List.cons.inj hcr
        rcases List.eq_nil_or_concat above with rfl | ⟨front, line, rfl⟩
        · simp at habove
        · -- the last of the lines above ends with a newline
          have hlast : (c :: m).getLast? = some '\n' := by
            have hlast := congrArg List.getLast? habove
            simpa [terminated_append, List.getLast?_append, List.getLast?_cons] using hlast.symm
          have hmem := List.mem_of_getLast? hlast
          rcases List.mem_cons.1 hmem with rfl | hmem
          · exact absurd hc (by decide)
          · exact List.mem_append_left _ hmem
  · have := hblanks c (by rw [hb]; simp)
    rw [hc] at this
    contradiction

/-- A text that goes on up to the end of a line takes in the line with which it
begins. -/
theorem prefix_of_lineEnd {line more t rest : Text} (hline : '\n' ∉ line)
    (h : line ++ more = t ++ rest) (hrest : rest.head?.all (· = '\n')) : line <+: t := by
  rcases List.append_eq_append_iff.1 h with ⟨m, ht, -⟩ | ⟨m, hm, hr⟩
  · exact ⟨m, ht.symm⟩
  · cases m with
    | nil => exact ⟨[], by simpa using hm⟩
    | cons y m =>
        rw [hr] at hrest
        obtain rfl : y = '\n' := by simpa using hrest
        exact absurd (by rw [hm]; simp) hline

/-- Whether a line opens with a marker and a call behind it, blanks apart. -/
def OpensCall (line marker : Text) : Prop :=
  ∃ blanks gap call rest, line = blanks ++ (marker ++ gap ++ call ++ rest) ∧
    (∀ x ∈ blanks, isBlank x) ∧ (∀ x ∈ gap, isBlank x) ∧
    Pattern.commentedCalls.Spells false call

end Text

/-! ## The hit of a line comment -/

namespace Pattern

/-- What a line comment with a call consists of, up to the end of its line. -/
def commentedLine (marker : Text) : Regex :=
  .text marker ++ .many .blank ++ .group commentedCalls ++ .many .sameLine

theorem spells_commentedLine_iff {marker t : Text} :
    (commentedLine marker).Spells false t ↔ ∃ gap call rest, t = marker ++ gap ++ call ++ rest ∧
      (∀ x ∈ gap, isBlank x) ∧ commentedCalls.Spells false call ∧ '\n' ∉ rest := by
  have hrest : ∀ {rest : Text}, (∀ x ∈ rest, Charset.sameLine.mem x) ↔ '\n' ∉ rest := by
    intro rest
    simp only [Charset.mem, bne_iff_ne]
    exact ⟨fun h hmem => h _ hmem rfl, fun h x hx hxn => h (hxn ▸ hx)⟩
  constructor
  · rintro ⟨_, rest, rfl, ⟨_, call, rfl, ⟨_, gap, rfl, hmarker, hgap⟩, hcall⟩, hline⟩
    obtain rfl := spells_text_iff.1 hmarker
    exact ⟨gap, call, rest, rfl, hgap, hcall, hrest.1 hline⟩
  · rintro ⟨gap, call, rest, rfl, hgap, hcall, hline⟩
    exact ⟨_, rest, rfl, ⟨_, call, rfl, ⟨_, gap, rfl, spells_text_iff.2 rfl, hgap⟩, hcall⟩,
      hrest.2 hline⟩

/-- No call stands on a line in front of the marker that opens it. -/
theorem not_opensLine_of_call {call rest front u m blanks : Text} {x : Char}
    {above : List Text} (hcall : commentedCalls.Spells false call) (hrest : '\n' ∉ rest)
    (htext : call ++ rest = u ++ x :: m) (hx : x.isAlpha = false)
    (hblanks : ∀ y ∈ blanks, isBlank y) :
    front ++ u ≠ Text.terminated above ++ blanks := by
  intro hplace
  obtain ⟨hnew, y, ys, rfl, hy, halpha⟩ := call_spec hcall
  cases u with
  | nil =>
      obtain ⟨rfl, -⟩ := List.cons.inj htext
      rw [hx] at halpha
      contradiction
  | cons y' u =>
      obtain ⟨rfl, htail⟩ : y = y' ∧ ys ++ rest = u ++ x :: m := List.cons.inj htext
      -- the call starts on a line above, and neither it nor what is behind it has a newline
      have hmem : '\n' ∈ ys ++ rest := by
        rw [htail]
        exact List.mem_append_left _ (Text.newline_mem_of_terminated hplace hblanks hy)
      rcases List.mem_append.1 hmem with hmem | hmem
      · exact hnew (List.mem_cons_of_mem _ hmem)
      · exact hrest hmem

/-- A line comment with a call does not reach into the marker of another one that
opens a line. -/
theorem eq_nil_of_spells_commentedLine {marker : Text}
    (hmarker : marker ∈ commentMarkers.map String.toList) {u m a blanks : Text} {x : Char}
    (hspell : (commentedLine marker).Spells false (u ++ x :: m)) (hx : x ∈ marker)
    {above : List Text} (hplace : a ++ u = Text.terminated above ++ blanks)
    (hblanks : ∀ y ∈ blanks, isBlank y) : u = [] := by
  obtain ⟨-, hsolid⟩ := marker_spec hmarker
  obtain ⟨hxsolid, hxalpha⟩ := hsolid x hx
  obtain ⟨gap, call, rest, htext, hgap, hcall, hrest⟩ := spells_commentedLine_iff.1 hspell
  have htext : (marker ++ gap) ++ (call ++ rest) = u ++ x :: m := by
    rw [htext]
    simp only [List.append_assoc]
  -- the call does not end in front of the other marker
  have hcut : ∀ z, u = marker ++ gap ++ z → call ++ rest ≠ z ++ x :: m := by
    rintro z rfl hz
    rw [← List.append_assoc] at hplace
    exact not_opensLine_of_call hcall hrest hz hxalpha hblanks hplace
  rcases List.append_eq_append_iff.1 htext with ⟨z, hu, hz⟩ | ⟨z, hfront, hz⟩
  · exact absurd hz (hcut z hu)
  · cases z with
    | nil => exact absurd hz.symm (hcut [] (by simpa using hfront.symm))
    | cons x' z =>
        obtain ⟨rfl, -⟩ := List.cons.inj hz
        -- the other marker would be a blank of the gap, behind some blank
        rcases List.eq_nil_or_concat u with rfl | ⟨u', c, rfl⟩
        · rfl
        · rw [List.concat_eq_append, ← List.append_assoc] at hplace
          rw [List.concat_eq_append, List.append_assoc] at hfront
          have hc : isBlank c := by
            by_contra hc
            simpa using Text.newline_mem_of_terminated hplace hblanks (by simpa using hc)
          have := Text.isBlank_of_behind_blank hfront (fun y hy => (hsolid y hy).1) hgap hc
          rw [hxsolid] at this
          contradiction

/-- A match of a line comment with a call runs to the end of a line. -/
theorem leads_of_end?_commentedCall {marker : Text} {c d : Cursor}
    (h : (commentedCall marker).end? c = some d) :
    d.atLineEnd ∧ ∃ t, c.Leads t d ∧ (commentedLine marker).Spells false t := by
  obtain ⟨_, hlead, t, e, rfl, hspell, rfl⟩ := spells_of_end? h
  rw [List.append_nil] at hlead
  rw [end?_eq_head?] at h
  exact ⟨Regex.atLineEnd_of_mem_ends (p := commentedLine marker) (List.mem_of_mem_head? h),
    t, hlead, hspell⟩

/-- Such a comment is a match of its pattern, if a line ends behind it. -/
theorem exists_end?_of_commentedLine {marker line more a : Text}
    (hspell : (commentedLine marker).Spells false line) (hne : marker ≠ [])
    (hmore : more.head?.all (· = '\n')) :
    ∃ d, (commentedCall marker).end? ((Cursor.start (a ++ (line ++ more))).after a (line ++ more)) =
      some d ∧ Text.size a < d.offset := by
  have hmem := Regex.mem_ends_of_spells_lineEnd (p := commentedLine marker) rfl
    (c := (Cursor.start (a ++ (line ++ more))).after a (line ++ more)) hspell rfl hmore
  have hend := end?_eq_head? (commentedCall marker)
    ((Cursor.start (a ++ (line ++ more))).after a (line ++ more))
  obtain ⟨d, hd⟩ := Option.isSome_iff_exists.1 (List.isSome_head?.2 (List.ne_nil_of_mem hmem))
  refine ⟨d, hend.trans hd, ?_⟩
  obtain ⟨-, t, ⟨-, hoffset⟩, hspell⟩ := leads_of_end?_commentedCall (hend.trans hd)
  obtain ⟨_, _, _, rfl, -⟩ := spells_commentedLine_iff.1 hspell
  have hpos := Text.size_pos hne
  simp only [Cursor.after, Cursor.start, Text.size_append] at hoffset
  omega

/-- On a line that opens with a marker and a call, the pattern of such comments
hits where the line opens, and the hit takes in the rest of the line. -/
theorem exists_hit_of_opensCall {content marker blanks gap call rest : Text}
    {above below : List Text} (hmarker : marker ∈ commentMarkers.map String.toList)
    (hlines : content.lines = above ++ (blanks ++ (marker ++ gap ++ call ++ rest)) :: below)
    (hblanks : ∀ x ∈ blanks, isBlank x) (hgap : ∀ x ∈ gap, isBlank x)
    (hcall : commentedCalls.Spells false call) :
    ∃ h ∈ (commentedCall marker).hits content,
      h.start = Text.size (Text.terminated above ++ blanks) ∧
      marker ++ gap ++ call ++ rest <+: h.text := by
  obtain ⟨more, hcontent, hmore⟩ := Text.exists_append_of_lines hlines
  have hline : '\n' ∉ marker ++ gap ++ call ++ rest := by
    have hmem : blanks ++ (marker ++ gap ++ call ++ rest) ∈ content.lines := by
      rw [hlines]
      exact List.mem_append_right _ List.mem_cons_self
    exact fun hnew => Text.not_mem_of_mem_lines hmem (List.mem_append_right blanks hnew)
  have hspell : (commentedLine marker).Spells false (marker ++ gap ++ call ++ rest) :=
    spells_commentedLine_iff.2 ⟨gap, call, rest, rfl, hgap, hcall, fun hnew =>
      hline (List.mem_append_right _ hnew)⟩
  obtain ⟨hne, -⟩ := marker_spec hmarker
  obtain ⟨x, xs, hmark⟩ := List.exists_cons_of_ne_nil hne
  generalize ha : Text.terminated above ++ blanks = a
  generalize hl : marker ++ gap ++ call ++ rest = line at *
  obtain rfl : content = a ++ (line ++ more) := by
    rw [hcontent, ← ha]
    simp only [List.append_assoc]
  -- the pattern matches there, so that a hit covers the place
  obtain ⟨d, hend, hlt⟩ := exists_end?_of_commentedLine (a := a) hspell hne hmore
  obtain ⟨h, hmem, s, u, q, c, e, hau, hstart, htext, hq, hrest, hend, hlead⟩ :=
    exists_hit_around hend hlt
  obtain ⟨hlineEnd, t, hlead', hspell⟩ := leads_of_end?_commentedCall hend
  obtain rfl : t = h.text := hlead'.unique hlead
  -- it begins there, because it does not reach into the marker
  obtain rfl : u = [] := by
    obtain ⟨y, q, rfl⟩ := List.exists_cons_of_ne_nil hq
    rw [← hl, hmark] at hrest
    obtain ⟨rfl, -⟩ : x = y ∧ _ := List.cons.inj hrest
    exact eq_nil_of_spells_commentedLine hmarker (htext ▸ hspell) (by rw [hmark]; simp)
      (ha.trans hau).symm hblanks
  rw [List.append_nil] at hau
  refine ⟨h, hmem, by rw [hstart, hau], ?_⟩
  -- and it ends where a line ends
  exact htext ▸ Text.prefix_of_lineEnd hline hrest hlineEnd

end Pattern

/-! ## Findings on the line -/

namespace Finding

variable {content line marker : Text} {rules : List Rule} {tags : List String} {f : Finding}

/-- A candidate on a line that begins with blanks starts behind them. -/
theorem exists_behind_blanks (hrules : ∀ r ∈ rules, r.WellFormed)
    (hf : f ∈ candidates content rules tags) {blanks rest : Text}
    (hline : content.lines[f.startLine]? = some (blanks ++ rest))
    (hblanks : ∀ x ∈ blanks, isBlank x) :
    ∃ x xs left right above below, f.text = x :: xs ∧ isBlank x = false ∧
      rest = left ++ x :: right ∧ content.lines = above ++ (blanks ++ rest) :: below ∧
      f.startPlace = (above.length, Text.size (blanks ++ left)) ∧
      f.startPlace = Text.advance (0, 0) (Text.terminated above ++ blanks ++ left) ∧
      ∃ more, content = Text.terminated above ++ blanks ++ (left ++ f.text ++ more) := by
  obtain ⟨x, xs, above, left, right, below, htext, hcode, hlines, hstart, hadv, more, hcontent⟩ :=
    exists_line_of_mem_candidates hrules hf
  have hsame : blanks ++ rest = left ++ x :: right := by
    rw [(Prod.mk.inj hstart).1, hlines] at hline
    simpa using hline.symm
  have hblank := isBlank_of_isCode hcode
  obtain ⟨m, rfl, hrest⟩ := Text.exists_append_of_blanks hsame hblanks hblank
  refine ⟨x, xs, m, right, above, below, htext, hblank, hrest, hsame ▸ hlines, hstart, ?_,
    more, ?_⟩
  · rw [hadv, List.append_assoc]
  · rw [hcontent]
    simp only [List.append_assoc]

/-- A rule for line comments with a call, of which all hits count. -/
def HasLineComments (rules : List Rule) (marker : Text) : Prop :=
  ∃ rule ∈ rules, rule.pattern = Pattern.commentedCall marker ∧ rule.filter = none

/-- On a line that opens with a marker and a call, every hit starts in the comment,
which is a hit itself and the first one on the line. -/
theorem exists_candidates_of_opensCall (hrules : ∀ r ∈ rules, r.WellFormed)
    (hmarker : marker ∈ commentMarkers.map String.toList) (hcomments : HasLineComments rules marker)
    (hf : f ∈ candidates content rules tags) (hline : content.lines[f.startLine]? = some line)
    (hopens : line.OpensCall marker) :
    ∃ d ∈ candidates content rules tags, marker <+: d.text ∧ f.StartsIn d ∧
      d.startLine = f.startLine ∧
      ∀ e ∈ candidates content rules tags,
        e.startLine = d.startLine → d.startChar ≤ e.startChar := by
  obtain ⟨blanks, gap, call, rest, rfl, hblanks, hgap, hcall⟩ := hopens
  obtain ⟨rule, hrule, hpattern, hfilter⟩ := hcomments
  obtain ⟨x, xs, left, right, above, below, htext, hx, hsplit, hlines, hstart, hadv, more,
    hcontent⟩ := exists_behind_blanks hrules hf hline hblanks
  obtain ⟨h, hhit, hplace, hprefix⟩ :=
    Pattern.exists_hit_of_opensCall hmarker hlines hblanks hgap hcall
  -- trimming the hit leaves the marker and the character with which the finding starts
  have hmark : marker <+: Text.trimEnd h.text := by
    refine marker_prefix_trimEnd hmarker (List.IsPrefix.trans ?_ hprefix)
    exact ⟨gap ++ call ++ rest, by simp only [List.append_assoc]⟩
  have hhead : left ++ [x] <+: Text.trimEnd h.text := by
    refine Text.prefix_trimEnd hx (List.IsPrefix.trans ?_ hprefix)
    exact ⟨right, by rw [hsplit]; simp⟩
  have hne : Text.trimEnd h.text ≠ [] := fun hnil => by
    rw [hnil] at hhead
    simpa using hhead.length_le
  have hc := Candidate.mem_all_of_mem_hits hrule hfilter (hpattern ▸ hhit) hne
  obtain ⟨a, b, hab, ha⟩ := Candidate.standsIn_of_mem_all hc
  obtain rfl : a = Text.terminated above ++ blanks := by
    rw [List.append_assoc] at hab
    exact Text.eq_of_size_eq (hab.symm.trans hcontent) (ha.symm.trans hplace)
  obtain ⟨hs, he⟩ := places_of_ofCandidate tags hab ha (Candidate.endsSolid_of_mem_all hc)
  have hplace := hs.trans (Text.advance_of_lines_prefix hlines)
  refine ⟨_, List.mem_map_of_mem hc, hmark, startsIn_of_prefix hadv hs he hhead, ?_, ?_⟩
  · exact (Prod.mk.inj hplace).1.trans (Prod.mk.inj hstart).1.symm
  · intro e he' heline
    have hsame : e.startLine = f.startLine :=
      (heline.trans (Prod.mk.inj hplace).1).trans (Prod.mk.inj hstart).1.symm
    obtain ⟨_, _, left', _, _, _, -, -, -, -, hstart', -⟩ :=
      exists_behind_blanks hrules he' (hsame ▸ hline) hblanks
    rw [(Prod.mk.inj hplace).2, (Prod.mk.inj hstart').2, Text.size_append]
    exact Nat.le_add_right ..

/-- On a line that opens with a marker and a call, only comments start, unless a
finding from a line above reaches into the line. -/
theorem exists_above_of_opensCall (hrules : ∀ r ∈ rules, r.WellFormed)
    (hmarker : marker ∈ commentMarkers.map String.toList) (hcomments : HasLineComments rules marker)
    (hf : f ∈ all content rules tags) (hline : content.lines[f.startLine]? = some line)
    (hopens : line.OpensCall marker) (hcall : ¬ marker <+: f.text) :
    ∃ e ∈ all content rules tags, e.startLine < f.startLine ∧
      f.startLine ≤ e.endLine := by
  obtain ⟨d, hd, hmark, hfd, hsame, hfirst⟩ := exists_candidates_of_opensCall hrules hmarker
    hcomments (mem_candidates_of_mem_all hf) hline hopens
  obtain ⟨e, he, hde, htogether⟩ := exists_all_of_mem_candidates hd
  obtain ⟨hle, hlt⟩ := hde
  by_cases hplace : e.startPlace = d.startPlace
  · -- the comment would be part of a finding in which `f` starts
    obtain ⟨a, -, -, has, hae⟩ := exists_of_mem_candidates (mem_candidates_of_mem_all he)
    obtain ⟨a', -, -, has', hae'⟩ := exists_of_mem_candidates hd
    obtain ⟨m, hm⟩ := htogether hplace
    have hend : Text.NoLater d.endPlace e.endPlace := by
      rw [hae, hae', Text.advance_append, Text.advance_append, ← has, ← has', hplace, ← hm,
        Text.advance_append]
      exact Text.noLater_advance _ _
    have hfe : f = e := eq_of_startsIn hf he ⟨hplace ▸ hfd.1, fun h => hfd.2 (hend.trans h)⟩
    rw [hfe, ← hm] at hcall
    exact absurd (hmark.trans (List.prefix_append ..)) hcall
  · have habove : e.startLine < f.startLine := by
      have := hfirst e (mem_candidates_of_mem_all he)
      simp only [Text.NoLater, startPlace, Prod.mk.injEq] at hle hplace
      omega
    refine ⟨e, he, habove, ?_⟩
    simp only [Text.NoLater, startPlace, endPlace] at hlt
    omega

end Finding
end LogPrune
