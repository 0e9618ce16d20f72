import LogPrune.Proofs.Finding.Layout
import LogPrune.Proofs.Text.Revise

/-!
# LogPrune.Proofs.Finding.Collapse

What becomes of hits that overlap.

A text has a finding wherever a rule hits: each hit starts inside a finding, its
own or one that ranks before it (`exists_all_of_mem_candidates`).  No finding
starts inside another one (`eq_of_startsIn`), so the finding is the only one in
which the hit starts.
-/

namespace LogPrune

/-! ## Spans that cover each other -/

section Rows

variable {α : Type} {start stop : α → Nat} {ranks : α → α → Prop} {a b c : α} {as bs : List α}

/-- The first spans of two rows rank before each other, if each starts inside a span of
the other row that ranks before it. -/
theorem ranks_heads (hstart : ∀ a b, ranks a b → start a ≤ start b) (ha : start a < stop a)
    (hb : start b < stop b) (hbehind : ∀ c ∈ as, stop a ≤ start c)
    (hbehind' : ∀ c ∈ bs, stop b ≤ start c) (hcov : ∃ d ∈ b :: bs, ranks d a)
    (hcov' : ∃ d ∈ a :: as, ranks d b) : ranks a b ∧ ranks b a := by
  obtain ⟨b', hb', hranks⟩ := hcov
  obtain ⟨a', ha', hranks'⟩ := hcov'
  have hle := hstart b' a hranks
  have hle' := hstart a' b hranks'
  -- what covers the first one on either side is the first one on the other
  rcases List.mem_cons.1 hb' with rfl | hb' <;> rcases List.mem_cons.1 ha' with rfl | ha'
  · exact ⟨hranks', hranks⟩
  · have := hbehind a' ha'
    omega
  · have := hbehind' b' hb'
    omega
  · have := hbehind a' ha'
    have := hbehind' b' hb'
    omega

/-- A span behind the first one of a row that covers it starts inside one of the others. -/
theorem exists_covering_tail (hbehind : stop b ≤ start c)
    (h : ∃ d ∈ b :: bs, ranks d c ∧ start c < stop d) :
    ∃ d ∈ bs, ranks d c ∧ start c < stop d := by
  obtain ⟨d, hd, hranks, hinside⟩ := h
  refine ⟨d, (List.mem_cons.1 hd).resolve_left ?_, hranks, hinside⟩
  rintro rfl
  exact Nat.not_lt.2 hbehind hinside

/-- Two rows of spans that do not overlap, each of which starts inside a span of the
other row that ranks before it, rank before each other one by one. -/
theorem forall₂_of_covered (ranks : α → α → Prop)
    (hstart : ∀ a b, ranks a b → start a ≤ start b)
    (hstop : ∀ a b, ranks a b → ranks b a → stop a = stop b)
    (has : as.Pairwise (stop · ≤ start ·)) (hbs : bs.Pairwise (stop · ≤ start ·))
    (hne : ∀ a ∈ as, start a < stop a) (hne' : ∀ b ∈ bs, start b < stop b)
    (hcov : ∀ a ∈ as, ∃ b ∈ bs, ranks b a ∧ start a < stop b)
    (hcov' : ∀ b ∈ bs, ∃ a ∈ as, ranks a b ∧ start b < stop a) :
    List.Forall₂ (fun a b => ranks a b ∧ ranks b a) as bs := by
  induction as generalizing bs with
  | nil =>
    cases bs with
    | nil => exact .nil
    | cons b bs =>
      obtain ⟨a, ha, -⟩ := hcov' b List.mem_cons_self
      contradiction
  | cons a as ih =>
    cases bs with
    | nil =>
      obtain ⟨b, hb, -⟩ := hcov a List.mem_cons_self
      contradiction
    | cons b bs =>
      obtain ⟨hbehind, has⟩ := List.pairwise_cons.1 has
      obtain ⟨hbehind', hbs⟩ := List.pairwise_cons.1 hbs
      obtain ⟨ha, hne⟩ := List.forall_mem_cons.1 hne
      obtain ⟨hb, hne'⟩ := List.forall_mem_cons.1 hne'
      obtain ⟨hfirst, hcov⟩ := List.forall_mem_cons.1 hcov
      obtain ⟨hfirst', hcov'⟩ := List.forall_mem_cons.1 hcov'
      have htied : ranks a b ∧ ranks b a := ranks_heads hstart ha hb hbehind hbehind'
        (hfirst.imp fun _ h => ⟨h.1, h.2.1⟩) (hfirst'.imp fun _ h => ⟨h.1, h.2.1⟩)
      have hsame := hstop a b htied.1 htied.2
      exact .cons htied (ih has hbs hne hne'
        (fun c hc => exists_covering_tail (hsame ▸ hbehind c hc) (hcov c hc))
        fun c hc => exists_covering_tail (hsame ▸ hbehind' c hc) (hcov' c hc))

end Rows

/-! ## Candidates -/

namespace Candidate

theorem ranksBefore_trans (a b c : Candidate) (hab : a.ranksBefore b) (hbc : b.ranksBefore c) :
    a.ranksBefore c := by
  simp only [ranksBefore, Bool.or_eq_true, Bool.and_eq_true, decide_eq_true_eq] at *
  omega

theorem ranksBefore_total (a b : Candidate) : a.ranksBefore b || b.ranksBefore a := by
  simp only [ranksBefore, Bool.or_eq_true, Bool.and_eq_true, decide_eq_true_eq]
  omega

theorem ranksBefore_refl (a : Candidate) : a.ranksBefore a := by
  simpa using ranksBefore_total a a

/-- A candidate that ranks before another one starts no later, and reaches as far
where they start together. -/
theorem of_ranksBefore {a b : Candidate} (h : a.ranksBefore b) :
    a.start ≤ b.start ∧ (a.start = b.start → b.stop ≤ a.stop) := by
  simp only [ranksBefore, Bool.or_eq_true, Bool.and_eq_true, decide_eq_true_eq] at h
  simp only [stop]
  omega

/-- A hit of a rule without a filter is a candidate, unless it is blank. -/
theorem mem_all_of_mem_hits {content : Text} {rules : List Rule} {rule : Rule} {h : Hit}
    (hrule : rule ∈ rules) (hfilter : rule.filter = none) (hhit : h ∈ rule.pattern.hits content)
    (hne : Text.trimEnd h.text ≠ []) :
    ⟨h.start, Text.trimEnd h.text, rule⟩ ∈ all content rules := by
  refine List.mem_flatMap.2 ⟨rule, hrule, List.mem_filterMap.2 ⟨h, hhit, ?_⟩⟩
  rw [ofHit?, if_neg hne, if_pos]
  rw [Rule.accepts, hfilter]
  rfl

/-- Each of some ranked candidates is accepted or starts inside one that is and
ranks before it, or where the text was covered before. -/
theorem exists_accepted {covered : Nat} {cs : List Candidate}
    (hranked : cs.Pairwise fun a b => a.ranksBefore b) (hne : ∀ c ∈ cs, c.text ≠ [])
    {c : Candidate} (hc : c ∈ cs) :
    c.start < covered ∨ ∃ d ∈ accepted covered cs, d.ranksBefore c ∧ c.start < d.stop := by
  induction cs generalizing covered with
  | nil => contradiction
  | cons b bs ih =>
      obtain ⟨hb, hranked⟩ := List.pairwise_cons.1 hranked
      have ih := fun covered hc => @ih covered hranked
        (fun c hc => hne c (List.mem_cons_of_mem _ hc)) hc
      rw [accepted]
      split
      · next hcovered =>
        rcases List.mem_cons.1 hc with rfl | hc
        · exact .inl hcovered
        · exact ih covered hc
      · right
        rcases List.mem_cons.1 hc with rfl | hc
        · have hself : c.start < c.stop :=
            Nat.lt_add_of_pos_right (Text.size_pos (hne c List.mem_cons_self))
          exact ⟨c, List.mem_cons_self, ranksBefore_refl c, hself⟩
        · rcases ih b.stop hc with hinside | ⟨d, hd, hcover⟩
          · exact ⟨b, List.mem_cons_self, hb c hc, hinside⟩
          · exact ⟨d, List.mem_cons_of_mem _ hd, hcover⟩

/-- Each candidate of a text is accepted or starts inside one that is and ranks
before it. -/
theorem exists_accepted_of_mem_all {content : Text} {rules : List Rule} {c : Candidate}
    (hc : c ∈ all content rules) :
    ∃ d ∈ accepted 0 ((all content rules).mergeSort ranksBefore),
      d.ranksBefore c ∧ c.start < d.stop := by
  have hranked : ((all content rules).mergeSort ranksBefore).Pairwise fun a b => a.ranksBefore b :=
    List.pairwise_mergeSort ranksBefore_trans ranksBefore_total _
  have hne : ∀ d ∈ (all content rules).mergeSort ranksBefore, d.text ≠ [] := by
    intro d hd
    obtain ⟨s, x, htext, -⟩ := endsSolid_of_mem_all (List.mem_mergeSort.1 hd)
    rw [htext]
    simp
  exact (exists_accepted hranked hne (List.mem_mergeSort.2 hc)).resolve_left (Nat.not_lt_zero _)

end Candidate

/-! ## Places in a text -/

namespace Text

instance (p q : Nat × Nat) : Decidable (NoLater p q) := inferInstanceAs (Decidable (_ ∨ _))

/-- Two beginnings of a text that lead to one place are the same. -/
theorem eq_of_advance_eq {p : Nat × Nat} {a b c d : Text} (h : a ++ b = c ++ d)
    (hadv : advance p a = advance p c) : a = c := by
  have hstuck : ∀ {s m : Text}, advance p s = advance p (s ++ m) → m = [] := by
    intro s m heq
    cases m with
    | nil => rfl
    | cons x m =>
        rw [advance_append] at heq
        exact absurd (heq ▸ NoLater.refl _) (not_noLater_advance (advance p s) x m)
  rcases List.append_eq_append_iff.1 h with ⟨m, rfl, -⟩ | ⟨m, rfl, -⟩
  · rw [hstuck hadv, List.append_nil]
  · rw [hstuck hadv.symm, List.append_nil]

/-- The beginning of a line of a text is a place on that line. -/
theorem advance_of_lines_prefix {t left right : Text} {above below : List Text}
    (h : t.lines = above ++ (left ++ right) :: below) :
    advance (0, 0) (terminated above ++ left) = (above.length, size left) := by
  have hnew : ∀ m ∈ above ++ [left], '\n' ∉ m := by
    intro m hm hmem
    rcases List.mem_append.1 hm with hm | hm
    · exact not_mem_of_mem_lines (t := t) (by rw [h]; exact List.mem_append_left _ hm) hmem
    · obtain rfl := List.mem_singleton.1 hm
      have hline : m ++ right ∈ t.lines := by
        rw [h]
        exact List.mem_append_right _ List.mem_cons_self
      exact not_mem_of_mem_lines hline (List.mem_append_left _ hmem)
  have hadv := advance_unlines hnew 0
  have hjoin : unlines (above ++ [left]) ++ ['\n'] = terminated above ++ left ++ ['\n'] := by
    rw [unlines_append_newline (by simp), terminated_append]
    simp
  rw [List.append_cancel_right hjoin, Nat.zero_add] at hadv
  exact hadv

/-- What a text goes on with behind one of its lines: nothing, or a newline. -/
theorem exists_append_of_lines {t line : Text} {above below : List Text}
    (h : t.lines = above ++ line :: below) :
    ∃ more, t = terminated above ++ line ++ more ∧ more.head?.all (· = '\n') := by
  have hjoin : t ++ ['\n'] = terminated above ++ line ++ '\n' :: terminated below := by
    rw [← unlines_lines t, unlines_append_newline (lines_ne_nil t), h, terminated_append]
    simp
  cases below with
  | nil =>
      rw [terminated_nil] at hjoin
      exact ⟨[], by rw [List.append_nil, List.append_cancel_right hjoin], rfl⟩
  | cons m ms =>
      refine ⟨'\n' :: unlines (m :: ms), ?_, rfl⟩
      rw [← unlines_append_newline (List.cons_ne_nil m ms)] at hjoin
      exact List.append_cancel_right (hjoin.trans (by simp))

/-- The line on which a character of a text stands: what is above it, in front of
the character, behind it and below. -/
theorem exists_line_of_append (a : Text) {x : Char} (hx : x ≠ '\n') (t : Text) :
    ∃ above left right below, (a ++ x :: t).lines = above ++ (left ++ x :: right) :: below ∧
      a = terminated above ++ left ∧ advance (0, 0) a = (above.length, size left) := by
  obtain ⟨above, left, ha⟩ := exists_lines_eq_append a
  obtain ⟨right, below, ht⟩ := exists_lines_eq_cons t
  have hxt : lines (x :: t) = (x :: right) :: below := by
    rw [lines, pieces, if_neg hx, show pieces '\n' t = right :: below from ht]
  exact ⟨above, left, right, below, lines_append ha hxt, eq_of_lines_eq_append ha,
    advance_of_lines ha⟩

end Text

/-! ## Findings -/

namespace Finding

variable {content : Text} {rules : List Rule} {tags : List String} {f g c : Finding}

/-- All hits of rules in a text as findings, also those that are none because
they start inside one. -/
def candidates (content : Text) (rules : List Rule) (tags : List String) : List Finding :=
  (Candidate.all content rules).map
    (ofCandidate tags content.lines (content.lines.map Text.size))

/-- Whether a finding starts where another one stands. -/
def StartsIn (f g : Finding) : Prop :=
  Text.NoLater g.startPlace f.startPlace ∧ ¬ Text.NoLater g.endPlace f.startPlace

instance (f g : Finding) : Decidable (f.StartsIn g) := inferInstanceAs (Decidable (_ ∧ _))

theorem mem_candidates_of_mem_all (h : f ∈ all content rules tags) :
    f ∈ candidates content rules tags := by
  obtain ⟨c, hc, rfl⟩ := mem_all h
  exact List.mem_map_of_mem hc

/-- A candidate stands in the text at its places. -/
theorem exists_of_mem_candidates (h : c ∈ candidates content rules tags) :
    ∃ a b, content = a ++ c.text ++ b ∧ c.startPlace = Text.advance (0, 0) a ∧
      c.endPlace = Text.advance (0, 0) (a ++ c.text) := by
  obtain ⟨k, hk, rfl⟩ := List.mem_map.1 h
  obtain ⟨a, b, hcontent, hstart⟩ := Candidate.standsIn_of_mem_all hk
  obtain ⟨hs, he⟩ := places_of_ofCandidate tags hcontent hstart
    (Candidate.endsSolid_of_mem_all hk)
  exact ⟨a, b, hcontent, hs, he⟩

/-- A text that stands behind a beginning and reaches over it ends at a later
place. -/
theorem not_noLater_of_size_lt {a s b t : Text} (h : s ++ b = a ++ t)
    (hlt : Text.size a < Text.size s) :
    ¬ Text.NoLater (Text.advance (0, 0) s) (Text.advance (0, 0) a) := by
  obtain ⟨m, rfl, -⟩ := Text.exists_append_of_size_le h.symm (Nat.le_of_lt hlt)
  cases m with
  | nil => simp at hlt
  | cons x m =>
      rw [Text.advance_append]
      exact Text.not_noLater_advance _ _ _

/-- A candidate starts inside a finding, and is a beginning of it where they start
together. -/
theorem exists_all_of_mem_candidates (h : c ∈ candidates content rules tags) :
    ∃ f ∈ all content rules tags, c.StartsIn f ∧
      (f.startPlace = c.startPlace → c.text <+: f.text) := by
  obtain ⟨k, hk, rfl⟩ := List.mem_map.1 h
  obtain ⟨d, hd, hranks, hinside⟩ := Candidate.exists_accepted_of_mem_all hk
  obtain ⟨hstart, htogether⟩ := Candidate.of_ranksBefore hranks
  have hd' := List.mem_mergeSort.1 ((Candidate.accepted_sublist _ _).mem hd)
  obtain ⟨a, b, ha, hka⟩ := Candidate.standsIn_of_mem_all hk
  obtain ⟨a', b', ha', hda⟩ := Candidate.standsIn_of_mem_all hd'
  obtain ⟨hks, -⟩ := places_of_ofCandidate tags ha hka (Candidate.endsSolid_of_mem_all hk)
  obtain ⟨hds, hde⟩ := places_of_ofCandidate tags ha' hda (Candidate.endsSolid_of_mem_all hd')
  have hjoin : a' ++ (d.text ++ b') = a ++ (k.text ++ b) := by
    rw [← List.append_assoc, ← List.append_assoc, ← ha, ← ha']
  refine ⟨_, List.mem_map_of_mem hd, ⟨?_, ?_⟩, fun htog => ?_⟩
  · obtain ⟨m, hm, -⟩ := Text.exists_append_of_size_le hjoin (by omega)
    rw [hks, hds, hm, Text.advance_append]
    exact Text.noLater_advance _ _
  · rw [hks, hde]
    apply not_noLater_of_size_lt (by rw [List.append_assoc, hjoin])
    rw [Candidate.stop] at hinside
    rw [Text.size_append]
    omega
  · rw [hks, hds] at htog
    obtain rfl := Text.eq_of_advance_eq hjoin htog
    have hle := htogether (by omega)
    rw [Candidate.stop, Candidate.stop] at hle
    obtain ⟨m, hm, -⟩ := Text.exists_append_of_size_le (List.append_cancel_left hjoin).symm
      (show Text.size k.text ≤ Text.size d.text by omega)
    exact ⟨m, hm.symm⟩

/-- No finding starts inside another one. -/
theorem eq_of_startsIn (hf : f ∈ all content rules tags) (hg : g ∈ all content rules tags)
    (h : f.StartsIn g) : f = g := by
  have hlaid := laid_all content rules tags
  by_contra hne
  rcases before_or_before hlaid.pairwise_before hf hg hne with hbefore | hbefore
  · -- a finding does not end where it starts
    obtain ⟨a, b, -, hs, he⟩ := hlaid.exists_of_mem hf
    obtain ⟨s, x, htext, -⟩ := endsSolid_of_mem_all hf
    obtain ⟨y, ys, hy⟩ := List.exists_cons_of_ne_nil (show f.text ≠ [] by simp [htext])
    have hend := hbefore.trans h.1
    rw [hs, he, hy, Text.advance_append] at hend
    exact Text.not_noLater_advance _ _ _ hend
  · exact h.2 hbefore

/-- What stands at or behind the start of a finding, and begins in front of its
end, starts in it. -/
theorem startsIn_of_prefix {a left : Text} {x : Char}
    (hf : f.startPlace = Text.advance (0, 0) (a ++ left))
    (hs : g.startPlace = Text.advance (0, 0) a)
    (he : g.endPlace = Text.advance (0, 0) (a ++ g.text))
    (h : left ++ [x] <+: g.text) : f.StartsIn g := by
  obtain ⟨v, hv⟩ := h
  constructor
  · rw [hs, hf, Text.advance_append]
    exact Text.noLater_advance _ _
  · rw [he, hf, ← hv, List.append_assoc left, ← List.append_assoc a,
      Text.advance_append _ (a ++ left)]
    exact Text.not_noLater_advance _ _ _

/-- The line on which a candidate of well-formed rules starts, with the character
of code that it starts with. -/
theorem exists_line_of_mem_candidates (hrules : ∀ r ∈ rules, r.WellFormed)
    (h : c ∈ candidates content rules tags) :
    ∃ x xs above left right below, c.text = x :: xs ∧ isCode x ∧
      content.lines = above ++ (left ++ x :: right) :: below ∧
      c.startPlace = (above.length, Text.size left) ∧
      c.startPlace = Text.advance (0, 0) (Text.terminated above ++ left) ∧
      ∃ rest, content = Text.terminated above ++ left ++ c.text ++ rest := by
  obtain ⟨a, b, hcontent, hs, -⟩ := exists_of_mem_candidates h
  obtain ⟨k, hk, rfl⟩ := List.mem_map.1 h
  obtain ⟨x, xs, htext, hcode⟩ := Candidate.isCode_of_mem_all hrules hk
  have hx : x ≠ '\n' := by
    rintro rfl
    exact absurd hcode (by decide)
  have htext : (ofCandidate tags content.lines (content.lines.map Text.size) k).text = x :: xs :=
    htext
  obtain ⟨above, left, right, below, hlines, ha, hadv⟩ :=
    Text.exists_line_of_append a hx (xs ++ b)
  refine ⟨x, xs, above, left, right, below, htext, hcode, ?_, hs.trans hadv, ha ▸ hs, b,
    ha ▸ hcontent⟩
  rw [← hlines, hcontent, htext]
  simp

end Finding
end LogPrune
