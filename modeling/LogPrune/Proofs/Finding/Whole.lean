import LogPrune.Proofs.Finding.LineComment

/-!
# LogPrune.Proofs.Finding.Whole

Texts that are a single statement.

1. Where a candidate takes in a whole text, it is the only finding
   (`all_eq_singleton`).
2. A finding at the start of a text is what a rule spells there
   (`exists_rule_of_startPlace`), so which rules can find something there is seen from
   the first characters of the text.
-/

namespace LogPrune

/-- A text that is not blank is not trimmed to nothing. -/
theorem Text.trimEnd_ne_nil {t : Text} {x : Char} (hmem : x ∈ t) (hx : isBlank x = false) :
    trimEnd t ≠ [] := by
  intro hnil
  have hsolid : solid t = [] := by rw [← solid_trimEnd, hnil, solid_nil]
  have : x ∈ solid t := List.mem_filter.2 ⟨hmem, by simp [hx]⟩
  rw [hsolid] at this
  contradiction

namespace Candidate

variable {content : Text} {rules : List Rule} {c d : Candidate}

/-- A hit whose text passes the filter of its rule is a candidate, unless it is blank. -/
theorem mem_all_of_accepts {rule : Rule} {h : Hit} (hrule : rule ∈ rules)
    (hhit : h ∈ rule.pattern.hits content) (hne : Text.trimEnd h.text ≠ [])
    (haccepts : rule.accepts (Text.trimEnd h.text)) :
    ⟨h.start, Text.trimEnd h.text, rule⟩ ∈ all content rules := by
  refine List.mem_flatMap.2 ⟨rule, hrule, List.mem_filterMap.2 ⟨h, hhit, ?_⟩⟩
  rw [ofHit?, if_neg hne, if_pos haccepts]

/-- A rule accepts the texts of its candidates. -/
theorem accepts_of_mem_all (h : c ∈ all content rules) : c.rule.accepts c.text := by
  obtain ⟨rule, -, hit, -, hc⟩ := mem_all h
  rw [ofHit?] at hc
  split at hc
  · contradiction
  · split at hc
    · next haccepts =>
      obtain rfl := Option.some.inj hc
      exact haccepts
    · contradiction

/-- Candidates end before the blanks at the end of the text. -/
theorem stop_le_of_mem_all (h : c ∈ all content rules) :
    c.start < c.stop ∧ c.stop ≤ Text.size (Text.trimEnd content) := by
  obtain ⟨a, b, hcontent, hstart⟩ := standsIn_of_mem_all h
  obtain ⟨s, x, htext, hx⟩ := endsSolid_of_mem_all h
  have hprefix : a ++ s ++ [x] <+: Text.trimEnd content := by
    apply Text.prefix_trimEnd hx
    exact ⟨b, by rw [hcontent, htext]; simp⟩
  obtain ⟨rest, hrest⟩ := hprefix
  have hsize := congrArg Text.size hrest
  have hpos := x.utf8Size_pos
  rw [stop, hstart, htext]
  simp only [Text.size_append, Text.size_cons, Text.size_nil] at hsize ⊢
  omega

/-- Of candidates that do not overlap, one that takes in all of them is the only one. -/
theorem eq_singleton_of_pairwise {cs : List Candidate} (hpair : cs.Pairwise (·.stop ≤ ·.start))
    (hd : d ∈ cs) (hcover : ∀ c ∈ cs, d.start < c.stop ∧ c.start < d.stop) : cs = [d] := by
  obtain ⟨front, behind, rfl⟩ := List.append_of_mem hd
  obtain ⟨-, hbehind, hfront⟩ := List.pairwise_append.1 hpair
  obtain ⟨hbehind, -⟩ := List.pairwise_cons.1 hbehind
  have hnofront : front = [] := by
    apply List.eq_nil_iff_forall_not_mem.2
    intro c hc
    have := hfront c hc d List.mem_cons_self
    have := hcover c (List.mem_append_left _ hc)
    omega
  have hnobehind : behind = [] := by
    apply List.eq_nil_iff_forall_not_mem.2
    intro c hc
    have := hbehind c hc
    have := hcover c (List.mem_append_right _ (List.mem_cons_of_mem d hc))
    omega
  rw [hnofront, hnobehind]
  rfl

end Candidate

namespace Finding

variable {content : Text} {rules : List Rule} {tags : List String} {f : Finding}

/-- Where a candidate takes in a whole text, it is the only finding. -/
theorem all_eq_singleton {c : Candidate} (hc : c ∈ Candidate.all content rules)
    (hstart : c.start = 0) (htext : c.text = Text.trimEnd content) :
    ∃ f, all content rules tags = [f] ∧ f.text = Text.trimEnd content ∧
      f.startPlace = (0, 0) := by
  obtain ⟨d, hd, hranks, -⟩ := Candidate.exists_accepted_of_mem_all hc
  obtain ⟨hle, htogether⟩ := Candidate.of_ranksBefore hranks
  have hmem : ∀ e ∈ Candidate.accepted 0
      ((Candidate.all content rules).mergeSort Candidate.ranksBefore),
      e ∈ Candidate.all content rules := fun e he =>
    List.mem_mergeSort.1 ((Candidate.accepted_sublist _ _).mem he)
  have hzero : d.start = 0 := by omega
  have hsize : Text.size d.text = Text.size (Text.trimEnd content) := by
    have hreach := htogether (hzero.trans hstart.symm)
    have hstop := (Candidate.stop_le_of_mem_all (hmem d hd)).2
    rw [Candidate.stop, Candidate.stop, htext] at hreach
    rw [Candidate.stop] at hstop
    omega
  obtain ⟨a, b, hcontent, ha⟩ := Candidate.standsIn_of_mem_all (hmem d hd)
  obtain rfl : a = [] := Text.eq_nil_of_size_eq_zero (by omega)
  have hdtext : d.text = Text.trimEnd content := by
    obtain ⟨blanks, hblanks, -⟩ := Text.exists_append_of_trimEnd content
    exact Text.eq_of_size_eq (hcontent.symm.trans hblanks) hsize
  have hstop : d.stop = Text.size (Text.trimEnd content) := by
    rw [Candidate.stop, hzero, hsize, Nat.zero_add]
  have hsingle := Candidate.eq_singleton_of_pairwise (Candidate.pairwise_accepted 0 _).2 hd
    fun e he => by
      have := Candidate.stop_le_of_mem_all (hmem e he)
      omega
  obtain ⟨hplace, -⟩ := places_of_ofCandidate tags hcontent hzero
    (Candidate.endsSolid_of_mem_all (hmem d hd))
  exact ⟨_, by rw [all, hsingle]; rfl, hdtext, hplace⟩

/-- A finding that is a whole text starts where the text starts. -/
theorem startPlace_of_text_eq (hf : f ∈ all content rules tags) (htext : f.text = content) :
    f.startPlace = (0, 0) := by
  obtain ⟨a, b, hcontent, hs, -⟩ := (laid_all content rules tags).exists_of_mem hf
  obtain rfl : a = [] := by
    have hlen := congrArg List.length hcontent
    rw [htext] at hlen
    simp only [List.length_append] at hlen
    exact List.eq_nil_of_length_eq_zero (by omega)
  exact hs

/-- A finding at the start of a text is what a rule spells there. -/
theorem exists_rule_of_startPlace (hf : f ∈ all content rules tags)
    (hstart : f.startPlace = (0, 0)) :
    ∃ rule ∈ rules, rule.accepts f.text ∧ ∃ t, t ≠ [] ∧ t <+: content ∧
      f.text = Text.trimEnd t ∧ rule.pattern.body.Spells rule.pattern.ignoreCase t := by
  obtain ⟨c, hc, rfl⟩ := mem_all hf
  obtain ⟨rule, hrule, hit, hhit, hhitc⟩ := Candidate.mem_all hc
  obtain ⟨hcstart, hctext, rfl, hne⟩ := Candidate.of_ofHit? hhitc
  obtain ⟨a, b, hcontent, ha⟩ := Candidate.standsIn_of_mem_all hc
  obtain ⟨hplace, -⟩ := places_of_ofCandidate tags hcontent ha (Candidate.endsSolid_of_mem_all hc)
  obtain rfl : a = [] := Text.eq_of_advance_eq (c := [])
    ((List.append_assoc ..).symm.trans hcontent.symm) (hplace.symm.trans hstart)
  obtain ⟨a, b', hcontent', ha', hspell⟩ := Pattern.exists_of_mem_hits hhit
  obtain rfl : a = [] := Text.eq_nil_of_size_eq_zero (by rw [← ha', ← hcstart, ha]; rfl)
  have hitne : hit.text ≠ [] := fun hnil => hne (by rw [hctext, hnil]; rfl)
  exact ⟨c.rule, hrule, Candidate.accepts_of_mem_all hc, hit.text, hitne, ⟨b', hcontent'.symm⟩,
    hctext, hspell⟩

end Finding

/-! ## Matches -/

namespace Pattern

/-- Whether a pattern matches a text from end to end. -/
def matchesWhole (p : Pattern) (t : Text) : Bool :=
  (p.body.ends p.ignoreCase (.start t)).any (·.rest.isEmpty)

theorem spells_of_matchesWhole {p : Pattern} {t : Text} (h : p.matchesWhole t) :
    p.body.Spells p.ignoreCase t := by
  obtain ⟨d, hd, hrest⟩ := List.any_eq_true.1 h
  obtain ⟨u, hlead, hspell⟩ := Regex.spells_of_mem_ends hd
  have htext : t = u := by
    have hstart := hlead.1
    rw [List.isEmpty_iff.1 hrest, List.append_nil] at hstart
    exact hstart
  rwa [htext]

/-- A pattern that does not look around occurs in a text that holds what it spells. -/
theorem occursFrom_of_spells {p : Pattern} (hp : p.body.looksAround = false) {a t b : Text}
    (h : p.body.Spells p.ignoreCase t) (offset : Nat) (before : Option Char) :
    p.occursFrom offset before (a ++ t ++ b) := by
  have hhere : ∀ offset before, (p.end? ⟨offset, before, t ++ b⟩).isSome := by
    intro offset before
    rw [end?_eq_head?, List.isSome_head?]
    exact List.ne_nil_of_mem
      (Regex.mem_ends_of_spells hp h (c := ⟨offset, before, t ++ b⟩) rfl)
  induction a generalizing offset before with
  | nil =>
      rw [List.nil_append]
      cases htb : t ++ b with
      | nil =>
          rw [occursFrom, ← htb]
          exact hhere offset before
      | cons x xs =>
          rw [occursFrom, ← htb, hhere offset before, Bool.true_or]
  | cons x a ih =>
      rw [List.cons_append, List.cons_append, occursFrom, ih, Bool.or_true]

theorem occursIn_of_spells {p : Pattern} (hp : p.body.looksAround = false) {t content : Text}
    (h : p.body.Spells p.ignoreCase t) (ht : t <:+: content) : p.occursIn content := by
  obtain ⟨a, b, rfl⟩ := ht
  exact occursFrom_of_spells hp h 0 none

/-- A block comment is an opener, what it holds and a closer. -/
theorem spells_blockComment_iff {t : Text} :
    blockComment.body.Spells false t ↔ ∃ inner, t = "/*".toList ++ inner ++ "*/".toList := by
  constructor
  · rintro ⟨_, _, rfl, ⟨_, inner, rfl, hopener, -⟩, hcloser⟩
    rw [spells_text_iff.1 hopener, spells_text_iff.1 hcloser]
    exact ⟨inner, rfl⟩
  · rintro ⟨inner, rfl⟩
    exact ⟨_, _, rfl, ⟨_, inner, rfl, spells_text_iff.2 rfl, fun _ _ => rfl⟩,
      spells_text_iff.2 rfl⟩

/-- A text in a block comment that holds no closer. -/
theorem eq_of_spells_blockComment {s t : Text} (hs : s.includes "*/".toList = false)
    (h : blockComment.body.Spells false t) (ht : t <+: "/* ".toList ++ s ++ " */".toList) :
    t = "/* ".toList ++ s ++ " */".toList := by
  obtain ⟨inner, rfl⟩ := spells_blockComment_iff.1 h
  obtain ⟨rest, hrest⟩ := ht
  rcases List.eq_nil_or_concat rest with rfl | ⟨rest, y, rfl⟩
  · rwa [List.append_nil] at hrest
  · -- the closer would stand in front of the last character
    have hclosed : inner ++ "*/".toList ++ rest = [] ++ ' ' :: (s ++ ' ' :: "*".toList) := by
      have hlast : ("/*".toList ++ (inner ++ "*/".toList ++ rest)) ++ [y] =
          ("/*".toList ++ ([] ++ ' ' :: (s ++ ' ' :: "*".toList))) ++ ['/'] := by
        simpa using hrest
      exact List.append_cancel_left (List.append_inj' hlast rfl).1
    have hpart : "*/".toList <:+: [] ++ ' ' :: (s ++ ' ' :: "*".toList) := ⟨inner, rest, hclosed⟩
    rw [Text.infix_append_cons_iff (by decide), Text.infix_append_cons_iff (by decide),
      ← Text.includes_iff_infix (t := s), hs] at hpart
    exact absurd hpart (by decide)

/-- A block comment reaches to the first closer, so that one with a closer at its end only is
a hit as a whole. -/
theorem mem_hits_blockComment {s : Text} (hs : s.includes "*/".toList = false) :
    ⟨0, "/* ".toList ++ s ++ " */".toList⟩ ∈
      blockComment.hits ("/* ".toList ++ s ++ " */".toList) := by
  generalize hblock : "/* ".toList ++ s ++ " */".toList = block
  have hspell : blockComment.body.Spells false block :=
    spells_blockComment_iff.2 ⟨' ' :: s ++ [' '], by rw [← hblock]; simp⟩
  have hne : ¬ blockComment.body.Spells false [] := fun h => by
    obtain ⟨inner, hnil⟩ := spells_blockComment_iff.1 h
    simp at hnil
  obtain ⟨h, hmem, hstart, -⟩ := exists_hit_of_spells (p := blockComment) rfl hne hspell [] []
  rw [List.nil_append, List.append_nil] at hmem
  obtain ⟨a, b, hcontent, ha, hspell'⟩ := exists_of_mem_hits hmem
  obtain rfl : a = [] := Text.eq_nil_of_size_eq_zero (by rw [← ha]; exact Nat.le_zero.1 hstart)
  have htext := eq_of_spells_blockComment hs hspell' (hblock ▸ ⟨b, hcontent.symm⟩)
  rw [hblock] at htext
  obtain ⟨start, text⟩ := h
  obtain rfl : start = 0 := ha
  obtain rfl : text = block := htext
  exact hmem

end Pattern
end LogPrune
