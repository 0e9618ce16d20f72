import LogPrune.Command
import LogPrune.Proofs.Clean.Found

/-!
# LogPrune.Proofs.Clean.Influence

What the findings of a text depend on.

1. Accepted candidates do not overlap, and every candidate starts inside one
   that is accepted and ranks before it.  That settles them, up to candidates
   between which the ranking does not decide (`forall₂_tied`): they are the
   same for all lists of the same rules.
2. Tags only decide which findings are kept.  With more tags more lines are
   protected (`isProtectedRange_mono`), so no more findings are reported.
-/

namespace LogPrune

/-! ## Ties -/

namespace Candidate

/-- The ranking does not decide between two candidates. -/
def Tied (a b : Candidate) : Prop := a.ranksBefore b ∧ b.ranksBefore a

/-- Each of some candidates starts inside one of others that ranks before it. -/
def CoveredBy (cs ds : List Candidate) : Prop :=
  ∀ c ∈ cs, ∃ d ∈ ds, d.ranksBefore c ∧ c.start < d.stop

theorem Tied.eq {a b : Candidate} (h : a.Tied b) :
    a.start = b.start ∧ a.text.size = b.text.size ∧ a.rule.priority = b.rule.priority := by
  obtain ⟨hab, hba⟩ := h
  simp only [ranksBefore, Bool.or_eq_true, Bool.and_eq_true, decide_eq_true_eq] at hab hba
  omega

theorem Tied.stop_eq {a b : Candidate} (h : a.Tied b) : a.stop = b.stop := by
  rw [stop, stop, h.eq.1, h.eq.2.1]

/-- Tied candidates of one text have the same text. -/
theorem Tied.text_eq {content : Text} {a b : Candidate} (h : a.Tied b)
    (ha : a.StandsIn content) (hb : b.StandsIn content) : a.text = b.text := by
  obtain ⟨before, after, hcontent, hstart⟩ := ha
  obtain ⟨before', after', hcontent', hstart'⟩ := hb
  obtain ⟨hsame, hsize, -⟩ := h.eq
  have hjoin : before ++ (a.text ++ after) = before' ++ (b.text ++ after') := by
    rw [← List.append_assoc, ← hcontent, hcontent', List.append_assoc]
  obtain rfl := Text.eq_of_size_eq hjoin (by omega)
  exact Text.eq_of_size_eq (List.append_cancel_left hjoin) hsize

/-- Candidates that do not overlap and cover each other are tied, one by one. -/
theorem forall₂_tied {cs ds : List Candidate} (hcs : cs.Pairwise (·.stop ≤ ·.start))
    (hds : ds.Pairwise (·.stop ≤ ·.start)) (hne : ∀ c ∈ cs, c.start < c.stop)
    (hne' : ∀ d ∈ ds, d.start < d.stop) (hcov : CoveredBy cs ds) (hcov' : CoveredBy ds cs) :
    List.Forall₂ Tied cs ds :=
  forall₂_of_covered (fun a b : Candidate => a.ranksBefore b)
    (fun _ _ hranks => (of_ranksBefore hranks).1)
    (fun _ _ hab hba => Tied.stop_eq ⟨hab, hba⟩) hcs hds hne hne' hcov hcov'

/-! ## Lists of the same rules -/

/-- The candidates that are accepted in a text. -/
def picked (content : Text) (rules : List Rule) : List Candidate :=
  accepted 0 ((all content rules).mergeSort ranksBefore)

variable {content : Text} {rules rules' : List Rule}

theorem mem_all_of_mem_picked {c : Candidate} (h : c ∈ picked content rules) :
    c ∈ all content rules :=
  List.mem_mergeSort.1 ((accepted_sublist _ _).mem h)

theorem mem_all_of_subset {c : Candidate} (h : rules ⊆ rules') (hc : c ∈ all content rules) :
    c ∈ all content rules' := by
  obtain ⟨rule, hrule, hit⟩ := List.mem_flatMap.1 hc
  exact List.mem_flatMap.2 ⟨rule, h hrule, hit⟩

theorem start_lt_stop_of_mem_picked {c : Candidate} (h : c ∈ picked content rules) :
    c.start < c.stop := by
  obtain ⟨s, x, htext, -⟩ := endsSolid_of_mem_all (mem_all_of_mem_picked h)
  exact Nat.lt_add_of_pos_right (Text.size_pos (by simp [htext]))

/-- What some of the rules find starts inside what all of them find. -/
theorem coveredBy_picked (h : rules ⊆ rules') :
    CoveredBy (picked content rules) (picked content rules') := fun _ hc =>
  exists_accepted_of_mem_all (mem_all_of_subset h (mem_all_of_mem_picked hc))

/-- All lists of the same rules have the same candidates accepted, but for ties. -/
theorem forall₂_tied_picked (h : rules ⊆ rules') (h' : rules' ⊆ rules) :
    List.Forall₂ Tied (picked content rules) (picked content rules') :=
  forall₂_tied (pairwise_accepted 0 _).2 (pairwise_accepted 0 _).2
    (fun _ hc => start_lt_stop_of_mem_picked hc) (fun _ hc => start_lt_stop_of_mem_picked hc)
    (coveredBy_picked h) (coveredBy_picked h')

end Candidate

namespace Finding

/-- Two findings differ in nothing but what they are called. -/
def Renamed (f g : Finding) : Prop := g = { f with description := g.description }

/-- Tied candidates of rules that heed markers alike are the same finding, by
whatever name. -/
theorem renamed_ofCandidate {content : Text} {tags : List String} {a b : Candidate}
    (h : a.Tied b) (ha : a.StandsIn content) (hb : b.StandsIn content)
    (hheeds : a.rule.heedsMarkers = b.rule.heedsMarkers) :
    (ofCandidate tags content.lines (content.lines.map Text.size) a).Renamed
      (ofCandidate tags content.lines (content.lines.map Text.size) b) := by
  simp only [Renamed, ofCandidate, h.eq.1, h.stop_eq, h.text_eq ha hb, h.eq.2.2, hheeds]

/-- All lists of the same rules find the same in a text, by whatever names, and
each list can give either name. -/
theorem forall₂_renamed {content : Text} {rules rules' : List Rule} (tags : List String)
    (h : rules ⊆ rules') (h' : rules' ⊆ rules)
    (hheeds : ∀ r ∈ rules, ∀ s ∈ rules, r.heedsMarkers = s.heedsMarkers) :
    List.Forall₂ (fun f g => f.Renamed g
        ∧ f ∈ candidates content rules tags ∧ g ∈ candidates content rules tags)
      (all content rules tags) (all content rules' tags) := by
  have htied : List.Forall₂ Candidate.Tied (Candidate.picked content rules)
      (Candidate.picked content rules') := Candidate.forall₂_tied_picked h h'
  have hmem : ∀ a ∈ Candidate.picked content rules', a ∈ Candidate.all content rules :=
    fun _ ha => Candidate.mem_all_of_subset h' (Candidate.mem_all_of_mem_picked ha)
  rw [all, all, List.forall₂_map_left_iff, List.forall₂_map_right_iff]
  refine List.forall₂_iff_zip.2 ⟨htied.length_eq, fun hab => ?_⟩
  obtain ⟨ha, hb⟩ := List.of_mem_zip hab
  have ha := Candidate.mem_all_of_mem_picked ha
  have hb := hmem _ hb
  exact ⟨renamed_ofCandidate (List.forall₂_zip htied hab) (Candidate.standsIn_of_mem_all ha)
      (Candidate.standsIn_of_mem_all hb)
      (hheeds _ (Candidate.rule_of_mem_all ha) _ (Candidate.rule_of_mem_all hb)),
    List.mem_map_of_mem ha, List.mem_map_of_mem hb⟩

end Finding

/-! ## More tags -/

section Tags

variable {tags tags' : List String} (h : tags ⊆ tags')
include h

theorem carriesMarker_mono {line : Text} (hline : carriesMarker tags line) :
    carriesMarker tags' line := by
  simp only [carriesMarker, Bool.or_eq_true, List.any_eq_true] at hline ⊢
  obtain ⟨tag, htag, hfound⟩ | hcomment := hline
  · exact .inl ⟨tag, h htag, hfound⟩
  · exact .inr hcomment

theorem isProtected_mono {lines : List Text} {i : Nat} (hi : isProtected tags lines i) :
    isProtected tags' lines i := by
  rw [isProtected] at hi ⊢
  split at hi
  · contradiction
  · simp only [Bool.or_eq_true, Bool.and_eq_true, Option.any_eq_true] at hi ⊢
    obtain hmark | ⟨hpos, above, habove, hmark⟩ := hi
    · exact .inl (carriesMarker_mono h hmark)
    · exact .inr ⟨hpos, above, habove, carriesMarker_mono h hmark⟩

/-- More tags protect all that fewer do. -/
theorem isProtectedRange_mono {lines : List Text} {first last : Nat}
    (hrange : isProtectedRange tags lines first last) :
    isProtectedRange tags' lines first last := by
  rw [isProtectedRange, List.any_eq_true] at hrange ⊢
  obtain ⟨i, hi, hprotected⟩ := hrange
  exact ⟨i, hi, isProtected_mono h hprotected⟩

namespace Finding

/-- With more tags the findings of a text are the same, and those that were kept
still are. -/
theorem forall₂_kept (content : Text) (rules : List Rule) :
    List.Forall₂ (fun f g => g = { f with keep := g.keep } ∧ (f.keep → g.keep))
      (all content rules tags) (all content rules tags') := by
  rw [all, all, List.forall₂_map_left_iff, List.forall₂_map_right_iff, List.forall₂_same]
  intro c _
  refine ⟨rfl, fun hkeep => ?_⟩
  simp only [ofCandidate, Bool.and_eq_true] at hkeep ⊢
  exact ⟨hkeep.1, isProtectedRange_mono h hkeep.2⟩

end Finding

end Tags

namespace Finding

/-- Of findings of which more are kept fewer are reported. -/
theorem reported_sublist {fs gs : List Finding}
    (h : List.Forall₂ (fun f g => g = { f with keep := g.keep } ∧ (f.keep → g.keep)) fs gs) :
    (gs.filter (!·.keep)).Sublist (fs.filter (!·.keep)) := by
  induction h with
  | nil => exact .slnil
  | @cons f g fs gs hfg _ ih =>
    obtain ⟨hsame, hkept⟩ := hfg
    cases hg : g.keep with
    | true =>
      rw [List.filter_cons_of_neg (by simp [hg])]
      exact ih.trans ((List.sublist_cons_self f fs).filter _)
    | false =>
      have hf : f.keep = false := by
        rw [← Bool.not_eq_true]
        exact fun hf => by simp [hkept hf] at hg
      obtain rfl : g = f := by rw [hsame, hg, ← hf]
      rw [List.filter_cons_of_pos (by simp [hg]), List.filter_cons_of_pos (by simp [hg])]
      exact ih.cons_cons g

end Finding

/-! ## Settings -/

/-- The rules for a language do not depend on the tags. -/
theorem rulesFor_whitelistTags (language : String) (config : Config) (tags : List String) :
    rulesFor language { config with whitelistTags := tags } = rulesFor language config := by
  have hrules : ∀ ruleset ∈ Ruleset.registry,
      ruleset.rules { config with whitelistTags := tags } = ruleset.rules config := by
    simp only [Ruleset.registry, List.forall_mem_cons, List.not_mem_nil, false_imp_iff,
      implies_true, and_true]
    refine ⟨rfl, rfl, rfl, rfl, rfl, rfl, rfl, rfl, rfl, rfl, rfl, rfl, rfl, rfl, rfl, rfl, rfl,
      rfl, rfl, rfl⟩
  cases hlang : Ruleset.forLanguage? language with
  | none => rw [rulesFor, rulesFor, hlang]; rfl
  | some ruleset =>
    rw [rulesFor, rulesFor, hlang]
    exact hrules ruleset (List.mem_of_find?_eq_some hlang)

/-- An order with more tags reports no more. -/
theorem findings_sublist_of_keepTags {content : Text} {language : String} {config : Config}
    {order : CleanOrder} {tags : List String} {cleaned : Cleaned} (h : order.keepTags ⊆ tags)
    (hclean : clean? content language (order.override config) = some cleaned) :
    ∃ fewer, clean? content language ({ order with keepTags := tags }.override config)
        = some fewer ∧ fewer.findings.Sublist cleaned.findings := by
  obtain ⟨ruleset, hlang, -⟩ := exists_ruleset_of_clean? hclean
  have hfewer : ∃ fewer, clean? content language
      ({ order with keepTags := tags }.override config) = some fewer := by
    rw [clean?, hlang]
    exact ⟨_, rfl⟩
  obtain ⟨fewer, hfewer⟩ := hfewer
  refine ⟨fewer, hfewer, ?_⟩
  rw [eq_cleanFindings_of_clean? hclean, eq_cleanFindings_of_clean? hfewer,
    findings_cleanFindings, findings_cleanFindings]
  have hrules : rulesFor language ({ order with keepTags := tags }.override config)
      = rulesFor language (order.override config) :=
    rulesFor_whitelistTags language (order.override config) (config.whitelistTags ++ tags)
  rw [findingsIn, findingsIn, hrules]
  have htags : config.whitelistTags ++ order.keepTags ⊆ config.whitelistTags ++ tags :=
    List.append_subset.2 ⟨List.subset_append_left _ _, List.subset_append_of_subset_right _ h⟩
  exact Finding.reported_sublist (Finding.forall₂_kept htags _ _)

/-- What the findings of a text depend on.  Rules that heed markers alike find
the same in whatever order and however often they are listed; only where several
candidates are the same does the list say which of their names the finding
bears.  Tags have no part in what is found, and more of them keep more, so that
an order with more tags reports no more. -/
theorem findings_determined (content : Text) :
    (∀ (rules rules' : List Rule) (tags : List String), (∀ r, r ∈ rules ↔ r ∈ rules') →
      (∀ r ∈ rules, ∀ s ∈ rules, r.heedsMarkers = s.heedsMarkers) →
      List.Forall₂ (fun f g => f.Renamed g ∧ f ∈ Finding.candidates content rules tags
          ∧ g ∈ Finding.candidates content rules tags)
        (Finding.all content rules tags) (Finding.all content rules' tags)) ∧
    (∀ (rules : List Rule) (tags tags' : List String), tags ⊆ tags' →
      List.Forall₂ (fun f g => g = { f with keep := g.keep } ∧ (f.keep → g.keep))
        (Finding.all content rules tags) (Finding.all content rules tags')) ∧
    (∀ (language : String) (config : Config) (order : CleanOrder) (tags : List String)
      (cleaned : Cleaned), order.keepTags ⊆ tags →
      clean? content language (order.override config) = some cleaned →
      ∃ fewer, clean? content language ({ order with keepTags := tags }.override config)
        = some fewer ∧ fewer.findings.Sublist cleaned.findings) :=
  ⟨fun _ _ tags hsame hheeds => Finding.forall₂_renamed tags (fun r hr => (hsame r).1 hr)
      (fun r hr => (hsame r).2 hr) hheeds,
    fun rules _ _ htags => Finding.forall₂_kept htags content rules,
    fun _ _ _ _ _ htags hclean => findings_sublist_of_keepTags htags hclean⟩

/-- A rule for `print(...)` under a name. -/
def printsAs (description : String) : Rule where
  pattern := Pattern.printCall
  description := description
  priority := 10

/-- Two rules for the same calls, listed the other way round, and a tag that
keeps a call. -/
theorem findings_determined_print :
    ((Finding.all "print(1) # x".toList [printsAs "a", printsAs "b"] []).map (·.description)
        = ["a"] ∧
      (Finding.all "print(1) # x".toList [printsAs "b", printsAs "a", printsAs "b"] []).map
        (·.description) = ["b"] ∧
      List.Forall₂ (fun f g => f.Renamed g
          ∧ f ∈ Finding.candidates "print(1) # x".toList [printsAs "a", printsAs "b"] []
          ∧ g ∈ Finding.candidates "print(1) # x".toList [printsAs "a", printsAs "b"] [])
        (Finding.all "print(1) # x".toList [printsAs "a", printsAs "b"] [])
        (Finding.all "print(1) # x".toList [printsAs "b", printsAs "a", printsAs "b"] [])) ∧
    ((Finding.all "print(1) # x".toList [printsAs "a"] ["# x"]).map (·.keep) = [true] ∧
      List.Forall₂ (fun f g => g = { f with keep := g.keep } ∧ (f.keep → g.keep))
        (Finding.all "print(1) # x".toList [printsAs "a"] [])
        (Finding.all "print(1) # x".toList [printsAs "a"] ["# x"])) ∧
    ∃ cleaned fewer,
      clean? "print(1) # x".toList "python" (CleanOrder.override {} {}) = some cleaned ∧
      clean? "print(1) # x".toList "python"
        (CleanOrder.override { keepTags := ["# x"] } {}) = some fewer ∧
      fewer.findings.Sublist cleaned.findings ∧
      cleaned.findings.length = 1 ∧ fewer.findings.length = 0 := by
  obtain ⟨hrules, htags, horder⟩ := findings_determined "print(1) # x".toList
  have hclean : clean? "print(1) # x".toList "python" (CleanOrder.override {} {}) = some
      { newContent := "print(1) # x".toList
        findings := [
          { text := "print(1)".toList, startLine := 0, endLine := 0, startChar := 0,
            endChar := 8, description := "Python print() statements", priority := 10,
            keep := false }]
        kept := 0, removed := 0, commented := 0 } := by cbv
  have hfewer : clean? "print(1) # x".toList "python"
      (CleanOrder.override { keepTags := ["# x"] } {}) = some
        { newContent := "print(1) # x".toList, findings := [], kept := 1, removed := 0,
          commented := 0 } := by cbv
  obtain ⟨fewer, hsame, hsub⟩ :=
    horder "python" {} {} ["# x"] _ (List.nil_subset _) hclean
  obtain rfl := Option.some.inj (hfewer.symm.trans hsame)
  refine ⟨⟨by cbv, by cbv, hrules _ _ _ ?_ ?_⟩, ⟨by cbv, ?_⟩, _, _, hclean, hfewer, hsub, rfl, rfl⟩
  · simp only [List.mem_cons, List.not_mem_nil, or_false]
    tauto
  · simp [printsAs]
  · exact htags _ _ _ (List.nil_subset _)

end LogPrune
