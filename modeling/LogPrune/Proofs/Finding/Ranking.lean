import LogPrune.Proofs.Finding.Collapse

/-!
# LogPrune.Proofs.Finding.Ranking

Which candidates become findings.

Candidates are numbered as they come: rule by rule, and from left to right for each
rule.  The number settles the ranking where start, length and priority do not, so that
of two candidates one always outranks the other.  `Collapsed` says what is to stay of
candidates that overlap, without saying how it is found: some of them that stand one
behind the other, so that every other candidate starts inside one that stays and
outranks it.  There is exactly one such choice, and it is what the sweep over the ranked
candidates accepts (`all_eq_map_collapsed`).
-/

namespace LogPrune
namespace Candidate

/-! ## The ranking -/

/-- The candidates of some rules, for each rule its hits without the blanks at their
ends, those left out that are empty or that the filter refuses. -/
theorem all_eq_filter (content : Text) (rules : List Rule) :
    all content rules = rules.flatMap fun rule =>
      ((rule.pattern.hits content).map fun h => ⟨h.start, Text.trimEnd h.text, rule⟩).filter
        fun c : Candidate => c.text ≠ [] && rule.accepts c.text := by
  refine congrArg (fun candidates => rules.flatMap candidates) (funext fun rule => ?_)
  induction rule.pattern.hits content with
  | nil => rfl
  | cons h hits ih =>
      rw [List.filterMap_cons, List.map_cons, List.filter_cons, ih, ofHit?]
      by_cases hempty : Text.trimEnd h.text = []
      · simp [hempty]
      · by_cases haccepts : rule.accepts (Text.trimEnd h.text) <;> simp [hempty, haccepts]

/-- Of two numbered candidates the first one ranks before the second one: it starts
earlier, or else is longer, or else has the higher priority, or else the smaller
number. -/
def Outranks (a b : Candidate × Nat) : Prop :=
  a.1.start < b.1.start ∨ a.1.start = b.1.start ∧
    (b.1.text.size < a.1.text.size ∨ a.1.text.size = b.1.text.size ∧
      (b.1.rule.priority < a.1.rule.priority ∨ a.1.rule.priority = b.1.rule.priority ∧
        a.2 < b.2))

theorem Outranks.start_le {a b : Candidate × Nat} (h : Outranks a b) :
    a.1.start ≤ b.1.start := by
  unfold Outranks at h
  omega

theorem Outranks.asymm {a b : Candidate × Nat} (h : Outranks a b) : ¬ Outranks b a := by
  unfold Outranks at *
  omega

/-- Ranking candidates so that those come first that come first in the list, where
nothing else decides, is ranking by number there. -/
theorem outranks_of_zipIdxLE {a b : Candidate × Nat} (h : List.zipIdxLE ranksBefore a b)
    (hne : a.2 ≠ b.2) : Outranks a b := by
  simp only [List.zipIdxLE, ranksBefore, Bool.or_eq_true, Bool.and_eq_true,
    decide_eq_true_eq] at h
  unfold Outranks
  grind

/-- The numbered candidates in the order of the ranking. -/
def ranked (cs : List Candidate) : List (Candidate × Nat) :=
  cs.zipIdx.mergeSort (List.zipIdxLE ranksBefore)

theorem mem_ranked {cs : List Candidate} {c : Candidate × Nat} : c ∈ ranked cs ↔ c ∈ cs.zipIdx :=
  List.mem_mergeSort

/-- Without their numbers they are in the order in which they are swept. -/
theorem map_ranked (cs : List Candidate) :
    (ranked cs).map (·.1) = cs.mergeSort ranksBefore := List.mergeSort_zipIdx

theorem pairwise_ranked (cs : List Candidate) : (ranked cs).Pairwise Outranks := by
  have hsorted : (ranked cs).Pairwise fun a b => List.zipIdxLE ranksBefore a b :=
    List.pairwise_mergeSort (List.zipIdxLE_trans ranksBefore_trans)
      (List.zipIdxLE_total ranksBefore_total) _
  have hnumbers : ((ranked cs).map (·.2)).Nodup := by
    have hperm := (List.mergeSort_perm cs.zipIdx (List.zipIdxLE ranksBefore)).map (·.2)
    rw [ranked, hperm.nodup_iff, List.zipIdx_map_snd]
    exact List.nodup_range'
  exact hsorted.imp₂ (fun _ _ h hne => outranks_of_zipIdxLE h hne) (List.pairwise_map.1 hnumbers)

/-! ## What stays -/

/-- What stays of numbered candidates when those that overlap are collapsed. -/
structure Collapsed (cs kept : List (Candidate × Nat)) : Prop where
  subset : kept ⊆ cs
  inOrder : kept.Pairwise fun a b => a.1.start < b.1.start
  disjoint : kept.Pairwise fun a b => a.1.stop ≤ b.1.start
  /-- A candidate is only lost to one that stays, ranks before it and holds its start. -/
  lost : ∀ c ∈ cs, c ∉ kept →
    ∃ k ∈ kept, Outranks k c ∧ k.1.start ≤ c.1.start ∧ c.1.start < k.1.stop

/-- Nothing but one choice of candidates can stay. -/
theorem Collapsed.unique {cs kept kept' : List (Candidate × Nat)}
    (hne : ∀ c ∈ cs, c.1.start < c.1.stop) (h : Collapsed cs kept) (h' : Collapsed cs kept') :
    kept = kept' := by
  have hcovered : ∀ {as bs}, Collapsed cs as → Collapsed cs bs →
      ∀ a ∈ as, ∃ b ∈ bs, (b = a ∨ Outranks b a) ∧ a.1.start < b.1.stop := by
    intro as bs has hbs a ha
    by_cases hmem : a ∈ bs
    · exact ⟨a, hmem, .inl rfl, hne a (has.subset ha)⟩
    · obtain ⟨b, hb, hranks, -, hinside⟩ := hbs.lost a (has.subset ha) hmem
      exact ⟨b, hb, .inr hranks, hinside⟩
  have htied := forall₂_of_covered (fun a b : Candidate × Nat => a = b ∨ Outranks a b)
    (fun a b hab => hab.elim (fun heq => heq ▸ Nat.le_refl _) Outranks.start_le)
    (fun a b hab hba => by
      rcases hab with rfl | hab
      · rfl
      · exact hba.elim (fun heq => by rw [heq]) (fun hba => absurd hba hab.asymm))
    h.disjoint h'.disjoint (fun a ha => hne a (h.subset ha)) (fun b hb => hne b (h'.subset hb))
    (hcovered h h') (hcovered h' h)
  refine List.forall₂_eq_eq_eq ▸ htied.imp fun a b hab => ?_
  rcases hab with ⟨rfl | hab, hba⟩
  · rfl
  · exact (hba.resolve_right hab.asymm).symm

/-- What a sweep over ranked candidates accepts, with the numbers: every other one
starts where the text was covered before or inside one that is accepted and ranks before
it. -/
theorem exists_swept {covered : Nat} {cs : List (Candidate × Nat)} (hranked : cs.Pairwise Outranks) :
    ∃ kept : List (Candidate × Nat), kept.Sublist cs ∧ kept.map (·.1) = accepted covered (cs.map (·.1)) ∧
      ∀ c ∈ cs, c ∉ kept →
        c.1.start < covered ∨ ∃ k ∈ kept, Outranks k c ∧ c.1.start < k.1.stop := by
  induction cs generalizing covered with
  | nil => exact ⟨[], .slnil, rfl, by simp⟩
  | cons c cs ih =>
      obtain ⟨hc, hranked⟩ := List.pairwise_cons.1 hranked
      by_cases hcovered : c.1.start < covered
      · obtain ⟨kept, hsub, haccepted, hlost⟩ := @ih covered hranked
        refine ⟨kept, hsub.cons c, ?_, fun d hd hnot => ?_⟩
        · rw [List.map_cons, accepted, if_pos hcovered, haccepted]
        · rcases List.mem_cons.1 hd with rfl | hd
          · exact .inl hcovered
          · exact hlost d hd hnot
      · obtain ⟨kept, hsub, haccepted, hlost⟩ := @ih c.1.stop hranked
        refine ⟨c :: kept, hsub.cons_cons c, ?_, fun d hd hnot => .inr ?_⟩
        · rw [List.map_cons, List.map_cons, accepted, if_neg hcovered, haccepted]
        · obtain ⟨hdc, hnot⟩ := List.ne_and_not_mem_of_not_mem_cons hnot
          have hd := (List.mem_cons.1 hd).resolve_left hdc
          rcases hlost d hd hnot with hinside | ⟨k, hk, hranks, hinside⟩
          · exact ⟨c, List.mem_cons_self, hc d hd, hinside⟩
          · exact ⟨k, List.mem_cons_of_mem c hk, hranks, hinside⟩

/-- The sweep finds the choice of candidates that is to stay. -/
theorem exists_collapsed {cs : List Candidate} (hne : ∀ c ∈ cs, c.start < c.stop) :
    ∃ kept, Collapsed cs.zipIdx kept ∧
      kept.map (·.1) = accepted 0 (cs.mergeSort ranksBefore) := by
  obtain ⟨kept, hsub, haccepted, hlost⟩ := @exists_swept 0 _ (pairwise_ranked cs)
  rw [map_ranked] at haccepted
  have hsubset : kept ⊆ cs.zipIdx := fun c hc => mem_ranked.1 (hsub.mem hc)
  have hdisjoint : kept.Pairwise fun a b => a.1.stop ≤ b.1.start := by
    have haccepted' := (pairwise_accepted 0 (cs.mergeSort ranksBefore)).2
    rwa [← haccepted, List.pairwise_map] at haccepted'
  refine ⟨kept, ⟨hsubset, hdisjoint.imp_of_mem fun {a b} ha _ hle => ?_, hdisjoint, ?_⟩, haccepted⟩
  · have := hne a.1 (List.fst_mem_of_mem_zipIdx (hsubset ha))
    omega
  · intro c hc hnot
    rcases hlost c (mem_ranked.2 hc) hnot with hlt | ⟨k, hk, hranks, hinside⟩
    · exact absurd hlt (Nat.not_lt_zero _)
    · exact ⟨k, hk, hranks, hranks.start_le, hinside⟩

end Candidate

/-! ## Findings -/

/-- The findings of a text are those of its candidates that stay when candidates that
overlap are collapsed to the earliest, of these to the longest, of these to the one of
the highest priority, and of these to the one that comes first.  No other choice of
candidates does so. -/
theorem Finding.all_eq_map_collapsed (content : Text) (rules : List Rule) (tags : List String) :
    let candidates : List Candidate := rules.flatMap fun rule =>
      ((rule.pattern.hits content).map fun h => ⟨h.start, Text.trimEnd h.text, rule⟩).filter
        fun c : Candidate => c.text ≠ [] && rule.accepts c.text
    ∃ kept : List (Candidate × Nat),
      (∀ ks, Candidate.Collapsed candidates.zipIdx ks ↔ ks = kept) ∧
      all content rules tags = kept.map fun k =>
        ofCandidate tags content.lines (content.lines.map Text.size) k.1 := by
  intro candidates
  have hcandidates : Candidate.all content rules = candidates := Candidate.all_eq_filter content rules
  have hne : ∀ c ∈ candidates, c.start < c.stop := by
    intro c hc
    obtain ⟨s, x, htext, -⟩ := Candidate.endsSolid_of_mem_all (hcandidates ▸ hc)
    exact Nat.lt_add_of_pos_right (Text.size_pos (by simp [htext]))
  obtain ⟨kept, hkept, haccepted⟩ := Candidate.exists_collapsed hne
  refine ⟨kept, fun ks => ⟨fun hks => ?_, fun heq => heq ▸ hkept⟩, ?_⟩
  · exact hks.unique (fun c hc => hne c.1 (List.fst_mem_of_mem_zipIdx hc)) hkept
  · rw [all, hcandidates, ← haccepted, List.map_map]
    rfl

/-- Of two hits that are equal the priority decides; a hit that is lost, here `cd`, hides
no other one. -/
example : (Finding.all "abcd".toList
    [{ pattern := ⟨.lit "bcd", false⟩, description := "1", priority := 9 },
     { pattern := ⟨.lit "abc", false⟩, description := "2", priority := 1 },
     { pattern := ⟨.lit "abc", false⟩, description := "3", priority := 2 },
     { pattern := ⟨.lit "cd", false⟩, description := "4", priority := 9 },
     { pattern := ⟨.lit "d", false⟩, description := "5", priority := 1 }] []).map
    (fun f => (f.description, f.startChar, f.endChar)) = [("3", 0, 3), ("5", 3, 4)] := by cbv

end LogPrune
