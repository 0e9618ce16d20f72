import LogPrune.Sources
import Mathlib.Data.List.Perm.Basic

/-!
# LogPrune.Proofs.FilePath.Order

The order of paths.

1. Components are ordered totally, and paths by their components, one after
   another: `le` is reflexive, transitive and total, and two paths each of which
   comes before the other are the same path.
2. Sorting and dropping repeated paths gives a list that grows strictly
   (`pairwise_dropRepeated`) and holds every path once, in one of its spellings
   (`exists_mem_dropRepeated`).
3. A list of paths that grows strictly is determined, spellings apart, by the
   paths in it (`map_components_eq`).
-/

namespace LogPrune

/-! ## Components -/

namespace Component

@[simp] theorem lt_irrefl (a : Component) : a.lt a = false := by
  cases a <;> simp [lt]

theorem lt_trans {a b c : Component} (hab : a.lt b) (hbc : b.lt c) : a.lt c := by
  cases a <;> cases b <;> cases c <;>
    simp only [lt, decide_eq_true_eq, Bool.false_eq_true] at hab hbc ⊢
  exact String.lt_trans hab hbc

theorem lt_or_lt {a b : Component} (h : a ≠ b) : a.lt b ∨ b.lt a := by
  cases a <;> cases b <;> simp only [lt, decide_eq_true_eq, Bool.false_eq_true, or_true, or_false,
    ne_eq, name.injEq, not_true_eq_false] at h ⊢
  next m n =>
    by_cases hmn : m < n
    · exact .inl hmn
    · by_cases hnm : n < m
      · exact .inr hnm
      · exact absurd (String.le_antisymm (String.not_lt.1 hnm) (String.not_lt.1 hmn)) h

end Component

namespace FilePath

/-! ## Paths -/

theorem componentsLe_trans {as bs cs : List Component} (hab : componentsLe as bs)
    (hbc : componentsLe bs cs) : componentsLe as cs := by
  induction as generalizing bs cs with
  | nil => rfl
  | cons a as ih =>
    obtain _ | ⟨b, bs⟩ := bs
    · simp [componentsLe] at hab
    obtain _ | ⟨c, cs⟩ := cs
    · simp [componentsLe] at hbc
    by_cases h : a = b
    · subst h
      by_cases h' : a = c
      · subst h'
        simp only [componentsLe, if_true] at hab hbc ⊢
        exact ih hab hbc
      · simpa [componentsLe, h'] using hbc
    · have hlt : a.lt b := by simpa [componentsLe, h] using hab
      by_cases h' : b = c
      · subst h'
        simpa [componentsLe, h] using hlt
      · have hlt' : b.lt c := by simpa [componentsLe, h'] using hbc
        have hac := Component.lt_trans hlt hlt'
        have hne : a ≠ c := by
          rintro rfl
          simp at hac
        simpa [componentsLe, hne] using hac

theorem componentsLe_total (as bs : List Component) : componentsLe as bs ∨ componentsLe bs as := by
  induction as generalizing bs with
  | nil => exact .inl rfl
  | cons a as ih =>
    obtain _ | ⟨b, bs⟩ := bs
    · exact .inr rfl
    by_cases h : a = b
    · simpa [componentsLe, h] using ih bs
    · simpa [componentsLe, h, Ne.symm h] using Component.lt_or_lt h

theorem componentsLe_antisymm {as bs : List Component} (hab : componentsLe as bs)
    (hba : componentsLe bs as) : as = bs := by
  induction as generalizing bs with
  | nil =>
    obtain _ | ⟨b, bs⟩ := bs
    · rfl
    · simp [componentsLe] at hba
  | cons a as ih =>
    obtain _ | ⟨b, bs⟩ := bs
    · simp [componentsLe] at hab
    by_cases h : a = b
    · subst h
      simp only [componentsLe, if_true] at hab hba
      rw [ih hab hba]
    · have hlt : a.lt b := by simpa [componentsLe, h] using hab
      have hgt : b.lt a := by simpa [componentsLe, Ne.symm h] using hba
      simpa using Component.lt_trans hlt hgt

theorem same_iff {p q : FilePath} : p.same q ↔ p.components = q.components := by
  simp [same]

theorem le_trans {p q r : FilePath} (hpq : p.le q) (hqr : q.le r) : p.le r :=
  componentsLe_trans hpq hqr

theorem same_of_le {p q : FilePath} (hpq : p.le q) (hqp : q.le p) : p.same q :=
  same_iff.2 (componentsLe_antisymm hpq hqp)

/-! ## Sorted paths -/

theorem pairwise_mergeSort_le (ps : List FilePath) :
    (ps.mergeSort le).Pairwise fun p q => p.le q := by
  apply List.pairwise_mergeSort
  · intro p q r hpq hqr
    exact le_trans hpq hqr
  · intro p q
    rw [Bool.or_eq_true]
    exact componentsLe_total p.components q.components

theorem dropRepeated_cons (p : FilePath) {ps : List FilePath} (h : dropRepeated ps = q :: qs) :
    dropRepeated (p :: ps) = if p.same q then p :: qs else p :: q :: qs := by
  rw [dropRepeated, h]

theorem dropRepeated_subset (ps : List FilePath) : dropRepeated ps ⊆ ps := by
  induction ps with
  | nil => exact List.Subset.refl []
  | cons p ps ih =>
    cases hrest : dropRepeated ps with
    | nil => simp [dropRepeated, hrest]
    | cons q qs =>
      rw [hrest] at ih
      rw [dropRepeated_cons p hrest]
      split
      · exact List.cons_subset_cons p (List.subset_of_cons_subset ih)
      · exact List.cons_subset_cons p ih

/-- No path is lost, but for its spelling. -/
theorem exists_mem_dropRepeated {ps : List FilePath} (h : p ∈ ps) :
    ∃ q ∈ dropRepeated ps, q.same p := by
  induction ps with
  | nil => contradiction
  | cons p' ps ih =>
    cases hrest : dropRepeated ps with
    | nil => 
      obtain rfl | h := List.mem_cons.1 h
      · exact ⟨p, by simp [dropRepeated, hrest], same_iff.2 rfl⟩
      · simpa [hrest] using ih h
    | cons p'' qs =>
      rw [dropRepeated_cons p' hrest]
      obtain rfl | h := List.mem_cons.1 h
      · exact ⟨p, by split <;> simp, same_iff.2 rfl⟩
      · obtain ⟨q, hq, hsame⟩ := ih h
        rw [hrest] at hq
        split
        · next heq =>
          obtain rfl | hq := List.mem_cons.1 hq
          · exact ⟨p', List.mem_cons_self, same_iff.2 ((same_iff.1 heq).trans (same_iff.1 hsame))⟩
          · exact ⟨q, List.mem_cons_of_mem _ hq, hsame⟩
        · exact ⟨q, List.mem_cons_of_mem _ hq, hsame⟩

/-- Sorted paths without the repeated ones grow strictly. -/
theorem pairwise_dropRepeated {ps : List FilePath} (h : ps.Pairwise fun p q => p.le q) :
    (dropRepeated ps).Pairwise fun p q => p.le q ∧ ¬ p.same q := by
  induction ps with
  | nil => exact .nil
  | cons p ps ih =>
    obtain ⟨hp, hps⟩ := List.pairwise_cons.1 h
    have hstrict := ih hps
    cases hrest : dropRepeated ps with
    | nil => simp [dropRepeated, hrest]
    | cons q qs =>
      have hle : ∀ q' ∈ q :: qs, p.le q' := fun q' hq' =>
        hp q' (dropRepeated_subset ps (hrest ▸ hq'))
      rw [hrest] at hstrict
      obtain ⟨hq, hqs⟩ := List.pairwise_cons.1 hstrict
      rw [dropRepeated_cons p hrest]
      split
      · next heq =>
        refine List.pairwise_cons.2 ⟨fun q' hq' => ⟨hle q' (List.mem_cons_of_mem _ hq'), ?_⟩, hqs⟩
        intro hsame
        exact (hq q' hq').2 (same_iff.2 ((same_iff.1 heq).symm.trans (same_iff.1 hsame)))
      · next hne =>
        refine List.pairwise_cons.2 ⟨fun q' hq' => ⟨hle q' hq', ?_⟩, hstrict⟩
        intro hsame
        obtain rfl | hq' := List.mem_cons.1 hq'
        · exact hne hsame
        · -- The path would come after one that it comes before.
          have hback : q.le p := by
            have := (hq q' hq').1
            rwa [le, ← same_iff.1 hsame] at this
          exact hne (same_of_le (hle q List.mem_cons_self) hback)

/-- Lists of paths that grow strictly and hold the same paths are equal but for
the spellings. -/
theorem map_components_eq {ps qs : List FilePath}
    (hps : ps.Pairwise fun p q => p.le q ∧ ¬ p.same q)
    (hqs : qs.Pairwise fun p q => p.le q ∧ ¬ p.same q)
    (h : ∀ p, (∃ q ∈ ps, q.same p) ↔ ∃ q ∈ qs, q.same p) :
    ps.map components = qs.map components := by
  have hsorted : ∀ {rs : List FilePath}, rs.Pairwise (fun p q => p.le q ∧ ¬ p.same q) →
      (rs.map components).Pairwise fun as bs => componentsLe as bs :=
    fun hrs => List.pairwise_map.2 (hrs.imp And.left)
  have honce : ∀ {rs : List FilePath}, rs.Pairwise (fun p q => p.le q ∧ ¬ p.same q) →
      (rs.map components).Nodup :=
    fun hrs => List.pairwise_map.2 (hrs.imp fun hpq heq => hpq.2 (same_iff.2 heq))
  have hmem : ∀ as, as ∈ ps.map components ↔ as ∈ qs.map components := by
    intro as
    simp only [same_iff] at h
    constructor
    · intro has
      obtain ⟨p, hp, rfl⟩ := List.mem_map.1 has
      obtain ⟨q, hq, hsame⟩ := (h p).1 ⟨p, hp, rfl⟩
      exact List.mem_map.2 ⟨q, hq, hsame⟩
    · intro has
      obtain ⟨q, hq, rfl⟩ := List.mem_map.1 has
      obtain ⟨p, hp, hsame⟩ := (h q).2 ⟨q, hq, rfl⟩
      exact List.mem_map.2 ⟨p, hp, hsame⟩
  exact List.Perm.eq_of_pairwise (fun _ _ _ _ => componentsLe_antisymm) (hsorted hps) (hsorted hqs)
    ((List.perm_ext_iff_of_nodup (honce hps) (honce hqs)).2 hmem)

end FilePath
end LogPrune
