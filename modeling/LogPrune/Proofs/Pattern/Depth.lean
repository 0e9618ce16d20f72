import LogPrune.Proofs.Pattern.Arguments

/-!
# LogPrune.Proofs.Pattern.Depth

Brackets by the depth to which they are nested.

The depth at a place is the number of brackets that are open there.  A bracket is closed by
the first one that takes the depth back to zero (`IsBracketed`), so that a text has one
bracketed beginning at most (`IsBracketed.eq_of_append`).  Argument lists are the texts of
this kind with no more than two brackets open at a time (`isArguments_iff_isBracketed`).
-/

namespace LogPrune
namespace Text

/-! ## Depth -/

/-- The number of brackets that are open behind a text. -/
def depth (t : Text) : Int := (t.count '(' : Int) - (t.count ')' : Int)

@[simp] theorem depth_nil : depth [] = 0 := rfl

@[simp] theorem depth_append (s t : Text) : depth (s ++ t) = depth s + depth t := by
  simp only [depth, List.count_append]
  omega

@[simp] theorem depth_cons_open (t : Text) : depth ('(' :: t) = depth t + 1 := by
  simp [depth]
  omega

@[simp] theorem depth_cons_close (t : Text) : depth (')' :: t) = depth t - 1 := by
  simp [depth]
  omega

theorem depth_cons_of_noBracket {c : Char} (h : Regex.noBracket.mem c) (t : Text) :
    depth (c :: t) = depth t := by
  obtain ⟨hopen, hclose⟩ := mem_noBracket_iff.1 h
  simp [depth, hopen, hclose]

/-- The only character that takes the depth back is a closing bracket. -/
theorem eq_close_of_depth_neg {c : Char} (h : depth [c] < 0) : c = ')' := by
  by_contra hclose
  by_cases hopen : c = '('
  · rw [hopen, depth_cons_open, depth_nil] at h
    omega
  · rw [depth_cons_of_noBracket (mem_noBracket_iff.2 ⟨hopen, hclose⟩), depth_nil] at h
    omega

/-- A property of all beginnings of a text that is not empty. -/
theorem forall_prefix_cons_iff {P : Text → Prop} {c : Char} {t : Text} :
    (∀ s, s <+: c :: t → P s) ↔ P [] ∧ ∀ s, s <+: t → P (c :: s) := by
  simp only [List.prefix_cons_iff]
  constructor
  · exact fun h => ⟨h [] (.inl rfl), fun s hs => h (c :: s) (.inr ⟨s, rfl, hs⟩)⟩
  · rintro ⟨hnil, hcons⟩ s (rfl | ⟨s, rfl, hs⟩)
    · exact hnil
    · exact hcons s hs

/-- Brackets close as they should when the depth is zero behind the last one, and neither
negative nor over the limit anywhere before. -/
theorem closesBrackets_iff {limit n : Nat} {t : Text} (hn : n ≤ limit) :
    closesBrackets limit n t ↔
      n + depth t = 0 ∧ ∀ s, s <+: t → 0 ≤ n + depth s ∧ n + depth s ≤ limit := by
  induction t generalizing n with
  | nil =>
      simp only [closesBrackets, decide_eq_true_iff, List.prefix_nil, forall_eq, depth_nil]
      omega
  | cons c t ih =>
      rw [forall_prefix_cons_iff, depth_nil]
      have hhere : 0 ≤ (n : Int) + 0 ∧ (n : Int) + 0 ≤ limit := by omega
      by_cases hopen : c = '('
      · subst hopen
        have hnext : ∀ s, (n : Int) + depth ('(' :: s) = (n + 1 : Nat) + depth s := fun s => by
          rw [depth_cons_open]
          omega
        simp only [hnext, hhere, true_and]
        rw [closesBrackets_cons_open]
        constructor
        · rintro ⟨hlt, h⟩
          exact (ih hlt).1 h
        · intro h
          have hlt : n + 1 ≤ limit := by
            have := (h.2 [] List.nil_prefix).2
            rw [depth_nil] at this
            omega
          exact ⟨hlt, (ih hlt).2 h⟩
      · by_cases hclose : c = ')'
        · subst hclose
          rw [closesBrackets_cons_close]
          have hnext : 0 < n → ∀ s, (n : Int) + depth (')' :: s) = (n - 1 : Nat) + depth s :=
            fun hpos s => by
              rw [depth_cons_close]
              omega
          constructor
          · rintro ⟨hpos, h⟩
            simp only [hnext hpos]
            exact ⟨((ih (by omega)).1 h).1, hhere, ((ih (by omega)).1 h).2⟩
          · rintro ⟨hzero, -, h⟩
            have hpos : 0 < n := by
              have := (h [] List.nil_prefix).1
              rw [depth_cons_close, depth_nil] at this
              omega
            simp only [hnext hpos] at hzero h
            exact ⟨hpos, (ih (by omega)).2 ⟨hzero, h⟩⟩
        · have hc := mem_noBracket_iff.2 ⟨hopen, hclose⟩
          rw [closesBrackets_cons_of_noBracket hc]
          simp only [ih hn, depth_cons_of_noBracket hc, hhere, true_and]

/-! ## Bracketed texts -/

/-- A text from an opening bracket up to the first place at which the depth is zero again, with
at most `limit` brackets open on the way. -/
structure IsBracketed (limit : Nat) (t : Text) : Prop where
  head_eq : t.head? = some '('
  depth_eq : depth t = 0
  depth_within : ∀ s, s <+: t → s ≠ [] → s ≠ t → 0 < depth s ∧ depth s ≤ limit

variable {limit : Nat} {s t : Text}

theorem IsBracketed.ne_nil (h : t.IsBracketed limit) : t ≠ [] := by
  rintro rfl
  exact absurd h.head_eq (by simp)

/-- No bracketed text is the beginning of another one. -/
theorem IsBracketed.eq_of_isPrefix (hs : s.IsBracketed limit) (ht : t.IsBracketed limit)
    (h : s <+: t) : s = t := by
  by_contra hne
  have hpos := (ht.depth_within s h hs.ne_nil hne).1
  rw [hs.depth_eq] at hpos
  exact Int.lt_irrefl 0 hpos

/-- A text has one bracketed beginning at most. -/
theorem IsBracketed.eq_of_append (hs : s.IsBracketed limit) (ht : t.IsBracketed limit) {a b : Text}
    (h : s ++ a = t ++ b) : s = t := by
  rcases List.prefix_or_prefix_of_prefix (List.prefix_append s a)
    (h ▸ List.prefix_append t b) with hst | hts
  · exact hs.eq_of_isPrefix ht hst
  · exact (ht.eq_of_isPrefix hs hts).symm

/-- Behind the opening bracket the depth counts one bracket less, up to the last character. -/
theorem IsBracketed.depth_inside {inside : Text} {x y : Char}
    (h : IsBracketed (limit + 1) (x :: (inside ++ [y]))) (hs : s <+: inside) :
    0 ≤ depth s ∧ depth s ≤ limit := by
  obtain rfl : x = '(' := by simpa using h.head_eq
  have hpart : '(' :: s <+: '(' :: (inside ++ [y]) :=
    List.cons_prefix_cons.2 ⟨rfl, hs.trans (List.prefix_append ..)⟩
  have hproper : '(' :: s ≠ '(' :: (inside ++ [y]) := fun heq => by
    have hle := hs.length_le
    have hlength := congrArg List.length heq
    simp only [List.length_cons, List.length_append, List.length_nil] at hlength
    omega
  have := h.depth_within _ hpart (List.cons_ne_nil _ s) hproper
  rw [depth_cons_open] at this
  omega

/-- A bracketed text is a pair of brackets around a text in which brackets match. -/
theorem isBracketed_iff : t.IsBracketed (limit + 1) ↔
    ∃ inside, t = '(' :: inside ++ [')'] ∧ closesBrackets limit 0 inside := by
  constructor
  · intro h
    obtain ⟨u, rfl⟩ := List.head?_eq_some_iff.1 h.head_eq
    rcases List.eq_nil_or_concat u with rfl | ⟨inside, y, rfl⟩
    · exact absurd h.depth_eq (by decide)
    · rw [List.concat_eq_append] at h ⊢
      have hinside : ∀ s, s <+: inside →
          0 ≤ ((0 : Nat) : Int) + depth s ∧ ((0 : Nat) : Int) + depth s ≤ limit := by
        intro s hs
        have := h.depth_inside hs
        omega
      have hzero := h.depth_eq
      have hlast := hinside inside (List.prefix_refl inside)
      rw [depth_cons_open, depth_append] at hzero
      obtain rfl : y = ')' := eq_close_of_depth_neg (by omega)
      rw [depth_cons_close, depth_nil] at hzero
      exact ⟨inside, rfl, (closesBrackets_iff (Nat.zero_le limit)).2 ⟨by omega, hinside⟩⟩
  · rintro ⟨inside, rfl, h⟩
    obtain ⟨hzero, hinside⟩ := (closesBrackets_iff (Nat.zero_le limit)).1 h
    refine ⟨rfl, ?_, fun s hs hne hproper => ?_⟩
    · rw [List.cons_append, depth_cons_open, depth_append, depth_cons_close, depth_nil]
      omega
    · obtain ⟨x, s, rfl⟩ := List.exists_cons_of_ne_nil hne
      rw [List.cons_append] at hs
      obtain ⟨rfl, hpart⟩ := List.cons_prefix_cons.1 hs
      rcases List.prefix_concat_iff.1 hpart with rfl | hpart
      · exact absurd rfl hproper
      · have := hinside s hpart
        rw [depth_cons_open]
        omega

/-- Argument lists are the bracketed texts with at most two brackets open at a time. -/
theorem isArguments_iff_isBracketed : t.IsArguments ↔ t.IsBracketed 2 :=
  isBracketed_iff.symm

end Text
end LogPrune
