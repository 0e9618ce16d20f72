import LogPrune.Proofs.Text.Lines
import LogPrune.Text.Blank

/-!
# LogPrune.Proofs.Text.Cut

Cutting texts at offsets, searching and trimming.

A cut at the size of a beginning separates it from the rest (`cut?_append`),
and every cut is of this form (`append_of_cut?`).  Trimming takes off blanks
only, so that the characters that are not blank tell what is left
(`solid_trim`, `trim_eq_singleton`).
-/

namespace LogPrune
namespace Text

/-! ## Cutting -/

/-- A cut at the end of a beginning. -/
theorem cut?_append (a b : Text) : cut? (size a) (a ++ b) = some (a, b) := by
  induction a with
  | nil => cases b <;> rfl
  | cons c cs ih =>
      have hpos := c.utf8Size_pos
      obtain ⟨n, hn⟩ : ∃ n, c.utf8Size + size cs = n + 1 := ⟨c.utf8Size + size cs - 1, by omega⟩
      have hsub : n + 1 - c.utf8Size = size cs := by omega
      rw [List.cons_append, size_cons, hn, cut?, if_pos (by omega), hsub, ih]
      rfl

/-- A cut separates a text into a beginning of the given size and the rest. -/
theorem append_of_cut? {n : Nat} {t a b : Text} (h : cut? n t = some (a, b)) :
    t = a ++ b ∧ size a = n := by
  induction n, t using cut?.induct generalizing a b with
  | case1 t => 
      rw [cut?] at h
      obtain ⟨rfl, rfl⟩ := Prod.mk.inj (Option.some.inj h)
      simp
  | case2 n => simp [cut?] at h
  | case3 n c cs hle ih =>
      rw [cut?, if_pos hle, Option.map_eq_some_iff] at h
      obtain ⟨⟨a', b'⟩, hcut, hab⟩ := h
      obtain ⟨rfl, rfl⟩ := Prod.mk.inj hab
      obtain ⟨hcs, hsize⟩ := ih hcut
      exact ⟨by rw [hcs, List.cons_append], by rw [size_cons, hsize]; omega⟩
  | case4 n c cs hle => simp [cut?, hle] at h

/-- The characters before the end of a beginning are the beginning. -/
theorem takeSize_append (a b : Text) : takeSize (a ++ b) (size a) = a := by
  induction a with
  | nil =>
      cases b with
      | nil => rfl
      | cons c cs =>
          have := c.utf8Size_pos
          rw [List.nil_append, takeSize, if_neg (by rw [size_nil]; omega)]
  | cons c cs ih =>
      rw [List.cons_append, takeSize, if_pos (by rw [size_cons]; omega), size_cons,
        Nat.add_sub_cancel_left, ih]

/-- The part between the ends of two beginnings. -/
theorem slice?_append (a m b : Text) :
    slice? (size a) (size a + size m) (a ++ m ++ b) = some m := by
  have hsub : size a + size m - size a = size m := Nat.add_sub_cancel_left ..
  rw [slice?, if_pos (Nat.le_add_right ..), List.append_assoc, cut?_append, hsub]
  simp [cut?_append]

/-- A slice lies between two beginnings of the given sizes. -/
theorem append_of_slice? {start stop : Nat} {t m : Text} (h : slice? start stop t = some m) :
    ∃ a b, t = a ++ m ++ b ∧ size a = start ∧ size (a ++ m) = stop := by
  rw [slice?] at h
  split at h
  · next hle =>
    obtain ⟨⟨a, rest⟩, hcut, h⟩ := Option.bind_eq_some_iff.1 h
    obtain ⟨⟨m', b⟩, hcut', h⟩ := Option.bind_eq_some_iff.1 h
    obtain rfl : m' = m := Option.some.inj h
    obtain ⟨rfl, ha⟩ := append_of_cut? hcut
    obtain ⟨rfl, hm⟩ := append_of_cut? hcut'
    exact ⟨a, b, by simp, ha, by rw [size_append]; omega⟩
  · contradiction

/-- The cuts at both ends of a slice. -/
theorem cuts_of_slice? {start stop : Nat} {t m : Text} (h : slice? start stop t = some m) :
    ∃ a b, t = a ++ m ++ b ∧ cut? start t = some (a, m ++ b) ∧ cut? stop t = some (a ++ m, b) := by
  obtain ⟨a, b, rfl, rfl, rfl⟩ := append_of_slice? h
  refine ⟨a, b, rfl, ?_, cut?_append (a ++ m) b⟩
  rw [List.append_assoc, cut?_append]

/-! ## Searching -/

/-- A text contains another one that is a part of it in one piece. -/
theorem includes_iff_infix {t part : Text} : t.includes part ↔ part <:+: t := by
  induction t with
  | nil => simp [includes, List.isPrefixOf_iff_prefix]
  | cons c cs ih =>
      rw [includes, Bool.or_eq_true, List.isPrefixOf_iff_prefix, ih, List.infix_cons_iff]

/-- A part without a separator stands before the separator or behind it. -/
theorem infix_append_cons_iff {s t part : Text} {sep : Char} (hsep : sep ∉ part) :
    part <:+: s ++ sep :: t ↔ part <:+: s ∨ part <:+: t := by
  rw [List.infix_append_iff, List.infix_cons_iff]
  constructor
  · rintro (h | (h | h) | ⟨front, behind, rfl, hfront, hbehind⟩)
    · exact .inl h
    · left
      cases part with
      | nil => exact List.nil_infix
      | cons c cs =>
          rw [(List.cons_prefix_cons.1 h).1] at hsep
          exact absurd List.mem_cons_self hsep
    · exact .inr h
    · left
      cases behind with
      | nil => simpa using hfront.isInfix
      | cons c cs =>
          rw [(List.cons_prefix_cons.1 hbehind).1] at hsep
          exact absurd (by simp) hsep
  · rintro (h | h)
    · exact .inl h
    · exact .inr (.inl (.inr h))

/-- Removing the first occurrence of a part leaves a text without that part as
it is, and otherwise what stands around the part. -/
theorem eraseFirst_eq (part t : Text) :
    eraseFirst part t = t ∨ ∃ a b, t = a ++ part ++ b ∧ eraseFirst part t = a ++ b := by
  induction t with
  | nil => exact .inl rfl
  | cons c cs ih =>
      rw [eraseFirst]
      split
      · next h =>
        obtain ⟨b, hb⟩ := List.isPrefixOf_iff_prefix.1 h
        right
        refine ⟨[], b, by simpa using hb.symm, ?_⟩
        rw [← hb]; simp
      · rcases ih with h | ⟨a, b, hcs, h⟩
        · left; rw [h]
        · right; exact ⟨c :: a, b, by rw [hcs]; simp, by rw [h]; simp⟩

/-- An ending is removed from a text that has it. -/
theorem dropEnding?_append (s ending : Text) : dropEnding? ending (s ++ ending) = some s := by
  have h : ending.isSuffixOf (s ++ ending) := List.isSuffixOf_iff_suffix.2 (List.suffix_append ..)
  rw [dropEnding?, if_pos h]
  simp

/-- What an ending is removed from consists of the rest and the ending. -/
theorem append_of_dropEnding? {ending t s : Text} (h : dropEnding? ending t = some s) :
    t = s ++ ending := by
  rw [dropEnding?] at h
  split at h
  · next hs =>
    obtain ⟨r, rfl⟩ := List.isSuffixOf_iff_suffix.1 hs
    have hrs : r = s := by simpa using h
    rw [hrs]
  · contradiction

/-! ## Trimming -/

/-- The characters of a text that are not blank. -/
def solid (t : Text) : Text := t.filter (!isBlank ·)

@[simp] theorem solid_nil : solid [] = [] := rfl

@[simp] theorem solid_append (s t : Text) : solid (s ++ t) = solid s ++ solid t := by
  simp [solid]

theorem solid_dropWhile (t : Text) : solid (t.dropWhile isBlank) = solid t := by
  induction t with
  | nil => rfl
  | cons c cs ih => by_cases h : isBlank c <;> simp_all [solid]

theorem solid_reverse (t : Text) : solid t.reverse = (solid t).reverse := by
  simp [solid]

/-- Trimming takes off blanks only. -/
@[simp] theorem solid_trimEnd (t : Text) : solid (trimEnd t) = solid t := by
  rw [trimEnd, solid_reverse, solid_dropWhile, solid_reverse, List.reverse_reverse]

@[simp] theorem solid_trim (t : Text) : solid (trim t) = solid t := by
  rw [trim, solid_trimEnd, trimStart, solid_dropWhile]

/-- A text of blanks is trimmed to nothing. -/
theorem trim_eq_nil {t : Text} (h : solid t = []) : trim t = [] := by
  have hall : ∀ c ∈ t, isBlank c := by simpa [solid] using h
  have hstart : t.dropWhile isBlank = [] := by
    rw [← List.append_nil t, List.dropWhile_append_of_pos hall]; rfl
  simp [trim, trimStart, hstart, trimEnd]

/-- What a text is trimmed to is at its end not blank. -/
theorem trimEnd_append_blanks {s b : Text} (hb : solid b = []) :
    trimEnd (s ++ b) = trimEnd s := by
  have hall : ∀ c ∈ b.reverse, isBlank c := by simpa [solid] using hb
  rw [trimEnd, trimEnd, List.reverse_append, List.dropWhile_append_of_pos hall]

/-- A text that ends with no blank is not trimmed. -/
theorem trimEnd_append_singleton {s : Text} {x : Char} (hx : isBlank x = false) :
    trimEnd (s ++ [x]) = s ++ [x] := by
  rw [trimEnd, List.reverse_append, List.reverse_singleton, List.singleton_append,
    List.dropWhile_cons_of_neg (by simp [hx]), List.reverse_cons, List.reverse_reverse]

/-- Trimming the end takes off a text of blanks. -/
theorem exists_append_of_trimEnd (t : Text) : ∃ b, t = trimEnd t ++ b ∧ solid b = [] := by
  refine ⟨(t.reverse.takeWhile isBlank).reverse, ?_, ?_⟩
  · rw [trimEnd, ← List.reverse_append, List.takeWhile_append_dropWhile, List.reverse_reverse]
  · have hall : ∀ c ∈ t.reverse.takeWhile isBlank, isBlank c :=
        List.all_eq_true.1 List.all_takeWhile
    simpa [solid] using hall

/-- The last character of what is left is not blank. -/
theorem not_isBlank_of_trimEnd {t s : Text} {c : Char} (h : trimEnd t = s ++ [c]) :
    isBlank c = false := by
  have hrev : t.reverse.dropWhile isBlank = c :: s.reverse := by
    simpa [trimEnd] using congrArg List.reverse h
  have := List.head?_dropWhile_not isBlank t.reverse
  simpa [hrev] using this

/-- A beginning whose last character is not blank stays when the end is trimmed. -/
theorem prefix_trimEnd {s t : Text} {x : Char} (hx : isBlank x = false) (h : s ++ [x] <+: t) :
    s ++ [x] <+: trimEnd t := by
  obtain ⟨rest, rfl⟩ := h
  obtain ⟨b, hb, hblank⟩ := exists_append_of_trimEnd (s ++ [x] ++ rest)
  have hnot : x ∉ b := fun hmem => by
    have hall : ∀ c ∈ b, isBlank c := by simpa [solid] using hblank
    simp [hall x hmem] at hx
  rcases List.append_eq_append_iff.1 hb with ⟨m, htrim, -⟩ | ⟨m, hs, hrest⟩
  · exact ⟨m, htrim.symm⟩
  · -- what is trimmed off would reach to the last character of the beginning
    rcases List.eq_nil_or_concat m with rfl | ⟨m', y, rfl⟩
    · exact ⟨[], (List.append_nil _).trans (hs.trans (List.append_nil _))⟩
    · rw [List.concat_eq_append, ← List.append_assoc] at hs
      obtain ⟨-, hy⟩ := List.append_inj' hs rfl
      obtain rfl := List.singleton_inj.1 hy
      exact absurd (by rw [hrest]; simp) hnot

/-- A text with a single character that is not blank is trimmed to it. -/
theorem trim_eq_singleton {t : Text} {c : Char} (h : solid t = [c]) : trim t = [c] := by
  induction t with
  | nil => simp at h
  | cons x xs ih =>
      by_cases hx : isBlank x
      · have hxs : solid xs = [c] := by simpa [solid, hx] using h
        rw [← ih hxs, trim, trim, trimStart, trimStart, List.dropWhile_cons_of_pos hx]
      · have hcons : x :: solid xs = [c] := by simpa [solid, hx] using h
        obtain ⟨rfl, hxs⟩ := List.cons.inj hcons
        have hstart : trimStart (x :: xs) = [x] ++ xs := by
          rw [trimStart, List.dropWhile_cons_of_neg hx]; rfl
        rw [trim, hstart, trimEnd_append_blanks hxs]
        simp [trimEnd, hx]

end Text
end LogPrune
