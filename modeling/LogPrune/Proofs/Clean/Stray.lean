import LogPrune.Proofs.Clean.Delete

/-!
# LogPrune.Proofs.Clean.Stray

Which lines are strays, and what becomes of the others.

1. Lines that are no strays end up as they are to (`Orderly.erased?_eq_remnant?`).
2. Findings on one line may share it: each of them is found where it was, because
   they are cut out from the last one to the first one, and the line stays while
   one of them is still on it (`exists_remnant?_of_onOneLine`).  A finding over
   several lines takes whole lines, so that no other one may stand on them.
   Findings that keep apart in this way make no strays
   (`Orderly.not_stray_of_keepsApart`).
3. A line on which no finding stands stays as it is exactly when it is no stray
   (`not_stray_iff`).
-/

namespace LogPrune
namespace Finding

variable {f : Finding} {fs gs : List Finding} {lines : List Text} {line : Text} {i : Nat}

/-! ## Lines that are no strays -/

/-- A line that is no stray is left as it is to be. -/
theorem Orderly.erased?_eq_remnant? (h : Orderly lines fs) (hstray : ¬ Stray lines fs i) :
    erased? lines fs i = remnant? lines fs i := by
  induction fs with
  | nil => exact (remnant?_of_not_covers (by simp)).symm
  | cons f gs ih =>
      obtain ⟨hf, hgs⟩ := not_or.1 hstray
      have ih := ih h.tail hgs
      have hfits := h.fits f List.mem_cons_self
      cases hcovers : f.covers i with
      | false =>
          have hsame : erased? lines (f :: gs) i = erased? lines gs i :=
            Decidable.not_not.1 fun hne => hf ⟨hcovers, hne⟩
          rw [hsame, ih, remnant?_cons_of_not_covers h.noNewline hcovers]
      | true =>
          rw [erased?_cons_of_covers hcovers, ih]
          cases hone : f.onOneLine with
          | true =>
              have hedit : f.edit? = f.strip? := by funext line; rw [edit?, if_pos hone]
              obtain rfl := (covers_of_onOneLine hone).1 hcovers
              rw [remnant?_cons_onLine hfits h.noNewline hone (List.pairwise_cons.1 h.before).1
                (h.code f List.mem_cons_self), hedit]
          | false =>
              have hedit : f.edit? = fun _ => none := by
                funext line; rw [edit?, if_neg (by simp [hone])]
              rw [remnant?_cons_covered hone hcovers, hedit, Option.bind_fun_none]

/-! ## Findings that keep apart -/

/-- Two findings keep apart when the lines that they share hold nothing of a
finding over several lines. -/
def KeepsApart (f g : Finding) : Prop :=
  ∀ i, f.covers i → g.covers i → f.onOneLine ∧ g.onOneLine

instance (f g : Finding) : Decidable (f.KeepsApart g) :=
  decidable_of_iff
    (∀ i < f.endLine + 1, f.covers i ∧ g.covers i → f.onOneLine ∧ g.onOneLine)
    ⟨fun h i hf hg => by
      have hi : i ≤ f.endLine := by
        simp only [covers, Bool.and_eq_true, decide_eq_true_eq] at hf
        exact hf.2
      exact h i (Nat.lt_succ_of_le hi) ⟨hf, hg⟩,
    fun h i _ hfg => h i hfg.1 hfg.2⟩

/-- A finding on one line is still there, with all that stood in front of it, when
those behind it have been removed. -/
theorem exists_remnant?_of_onOneLine (hfits : f.FitsIn lines) (hlines : ∀ l ∈ lines, '\n' ∉ l)
    (hone : f.onOneLine) (hbefore : ∀ g ∈ gs, f.Before g) (hcode : ∃ x ∈ f.text, isCode x)
    (hapart : ∀ g ∈ gs, f.KeepsApart g) :
    ∃ a b, remnant? lines gs f.startLine = some (a ++ f.text ++ b) ∧
      Text.size a = f.startChar ∧ Text.size (a ++ f.text) = f.endChar := by
  have hon : f.startLine = f.endLine := by simpa [onOneLine] using hone
  obtain ⟨a, b, hline, ha, hb⟩ := hfits.onLine hon
  have hnew : '\n' ∉ a ++ f.text ++ b := hlines _ (List.mem_of_getElem? hline)
  obtain ⟨b', hgs, -⟩ := revise_cutOut_cons hnew hone ha hb hbefore
  have hmany : (gs.any fun g => !g.onOneLine && g.covers f.startLine) = false := by
    refine List.any_eq_false.2 fun g hg hcovers => ?_
    obtain ⟨hmany, hcovers⟩ : g.onOneLine = false ∧ g.covers f.startLine := by
      simpa using hcovers
    have hself := covers_of_le (Nat.le_refl f.startLine) (Nat.le_of_eq hon)
    have := (hapart g hg _ hself hcovers).2
    rw [hmany] at this
    contradiction
  rw [remnant?, hline, Option.bind_some, cutLine?, if_neg (by simp [hmany])]
  split
  · -- the finding itself keeps the line from being a leftover
    obtain ⟨x, hx, hcode⟩ := hcode
    have hsolid : isLeftover (a ++ f.text ++ b') = false :=
      isLeftover_of_mem (by simp [hx]) hcode
    refine ⟨a, b', ?_, ha, hb⟩
    simp only [hgs, hsolid, Bool.false_eq_true, if_false]
  · exact ⟨a, b, rfl, ha, hb⟩

/-- Findings that keep apart make no strays. -/
theorem Orderly.not_stray_of_keepsApart (h : Orderly lines fs) (hapart : fs.Pairwise KeepsApart) :
    ¬ Stray lines fs i := by
  induction fs generalizing i with
  | nil => exact id
  | cons f gs ih =>
      obtain ⟨hf, hapart⟩ := List.pairwise_cons.1 hapart
      have hfits := h.fits f List.mem_cons_self
      rintro (⟨hcovers, hne⟩ | hstray)
      · -- something is left of the line where the finding ends, so no other one is edited
        refine hne (erased?_cons_of_not_covers hcovers fun hnone => ?_)
        rw [h.tail.erased?_eq_remnant? (ih h.tail hapart)] at hnone
        cases hone : f.onOneLine with
        | true =>
            have hon : f.startLine = f.endLine := by simpa [onOneLine] using hone
            obtain ⟨a, b, hleft, -⟩ := exists_remnant?_of_onOneLine hfits h.noNewline hone
              (List.pairwise_cons.1 h.before).1 (h.code f List.mem_cons_self) hf
            rw [← hon, hleft] at hnone
            contradiction
        | false =>
            have hfree : ∀ g ∈ gs, g.covers f.endLine = false := by
              intro g hg
              rw [Bool.eq_false_iff]
              intro hg'
              have := (hf g hg _ (covers_of_le hfits.line_le (Nat.le_refl _)) hg').1
              rw [hone] at this
              contradiction
            rw [remnant?_of_not_covers hfree, List.getElem?_eq_getElem hfits.inside] at hnone
            contradiction
      · exact ih h.tail hapart hstray

/-- Findings of which none starts on the line where the one before it ends make
no strays. -/
theorem Orderly.not_stray_of_apart (h : Orderly lines fs)
    (hapart : fs.Pairwise fun f g => f.endLine < g.startLine) : ¬ Stray lines fs i := by
  apply h.not_stray_of_keepsApart
  refine hapart.imp fun hlt i hf hg => ?_
  simp only [covers, Bool.and_eq_true, decide_eq_true_eq] at hf hg
  omega

/-! ## What is left of a line -/

/-- The bytes that are left of a line, and one more if it is there at all. -/
def bytesLeft (rest : Option Text) : Nat := rest.elim 0 (Text.size · + 1)

/-- An edit changes a line only by taking bytes away. -/
theorem bytesLeft_edit?_lt (htext : f.text ≠ []) {rest : Option Text}
    (h : rest.bind f.edit? ≠ rest) : bytesLeft (rest.bind f.edit?) < bytesLeft rest := by
  cases rest with
  | none => contradiction
  | some line =>
      rw [Option.bind_some, edit?] at h ⊢
      split at h
      · next hone =>
        rw [if_pos hone]
        cases hstrip : f.strip? line with
        | none => exact Nat.succ_pos _
        | some rest =>
            rcases size_lt_of_strip? htext hstrip with rfl | hlt
            · exact absurd hstrip h
            · exact Nat.succ_lt_succ hlt
      · next hone =>
        rw [if_neg hone]
        exact Nat.succ_pos _

theorem bytesLeft_erased?_cons (htext : f.text ≠ []) (lines : List Text) (gs : List Finding)
    (i : Nat) :
    erased? lines (f :: gs) i = erased? lines gs i ∨
      bytesLeft (erased? lines (f :: gs) i) < bytesLeft (erased? lines gs i) := by
  rw [erased?]
  split
  · by_cases h : (erased? lines gs i).bind f.edit? = erased? lines gs i
    · exact .inl h
    · exact .inr (bytesLeft_edit?_lt htext h)
  · exact .inl rfl

theorem bytesLeft_erased?_le (htext : ∀ f ∈ fs, f.text ≠ []) (lines : List Text) (i : Nat) :
    bytesLeft (erased? lines fs i) ≤ bytesLeft lines[i]? := by
  induction fs with
  | nil => exact Nat.le_refl _
  | cons f gs ih =>
      have ih := ih fun g hg => htext g (List.mem_cons_of_mem _ hg)
      rcases bytesLeft_erased?_cons (htext f List.mem_cons_self) lines gs i with h | h
      · rwa [h]
      · omega

/-- A line on which no finding stands stays as it is exactly when it is no
stray. -/
theorem not_stray_iff (htext : ∀ f ∈ fs, f.text ≠ []) (hcovers : ∀ f ∈ fs, f.covers i = false) :
    ¬ Stray lines fs i ↔ erased? lines fs i = lines[i]? := by
  induction fs with
  | nil => exact ⟨fun _ => rfl, fun _ h => h⟩
  | cons f gs ih =>
      have hgs : ∀ g ∈ gs, g.text ≠ [] := fun g hg => htext g (List.mem_cons_of_mem _ hg)
      have ih := ih hgs fun g hg => hcovers g (List.mem_cons_of_mem _ hg)
      have hf := hcovers f List.mem_cons_self
      have hle := bytesLeft_erased?_le hgs lines i
      constructor
      · intro hstray
        obtain ⟨hsame, hrest⟩ := not_or.1 hstray
        rw [← ih.1 hrest]
        exact Decidable.not_not.1 fun hne => hsame ⟨hf, hne⟩
      · intro heq
        rcases bytesLeft_erased?_cons (htext f List.mem_cons_self) lines gs i with h | h
        · rintro (⟨-, hne⟩ | hrest)
          · exact hne h
          · exact ih.2 (h.symm.trans heq) hrest
        · rw [heq] at h
          omega

/-- Of findings that keep apart, those on one line each take something away from
it. -/
theorem Orderly.bytesLeft_erased?_lt (h : Orderly lines fs) (hapart : fs.Pairwise KeepsApart)
    (hf : f ∈ fs) (hone : f.onOneLine) :
    bytesLeft (erased? lines fs f.startLine) < bytesLeft lines[f.startLine]? := by
  induction fs with
  | nil => contradiction
  | cons g gs ih =>
      obtain ⟨hg, hgs⟩ := List.pairwise_cons.1 hapart
      have htext : ∀ k ∈ g :: gs, k.text ≠ [] := fun k hk => h.text_ne_nil hk
      rcases List.mem_cons.1 hf with rfl | hf
      · have hself := covers_of_le (Nat.le_refl _) (h.fits f List.mem_cons_self).line_le
        obtain ⟨a, b, hleft, ha, hb⟩ := exists_remnant?_of_onOneLine
          (h.fits f List.mem_cons_self) h.noNewline hone (List.pairwise_cons.1 h.before).1
          (h.code f List.mem_cons_self) hg
        have hle := bytesLeft_erased?_le (fun k hk => htext k (List.mem_cons_of_mem _ hk)) lines
          f.startLine
        have hleft := (h.tail.erased?_eq_remnant? (h.tail.not_stray_of_keepsApart hgs)).trans hleft
        rw [hleft] at hle
        rw [erased?_cons_of_covers hself, hleft, Option.bind_some, edit?, if_pos hone,
          strip?_of_fits ha hb]
        refine Nat.lt_of_lt_of_le ?_ hle
        have hpos := Text.size_pos (htext f List.mem_cons_self)
        split
        · exact Nat.succ_pos _
        · simp only [bytesLeft, Option.elim_some, Text.size_append]
          omega
      · have ih := ih h.tail hgs hf
        rcases bytesLeft_erased?_cons (htext g List.mem_cons_self) lines gs f.startLine with
          hsame | hlt
        · rwa [hsame]
        · omega

end Finding
end LogPrune
