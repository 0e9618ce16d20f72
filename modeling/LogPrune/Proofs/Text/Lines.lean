import LogPrune.Text.Basic

/-!
# LogPrune.Proofs.Text.Lines

Sizes, lines and places of a text.

1. Splitting at a separator and gluing the pieces are inverse to each other
   (`glue_pieces`, `pieces_glue`), because both agree with the library's
   `List.splitOn` and `List.intercalate`.
2. The pieces of two texts behind each other are those of both, the last piece
   of the first one in front of the first piece of the second (`pieces_append`).
3. A place in a text is a line and an offset within it; `advance` says which
   place a text leads to, and `locate` finds that place from an offset
   (`locate_size`).
4. What is read back item by item is read back as a list (`mapM_map_eq_some`).
-/

namespace LogPrune
namespace Text

/-! ## Size -/

@[simp] theorem size_nil : size [] = 0 := rfl

@[simp] theorem size_cons (c : Char) (cs : Text) : size (c :: cs) = c.utf8Size + size cs := rfl

@[simp] theorem size_append (s t : Text) : size (s ++ t) = size s + size t := by
  induction s with
  | nil => simp
  | cons c cs ih => simp [ih, Nat.add_assoc]

/-- Only the empty text has no bytes. -/
theorem size_pos {t : Text} (h : t ≠ []) : 0 < size t := by
  cases t with
  | nil => contradiction
  | cons c cs =>
      have := c.utf8Size_pos
      rw [size_cons]; omega

theorem eq_nil_of_size_eq_zero {t : Text} (h : size t = 0) : t = [] := by
  cases t with
  | nil => rfl
  | cons c cs =>
      have := size_pos (List.cons_ne_nil c cs)
      omega

/-- Of two beginnings of a text the one that is no longer is a beginning of
the other. -/
theorem exists_append_of_size_le {a b c d : Text} (h : a ++ b = c ++ d) (hle : size a ≤ size c) :
    ∃ m, c = a ++ m ∧ b = m ++ d := by
  rcases List.append_eq_append_iff.1 h with ⟨m, hc, hb⟩ | ⟨m, ha, hd⟩
  · exact ⟨m, hc, hb⟩
  · have hm : m = [] := by
      apply eq_nil_of_size_eq_zero
      rw [ha, size_append] at hle
      omega
    subst hm
    exact ⟨[], by simpa using ha.symm, by simpa using hd.symm⟩

/-- Two beginnings of a text that have the same size are the same. -/
theorem eq_of_size_eq {a b c d : Text} (h : a ++ b = c ++ d) (hsize : size a = size c) : a = c := by
  obtain ⟨m, rfl, -⟩ := exists_append_of_size_le h (Nat.le_of_eq hsize)
  have hm : m = [] := eq_nil_of_size_eq_zero (by rw [size_append] at hsize; omega)
  rw [hm, List.append_nil]

/-- Two splits of a text at the first character that is not of a kind are the same. -/
theorem eq_of_append_of_head {kind : Char → Bool} {s t a b : Text} (hs : ∀ x ∈ s, kind x)
    (ht : ∀ x ∈ t, kind x) (ha : a.head?.all (!kind ·)) (hb : b.head?.all (!kind ·))
    (h : s ++ a = t ++ b) : s = t ∧ a = b := by
  have hfront : ∀ {s a : Text}, (∀ x ∈ s, kind x) → a.head?.all (!kind ·) →
      (s ++ a).takeWhile kind = s := by
    intro s a hs ha
    rw [List.takeWhile_append_of_pos hs]
    cases a with
    | nil => simp
    | cons x a =>
        have hx : kind x = false := by simpa using ha
        simp [hx]
  have hst : s = t := by rw [← hfront hs ha, h, hfront ht hb]
  subst hst
  exact ⟨rfl, List.append_cancel_left h⟩

/-! ## Pieces -/

theorem pieces_eq_splitOn (sep : Char) (t : Text) : pieces sep t = t.splitOn sep := by
  induction t with
  | nil => rfl
  | cons c cs ih =>
      rw [List.splitOn_cons_eq_if_modifyHead, pieces, ih]
      by_cases h : c = sep
      · simp [h]
      · obtain ⟨p, ps, hp⟩ := List.exists_cons_of_ne_nil (List.splitOn_ne_nil sep cs)
        simp [h, hp]

theorem glue_eq_intercalate (sep : Char) (ps : List Text) : glue sep ps = [sep].intercalate ps := by
  induction ps with
  | nil => rfl
  | cons p ps ih =>
      cases ps with
      | nil => simp [glue]
      | cons q qs =>
          rw [glue, ih, List.intercalate_cons_cons, List.append_assoc]
          · rfl
          · exact List.cons_ne_nil q qs

theorem pieces_ne_nil (sep : Char) (t : Text) : pieces sep t ≠ [] := by
  rw [pieces_eq_splitOn]; exact List.splitOn_ne_nil sep t

/-- The pieces of a text are glued to it again. -/
theorem glue_pieces (sep : Char) (t : Text) : glue sep (pieces sep t) = t := by
  rw [pieces_eq_splitOn, glue_eq_intercalate, List.intercalate_splitOn]

theorem mem_glue {sep c : Char} {ps : List Text} (h : p ∈ ps) (hc : c ∈ p) : c ∈ glue sep ps := by
  induction ps with
  | nil => simp at h
  | cons q qs ih => cases qs <;> grind [glue]

theorem mem_of_mem_glue {sep c : Char} {ps : List Text} (hc : c ∈ glue sep ps) (hsep : c ≠ sep) :
    ∃ p ∈ ps, c ∈ p := by
  induction ps with
  | nil => simp [glue] at hc
  | cons q qs ih => cases qs <;> grind [glue]

/-- Pieces that do not hold the separator come back from the glued text. -/
theorem pieces_glue {sep : Char} {ps : List Text} (h : ∀ p ∈ ps, sep ∉ p) (hne : ps ≠ []) :
    pieces sep (glue sep ps) = ps := by
  rw [pieces_eq_splitOn, glue_eq_intercalate, List.splitOn_intercalate sep h hne]

theorem pieces_of_not_mem {sep : Char} {t : Text} (h : sep ∉ t) : pieces sep t = [t] := by
  rw [pieces_eq_splitOn, List.splitOn_eq_singleton h]

/-- No piece holds the separator. -/
theorem not_mem_of_mem_pieces {sep : Char} {t p : Text} (h : p ∈ pieces sep t) : sep ∉ p := by
  induction t generalizing p with
  | nil => simp_all [pieces]
  | cons c cs ih =>
      rw [pieces] at h
      obtain ⟨q, qs, hq⟩ := List.exists_cons_of_ne_nil (pieces_ne_nil sep cs)
      simp only [hq] at h ih
      split at h
      · rcases List.mem_cons.1 h with rfl | h
        · simp
        · exact ih h
      · next hc =>
        rcases List.mem_cons.1 h with rfl | h
        · have := ih List.mem_cons_self
          grind
        · exact ih (List.mem_cons_of_mem _ h)

/-- The pieces of two texts behind each other. -/
theorem pieces_append {sep : Char} {s t : Text} {ps : List Text} {a b : Text} {qs : List Text}
    (hs : pieces sep s = ps ++ [a]) (ht : pieces sep t = b :: qs) :
    pieces sep (s ++ t) = ps ++ (a ++ b) :: qs := by
  have hps : ∀ p ∈ ps ++ (a ++ b) :: qs, sep ∉ p := by
    have hps : ∀ p ∈ ps ++ [a], sep ∉ p := fun p h => not_mem_of_mem_pieces (t := s) (by rwa [hs])
    have hqs : ∀ q ∈ b :: qs, sep ∉ q := fun q h => not_mem_of_mem_pieces (t := t) (by rwa [ht])
    grind
  have hglue : glue sep (ps ++ (a ++ b) :: qs) = s ++ t := by
    have hs' : s = glue sep (ps ++ [a]) := by rw [← hs, glue_pieces]
    have ht' : t = glue sep (b :: qs) := by rw [← ht, glue_pieces]
    rw [hs', ht']
    clear hs ht hs' ht' hps
    induction ps with
    | nil => cases qs <;> simp [glue]
    | cons p ps ih =>
        obtain ⟨q, qs', hq⟩ := List.exists_cons_of_ne_nil
          (show ps ++ (a ++ b) :: qs ≠ [] by simp)
        obtain ⟨r, rs', hr⟩ := List.exists_cons_of_ne_nil (show ps ++ [a] ≠ [] by simp)
        simp only [List.cons_append, hq, hr, glue] at ih ⊢
        rw [ih]; simp
  rw [← hglue, pieces_glue hps (by simp)]

/-- Behind a separator at the end comes an empty piece. -/
theorem getLast?_pieces {sep : Char} {t : Text} (h : t.getLast? = some sep) :
    (pieces sep t).getLast? = some [] := by
  obtain ⟨front, rfl⟩ := List.getLast?_eq_some_iff.1 h
  obtain ⟨ps, a, hps⟩ := List.eq_nil_or_concat (pieces sep front) |>.resolve_left
    (pieces_ne_nil sep front)
  have hsep : pieces sep [sep] = [] :: [[]] := by simp [pieces]
  rw [pieces_append (by simpa using hps) hsep]
  simp

/-! ## Lines -/

theorem lines_ne_nil (t : Text) : t.lines ≠ [] := pieces_ne_nil '\n' t

/-- The lines of a text make up the text. -/
theorem unlines_lines (t : Text) : unlines t.lines = t := glue_pieces '\n' t

theorem lines_unlines {ls : List Text} (h : ∀ l ∈ ls, '\n' ∉ l) (hne : ls ≠ []) :
    (unlines ls).lines = ls := pieces_glue h hne

theorem not_mem_of_mem_lines {t l : Text} (h : l ∈ t.lines) : '\n' ∉ l := not_mem_of_mem_pieces h

/-- Every text has a last line. -/
theorem exists_lines_eq_append (t : Text) : ∃ ls l, t.lines = ls ++ [l] :=
  ⟨_, _, (List.dropLast_concat_getLast (lines_ne_nil t)).symm⟩

/-- Every text has a first line. -/
theorem exists_lines_eq_cons (t : Text) : ∃ l ls, t.lines = l :: ls :=
  List.exists_cons_of_ne_nil (lines_ne_nil t)

theorem lines_append {s t : Text} {ps : List Text} {a b : Text} {qs : List Text}
    (hs : s.lines = ps ++ [a]) (ht : t.lines = b :: qs) :
    (s ++ t).lines = ps ++ (a ++ b) :: qs := pieces_append hs ht

/-- A beginning without a newline is part of the first line. -/
theorem lines_append_of_not_mem {s t line : Text} {below : List Text} (hs : '\n' ∉ s)
    (ht : lines t = line :: below) : lines (s ++ t) = (s ++ line) :: below :=
  lines_append (show lines s = [] ++ [s] from pieces_of_not_mem hs) ht

/-- A newline ends the first line. -/
theorem lines_append_newline {s : Text} (hs : '\n' ∉ s) (t : Text) :
    lines (s ++ '\n' :: t) = s :: lines t := by
  have ht : lines ('\n' :: t) = [] :: lines t := by rw [lines, pieces, if_pos rfl, lines]
  rw [lines_append_of_not_mem hs ht, List.append_nil]

/-- Behind the first line there is nothing, or a newline and the other lines. -/
theorem eq_of_lines_eq_cons {t line : Text} {below : List Text} (h : lines t = line :: below) :
    below = [] ∧ t = line ∨ below ≠ [] ∧ t = line ++ '\n' :: unlines below := by
  have ht : t = unlines (line :: below) := by rw [← h, unlines_lines]
  cases below with
  | nil => exact .inl ⟨rfl, ht⟩
  | cons l ls => exact .inr ⟨List.cons_ne_nil l ls, ht⟩

/-- The lines of a part of a text, with what stands in front of the part on its first line
and behind it on its last one. -/
theorem getElem?_lines_append {a t b left right p : Text} {above below : List Text} {j : Nat}
    (ha : a.lines = above ++ [left]) (hb : b.lines = right :: below) (hj : t.lines[j]? = some p) :
    (a ++ t ++ b).lines[above.length + j]? = some
      ((if j = 0 then left else []) ++ p ++ if j + 1 = t.lines.length then right else []) := by
  obtain ⟨first, more, ht⟩ := exists_lines_eq_cons t
  have hat := lines_append ha ht
  rcases List.eq_nil_or_concat more with rfl | ⟨mid, last, rfl⟩
  · rw [ht] at hj ⊢
    obtain ⟨rfl, rfl⟩ : j = 0 ∧ first = p := by
      cases j <;> simp_all
    rw [lines_append hat hb]
    simp
  · rw [List.concat_eq_append] at ht hat
    have hend : (a ++ t).lines = (above ++ (left ++ first) :: mid) ++ [last] := by
      rw [hat]; simp
    rw [lines_append hend hb, ht]
    rw [ht] at hj
    cases j with
    | zero =>
        obtain rfl : first = p := by simpa using hj
        simp
    | succ k =>
        have hlen : above.length + (k + 1) = (above ++ [left ++ first]).length + k := by
          simp; omega
        have hlines : (above ++ (left ++ first) :: mid) ++ (last ++ right) :: below =
            (above ++ [left ++ first]) ++ (mid ++ (last ++ right) :: below) := by simp
        rw [hlines, hlen, List.getElem?_append_right (Nat.le_add_right ..), Nat.add_sub_cancel_left]
        rw [List.getElem?_cons_succ] at hj
        by_cases hk : k < mid.length
        · rw [List.getElem?_append_left hk] at hj ⊢
          have : ¬ k + 1 + 1 = (first :: (mid ++ [last])).length := by simp; omega
          rw [hj, if_neg this]
          simp
        · obtain ⟨hlt, -⟩ := List.getElem?_eq_some_iff.1 hj
          obtain rfl : k = mid.length := by simp at hlt; omega
          obtain rfl : last = p := by simpa using hj
          simp

/-- The first line of a text begins as the text does. -/
theorem ne_nil_of_lines {x : Char} {xs l : Text} {ls : List Text} (hx : x ≠ '\n')
    (h : lines (x :: xs) = l :: ls) : l ≠ [] := by
  obtain ⟨m, ms, hm⟩ := exists_lines_eq_cons xs
  have hone : lines [x] = [] ++ [[x]] := pieces_of_not_mem (by simpa using hx.symm)
  rw [← List.singleton_append, lines_append hone hm] at h
  rw [← (List.cons.inj h).1]
  simp

/-- The last line of a text ends as the text does. -/
theorem getLast?_of_lines {s l : Text} {x : Char} {ls : List Text} (hx : x ≠ '\n')
    (h : lines (s ++ [x]) = ls ++ [l]) : l.getLast? = some x := by
  obtain ⟨ms, m, hm⟩ := exists_lines_eq_append s
  have hone : lines [x] = [x] :: [] := pieces_of_not_mem (by simpa using hx.symm)
  rw [lines_append hm hone] at h
  obtain ⟨-, hl⟩ := List.append_inj' h rfl
  rw [← List.singleton_inj.1 hl]
  simp

/-- Lines with a newline behind each of them. -/
def terminated (ls : List Text) : Text := ls.flatMap (· ++ ['\n'])

@[simp] theorem terminated_nil : terminated [] = [] := rfl

@[simp] theorem terminated_cons (l : Text) (ls : List Text) :
    terminated (l :: ls) = l ++ '\n' :: terminated ls := by
  simp [terminated]

theorem terminated_append (ls ms : List Text) :
    terminated (ls ++ ms) = terminated ls ++ terminated ms := by
  simp [terminated]

theorem unlines_append_newline {ls : List Text} (h : ls ≠ []) :
    unlines ls ++ ['\n'] = terminated ls := by
  induction ls with
  | nil => contradiction
  | cons l ls ih =>
      cases ls with
      | nil => simp [unlines, glue]
      | cons m ms =>
          rw [terminated_cons, ← ih (by simp)]
          simp [unlines, glue]

/-- A text is its lines, with newlines behind all of them but the last one. -/
theorem eq_of_lines_eq_append {t left : Text} {above : List Text} (h : t.lines = above ++ [left]) :
    t = terminated above ++ left := by
  have hend : t ++ ['\n'] = terminated above ++ left ++ ['\n'] := by
    rw [← unlines_lines t, unlines_append_newline (lines_ne_nil t), h, terminated_append]
    simp
  exact List.append_cancel_right hend

/-! ## Places -/

/-- The place that a text leads to from another place: a newline leads to the
start of the next line. -/
def advance (p : Nat × Nat) : Text → Nat × Nat
  | [] => p
  | c :: cs => if c = '\n' then advance (p.1 + 1, 0) cs else advance (p.1, p.2 + c.utf8Size) cs

theorem advance_append (p : Nat × Nat) (s t : Text) :
    advance p (s ++ t) = advance (advance p s) t := by
  induction s generalizing p with
  | nil => rfl
  | cons c cs ih =>
      simp only [List.cons_append, advance]
      split <;> exact ih _

/-- The first place is the second one or lies before it. -/
def NoLater (p q : Nat × Nat) : Prop := p.1 < q.1 ∨ (p.1 = q.1 ∧ p.2 ≤ q.2)

theorem NoLater.refl (p : Nat × Nat) : NoLater p p := .inr ⟨rfl, Nat.le_refl _⟩

theorem NoLater.trans {p q r : Nat × Nat} (h : NoLater p q) (h' : NoLater q r) : NoLater p r := by
  unfold NoLater at *
  omega

/-- A text leads onwards. -/
theorem noLater_advance (p : Nat × Nat) (t : Text) : NoLater p (advance p t) := by
  induction t generalizing p with
  | nil => exact .refl p
  | cons c cs ih =>
      rw [advance]
      split
      · exact .trans (.inl (Nat.lt_succ_self _)) (ih _)
      · exact .trans (q := (p.1, p.2 + c.utf8Size)) (.inr ⟨rfl, Nat.le_add_right ..⟩) (ih _)

/-- Within a line a place moves on by the bytes of the text. -/
theorem advance_of_not_mem (p : Nat × Nat) {t : Text} (h : '\n' ∉ t) :
    advance p t = (p.1, p.2 + size t) := by
  induction t generalizing p with
  | nil => rfl
  | cons c cs ih =>
      have hc : c ≠ '\n' := fun hc => h (by simp [hc])
      rw [advance, if_neg hc, ih _ (fun hcs => h (by simp [hcs])), size_cons, Nat.add_assoc]

/-- Lines lead to the end of the last one. -/
theorem advance_unlines {ls : List Text} {l : Text} (h : ∀ m ∈ ls ++ [l], '\n' ∉ m) (i : Nat) :
    advance (i, 0) (unlines (ls ++ [l])) = (i + ls.length, size l) := by
  induction ls generalizing i with
  | nil =>
      have hl : '\n' ∉ l := h l (by simp)
      simp [unlines, glue, advance_of_not_mem _ hl]
  | cons m ms ih =>
      have hm : '\n' ∉ m := h m (by simp)
      obtain ⟨q, qs, hq⟩ := List.exists_cons_of_ne_nil (show ms ++ [l] ≠ [] by simp)
      have hglue : unlines (m :: ms ++ [l]) = m ++ '\n' :: unlines (ms ++ [l]) := by
        simp [unlines, hq, glue]
      rw [hglue, advance_append, advance_of_not_mem _ hm, advance, if_pos rfl,
        ih (fun n hn => h n (by simp_all))]
      simp; omega

/-- A text leads to the end of its last line. -/
theorem advance_of_lines {t : Text} {ls : List Text} {l : Text} (h : t.lines = ls ++ [l]) :
    advance (0, 0) t = (ls.length, size l) := by
  have hm : ∀ m ∈ ls ++ [l], '\n' ∉ m := fun m hm => not_mem_of_mem_lines (t := t) (by rwa [h])
  rw [← unlines_lines t, h, advance_unlines hm]; simp

/-- The bytes of lines with a newline behind each of them. -/
theorem size_terminated_cons (l : Text) (ls : List Text) :
    size (terminated (l :: ls)) = size l + 1 + size (terminated ls) := by
  simp [show Char.utf8Size '\n' = 1 from rfl]; omega

/-- An offset behind some lines is found in the line that follows them. -/
theorem locate_terminated (ps : List Text) (l : Text) (qs : List Text) {k : Nat}
    (hk : k ≤ size l) :
    locate ((ps ++ l :: qs).map size) (size (terminated ps) + k) = (ps.length, k) := by
  induction ps with
  | nil => cases qs <;> simp [locate, hk]
  | cons p ps ih =>
      obtain ⟨q, qs', hq⟩ := List.exists_cons_of_ne_nil (show ps ++ l :: qs ≠ [] by simp)
      rw [size_terminated_cons]
      simp only [List.cons_append, hq, List.map_cons, locate] at ih ⊢
      have hsub : size p + 1 + size (terminated ps) + k - (size p + 1) = size (terminated ps) + k := by
        omega
      rw [if_neg (by omega), hsub, ih, List.length_cons]

/-- The offset behind a beginning of a text is found where the beginning leads
to; so is an offset inside the character that follows, as long as that is no
newline. -/
theorem locate_size (s t : Text) {k : Nat} (hk : k = 0 ∨ ∃ c cs, t = c :: cs ∧ c ≠ '\n' ∧ k ≤ c.utf8Size) :
    locate ((s ++ t).lines.map size) (size s + k) =
      ((advance (0, 0) s).1, (advance (0, 0) s).2 + k) := by
  obtain ⟨ps, a, hs⟩ := exists_lines_eq_append s
  obtain ⟨b, qs, ht⟩ := exists_lines_eq_cons t
  have hsize : size s = size (terminated ps) + size a := by
    rw [← size_append, ← eq_of_lines_eq_append hs]
  have hkb : k ≤ size b := by
    rcases hk with rfl | ⟨c, cs, rfl, hc, hle⟩
    · exact Nat.zero_le _
    · obtain ⟨m, ms, hm⟩ := exists_lines_eq_cons cs
      have hb : b = c :: m := by
        rw [lines, pieces, if_neg hc, show pieces '\n' cs = m :: ms from hm] at ht
        exact (List.cons.inj ht).1.symm
      rw [hb, size_cons]; omega
  rw [lines_append hs ht, hsize, advance_of_lines hs, Nat.add_assoc,
    locate_terminated ps (a ++ b) qs (by rw [size_append]; omega)]

end Text

/-! ## Items -/

/-- A list that is written item by item is read back item by item. -/
theorem mapM_map_eq_some {read? : β → Option α} {write : α → β} (h : ∀ a, read? (write a) = some a)
    (as : List α) : (as.map write).mapM read? = some as := by
  have hread : read? ∘ write = fun a => pure a := funext h
  rw [List.mapM_map, hread, List.mapM_pure, List.map_id']
  rfl

end LogPrune
