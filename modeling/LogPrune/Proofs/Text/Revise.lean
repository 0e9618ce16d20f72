import LogPrune.Proofs.Text.Lines
import Mathlib.Data.List.Induction

/-!
# LogPrune.Proofs.Text.Revise

Revising a text character by character.

A revision puts a text in the place of each character, depending on where the
character stands.  Cutting statements out and commenting lines out are both of
this kind, and what a revision does to a part of a text only depends on the
places in that part (`revise_append`, `revise_congr`).  Parts that a revision
keeps are found in the text that comes out, in their order (`HoldsInOrder`).
-/

namespace LogPrune
namespace Text

/-- A text that begins at a place, with each character replaced. -/
def revise (edit : Nat × Nat → Char → Text) (p : Nat × Nat) : Text → Text
  | [] => []
  | c :: cs => edit p c ++ revise edit (advance p [c]) cs

variable {edit edit' : Nat × Nat → Char → Text} {p : Nat × Nat} {s t : Text}

theorem revise_append (edit : Nat × Nat → Char → Text) (p : Nat × Nat) (s t : Text) :
    revise edit p (s ++ t) = revise edit p s ++ revise edit (advance p s) t := by
  induction s generalizing p with
  | nil => rfl
  | cons c cs ih =>
      have hadv : advance p (c :: cs) = advance (advance p [c]) cs := advance_append p [c] cs
      rw [List.cons_append, revise, revise, ih, hadv, List.append_assoc]

/-- A character leads on to a later place. -/
theorem not_noLater_advance (p : Nat × Nat) (c : Char) (cs : Text) :
    ¬ NoLater (advance p (c :: cs)) p := by
  have hpos := c.utf8Size_pos
  have hchar : ¬ NoLater (advance p [c]) p := by
    simp only [advance, NoLater]
    split <;> simp only <;> omega
  have hrest : NoLater (advance p [c]) (advance p (c :: cs)) := by
    rw [show c :: cs = [c] ++ cs from rfl, advance_append]
    exact noLater_advance _ _
  exact fun h => hchar (hrest.trans h)

/-- Revisions that agree at the places of a text do the same to it. -/
theorem revise_congr
    (h : ∀ q c, c ∈ t → NoLater p q → ¬ NoLater (advance p t) q → edit q c = edit' q c) :
    revise edit p t = revise edit' p t := by
  induction t generalizing p with
  | nil => rfl
  | cons c cs ih =>
      have hadv : advance p (c :: cs) = advance (advance p [c]) cs := advance_append p [c] cs
      rw [revise, revise, h p c List.mem_cons_self (.refl p) (not_noLater_advance p c cs)]
      congr 1
      apply ih
      intro q d hd hle hlt
      rw [← hadv] at hlt
      exact h q d (List.mem_cons_of_mem _ hd) ((noLater_advance p [c]).trans hle) hlt

/-- A revision that leaves the characters of a text alone leaves the text
alone. -/
theorem revise_eq_self
    (h : ∀ q c, c ∈ t → NoLater p q → ¬ NoLater (advance p t) q → edit q c = [c]) :
    revise edit p t = t := by
  have hself : ∀ p, revise (fun _ c => [c]) p t = t := by
    clear h
    induction t with
    | nil => exact fun _ => rfl
    | cons c cs ih => exact fun p => by rw [revise, ih]; rfl
  exact (revise_congr h).trans (hself p)

/-- A revision that removes the characters of a text removes the text. -/
theorem revise_eq_nil
    (h : ∀ q c, c ∈ t → NoLater p q → ¬ NoLater (advance p t) q → edit q c = []) :
    revise edit p t = [] := by
  have hnil : ∀ p, revise (fun _ _ => []) p t = [] := by
    clear h
    induction t with
    | nil => exact fun _ => rfl
    | cons c cs ih => exact fun p => by rw [revise, ih]; rfl
  exact (revise_congr h).trans (hnil p)

/-- A revision that only puts something in front of the first character puts it
in front of the text. -/
theorem revise_insert {insert : Nat × Nat → Text} (hne : t ≠ [])
    (h : ∀ q, NoLater p q → ¬ NoLater (advance p t) q → q ≠ p → insert q = []) :
    revise (fun q c => insert q ++ [c]) p t = insert p ++ t := by
  obtain ⟨c, cs, rfl⟩ := List.exists_cons_of_ne_nil hne
  have hadv : advance p (c :: cs) = advance (advance p [c]) cs := advance_append p [c] cs
  rw [revise, revise_eq_self, List.append_assoc, List.singleton_append]
  intro q d _ hle hlt
  rw [← hadv] at hlt
  rw [h q ((noLater_advance p [c]).trans hle) hlt, List.nil_append]
  rintro rfl
  exact not_noLater_advance q c [] hle

/-- The places of a text within a line. -/
theorem mem_line_iff {i k : Nat} (h : '\n' ∉ t) {q : Nat × Nat} :
    NoLater (i, k) q ∧ ¬ NoLater (advance (i, k) t) q ↔
      q.1 = i ∧ k ≤ q.2 ∧ q.2 < k + size t := by
  rw [advance_of_not_mem _ h]
  simp only [NoLater]
  omega

/-- The places of a line and of the newline behind it. -/
theorem mem_terminated_line {i k : Nat} (h : '\n' ∉ t) {q : Nat × Nat} (hle : NoLater (i, k) q)
    (hlt : ¬ NoLater (advance (i, k) (t ++ ['\n'])) q) : q.1 = i ∧ k ≤ q.2 := by
  rw [advance_append, advance_of_not_mem _ h] at hlt
  simp only [advance, NoLater, if_true] at hle hlt
  omega

/-- A revision that makes one line, or none, of each line. -/
theorem revise_terminated {left : Nat → Option Text} {lines : List Text} {k : Nat}
    (hlines : ∀ l ∈ lines, '\n' ∉ l)
    (h : ∀ i line, lines[i]? = some line →
      revise edit (k + i, 0) (line ++ ['\n']) = (left (k + i)).elim [] (· ++ ['\n'])) :
    revise edit (k, 0) (terminated lines) =
      terminated ((List.range' k lines.length).filterMap left) := by
  induction lines generalizing k with
  | nil => rfl
  | cons line lines ih =>
      have hline := h 0 line rfl
      rw [Nat.add_zero] at hline
      have hadv : advance (k, 0) (line ++ ['\n']) = (k + 1, 0) := by
        rw [advance_append, advance_of_not_mem _ (hlines line List.mem_cons_self)]
        simp [advance]
      have hrest := ih (k := k + 1) (fun l hl => hlines l (List.mem_cons_of_mem _ hl))
        (fun i l hi => by
          rw [show k + 1 + i = k + (i + 1) by omega]
          exact h (i + 1) l (by simpa using hi))
      rw [terminated_cons, ← List.singleton_append, ← List.append_assoc, revise_append, hline, hadv,
        hrest, List.length_cons, List.range'_succ, List.filterMap_cons]
      cases left k <;> simp

/-! ## Parts that are kept -/

/-- Whether the parts stand in the text, one behind the other. -/
def HoldsInOrder : List Text → Text → Prop
  | [], _ => True
  | part :: parts, t => ∃ a b, t = a ++ part ++ b ∧ HoldsInOrder parts b

/-- A text with parts contains the first one. -/
theorem HoldsInOrder.includes {part : Text} {parts : List Text}
    (h : HoldsInOrder (part :: parts) t) : t.includes part := by
  obtain ⟨a, b, rfl, -⟩ := h
  induction a with
  | nil =>
      have hstands : part.isPrefixOf ([] ++ part ++ b) :=
        List.isPrefixOf_iff_prefix.2 (List.prefix_append ..)
      unfold Text.includes
      rw [hstands, Bool.true_or]
  | cons c a ih =>
      unfold Text.includes
      exact Bool.or_eq_true_iff.2 (.inr ih)

/-- Parts that do not end with a character stand in the text without that
character at its end. -/
theorem HoldsInOrder.of_append_singleton {parts : List Text} {c : Char}
    (h : HoldsInOrder parts (t ++ [c])) (hparts : ∀ part ∈ parts, ∃ s x, part = s ++ [x] ∧ x ≠ c) :
    HoldsInOrder parts t := by
  induction parts generalizing t with
  | nil => trivial
  | cons part parts ih =>
      obtain ⟨a, b, ht, hrest⟩ := h
      obtain ⟨s, x, hpart, hx⟩ := hparts part List.mem_cons_self
      cases b using List.reverseRecOn with
      | nil =>
          -- the last character would be that of the part
          rw [List.append_nil, hpart, ← List.append_assoc] at ht
          exact absurd (List.append_inj_right' ht rfl) (by simpa using Ne.symm hx)
      | append_singleton b y =>
          rw [← List.append_assoc] at ht
          obtain ⟨rfl, hy⟩ := List.append_inj' ht rfl
          obtain rfl := (List.cons.inj hy).1
          exact ⟨a, b, rfl, ih hrest fun part hp => hparts part (List.mem_cons_of_mem _ hp)⟩

end Text
end LogPrune
