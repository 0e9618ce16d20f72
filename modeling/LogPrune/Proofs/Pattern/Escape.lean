import LogPrune.Pattern.Source

/-!
# LogPrune.Proofs.Pattern.Escape

Reading the written form of a literal.

A reserved character is written behind a backslash and read as itself, and what follows a
character of a literal is never read as its repetition.  So an escaped literal is read as
a pattern that matches what the literal matches (`readsAs_escapeLiteral`).
-/

namespace LogPrune
namespace Regex

/-- The pattern as which an escaped literal is read: its characters, one behind the other. -/
def literally : Text → Regex
  | [] => lit ""
  | c :: cs => (text [c]).followedBy (literally cs)

theorem escapeLiteral_cons (c : Char) (cs : Text) : escapeLiteral (c :: cs) =
    (if reservedChars.contains c then ['\\', c] else [c]) ++ escapeLiteral cs :=
  List.flatMap_cons ..

/-- An escaped literal begins with no repetition. -/
theorem withRepetition_escapeLiteral (p : Regex) (t : Text) :
    p.withRepetition (escapeLiteral t) = (p, escapeLiteral t) := by
  cases t with
  | nil => rfl
  | cons c cs =>
      rw [escapeLiteral_cons]
      split
      · rfl
      · next hc =>
        have hne : c ≠ '*' ∧ c ≠ '+' ∧ c ≠ '?' := by
          refine ⟨?_, ?_, ?_⟩ <;> rintro rfl <;> exact hc (by decide)
        rw [List.singleton_append]
        unfold withRepetition
        split <;> simp_all

theorem readAtom_escaped (n : Nat) (c : Char) (rest : Text) :
    readAtom (n + 1) ((if reservedChars.contains c then ['\\', c] else [c]) ++ rest) =
      some (text [c], rest) := by
  split
  · next hc =>
    have hs : c ≠ 's' := by rintro rfl; exact absurd hc (by decide)
    simp only [List.cons_append, List.nil_append, readAtom]
    split <;> simp_all
  · next hc =>
    have hne : c ≠ '(' ∧ c ≠ '\\' := by
      refine ⟨?_, ?_⟩ <;> rintro rfl <;> exact hc (by decide)
    rw [List.singleton_append]
    unfold readAtom
    split <;> simp_all

/-- An escaped literal begins with neither a closing bracket nor a bar, at which a sequence would
end. -/
theorem exists_escapeLiteral_eq_cons (c : Char) (cs : Text) :
    ∃ x xs, escapeLiteral (c :: cs) = x :: xs ∧ ¬ (x = ')' ∨ x = '|') := by
  rw [escapeLiteral_cons]
  split
  · exact ⟨_, _, rfl, by decide⟩
  · next hc =>
    refine ⟨_, _, rfl, ?_⟩
    rintro (rfl | rfl) <;> exact hc (by decide)

theorem readSeq_escapeLiteral {n : Nat} {t : Text} (h : t.length < n) :
    readSeq n (escapeLiteral t) = some (literally t, []) := by
  induction t generalizing n with
  | nil =>
      obtain ⟨n, rfl⟩ : ∃ k, n = k + 1 := ⟨n - 1, by omega⟩
      rfl
  | cons c cs ih =>
      obtain ⟨n, rfl⟩ : ∃ k, n = k + 1 + 1 := ⟨n - 2, by simp at h; omega⟩
      have hatom := readAtom_escaped n c (escapeLiteral cs)
      rw [← escapeLiteral_cons] at hatom
      obtain ⟨x, xs, hx, hne⟩ := exists_escapeLiteral_eq_cons c cs
      have hrest : readSeq (n + 1) (escapeLiteral cs) = some (literally cs, []) :=
        ih (by simpa using h)
      rw [hx] at hatom ⊢
      rw [readSeq]
      simp [hne, hatom, withRepetition_escapeLiteral, hrest, literally]

/-- An escaped literal is read as a pattern. -/
theorem read?_escapeLiteral (t : Text) : read? (escapeLiteral t) = some (literally t) := by
  have hlength : t.length ≤ (escapeLiteral t).length := by
    induction t with
    | nil => exact Nat.le_refl _
    | cons c cs ih =>
        rw [escapeLiteral_cons]
        split <;> simp <;> omega
  have hseq : readSeq (3 * (escapeLiteral t).length + 2) (escapeLiteral t) =
      some (literally t, []) := readSeq_escapeLiteral (by omega)
  have hchoice : readChoice (3 * (escapeLiteral t).length + 3) (escapeLiteral t) =
      some (literally t, []) := by
    rw [readChoice, hseq]
    rfl
  rw [read?, hchoice]

theorem ends_followedBy (ignoreCase : Bool) (c : Char) (q : Regex) (d : Cursor) :
    ((text [c]).followedBy q).ends ignoreCase d =
      ((text [c]).ends ignoreCase d).flatMap (q.ends ignoreCase) := by
  cases q with
  | text t =>
    cases t with
    | nil => simp [followedBy, ends, Cursor.skip?]
    | cons => rfl
  | _ => rfl

theorem ends_literally (ignoreCase : Bool) (t : Text) (d : Cursor) :
    (literally t).ends ignoreCase d = (text t).ends ignoreCase d := by
  induction t generalizing d with
  | nil => rfl
  | cons c cs ih =>
    rw [literally, ends_followedBy]
    simp only [ends, Cursor.skip?]
    split
    · rfl
    · split
      · simp [ih, ends]
      · rfl

/-- Whether a written form is read as a pattern that matches what a literal matches. -/
def ReadsAs (written literal : Text) : Prop :=
  ∃ p, read? written = some p ∧
    ∀ ignoreCase c, p.ends ignoreCase c = (text literal).ends ignoreCase c

/-- An escaped literal is read as the literal, reserved characters included. -/
theorem readsAs_escapeLiteral (t : Text) : ReadsAs (escapeLiteral t) t :=
  ⟨literally t, read?_escapeLiteral t, fun ignoreCase c => ends_literally ignoreCase t c⟩

end Regex
end LogPrune
