import LogPrune.Proofs.Pattern.Words

/-!
# LogPrune.Proofs.Pattern.Arguments

Argument lists, by counting brackets.

The pattern of an argument list repeats characters that are no brackets and pairs of
brackets around such characters.  A text that does so is one whose brackets match, with
one of them open at a time (`spells_inside_iff`); so an argument list is a pair of brackets
around such a text (`spells_arguments_iff`).
-/

namespace LogPrune

open Regex

namespace Text

/-- Whether the brackets of a text close the ones that are open in front of it and those that
it opens itself, with no more than `limit` of them open at a time. -/
def closesBrackets (limit : Nat) : Nat → Text → Bool
  | depth, [] => depth = 0
  | depth, c :: cs =>
    if c = '(' then depth < limit && closesBrackets limit (depth + 1) cs
    else if c = ')' then 0 < depth && closesBrackets limit (depth - 1) cs
    else closesBrackets limit depth cs

/-- Whether a text is an argument list: a pair of brackets with at most one level of brackets
inside. -/
def IsArguments (t : Text) : Prop :=
  ∃ inside, t = '(' :: inside ++ [')'] ∧ closesBrackets 1 0 inside

theorem mem_noBracket_iff {c : Char} : noBracket.mem c ↔ c ≠ '(' ∧ c ≠ ')' := by
  simp [noBracket, Charset.mem]

/-- Characters that are no brackets leave open what is open. -/
theorem closesBrackets_append {limit depth : Nat} {s t : Text} (h : ∀ c ∈ s, noBracket.mem c) :
    closesBrackets limit depth (s ++ t) = closesBrackets limit depth t := by
  induction s with
  | nil => rfl
  | cons c s ih =>
      obtain ⟨hopen, hclose⟩ := mem_noBracket_iff.1 (h c List.mem_cons_self)
      rw [List.cons_append, closesBrackets, if_neg hopen, if_neg hclose]
      exact ih fun x hx => h x (List.mem_cons_of_mem c hx)

variable {limit depth : Nat} {t : Text}

theorem closesBrackets_cons_open : closesBrackets limit depth ('(' :: t) ↔
    depth < limit ∧ closesBrackets limit (depth + 1) t := by
  rw [closesBrackets, if_pos rfl, Bool.and_eq_true, decide_eq_true_iff]

theorem closesBrackets_cons_close : closesBrackets limit depth (')' :: t) ↔
    0 < depth ∧ closesBrackets limit (depth - 1) t := by
  rw [closesBrackets, if_neg (by decide), if_pos rfl, Bool.and_eq_true, decide_eq_true_iff]

theorem closesBrackets_cons_of_noBracket {c : Char} (h : noBracket.mem c) :
    closesBrackets limit depth (c :: t) = closesBrackets limit depth t :=
  closesBrackets_append (s := [c]) (by simpa using h)

end Text

namespace Regex

/-- What an argument list repeats: a character that is no bracket, or a pair of brackets. -/
def argumentPiece : Regex :=
  .plainGroup (.choice (.one noBracket) (lit "(" ++ .many noBracket ++ lit ")"))

theorem spells_argumentPiece_iff {t : Text} :
    argumentPiece.Spells false t ↔ (∃ c, t = [c] ∧ noBracket.mem c) ∨
      ∃ s, t = '(' :: s ++ [')'] ∧ ∀ c ∈ s, noBracket.mem c := by
  refine or_congr Iff.rfl ?_
  constructor
  · rintro ⟨_, _, rfl, ⟨_, s, rfl, hopen, hs⟩, hclose⟩
    rw [spells_text_iff.1 hopen, spells_text_iff.1 hclose]
    exact ⟨s, rfl, hs⟩
  · rintro ⟨s, rfl, hs⟩
    exact ⟨'(' :: s, [')'], rfl, ⟨['('], s, rfl, spells_text_iff.2 rfl, hs⟩,
      spells_text_iff.2 rfl⟩

/-- A piece leaves nothing open. -/
theorem closesBrackets_of_argumentPiece {s t : Text} (h : argumentPiece.Spells false s) :
    Text.closesBrackets 1 0 (s ++ t) = Text.closesBrackets 1 0 t := by
  rcases spells_argumentPiece_iff.1 h with ⟨c, rfl, hc⟩ | ⟨s, rfl, hs⟩
  · exact Text.closesBrackets_cons_of_noBracket hc
  · rw [Bool.eq_iff_iff, List.append_assoc, List.cons_append, Text.closesBrackets_cons_open,
      Text.closesBrackets_append hs, List.singleton_append, Text.closesBrackets_cons_close]
    simp

theorem spells_pieces_cons {s t : Text} (hs : argumentPiece.Spells false s)
    (ht : (Regex.repeated argumentPiece).Spells false t) :
    (Regex.repeated argumentPiece).Spells false (s ++ t) := by
  obtain ⟨ts, rfl, hts⟩ := ht
  exact ⟨s :: ts, rfl, List.forall_mem_cons.2 ⟨hs, hts⟩⟩

/-- A text that closes its brackets consists of pieces.  With one bracket open in front of it
the next bracket closes that one, and what follows consists of pieces. -/
theorem spells_of_closesBrackets (t : Text) :
    (Text.closesBrackets 1 0 t → (Regex.repeated argumentPiece).Spells false t) ∧
      (Text.closesBrackets 1 1 t → ∃ s rest, t = s ++ ')' :: rest ∧
        (∀ c ∈ s, noBracket.mem c) ∧ (Regex.repeated argumentPiece).Spells false rest) := by
  induction t with
  | nil => exact ⟨fun _ => ⟨[], rfl, by simp⟩, fun h => by contradiction⟩
  | cons c t ih =>
      obtain ⟨ihnone, ihone⟩ := ih
      by_cases hopen : c = '('
      · subst hopen
        refine ⟨fun h => ?_, fun h => ?_⟩
        · obtain ⟨s, rest, rfl, hs, hrest⟩ := ihone (Text.closesBrackets_cons_open.1 h).2
          have hpiece := spells_argumentPiece_iff.2 (.inr ⟨s, rfl, hs⟩)
          simpa using spells_pieces_cons hpiece hrest
        · exact absurd (Text.closesBrackets_cons_open.1 h).1 (Nat.lt_irrefl 1)
      · by_cases hclose : c = ')'
        · subst hclose
          refine ⟨fun h => ?_, fun h => ?_⟩
          · exact absurd (Text.closesBrackets_cons_close.1 h).1 (Nat.lt_irrefl 0)
          · exact ⟨[], t, rfl, by simp, ihnone (Text.closesBrackets_cons_close.1 h).2⟩
        · have hc := Text.mem_noBracket_iff.2 ⟨hopen, hclose⟩
          rw [Text.closesBrackets_cons_of_noBracket hc, Text.closesBrackets_cons_of_noBracket hc]
          refine ⟨fun h => ?_, fun h => ?_⟩
          · exact spells_pieces_cons (spells_argumentPiece_iff.2 (.inl ⟨c, rfl, hc⟩)) (ihnone h)
          · obtain ⟨s, rest, rfl, hs, hrest⟩ := ihone h
            exact ⟨c :: s, rest, rfl, List.forall_mem_cons.2 ⟨hc, hs⟩, hrest⟩

/-- Pieces are texts in which brackets match, one level deep. -/
theorem spells_inside_iff {t : Text} :
    (Regex.repeated argumentPiece).Spells false t ↔ Text.closesBrackets 1 0 t := by
  refine ⟨?_, (spells_of_closesBrackets t).1⟩
  rintro ⟨ts, rfl, hts⟩
  induction ts with
  | nil => rfl
  | cons s ts ih =>
      rw [List.flatten_cons, closesBrackets_of_argumentPiece (hts s List.mem_cons_self)]
      exact ih fun u hu => hts u (List.mem_cons_of_mem s hu)

/-- An argument list is a pair of brackets with at most one level of brackets inside. -/
theorem spells_arguments_iff {t : Text} : arguments.Spells false t ↔ t.IsArguments := by
  constructor
  · rintro ⟨_, _, rfl, ⟨_, inside, rfl, hopen, hinside⟩, hclose⟩
    rw [spells_text_iff.1 hopen, spells_text_iff.1 hclose]
    exact ⟨inside, rfl, spells_inside_iff.1 hinside⟩
  · rintro ⟨inside, rfl, hinside⟩
    exact ⟨'(' :: inside, [')'], rfl, ⟨['('], inside, rfl, spells_text_iff.2 rfl,
      spells_inside_iff.2 hinside⟩, spells_text_iff.2 rfl⟩

end Regex
end LogPrune
