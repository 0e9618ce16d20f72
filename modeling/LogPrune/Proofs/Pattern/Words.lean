import LogPrune.Pattern.Statement
import LogPrune.Proofs.Pattern.Reach

/-!
# LogPrune.Proofs.Pattern.Words

The words in patterns.

A literal text is spelled by itself (`spells_text_iff`), and a choice of words by each of
them (`mem_of_spells_oneOf`, `spells_oneOf_of_mem`).  So the words that a pattern made of
such parts spells can be listed (`SpellsOnly`).  The part with which a pattern begins
is spelled by what stands first in every match (`exists_front_of_spells`).
-/

namespace LogPrune

theorem spells_text_iff {s t : Text} : (Regex.text s).Spells false t ↔ t = s := by
  have hagrees : agrees false = Eq := by
    funext x y
    simp [agrees]
  rw [Regex.Spells, hagrees, List.forall₂_eq_eq_eq, eq_comm]

namespace Cursor

theorem skip?_of_append {c : Cursor} {s rest : Text} (hrest : c.rest = s ++ rest) :
    c.skip? false s = some (c.after s rest) :=
  skip?_of_agrees (List.forall₂_same.2 fun _ _ => .inl rfl) hrest

theorem skip?_eq_none {c : Cursor} {s : Text} (h : ¬ s <+: c.rest) :
    c.skip? false s = none := by
  by_contra hsome
  obtain ⟨d, hskip⟩ := Option.ne_none_iff_exists'.1 hsome
  obtain ⟨t, hlead, hagree⟩ := leads_of_skip? hskip
  obtain rfl := spells_text_iff.1 hagree
  exact h ⟨d.rest, hlead.1.symm⟩

end Cursor

theorem exists_of_spells_oneOf {ss : List String} (hne : ss ≠ []) {t : Text}
    (h : (Regex.oneOf ss).Spells ignoreCase t) :
    ∃ s ∈ ss, List.Forall₂ (agrees ignoreCase) s.toList t := by
  induction ss with
  | nil => contradiction
  | cons s ss ih =>
      cases ss with
      | nil => exact ⟨s, List.mem_cons_self, h⟩
      | cons s' ss =>
          rcases h with h | h
          · exact ⟨s, List.mem_cons_self, h⟩
          · obtain ⟨w, hw, hagree⟩ := ih (List.cons_ne_nil s' ss) h
            exact ⟨w, List.mem_cons_of_mem _ hw, hagree⟩

theorem mem_of_spells_oneOf {ss : List String} (hne : ss ≠ []) {t : Text}
    (h : (Regex.oneOf ss).Spells false t) : t ∈ ss.map String.toList := by
  obtain ⟨s, hs, hagree⟩ := exists_of_spells_oneOf hne h
  rw [spells_text_iff.1 hagree]
  exact List.mem_map_of_mem hs

theorem spells_oneOf_of_mem {ss : List String} {s : String} (h : s ∈ ss) :
    (Regex.oneOf ss).Spells false s.toList := by
  induction ss with
  | nil => contradiction
  | cons s' ss ih =>
      cases ss with
      | nil =>
          obtain rfl := List.mem_singleton.1 h
          exact spells_text_iff.2 rfl
      | cons s'' ss =>
          rcases List.mem_cons.1 h with rfl | h
          · exact .inl (spells_text_iff.2 rfl)
          · exact .inr (ih h)

theorem looksAround_oneOf (ss : List String) : (Regex.oneOf ss).looksAround = false := by
  induction ss with
  | nil => rfl
  | cons s ss ih =>
      cases ss with
      | nil => rfl
      | cons s' ss => exact ih

namespace Regex

/-- Whether a pattern spells some words and nothing else. -/
def SpellsOnly (p : Regex) (words : List String) : Prop :=
  ∀ t, p.Spells false t ↔ t ∈ words.map String.toList

theorem spellsOnly_lit (s : String) : (lit s).SpellsOnly [s] := fun t => by
  rw [lit, spells_text_iff]
  simp

theorem spellsOnly_oneOf {words : List String} (hne : words ≠ []) :
    (oneOf words).SpellsOnly words := fun t => by
  refine ⟨mem_of_spells_oneOf hne, fun h => ?_⟩
  obtain ⟨w, hw, rfl⟩ := List.mem_map.1 h
  exact spells_oneOf_of_mem hw

theorem SpellsOnly.group {p : Regex} {words : List String} (h : p.SpellsOnly words) :
    (Regex.group p).SpellsOnly words := h

theorem SpellsOnly.seq {p q : Regex} {fronts words : List String} (hp : p.SpellsOnly fronts)
    (hq : q.SpellsOnly words) :
    (p ++ q).SpellsOnly (fronts.flatMap fun front => words.map (front ++ ·)) := fun t => by
  constructor
  · rintro ⟨a, b, rfl, ha, hb⟩
    obtain ⟨front, hfront, rfl⟩ := List.mem_map.1 ((hp a).1 ha)
    obtain ⟨word, hword, rfl⟩ := List.mem_map.1 ((hq b).1 hb)
    refine List.mem_map.2 ⟨front ++ word, ?_, String.toList_append ..⟩
    exact List.mem_flatMap.2 ⟨front, hfront, List.mem_map_of_mem hword⟩
  · intro h
    obtain ⟨s, hs, rfl⟩ := List.mem_map.1 h
    obtain ⟨front, hfront, hs⟩ := List.mem_flatMap.1 hs
    obtain ⟨word, hword, rfl⟩ := List.mem_map.1 hs
    exact ⟨front.toList, word.toList, String.toList_append .., (hp _).2 (List.mem_map_of_mem hfront),
      (hq _).2 (List.mem_map_of_mem hword)⟩

end Regex

/-- Where each of some words holds one of other words, so does each text that begins with
one of them. -/
theorem exists_spells_of_words {words parts : List String} (hne : words ≠ [])
    (hparts : ∀ w ∈ words, ∃ v ∈ parts, v.toList <:+: w.toList) {w rest : Text}
    (h : (Regex.oneOf words).Spells false w) :
    ∃ t, (Regex.oneOf parts).Spells false t ∧ t <:+: w ++ rest := by
  obtain ⟨w, hw, rfl⟩ := List.mem_map.1 (mem_of_spells_oneOf hne h)
  obtain ⟨v, hv, hpart⟩ := hparts w hw
  exact ⟨v.toList, spells_oneOf_of_mem hv, hpart.trans (List.prefix_append ..).isInfix⟩

namespace Regex

/-- The part with which a pattern begins. -/
def front : Regex → Regex
  | seq p _ => p.front
  | p => p

theorem exists_front_of_spells {p : Regex} {t : Text} (h : p.Spells ignoreCase t) :
    ∃ a b, t = a ++ b ∧ p.front.Spells ignoreCase a := by
  induction p generalizing t with
  | seq p q ihp _ =>
      obtain ⟨a, b, rfl, hp, -⟩ := h
      obtain ⟨a, c, rfl, ha⟩ := ihp hp
      exact ⟨a, c ++ b, List.append_assoc .., ha⟩
  | _ => exact ⟨t, [], (List.append_nil t).symm, h⟩

end Regex
end LogPrune
