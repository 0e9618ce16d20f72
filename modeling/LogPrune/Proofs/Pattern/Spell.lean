import LogPrune.Pattern.Search
import LogPrune.Proofs.Text.Cut
import Mathlib.Data.List.Forall2

/-!
# LogPrune.Proofs.Pattern.Spell

What the matches of a pattern consist of.

1. `Regex.Spells` says which texts a pattern stands for, read as a formal
   language: neither the order in which a matcher tries the ends nor what
   surrounds the match matters to it.
2. The matcher only stops behind such a text (`spells_of_mem_ends`).
3. A hit lies where it says it does, and the pattern spells it
   (`exists_of_mem_hits`).
-/

namespace LogPrune

/-! ## The language of a pattern -/

/-- Whether a character of the text will do for a character of a literal. -/
def agrees (ignoreCase : Bool) (x y : Char) : Prop :=
  x = y ∨ (ignoreCase ∧ foldCase x = foldCase y)

namespace Regex

/-- The texts that a pattern stands for. -/
def Spells (ignoreCase : Bool) : Regex → Text → Prop
  | text s, t => List.Forall₂ (agrees ignoreCase) s t
  | one s, t => ∃ x, t = [x] ∧ s.mem x
  | many s, t => ∀ x ∈ t, s.mem x
  | many1 s, t => t ≠ [] ∧ ∀ x ∈ t, s.mem x
  | fewest s, t => ∀ x ∈ t, s.mem x
  | optional p, t => t = [] ∨ p.Spells ignoreCase t
  | repeated p, t => ∃ ts : List Text, t = ts.flatten ∧ ∀ u ∈ ts, p.Spells ignoreCase u
  | seq p q, t => ∃ a b, t = a ++ b ∧ p.Spells ignoreCase a ∧ q.Spells ignoreCase b
  | choice p q, t => p.Spells ignoreCase t ∨ q.Spells ignoreCase t
  | group p, t => p.Spells ignoreCase t
  | plainGroup p, t => p.Spells ignoreCase t
  | wordEdge, t => t = []
  | lineEnd, t => t = []

end Regex

/-! ## From one place to another -/

namespace Cursor

/-- The text `t` leads from the place `c` to the place `d`. -/
def Leads (c : Cursor) (t : Text) (d : Cursor) : Prop :=
  c.rest = t ++ d.rest ∧ d.offset = c.offset + Text.size t

theorem Leads.refl (c : Cursor) : Leads c [] c := ⟨rfl, rfl⟩

theorem Leads.trans (h : Leads c s d) (h' : Leads d t e) : Leads c (s ++ t) e := by
  obtain ⟨hrest, hoffset⟩ := h
  obtain ⟨hrest', hoffset'⟩ := h'
  refine ⟨by rw [hrest, hrest', List.append_assoc], ?_⟩
  rw [hoffset', hoffset, Text.size_append, Nat.add_assoc]

theorem Leads.past {c : Cursor} (h : c.rest = x :: xs) : Leads c [x] (c.past x xs) :=
  ⟨h, rfl⟩

/-- One text leads from a place to another. -/
theorem Leads.unique (h : Leads c s d) (h' : Leads c t d) : s = t :=
  List.append_cancel_right (h.1.symm.trans h'.1)

/-- A literal text is skipped over a text that agrees with it. -/
theorem leads_of_skip? {s : Text} {c d : Cursor} (h : c.skip? ignoreCase s = some d) :
    ∃ t, Leads c t d ∧ List.Forall₂ (agrees ignoreCase) s t := by
  induction s generalizing c with
  | nil =>
      obtain rfl : c = d := Option.some.inj h
      exact ⟨[], .refl c, .nil⟩
  | cons x xs ih =>
      rw [skip?] at h
      split at h
      · contradiction
      · next y ys hrest =>
        split at h
        · next hxy =>
          obtain ⟨t, hlead, hagree⟩ := ih h
          have hxy : agrees ignoreCase x y := by simpa [agrees] using hxy
          exact ⟨y :: t, (Leads.past hrest).trans hlead, .cons hxy hagree⟩
        · contradiction

theorem leads_of_step? {s : Charset} {c d : Cursor} (h : c.step? s = some d) :
    ∃ x, Leads c [x] d ∧ s.mem x := by
  rw [step?] at h
  split at h
  · contradiction
  · next x xs hrest =>
    split at h
    · next hx =>
      obtain rfl := Option.some.inj h
      exact ⟨x, .past hrest, hx⟩
    · contradiction

theorem leads_of_mem_runFrom {s : Charset} {rest : Text} {offset : Nat} {before : Option Char}
    {d : Cursor} (h : d ∈ runFrom s offset before rest) :
    ∃ t, Leads ⟨offset, before, rest⟩ t d ∧ ∀ x ∈ t, s.mem x := by
  induction rest generalizing offset before with
  | nil =>
      obtain rfl : d = ⟨offset, before, []⟩ := by simpa [runFrom] using h
      exact ⟨[], .refl _, by simp⟩
  | cons x xs ih =>
      rw [runFrom] at h
      rcases List.mem_cons.1 h with rfl | h
      · exact ⟨[], .refl _, by simp⟩
      · split at h
        · next hx =>
          obtain ⟨t, hlead, ht⟩ := ih h
          refine ⟨x :: t, (Leads.past (c := ⟨offset, before, x :: xs⟩) rfl).trans hlead, ?_⟩
          simpa [hx] using ht
        · contradiction

/-- A run passes over characters of its set only. -/
theorem leads_of_mem_run {s : Charset} {c d : Cursor} (h : d ∈ c.run s) :
    ∃ t, Leads c t d ∧ ∀ x ∈ t, s.mem x := leads_of_mem_runFrom h

/-- A run from which the nearest place is left out passes over at least one
character. -/
theorem leads_of_mem_tail_run {s : Charset} {c d : Cursor} (h : d ∈ (c.run s).tail) :
    ∃ t, Leads c t d ∧ t ≠ [] ∧ ∀ x ∈ t, s.mem x := by
  obtain ⟨offset, before, rest⟩ := c
  cases rest with
  | nil => simp [run, runFrom] at h
  | cons x xs =>
      rw [run, runFrom, List.tail_cons] at h
      split at h
      · next hx =>
        obtain ⟨t, hlead, ht⟩ := leads_of_mem_runFrom h
        refine ⟨x :: t, (Leads.past (c := ⟨offset, before, x :: xs⟩) rfl).trans hlead, ?_, ?_⟩
        · exact List.cons_ne_nil x t
        · simpa [hx] using ht
      · contradiction

/-- Every relation that holds of a place and itself, and that a step in front
of it keeps, holds between a place and those that repeated steps reach. -/
theorem rel_of_mem_repeatOnto {R : Cursor → Cursor → Prop} {step : Cursor → List Cursor}
    (hrefl : ∀ c, R c c) (hstep : ∀ c d e, d ∈ step c → R d e → R c e)
    {bound : Text} {c e : Cursor} {onto : List Cursor}
    (h : e ∈ repeatOnto step bound c onto) : R c e ∨ e ∈ onto := by
  induction bound generalizing c onto with
  | nil =>
      rcases List.mem_cons.1 h with rfl | h
      · exact .inl (hrefl e)
      · exact .inr h
  | cons _ bound ih =>
      -- the list is the steps' own lists, nested from the last step outwards
      have hfold : ∀ ds : List Cursor, (∀ d ∈ ds, d ∈ step c) →
          e ∈ ds.foldr (fun d onto =>
            if c.offset < d.offset then repeatOnto step bound d onto else onto) (c :: onto) →
          R c e ∨ e ∈ onto := by
        intro ds hds h
        induction ds with
        | nil =>
            rcases List.mem_cons.1 h with rfl | h
            · exact .inl (hrefl e)
            · exact .inr h
        | cons d ds ihds =>
            have hrest := ihds fun d hd => hds d (List.mem_cons_of_mem _ hd)
            rw [List.foldr_cons] at h
            split at h
            · rcases ih h with hd | h
              · exact .inl (hstep c d e (hds d List.mem_cons_self) hd)
              · exact hrest h
            · exact hrest h
      exact hfold (step c) (fun _ hd => hd) (by rwa [repeatOnto] at h)

end Cursor

/-! ## Matches -/

namespace Regex

/-- A pattern stops behind a text that it spells. -/
theorem spells_of_mem_ends {p : Regex} {c d : Cursor} (h : d ∈ p.ends ignoreCase c) :
    ∃ t, Cursor.Leads c t d ∧ p.Spells ignoreCase t := by
  induction p generalizing c d with
  | text s => exact Cursor.leads_of_skip? (by simpa [ends] using h)
  | one s =>
      obtain ⟨x, hlead, hx⟩ := Cursor.leads_of_step? (c := c) (s := s) (by simpa [ends] using h)
      exact ⟨[x], hlead, x, rfl, hx⟩
  | many s => exact Cursor.leads_of_mem_run (by simpa [ends] using h)
  | many1 s => exact Cursor.leads_of_mem_tail_run (by rwa [ends, List.mem_reverse] at h)
  | fewest s => exact Cursor.leads_of_mem_run h
  | optional p ih =>
      rcases List.mem_append.1 h with h | h
      · obtain ⟨t, hlead, ht⟩ := ih h
        exact ⟨t, hlead, .inr ht⟩
      · obtain rfl := List.mem_singleton.1 h
        exact ⟨[], .refl d, .inl rfl⟩
  | repeated p ih =>
      have hrel := Cursor.rel_of_mem_repeatOnto (c := c) (e := d)
        (R := fun c d => ∃ ts : List Text,
          Cursor.Leads c ts.flatten d ∧ ∀ u ∈ ts, p.Spells ignoreCase u)
        (fun c => ⟨[], .refl c, by simp⟩)
        (fun c d e hd he => by
          obtain ⟨u, hu, hspell⟩ := ih hd
          obtain ⟨ts, hlead, hts⟩ := he
          exact ⟨u :: ts, hu.trans hlead, by simpa [hspell] using hts⟩) h
      rcases hrel with ⟨ts, hlead, hts⟩ | h
      · exact ⟨ts.flatten, hlead, ts, rfl, hts⟩
      · contradiction
  | seq p q ihp ihq =>
      obtain ⟨e, he, hd⟩ := List.mem_flatMap.1 h
      obtain ⟨a, ha, hp⟩ := ihp he
      obtain ⟨b, hb, hq⟩ := ihq hd
      exact ⟨a ++ b, ha.trans hb, a, b, rfl, hp, hq⟩
  | choice p q ihp ihq =>
      rcases List.mem_append.1 h with h | h
      · obtain ⟨t, hlead, ht⟩ := ihp h
        exact ⟨t, hlead, .inl ht⟩
      · obtain ⟨t, hlead, ht⟩ := ihq h
        exact ⟨t, hlead, .inr ht⟩
  | group p ih => exact ih h
  | plainGroup p ih => exact ih h
  | wordEdge =>
      obtain ⟨-, rfl⟩ : c.atWordEdge ∧ d = c := by simpa [ends] using h
      exact ⟨[], .refl d, rfl⟩
  | lineEnd =>
      obtain ⟨-, rfl⟩ : c.atLineEnd ∧ d = c := by simpa [ends] using h
      exact ⟨[], .refl d, rfl⟩

end Regex

namespace Pattern

/-- The match at a place stops behind a text that the pattern spells. -/
theorem spells_of_end? {p : Pattern} {c d : Cursor} (h : p.end? c = some d) :
    ∃ t, Cursor.Leads c t d ∧ p.body.Spells p.ignoreCase t := by
  rw [end?_eq_head?] at h
  exact Regex.spells_of_mem_ends (List.mem_of_mem_head? h)

/-- The hit at a place leads to where the match stops. -/
theorem leads_of_hitAt? {p : Pattern} {c : Cursor} {h : Hit} (hhit : p.hitAt? last c = some h) :
    h.start = c.offset ∧ ∃ d, p.end? c = some d ∧ c.Leads h.text d := by
  rw [hitAt?] at hhit
  split at hhit
  · contradiction
  · next d hend =>
    obtain ⟨t, hlead, -⟩ := spells_of_end? hend
    have htake : c.rest.takeSize (d.offset - c.offset) = t := by
      rw [hlead.1, hlead.2, Nat.add_sub_cancel_left, Text.takeSize_append]
    split at hhit
    · obtain rfl := Option.some.inj hhit
      exact ⟨rfl, d, hend, by rwa [hitBetween, htake]⟩
    · next hlt =>
      have hoffset := hlead.2
      obtain rfl : t = [] := Text.eq_nil_of_size_eq_zero (by omega)
      split at hhit
      · contradiction
      · obtain rfl := Option.some.inj hhit
        exact ⟨rfl, d, hend, hlead⟩

/-- A hit is the match at the place where it starts. -/
theorem exists_leads_of_mem_hitsFrom {p : Pattern} {t : Text} {h : Hit}
    (hmem : h ∈ p.hitsFrom last offset before t) :
    ∃ a c d, Cursor.Leads ⟨offset, before, t⟩ a c ∧ h.start = c.offset ∧
      p.end? c = some d ∧ c.Leads h.text d := by
  -- a hit at the place itself, or one of those further on
  have hhere : ∀ {last offset before t}, p.hitAt? last ⟨offset, before, t⟩ = some h →
      ∃ a c d, Cursor.Leads ⟨offset, before, t⟩ a c ∧ h.start = c.offset ∧
        p.end? c = some d ∧ c.Leads h.text d := by
    intro last offset before t hhit
    obtain ⟨hstart, d, hend, hlead⟩ := leads_of_hitAt? hhit
    exact ⟨[], _, d, .refl _, hstart, hend, hlead⟩
  induction t generalizing last offset before with
  | nil =>
      rw [hitsFrom] at hmem
      split at hmem
      · contradiction
      · exact hhere (by simpa using hmem)
  | cons x xs ih =>
      have hfar : ∀ {last}, h ∈ p.hitsFrom last (offset + x.utf8Size) (some x) xs →
          ∃ a c d, Cursor.Leads ⟨offset, before, x :: xs⟩ a c ∧ h.start = c.offset ∧
            p.end? c = some d ∧ c.Leads h.text d := by
        intro last hmem
        obtain ⟨a, c, d, ha, hrest⟩ := ih hmem
        have hstep := Cursor.Leads.past (c := ⟨offset, before, x :: xs⟩) rfl
        exact ⟨x :: a, c, d, hstep.trans ha, hrest⟩
      rw [hitsFrom] at hmem
      split at hmem
      · exact hfar hmem
      · split at hmem
        · exact hfar hmem
        · next h' hhit =>
          rcases List.mem_cons.1 hmem with rfl | hmem
          · exact hhere hhit
          · exact hfar hmem

theorem exists_leads_of_mem_hits {p : Pattern} {t : Text} {h : Hit} (hmem : h ∈ p.hits t) :
    ∃ a c d, t = a ++ c.rest ∧ h.start = Text.size a ∧
      p.end? c = some d ∧ c.Leads h.text d := by
  obtain ⟨a, c, d, ⟨ht, hoffset⟩, hstart, hend⟩ := exists_leads_of_mem_hitsFrom hmem
  exact ⟨a, c, d, ht, hstart.trans (hoffset.trans (Nat.zero_add _)), hend⟩

/-- A hit stands in the text at the offset where it starts. -/
theorem exists_of_mem_hits {p : Pattern} {t : Text} {h : Hit} (hmem : h ∈ p.hits t) :
    ∃ a b, t = a ++ h.text ++ b ∧ h.start = Text.size a ∧ p.body.Spells p.ignoreCase h.text := by
  obtain ⟨a, c, d, ht, hstart, hend, hlead⟩ := exists_leads_of_mem_hits hmem
  obtain ⟨s, hlead', hspell⟩ := spells_of_end? hend
  obtain rfl : s = h.text := hlead'.unique hlead
  refine ⟨a, d.rest, ?_, hstart, hspell⟩
  rw [List.append_assoc, ← hlead.1]
  exact ht

end Pattern
end LogPrune
