import LogPrune.Proofs.Pattern.Spell

/-!
# LogPrune.Proofs.Pattern.Reach

That the matches of a pattern are found, and where the search goes on.

1. The matcher stops behind every text that the pattern spells, as long as the
   pattern does not look at what stands around the match (`mem_ends_of_spells`).
2. Where a pattern matches a text that is not empty, a hit starts, unless an
   earlier hit reaches over the place (`exists_hit_of_end?`).
3. Hits do not overlap (`pairwise_hits`): the search goes on behind a match, and one
   character further where there is none (`hitsFrom_of_end?`,
   `hitsFrom_of_end?_eq_none`).
-/

namespace LogPrune

namespace Regex

/-- Whether what stands around a match matters to the pattern. -/
def looksAround : Regex → Bool
  | wordEdge | lineEnd => true
  | optional p | repeated p | group p | plainGroup p => p.looksAround
  | seq p q | choice p q => p.looksAround || q.looksAround
  | _ => false

end Regex

/-! ## Places behind a text -/

namespace Cursor

/-- The place behind a text that stands at a place, with the given rest. -/
def after (c : Cursor) (t rest : Text) : Cursor :=
  ⟨c.offset + Text.size t, t.getLast?.or c.before, rest⟩

theorem after_nil (c : Cursor) : c.after [] c.rest = c := rfl

/-- The character in front of the place behind a text. -/
theorem getLast?_or_cons (x : Char) (t : Text) (before : Option Char) :
    t.getLast?.or (some x) = (x :: t).getLast?.or before := by
  rw [List.getLast?_cons]
  cases t.getLast? <;> rfl

theorem after_past (c : Cursor) (x : Char) (xs t rest : Text) :
    (c.past x xs).after t rest = c.after (x :: t) rest := by
  simp only [after, past, Text.size_cons, getLast?_or_cons x t c.before, Nat.add_assoc]

theorem after_after (c : Cursor) (s t rest : Text) :
    (c.after s (t ++ rest)).after t rest = c.after (s ++ t) rest := by
  simp only [after, Text.size_append, List.getLast?_append, Nat.add_assoc, Option.or_assoc]

theorem skip?_of_agrees {s t rest : Text} {c : Cursor} (h : List.Forall₂ (agrees ignoreCase) s t)
    (hrest : c.rest = t ++ rest) : c.skip? ignoreCase s = some (c.after t rest) := by
  induction h generalizing c with
  | nil =>
      obtain rfl : c.rest = rest := hrest
      rfl
  | @cons x y xs ys hxy _ ih =>
      have hagree : (x = y || (ignoreCase && foldCase x = foldCase y)) := by
        simpa [agrees] using hxy
      rw [skip?, hrest]
      simp only [List.cons_append]
      rw [if_pos hagree, ih (c := c.past y (ys ++ rest)) rfl, after_past]

theorem mem_runFrom {s : Charset} {t rest : Text} (ht : ∀ x ∈ t, s.mem x) (offset : Nat)
    (before : Option Char) :
    (⟨offset, before, t ++ rest⟩ : Cursor).after t rest ∈ runFrom s offset before (t ++ rest) := by
  induction t generalizing offset before with
  | nil => cases rest <;> exact List.mem_cons_self
  | cons x t ih =>
      have hx := ht x List.mem_cons_self
      have ih := ih (fun y hy => ht y (List.mem_cons_of_mem _ hy)) (offset + x.utf8Size) (some x)
      rw [List.cons_append, runFrom, if_pos hx]
      apply List.mem_cons_of_mem
      rw [← after_past _ x (t ++ rest)]
      exact ih

/-- A run reaches the places behind all texts of characters of its set. -/
theorem mem_run {s : Charset} {c : Cursor} {t rest : Text} (hrest : c.rest = t ++ rest)
    (ht : ∀ x ∈ t, s.mem x) : c.after t rest ∈ c.run s := by
  obtain ⟨offset, before, _⟩ := c
  obtain rfl := hrest
  exact mem_runFrom ht offset before

theorem mem_tail_run {s : Charset} {c : Cursor} {t rest : Text} (hrest : c.rest = t ++ rest)
    (hne : t ≠ []) (ht : ∀ x ∈ t, s.mem x) : c.after t rest ∈ (c.run s).tail := by
  obtain ⟨offset, before, _⟩ := c
  obtain ⟨x, t, rfl⟩ := List.exists_cons_of_ne_nil hne
  obtain rfl := hrest
  rw [run, List.cons_append, runFrom, if_pos (ht x List.mem_cons_self), List.tail_cons,
    ← after_past _ x (t ++ rest)]
  exact mem_runFrom (fun y hy => ht y (List.mem_cons_of_mem _ hy)) _ _

/-- The farthest place of a run is the one behind all characters of the set. -/
theorem getLast?_run (s : Charset) (c : Cursor) :
    (c.run s).getLast? = some (c.after (c.rest.takeWhile s.mem) (c.rest.dropWhile s.mem)) := by
  have hrun : ∀ (t : Text) (offset : Nat) (before : Option Char),
      (runFrom s offset before t).getLast? =
        some (after ⟨offset, before, t⟩ (t.takeWhile s.mem) (t.dropWhile s.mem)) := by
    intro t
    induction t with
    | nil => intro offset before; rfl
    | cons x xs ih =>
        intro offset before
        rw [runFrom]
        by_cases hx : s.mem x
        · rw [if_pos hx, List.getLast?_cons, ih, List.takeWhile_cons_of_pos hx,
            List.dropWhile_cons_of_pos hx, ← after_past _ x xs]
          rfl
        · rw [if_neg hx, List.takeWhile_cons_of_neg hx, List.dropWhile_cons_of_neg hx]
          rfl
  exact hrun c.rest c.offset c.before

/-- Repeated steps keep the list that they are put in front of. -/
theorem mem_repeatOnto_of_mem {step : Cursor → List Cursor} {bound : Text} {c e : Cursor}
    {onto : List Cursor} (h : e ∈ onto) : e ∈ repeatOnto step bound c onto := by
  induction bound generalizing c onto with
  | nil => exact List.mem_cons_of_mem _ h
  | cons _ bound ih =>
      rw [repeatOnto]
      induction step c with
      | nil => exact List.mem_cons_of_mem _ h
      | cons d ds ihds =>
          rw [List.foldr_cons]
          split
          · exact ih ihds
          · exact ihds

/-- A place that one step and then repeated steps reach is reached by repeated
steps. -/
theorem mem_repeatOnto_of_step {step : Cursor → List Cursor} {x : Char} {bound : Text}
    {c d e : Cursor} {onto : List Cursor} (hd : d ∈ step c) (hlt : c.offset < d.offset)
    (h : ∀ onto, e ∈ repeatOnto step bound d onto) : e ∈ repeatOnto step (x :: bound) c onto := by
  rw [repeatOnto]
  generalize step c = ds at hd
  induction ds with
  | nil => contradiction
  | cons d' ds ih =>
      rw [List.foldr_cons]
      rcases List.mem_cons.1 hd with rfl | hd
      · rw [if_pos hlt]
        exact h _
      · split
        · exact mem_repeatOnto_of_mem (ih hd)
        · exact ih hd

theorem self_mem_repeatOnto {step : Cursor → List Cursor} {bound : Text} {c : Cursor}
    {onto : List Cursor} : c ∈ repeatOnto step bound c onto := by
  cases bound with
  | nil => exact List.mem_cons_self
  | cons _ bound =>
      rw [repeatOnto]
      induction step c with
      | nil => exact List.mem_cons_self
      | cons d ds ih =>
          rw [List.foldr_cons]
          split
          · exact mem_repeatOnto_of_mem ih
          · exact ih

/-- Repeated steps reach the place behind several texts, when each of them is a
step. -/
theorem mem_repeatOnto {step : Cursor → List Cursor} {ts : List Text}
    (hstep : ∀ t ∈ ts, ∀ c rest, c.rest = t ++ rest → c.after t rest ∈ step c)
    {bound rest : Text} {c : Cursor} {onto : List Cursor}
    (hbound : ts.flatten.length ≤ bound.length) (hrest : c.rest = ts.flatten ++ rest) :
    c.after ts.flatten rest ∈ repeatOnto step bound c onto := by
  induction ts generalizing bound c onto with
  | nil =>
      obtain rfl : c.rest = rest := hrest
      exact self_mem_repeatOnto
  | cons t ts ih =>
      have hts : ∀ u ∈ ts, ∀ c rest, c.rest = u ++ rest → c.after u rest ∈ step c :=
        fun u hu => hstep u (List.mem_cons_of_mem _ hu)
      rw [List.flatten_cons] at hbound hrest ⊢
      by_cases hnil : t = []
      · subst hnil
        exact ih hts hbound hrest
      · have hpos := List.length_pos_of_ne_nil hnil
        rw [List.length_append] at hbound
        cases bound with
        | nil => simp only [List.length_nil] at hbound; omega
        | cons x bound =>
            rw [List.append_assoc] at hrest
            rw [← after_after]
            refine mem_repeatOnto_of_step (hstep t List.mem_cons_self c _ hrest) ?_ fun onto => ?_
            · have := Text.size_pos hnil
              rw [after]
              exact Nat.lt_add_of_pos_right this
            · apply ih hts _ rfl
              rw [List.length_cons] at hbound
              omega

end Cursor

/-! ## Matches -/

namespace Regex

/-- A pattern that does not look around stops behind every text that it spells. -/
theorem mem_ends_of_spells {p : Regex} (hp : p.looksAround = false) {t rest : Text} {c : Cursor}
    (h : p.Spells ignoreCase t) (hrest : c.rest = t ++ rest) :
    c.after t rest ∈ p.ends ignoreCase c := by
  induction p generalizing t rest c with
  | text s =>
      rw [ends, Cursor.skip?_of_agrees h hrest]
      exact List.mem_singleton.2 rfl
  | one s =>
      obtain ⟨x, rfl, hx⟩ := h
      have hstep : c.step? s = some (c.after [x] rest) := by
        rw [Cursor.step?, hrest]
        simp only [List.singleton_append, hx, if_true]
        rw [← Cursor.after_past c x rest]
        rfl
      rw [ends, hstep]
      exact List.mem_singleton.2 rfl
  | many s => exact List.mem_reverse.2 (Cursor.mem_run hrest h)
  | many1 s => exact List.mem_reverse.2 (Cursor.mem_tail_run hrest h.1 h.2)
  | fewest s => exact Cursor.mem_run hrest h
  | optional p ih =>
      rcases h with rfl | h
      · obtain rfl : c.rest = rest := hrest
        exact List.mem_append_right _ (List.mem_singleton.2 (Cursor.after_nil c))
      · exact List.mem_append_left _ (ih hp h hrest)
  | repeated p ih =>
      obtain ⟨ts, rfl, hts⟩ := h
      refine Cursor.mem_repeatOnto (fun t ht c rest hrest => ih hp (hts t ht) hrest) ?_ hrest
      rw [hrest, List.length_append]
      exact Nat.le_add_right ..
  | seq p q ihp ihq =>
      obtain ⟨hp, hq⟩ := Bool.or_eq_false_iff.1 hp
      obtain ⟨a, b, rfl, ha, hb⟩ := h
      rw [List.append_assoc] at hrest
      rw [← Cursor.after_after]
      exact List.mem_flatMap.2 ⟨_, ihp hp ha hrest, ihq hq hb rfl⟩
  | choice p q ihp ihq =>
      obtain ⟨hp, hq⟩ := Bool.or_eq_false_iff.1 hp
      rcases h with h | h
      · exact List.mem_append_left _ (ihp hp h hrest)
      · exact List.mem_append_right _ (ihq hq h hrest)
  | group p ih => exact ih hp h hrest
  | plainGroup p ih => exact ih hp h hrest
  | wordEdge => contradiction
  | lineEnd => contradiction

/-- A pattern that ends with the end of a line stops at one. -/
theorem atLineEnd_of_mem_ends {p : Regex} {c d : Cursor}
    (h : d ∈ (p ++ Regex.lineEnd).ends ignoreCase c) : d.atLineEnd := by
  obtain ⟨e, -, hd⟩ := List.mem_flatMap.1 h
  obtain ⟨hend, rfl⟩ : e.atLineEnd ∧ d = e := by simpa [ends] using hd
  exact hend

/-- A pattern that ends with the end of a line stops behind the texts that the
rest of it spells, if a line ends there. -/
theorem mem_ends_of_spells_lineEnd {p : Regex} (hp : p.looksAround = false) {t rest : Text}
    {c : Cursor} (h : p.Spells ignoreCase t) (hrest : c.rest = t ++ rest)
    (hend : (c.after t rest).atLineEnd) :
    c.after t rest ∈ (p ++ Regex.lineEnd).ends ignoreCase c := by
  refine List.mem_flatMap.2 ⟨_, mem_ends_of_spells hp h hrest, ?_⟩
  rw [ends, if_pos hend]
  exact List.mem_singleton.2 rfl

end Regex

/-! ## Hits -/

namespace Pattern

/-- A hit between two places of a match is the text between them. -/
theorem hitBetween_eq {c d : Cursor} {t : Text} (h : Cursor.Leads c t d) :
    hitBetween c d = ⟨c.offset, t⟩ := by
  obtain ⟨hrest, hoffset⟩ := h
  rw [hitBetween, hrest, hoffset, Nat.add_sub_cancel_left, Text.takeSize_append]

theorem stop_hitBetween {p : Pattern} {c d : Cursor} (h : p.end? c = some d) :
    (hitBetween c d).stop = d.offset := by
  obtain ⟨t, hlead, -⟩ := spells_of_end? h
  rw [hitBetween_eq hlead, Hit.stop, hlead.2]

/-- A match that is not empty is the hit at its place. -/
theorem hitAt?_of_end? {p : Pattern} {last : Option Nat} {c d : Cursor} (hend : p.end? c = some d)
    (hlt : c.offset < d.offset) : p.hitAt? last c = some (hitBetween c d) := by
  rw [hitAt?, hend]
  exact if_pos hlt

/-- The hit at the place where the search starts is one of its hits. -/
theorem mem_hitsFrom_of_hitAt? {p : Pattern} {t : Text} {last : Option Nat} {offset : Nat}
    {before : Option Char} {h : Hit} (hlast : isCovered last offset = false)
    (hhit : p.hitAt? last ⟨offset, before, t⟩ = some h) : h ∈ p.hitsFrom last offset before t := by
  cases t with
  | nil =>
      rw [hitsFrom, if_neg (by simp [hlast]), hhit]
      exact List.mem_singleton.2 rfl
  | cons x xs =>
      rw [hitsFrom, if_neg (by simp [hlast]), hhit]
      exact List.mem_cons_self

theorem exists_hit_of_end?_from {p : Pattern} {a t : Text} {d : Cursor} {last : Option Nat}
    {offset : Nat} {before : Option Char}
    (hend : p.end? (Cursor.after ⟨offset, before, a ++ t⟩ a t) = some d)
    (hlt : offset + Text.size a < d.offset)
    (hlast : isCovered last (offset + Text.size a) = false) :
    ∃ h ∈ p.hitsFrom last offset before (a ++ t),
      h.start ≤ offset + Text.size a ∧ offset + Text.size a < h.stop := by
  induction a generalizing last offset before with
  | nil =>
      have hend : p.end? ⟨offset, before, t⟩ = some d := hend
      refine ⟨hitBetween ⟨offset, before, t⟩ d, ?_, Nat.le_refl _, ?_⟩
      · exact mem_hitsFrom_of_hitAt? hlast (hitAt?_of_end? hend hlt)
      · rw [stop_hitBetween hend]
        exact hlt
  | cons x a ih =>
      have hplace : Cursor.after ⟨offset, before, x :: a ++ t⟩ (x :: a) t =
          Cursor.after ⟨offset + x.utf8Size, some x, a ++ t⟩ a t :=
        (Cursor.after_past _ x (a ++ t) a t).symm
      have hoffset : offset + Text.size (x :: a) = offset + x.utf8Size + Text.size a := by
        rw [Text.size_cons, Nat.add_assoc]
      rw [hplace] at hend
      rw [hoffset] at hlt hlast
      rw [hoffset, List.cons_append, hitsFrom]
      split
      · exact ih hend hlt hlast
      · split
        · exact ih hend hlt hlast
        · next h hhit =>
          have hstart : h.start = offset := (leads_of_hitAt? hhit).1
          by_cases hstop : offset + x.utf8Size + Text.size a < h.stop
          · -- the hit reaches over the place
            exact ⟨h, List.mem_cons_self, by omega, hstop⟩
          · have hcovered : isCovered (some h.stop) (offset + x.utf8Size + Text.size a) = false := by
              simp only [isCovered, Option.any_some, decide_eq_false_iff_not]
              exact hstop
            obtain ⟨h', hmem, hrest⟩ := ih hend hlt hcovered
            exact ⟨h', List.mem_cons_of_mem _ hmem, hrest⟩

/-- Where a pattern matches a text that is not empty, a hit starts, unless an
earlier one reaches over the place. -/
theorem exists_hit_of_end? {p : Pattern} {a t : Text} {d : Cursor}
    (hend : p.end? ((Cursor.start (a ++ t)).after a t) = some d) (hlt : Text.size a < d.offset) :
    ∃ h ∈ p.hits (a ++ t), h.start ≤ Text.size a ∧ Text.size a < h.stop := by
  have hlast : isCovered none (0 + Text.size a) = false := rfl
  have h := exists_hit_of_end?_from hend (by rwa [Nat.zero_add]) hlast
  simp only [Nat.zero_add] at h
  exact h

/-- Such a hit starts at the place or in front of it, and holds a beginning of what
stands there. -/
theorem exists_hit_around {p : Pattern} {a t : Text} {d : Cursor}
    (hend : p.end? ((Cursor.start (a ++ t)).after a t) = some d) (hlt : Text.size a < d.offset) :
    ∃ h ∈ p.hits (a ++ t), ∃ s u q c e, a = s ++ u ∧ h.start = Text.size s ∧
      h.text = u ++ q ∧ q ≠ [] ∧ t = q ++ e.rest ∧ p.end? c = some e ∧ c.Leads h.text e := by
  obtain ⟨h, hmem, hle, hlt⟩ := exists_hit_of_end? hend hlt
  obtain ⟨s, c, e, ht, hstart, hend', hlead⟩ := exists_leads_of_mem_hits hmem
  obtain ⟨u, rfl, hrest⟩ := Text.exists_append_of_size_le ht.symm (by omega)
  rw [Hit.stop, hstart, Text.size_append] at hlt
  obtain ⟨q, htext, hrest⟩ :=
    Text.exists_append_of_size_le (hrest.symm.trans hlead.1) (by omega)
  refine ⟨h, hmem, s, u, q, c, e, rfl, hstart, htext, ?_, hrest, hend', hlead⟩
  rintro rfl
  rw [htext, List.append_nil] at hlt
  omega

/-- Where a text stands that a pattern spells, a hit starts, unless an earlier one reaches
over the place. -/
theorem exists_hit_of_spells {p : Pattern} (hp : p.body.looksAround = false)
    (hne : ¬ p.body.Spells p.ignoreCase []) {t : Text} (h : p.body.Spells p.ignoreCase t)
    (a b : Text) :
    ∃ h ∈ p.hits (a ++ (t ++ b)), h.start ≤ Text.size a ∧ Text.size a < h.stop := by
  have hmem := Regex.mem_ends_of_spells hp h
    (c := (Cursor.start (a ++ (t ++ b))).after a (t ++ b)) rfl
  obtain ⟨d, hend⟩ : ∃ d, p.end? ((Cursor.start (a ++ (t ++ b))).after a (t ++ b)) = some d := by
    rw [end?_eq_head?, ← Option.isSome_iff_exists, List.isSome_head?]
    exact List.ne_nil_of_mem hmem
  apply exists_hit_of_end? hend
  obtain ⟨u, ⟨-, hoffset⟩, hu⟩ := spells_of_end? hend
  have hpos := Text.size_pos fun hnil => hne (hnil ▸ hu)
  simp only [Cursor.after, Cursor.start] at hoffset
  omega

/-! ## From one hit to the next -/

variable {p : Pattern} {last : Option Nat} {offset : Nat} {before : Option Char} {t : Text}

/-- Hits do not start before the place where the hit before them stopped. -/
theorem le_start_of_mem_hitsFrom {stop : Nat} {h : Hit}
    (hmem : h ∈ p.hitsFrom (some stop) offset before t) : stop ≤ h.start := by
  induction t generalizing stop offset before with
  | nil =>
      rw [hitsFrom] at hmem
      split at hmem
      · contradiction
      · next hfree =>
        rw [(leads_of_hitAt? (Option.mem_toList.1 hmem)).1]
        simpa [isCovered] using hfree
  | cons x xs ih =>
      rw [hitsFrom] at hmem
      split at hmem
      · exact ih hmem
      · next hfree =>
        have hle : stop ≤ offset := by simpa [isCovered] using hfree
        split at hmem
        · exact ih hmem
        · next h' hhit =>
          have hstart : h'.start = offset := (leads_of_hitAt? hhit).1
          rcases List.mem_cons.1 hmem with rfl | hmem
          · rwa [hstart]
          · have hbehind : h'.start + Text.size h'.text ≤ h.start := ih hmem
            omega

/-- Hits do not overlap, and come in their order. -/
theorem pairwise_hitsFrom : (p.hitsFrom last offset before t).Pairwise (·.stop ≤ ·.start) := by
  induction t generalizing last offset before with
  | nil =>
      rw [hitsFrom]
      split
      · exact .nil
      · cases p.hitAt? last ⟨offset, before, []⟩ <;> simp
  | cons x xs ih =>
      rw [hitsFrom]
      split
      · exact ih
      · split
        · exact ih
        · exact List.pairwise_cons.2 ⟨fun h' hmem => le_start_of_mem_hitsFrom hmem, ih⟩

theorem pairwise_hits (p : Pattern) (t : Text) : (p.hits t).Pairwise (·.stop ≤ ·.start) :=
  pairwise_hitsFrom

/-- Places in front of the one where a hit stopped are passed over. -/
theorem hitsFrom_covered {u : Text} {stop : Nat} (hstop : stop = offset + Text.size u) :
    p.hitsFrom (some stop) offset before (u ++ t) =
      p.hitsFrom (some stop) stop (u.getLast?.or before) t := by
  induction u generalizing offset before with
  | nil =>
      obtain rfl : stop = offset := hstop
      rfl
  | cons x u ih =>
      have hcovered : isCovered (some stop) offset := by
        have := x.utf8Size_pos
        rw [hstop, Text.size_cons]
        simp only [isCovered, Option.any_some, decide_eq_true_iff]
        omega
      rw [List.cons_append, hitsFrom, if_pos hcovered, ← Cursor.getLast?_or_cons x u before]
      exact ih (by rw [hstop, Text.size_cons, Nat.add_assoc])

theorem isCovered_add (hlast : isCovered last offset = false) (n : Nat) :
    isCovered last (offset + n) = false := by
  cases last with
  | none => rfl
  | some stop =>
      simp only [isCovered, Option.any_some, decide_eq_false_iff_not] at hlast ⊢
      omega

/-- Where a pattern does not match the search goes on one character further. -/
theorem hitsFrom_of_end?_eq_none {x : Char} {xs : Text}
    (hend : p.end? ⟨offset, before, x :: xs⟩ = none) :
    p.hitsFrom last offset before (x :: xs) =
      p.hitsFrom last (offset + x.utf8Size) (some x) xs := by
  rw [hitsFrom, hitAt?, hend, ite_self]

/-- Where a pattern matches there is a hit, and the search goes on behind it. -/
theorem hitsFrom_of_end? {u rest : Text} (hne : u ≠ [])
    (hend : p.end? ⟨offset, before, u ++ rest⟩ =
      some (Cursor.after ⟨offset, before, u ++ rest⟩ u rest))
    (hlast : isCovered last offset = false) :
    p.hitsFrom last offset before (u ++ rest) = ⟨offset, u⟩ ::
      p.hitsFrom (some (offset + Text.size u)) (offset + Text.size u) (u.getLast?.or before)
        rest := by
  have hlt : offset < offset + Text.size u := Nat.lt_add_of_pos_right (Text.size_pos hne)
  have hhit : p.hitAt? last ⟨offset, before, u ++ rest⟩ = some ⟨offset, u⟩ := by
    rw [hitAt?_of_end? hend hlt]
    exact congrArg some (hitBetween_eq (c := ⟨offset, before, u ++ rest⟩) ⟨rfl, rfl⟩)
  obtain ⟨x, u, rfl⟩ := List.exists_cons_of_ne_nil hne
  rw [List.cons_append] at hhit ⊢
  rw [hitsFrom, if_neg (by simp [hlast]), hhit, ← Cursor.getLast?_or_cons x u before]
  have hstop : offset + Text.size (x :: u) = offset + x.utf8Size + Text.size u := by
    rw [Text.size_cons, Nat.add_assoc]
  exact congrArg _ (hitsFrom_covered hstop)

end Pattern
end LogPrune
