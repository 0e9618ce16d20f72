import LogPrune.Pattern.Statement
import LogPrune.Proofs.Pattern.Escape
import LogPrune.Proofs.Pattern.Words
import Mathlib

/-!
# LogPrune.Proofs.Pattern.Comments

Comments between an opener and a closer.

1. A text is split at the first occurrence of a part (`splitOnce?_spec`).
2. The pattern of comments takes as few characters as it can behind an opener, so that a
   match ends with the first closer there (`end?_commentBetween`).
3. Its hits are therefore what two searches in turn find: for the next opener, and for the
   first closer behind it (`comments_found_by_search`).
-/

namespace LogPrune

/-! ## The first occurrence of a part -/

namespace Text

/-- What stands in front of the first occurrence of a part, and what stands behind it. -/
def splitOnce? (t part : Text) : Option (Text × Text) :=
  if part.isPrefixOf t then some ([], t.drop part.length)
  else match t with
    | [] => none
    | c :: cs => (splitOnce? cs part).map fun s => (c :: s.1, s.2)

variable {part t front behind : Text}

theorem splitOnce?_append (part behind : Text) :
    splitOnce? (part ++ behind) part = some ([], behind) := by
  rw [splitOnce?.eq_def, if_pos (List.isPrefixOf_iff_prefix.2 (List.prefix_append ..)),
    List.drop_left]

theorem splitOnce?_nil (h : part ≠ []) : splitOnce? [] part = none := by
  rw [splitOnce?.eq_def, if_neg (by simpa using h)]

theorem splitOnce?_cons {c : Char} {cs : Text} (h : ¬ part <+: c :: cs) :
    splitOnce? (c :: cs) part = (splitOnce? cs part).map fun s => (c :: s.1, s.2) := by
  rw [splitOnce?.eq_def, if_neg (mt List.isPrefixOf_iff_prefix.1 h)]

/-- A text is split around the part, and no occurrence of the part begins earlier. -/
theorem splitOnce?_spec (h : t.splitOnce? part = some (front, behind)) :
    t = front ++ part ++ behind ∧ ∀ a b, t = a ++ part ++ b → front <+: a := by
  induction t generalizing front with
  | nil =>
      rw [splitOnce?.eq_def] at h
      simp_all
  | cons c cs ih =>
      by_cases hpart : part <+: c :: cs
      · obtain ⟨rest, hrest⟩ := hpart
        rw [← hrest, splitOnce?_append] at h
        obtain ⟨rfl, rfl⟩ := Prod.mk.inj (Option.some.inj h)
        exact ⟨hrest.symm, fun a b _ => List.nil_prefix⟩
      · rw [splitOnce?_cons hpart, Option.map_eq_some_iff] at h
        obtain ⟨⟨front', behind'⟩, hsplit, heq⟩ := h
        obtain ⟨rfl, rfl⟩ := Prod.mk.inj heq
        obtain ⟨hcs, hfirst⟩ := ih hsplit
        refine ⟨by rw [hcs]; rfl, fun a b ht => ?_⟩
        cases a with
        | nil => exact absurd ⟨b, ht.symm⟩ hpart
        | cons x a =>
            obtain ⟨rfl, htail⟩ := List.cons.inj ht
            exact List.cons_prefix_cons.2 ⟨rfl, hfirst a b htail⟩

theorem splitOnce?_eq_none_iff : t.splitOnce? part = none ↔ ¬ part <:+: t := by
  induction t with
  | nil =>
      rw [splitOnce?.eq_def, List.infix_nil]
      by_cases h : part = [] <;> simp [h]
  | cons c cs ih =>
      rw [List.infix_cons_iff]
      by_cases hpart : part <+: c :: cs
      · obtain ⟨rest, hrest⟩ := hpart
        rw [← hrest, splitOnce?_append]
        simp
      · rw [splitOnce?_cons hpart, Option.map_eq_none_iff, ih]
        simp [hpart]

end Text

/-! ## The match behind an opener -/

namespace Cursor

/-- As few characters as possible in front of a part are those in front of its first
occurrence. -/
theorem firstInRun_skip? (part t : Text) (offset : Nat) (before : Option Char) :
    firstInRun .any (skip? false part) offset before t =
      (t.splitOnce? part).map fun s => after ⟨offset, before, t⟩ (s.1 ++ part) s.2 := by
  induction t generalizing offset before with
  | nil =>
      by_cases hpart : part = []
      · subst hpart
        rfl
      · rw [Text.splitOnce?_nil hpart]
        exact skip?_eq_none (by simpa using hpart)
  | cons x xs ih =>
      rw [firstInRun]
      by_cases hpart : part <+: x :: xs
      · obtain ⟨rest, hrest⟩ := hpart
        rw [skip?_of_append (c := ⟨offset, before, x :: xs⟩) hrest.symm, ← hrest,
          Text.splitOnce?_append]
        rfl
      · rw [skip?_eq_none hpart, Text.splitOnce?_cons hpart, Option.map_map]
        have hbehind := ih (offset + x.utf8Size) (some x)
        have hplace : (fun s : Text × Text => after ⟨offset + x.utf8Size, some x, xs⟩
            (s.1 ++ part) s.2) = (fun s => after ⟨offset, before, x :: xs⟩ (s.1 ++ part) s.2) ∘
              fun s => (x :: s.1, s.2) :=
          funext fun s => after_past ⟨offset, before, x :: xs⟩ x xs (s.1 ++ part) s.2
        rw [← hplace, ← hbehind]
        rfl

end Cursor

namespace Regex

theorem first?_text {ignoreCase : Bool} (s : Text) (k : Cursor → Option α) (c : Cursor) :
    (Regex.text s).first? ignoreCase k c = (c.skip? ignoreCase s).bind k := by
  cases h : c.skip? ignoreCase s <;> simp [first?, ends, h]

end Regex

namespace Pattern

variable {opener closer behind : Text} {c : Cursor}

theorem end?_commentBetween_eq (c : Cursor) :
    (commentBetween opener closer).end? c = (c.skip? false opener).bind fun d =>
      Cursor.firstInRun .any (Cursor.skip? false closer) d.offset d.before d.rest := by
  have hcloser : (Regex.text closer).first? false some = Cursor.skip? false closer :=
    funext fun d => by rw [Regex.first?_text, Option.bind_fun_some]
  calc (commentBetween opener closer).end? c
    _ = (Regex.text opener).first? false ((Regex.fewest .any).first? false
          ((Regex.text closer).first? false some)) c := rfl
    _ = (c.skip? false opener).bind ((Regex.fewest .any).first? false
          (Cursor.skip? false closer)) := by rw [Regex.first?_text, hcloser]

/-- Behind an opener the match ends with the first closer. -/
theorem end?_commentBetween (hrest : c.rest = opener ++ behind) :
    (commentBetween opener closer).end? c =
      (behind.splitOnce? closer).map fun s => c.after (opener ++ s.1 ++ closer) s.2 := by
  rw [end?_commentBetween_eq, Cursor.skip?_of_append hrest, Option.bind_some,
    Cursor.firstInRun_skip?]
  refine congrArg (fun f => (behind.splitOnce? closer).map f) (funext fun s => ?_)
  rw [List.append_assoc]
  exact Cursor.after_after c opener (s.1 ++ closer) s.2

theorem end?_commentBetween_eq_none (h : ¬ opener <+: c.rest) :
    (commentBetween opener closer).end? c = none := by
  rw [end?_commentBetween_eq, Cursor.skip?_eq_none h, Option.bind_none]

/-- A match is an opener and what follows it up to the first closer. -/
theorem exists_of_end?_commentBetween {d : Cursor}
    (h : (commentBetween opener closer).end? c = some d) :
    ∃ behind inside rest, c.rest = opener ++ behind ∧
      behind.splitOnce? closer = some (inside, rest) ∧
      d = c.after (opener ++ inside ++ closer) rest := by
  by_cases hopens : opener <+: c.rest
  · obtain ⟨behind, hbehind⟩ := hopens
    rw [end?_commentBetween hbehind.symm, Option.map_eq_some_iff] at h
    obtain ⟨⟨inside, rest⟩, hclose, hd⟩ := h
    exact ⟨behind, inside, rest, hbehind.symm, hclose, hd.symm⟩
  · rw [end?_commentBetween_eq_none hopens] at h
    contradiction

/-- Where an opener stands without a match, no closer follows it. -/
theorem not_infix_of_end?_eq_none (h : (commentBetween opener closer).end? c = none)
    (hrest : c.rest = opener ++ behind) : ¬ closer <:+: behind := by
  rwa [end?_commentBetween hrest, Option.map_eq_none_iff, Text.splitOnce?_eq_none_iff] at h

/-! ## Two searches in turn -/

/-- What stands in front of the next comment, in it and behind it: the next opener is searched
for, and then the first closer behind that. -/
def nextComment? (opener closer t : Text) : Option (Text × Text × Text) :=
  match t.splitOnce? opener with
  | none => none
  | some (front, behind) => (behind.splitOnce? closer).map fun s => (front, s.1, s.2)

theorem append_of_nextComment? {t front inside rest : Text}
    (h : nextComment? opener closer t = some (front, inside, rest)) :
    t = front ++ (opener ++ inside ++ closer) ++ rest := by
  rw [nextComment?] at h
  split at h
  · contradiction
  · next front' behind hsplit =>
    obtain ⟨⟨inside', rest'⟩, hclose, heq⟩ := Option.map_eq_some_iff.1 h
    simp only [Prod.mk.injEq] at heq
    obtain ⟨rfl, rfl, rfl⟩ := heq
    rw [(Text.splitOnce?_spec hsplit).1, (Text.splitOnce?_spec hclose).1]
    simp

/-- The comments of a text, found one after the other until there is no next one. -/
def commentsFrom (hopener : opener ≠ []) (closer : Text) (offset : Nat) (t : Text) : List Hit :=
  match _ : nextComment? opener closer t with
  | none => []
  | some (front, inside, rest) =>
    let hit : Hit := ⟨offset + Text.size front, opener ++ inside ++ closer⟩
    hit :: commentsFrom hopener closer hit.stop rest
  termination_by t.length
  decreasing_by
    have := List.length_pos_of_ne_nil hopener
    rw [append_of_nextComment? ‹nextComment? opener closer t = _›]
    simp only [List.length_append]
    omega

variable {hopener : opener ≠ []} {offset : Nat} {t : Text}

theorem commentsFrom_of_none (h : nextComment? opener closer t = none) :
    commentsFrom hopener closer offset t = [] := by
  rw [commentsFrom]
  split
  · rfl
  · simp_all

theorem commentsFrom_of_some {front inside rest : Text}
    (h : nextComment? opener closer t = some (front, inside, rest)) :
    commentsFrom hopener closer offset t =
      ⟨offset + Text.size front, opener ++ inside ++ closer⟩ :: commentsFrom hopener closer
        (offset + Text.size front + Text.size (opener ++ inside ++ closer)) rest := by
  rw [commentsFrom]
  split
  · simp_all
  · next hsome =>
    obtain ⟨rfl, rfl, rfl⟩ := Prod.mk.injEq .. ▸ Option.some.inj (h.symm.trans hsome)
    rfl

/-- In front of the next opener the search goes on. -/
theorem commentsFrom_cons {x : Char} {xs : Text} (h : ¬ opener <+: x :: xs) :
    commentsFrom hopener closer offset (x :: xs) =
      commentsFrom hopener closer (offset + x.utf8Size) xs := by
  have hnext : nextComment? opener closer (x :: xs) =
      (nextComment? opener closer xs).map fun s => (x :: s.1, s.2) := by
    rw [nextComment?, nextComment?, Text.splitOnce?_cons h]
    cases xs.splitOnce? opener with
    | none => rfl
    | some s => simp only [Option.map_some, Option.map_map]; rfl
  cases hxs : nextComment? opener closer xs with
  | none => rw [commentsFrom_of_none hxs, commentsFrom_of_none (by rw [hnext, hxs]; rfl)]
  | some s =>
      rw [commentsFrom_of_some hxs, commentsFrom_of_some (hnext.trans (by rw [hxs]; rfl)),
        Text.size_cons, ← Nat.add_assoc]

/-- Without a closer behind the first opener there are no comments. -/
theorem commentsFrom_eq_nil (h : ∀ a b, t = a ++ opener ++ b → ¬ closer <:+: b) :
    commentsFrom hopener closer offset t = [] := by
  apply commentsFrom_of_none
  by_contra hsome
  obtain ⟨⟨front, inside, rest⟩, hnext⟩ := Option.ne_none_iff_exists'.1 hsome
  exact h front (inside ++ closer ++ rest) (by rw [append_of_nextComment? hnext]; simp)
    ⟨inside, rest, rfl⟩

/-- Where the pattern does not match, the search goes on too: at an opener without a closer
behind it nothing is found further on either. -/
theorem commentsFrom_of_end?_eq_none {before : Option Char} {x : Char} {xs : Text}
    (hend : (commentBetween opener closer).end? ⟨offset, before, x :: xs⟩ = none) :
    commentsFrom hopener closer offset (x :: xs) =
      commentsFrom hopener closer (offset + x.utf8Size) xs := by
  by_cases hopens : opener <+: x :: xs
  · obtain ⟨(behind : Text), hbehind⟩ := hopens
    have hmissing : ∀ a b, x :: xs = a ++ opener ++ b → ¬ closer <:+: b := by
      intro a b hab hpart
      have hsuffix : b <:+ behind := by
        apply List.suffix_of_suffix_length_le ⟨_, hab.symm⟩ ⟨_, hbehind⟩
        have := congrArg List.length (hbehind.trans hab)
        simp only [List.length_append] at this
        omega
      exact not_infix_of_end?_eq_none hend hbehind.symm (hpart.trans hsuffix.isInfix)
    rw [commentsFrom_eq_nil hmissing, commentsFrom_eq_nil]
    intro a b hab
    exact hmissing (x :: a) b (by rw [hab]; rfl)
  · exact commentsFrom_cons hopens

/-- The hits of the pattern are what the two searches find. -/
theorem hitsFrom_commentBetween {last : Option Nat} {before : Option Char}
    (hlast : isCovered last offset = false) :
    (commentBetween opener closer).hitsFrom last offset before t =
      commentsFrom hopener closer offset t := by
  induction hlength : t.length using Nat.strongRecOn generalizing t last offset before with
  | ind n ih =>
  cases hend : (commentBetween opener closer).end? ⟨offset, before, t⟩ with
  | none =>
      cases t with
      | nil =>
          rw [hitsFrom, hitAt?, hend, commentsFrom_of_none]
          · simp
          · rw [nextComment?, Text.splitOnce?_nil hopener]
      | cons x xs =>
          rw [hitsFrom_of_end?_eq_none hend, commentsFrom_of_end?_eq_none hend]
          exact ih xs.length (by simp [← hlength]) (isCovered_add hlast _) rfl
  | some d =>
      obtain ⟨behind, inside, rest, ht, hclose, rfl⟩ := exists_of_end?_commentBetween hend
      have hnext : nextComment? opener closer t = some ([], inside, rest) := by
        rw [nextComment?, show t = opener ++ behind from ht, Text.splitOnce?_append]
        simp [hclose]
      obtain rfl : t = opener ++ inside ++ closer ++ rest := append_of_nextComment? hnext
      have hpos := List.length_pos_of_ne_nil hopener
      rw [commentsFrom_of_some hnext, Text.size_nil, Nat.add_zero,
        hitsFrom_of_end? (by simp [hopener]) hend hlast]
      refine congrArg _ (ih rest.length ?_ (by simp [isCovered]) rfl)
      rw [← hlength]
      simp only [List.length_append]
      omega

/-- A comment ends with the first closer behind its opener. -/
theorem exists_inside_of_mem_hits {h : Hit} (hmem : h ∈ (commentBetween opener closer).hits t) :
    ∃ inside, h.text = opener ++ inside ++ closer ∧
      ∀ a b, inside ++ closer = a ++ closer ++ b → b = [] := by
  obtain ⟨a, c, d, -, -, hend, hlead⟩ := exists_leads_of_mem_hits hmem
  obtain ⟨behind, inside, rest, hbehind, hclose, rfl⟩ := exists_of_end?_commentBetween hend
  obtain ⟨hinside, hfirst⟩ := Text.splitOnce?_spec hclose
  have hwhole : c.rest = opener ++ inside ++ closer ++ rest := by
    rw [hbehind, hinside]
    simp
  refine ⟨inside, List.append_cancel_right (hlead.1.symm.trans hwhole), fun a b hab => ?_⟩
  have hle := (hfirst a (b ++ rest) (by rw [hinside, hab]; simp)).length_le
  have hlength := congrArg List.length hab
  simp only [List.length_append] at hlength
  exact List.eq_nil_of_length_eq_zero (by omega)

/-- A comment that is not closed is no hit, and neither is anything behind its opener. -/
theorem start_lt_of_unclosed {a b : Text} (hnone : ¬ closer <:+: b) {h : Hit}
    (hmem : h ∈ (commentBetween opener closer).hits (a ++ opener ++ b)) :
    h.start < Text.size a := by
  by_contra hle
  obtain ⟨a', b', ht, hstart, -⟩ := exists_of_mem_hits hmem
  obtain ⟨inside, htext, -⟩ := exists_inside_of_mem_hits hmem
  rw [htext, List.append_assoc, List.append_assoc a'] at ht
  obtain ⟨m, -, hm⟩ := Text.exists_append_of_size_le ht (by omega)
  have hsuffix : closer ++ b' <:+ b := by
    apply List.suffix_of_suffix_length_le ⟨m ++ (opener ++ inside), ?_⟩ ⟨opener, hm⟩
    · have := congrArg List.length hm
      simp only [List.length_append] at this ⊢
      omega
    · simp
  exact hnone ((List.prefix_append closer b').isInfix.trans hsuffix.isInfix)

open Regex in
/-- Comments between an opener and a closer.  Both stand for themselves, whatever their
characters.  The hits are what is found by searching for the next opener, for the first closer
behind it, and so on from there.  They do not overlap; behind its opener a hit has the closer
at its end only, so that it takes in no further comment; and an opener without a closer behind
it starts none. -/
theorem comments_found_by_search (hopener : opener ≠ []) (closer t : Text) :
    ((commentBetween opener closer).source =
        escapeLiteral opener ++ "[\\s\\S]*?".toList ++ escapeLiteral closer ∧
      ReadsAs (escapeLiteral opener) opener ∧ ReadsAs (escapeLiteral closer) closer) ∧
    (commentBetween opener closer).hits t = commentsFrom hopener closer 0 t ∧
    ((commentBetween opener closer).hits t).Pairwise (·.stop ≤ ·.start) ∧
    (∀ h ∈ (commentBetween opener closer).hits t, ∃ inside,
      h.text = opener ++ inside ++ closer ∧
        ∀ a b, inside ++ closer = a ++ closer ++ b → b = []) ∧
    ∀ a b, t = a ++ opener ++ b → ¬ closer <:+: b →
      ∀ h ∈ (commentBetween opener closer).hits t, h.start < Text.size a := by
  refine ⟨⟨rfl, readsAs_escapeLiteral opener, readsAs_escapeLiteral closer⟩,
    hitsFrom_commentBetween rfl, pairwise_hits _ t, fun h hmem => exists_inside_of_mem_hits hmem,
    ?_⟩
  rintro a b rfl hnone h hmem
  exact start_lt_of_unclosed hnone hmem

/-- In `/*/ a */` the closer does not share its star with the opener, the comment behind it is
one of its own, and the last one is not closed. -/
theorem comments_found_by_search_stars :
    "/*".toList ≠ [] ∧
    blockComment.hits "/*/ a */b/* c */*/* d".toList =
      [⟨0, "/*/ a */".toList⟩, ⟨9, "/* c */".toList⟩] ∧
    (∀ h ∈ blockComment.hits "/*/ a */b/* c */*/* d".toList, h.start < 17) ∧
    ∀ hopener : "/*".toList ≠ [],
      commentsFrom hopener "*/".toList 0 "/*/ a */b/* c */*/* d".toList =
        [⟨0, "/*/ a */".toList⟩, ⟨9, "/* c */".toList⟩] := by
  have hopener : "/*".toList ≠ [] := by decide
  have hhits : blockComment.hits "/*/ a */b/* c */*/* d".toList =
      [⟨0, "/*/ a */".toList⟩, ⟨9, "/* c */".toList⟩] := by cbv
  obtain ⟨-, hsearch, -, -, hopen⟩ :=
    comments_found_by_search hopener "*/".toList "/*/ a */b/* c */*/* d".toList
  exact ⟨hopener, hhits, hopen "/*/ a */b/* c */*".toList " d".toList rfl (by decide),
    fun _ => hsearch.symm.trans hhits⟩

end Pattern
end LogPrune
