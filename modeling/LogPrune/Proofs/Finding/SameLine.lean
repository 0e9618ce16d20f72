import LogPrune.Clean
import LogPrune.Proofs.Finding.LineComment
import Mathlib

/-!
# LogPrune.Proofs.Finding.SameLine

Patterns for statements and comments that are to stay on one line: a word, or a
comment marker, then blanks and what stands on the rest of the line.

A newline is a blank, so the blanks may lead to another line.

1. Of the blanks behind a word as many are taken as something can follow
   (`exists_of_head?_spacedLine`).
2. A hit therefore stays on its line exactly when something else than blanks follows
   the word there, or nothing but empty lines follow the line
   (`hits_on_one_line_iff`).
3. A bare word takes in the line below it, and a bare comment marker makes a comment
   of the code below it (`bare_word_takes_next_line`).
-/

namespace LogPrune

/-! ## Empty lines -/

namespace Text

/-- Lines that are not all empty begin with newlines and a character that is none. -/
theorem exists_newlines_append {ls : List Text} (hlines : ∀ l ∈ ls, '\n' ∉ l)
    (h : ∃ l ∈ ls, l ≠ []) :
    ∃ newlines x rest, unlines ls = newlines ++ x :: rest ∧
      (∀ y ∈ newlines, y = '\n') ∧ x ≠ '\n' := by
  obtain ⟨l, hl, hne⟩ := h
  obtain ⟨x, hx⟩ := List.exists_mem_of_ne_nil l hne
  have hother : ∃ x ∈ unlines ls, ¬ decide (x = '\n') := by
    refine ⟨x, mem_glue hl hx, ?_⟩
    rw [decide_eq_true_iff]
    rintro rfl
    exact hlines l hl hx
  have hsplit := List.takeWhile_append_dropWhile (p := fun y => decide (y = '\n')) (l := unlines ls)
  cases hrest : (unlines ls).dropWhile (fun y => decide (y = '\n')) with
  | nil =>
      obtain ⟨y, hy, hnot⟩ := hother
      exact absurd (List.dropWhile_eq_nil_iff.1 hrest y hy) hnot
  | cons y rest =>
      have hy := List.head?_dropWhile_not (fun y => decide (y = '\n')) (unlines ls)
      rw [hrest] at hsplit hy
      refine ⟨_, y, rest, hsplit.symm, fun z hz => ?_, by simpa using hy⟩
      simpa using List.all_eq_true.1 List.all_takeWhile z hz

/-- Lines that are all empty hold no other character than newlines. -/
theorem eq_newline_of_mem_unlines {ls : List Text} (h : ∀ l ∈ ls, l = []) {x : Char}
    (hx : x ∈ unlines ls) : x = '\n' := by
  by_contra hne
  obtain ⟨l, hl, hxl⟩ := mem_of_mem_glue hx hne
  rw [h l hl] at hxl
  contradiction

/-- Blanks at the end of a line go on below it, up to a line that is not empty. -/
theorem exists_more_blanks {t line : Text} {below : List Text} (hlines : t.lines = line :: below)
    (hblanks : ∀ x ∈ line, isBlank x) (hbelow : ∃ l ∈ below, l ≠ []) :
    ∃ blanks x rest, t = blanks ++ x :: rest ∧ (∀ y ∈ blanks, isBlank y) ∧ x ≠ '\n' ∧
      size line < size blanks := by
  have hnot : ∀ l ∈ below, '\n' ∉ l := fun l hl =>
    not_mem_of_mem_lines (t := t) (hlines ▸ List.mem_cons_of_mem line hl)
  obtain ⟨newlines, x, rest, hrest, hnewlines, hx⟩ := exists_newlines_append hnot hbelow
  have hne : below ≠ [] := by
    obtain ⟨l, hl, -⟩ := hbelow
    exact List.ne_nil_of_mem hl
  obtain ⟨-, ht⟩ := (eq_of_lines_eq_cons hlines).resolve_left fun h => hne h.1
  refine ⟨line ++ '\n' :: newlines, x, rest, ?_, fun y hy => ?_, hx, ?_⟩
  · rw [ht, hrest]
    simp
  · rcases List.mem_append.1 hy with hy | hy
    · exact hblanks y hy
    · rcases List.mem_cons.1 hy with rfl | hy
      · rfl
      · rw [hnewlines y hy]
        rfl
  · have := Char.utf8Size_pos '\n'
    simp only [size_append, size_cons]
    omega

end Text

/-! ## The gap behind a word -/

namespace Cursor

/-- The places of a run lie one behind the other. -/
theorem pairwise_runFrom (s : Charset) (offset : Nat) (before : Option Char) (t : Text) :
    (runFrom s offset before t).Pairwise (·.offset < ·.offset) := by
  induction t generalizing offset before with
  | nil => exact List.pairwise_singleton ..
  | cons x xs ih =>
      refine List.pairwise_cons.2 ⟨fun d hd => ?_, ?_⟩
      · split at hd
        · obtain ⟨t, ⟨-, hoffset⟩, -⟩ := leads_of_mem_runFrom hd
          have := x.utf8Size_pos
          simp only at hoffset ⊢
          omega
        · contradiction
      · split
        · exact ih ..
        · exact .nil

/-- What follows a run follows the farthest of its places at which anything does. -/
theorem exists_farthest {s : Charset} {c d : Cursor} {behind : Cursor → List Cursor}
    (h : ((c.run s).tail.reverse.flatMap behind).head? = some d) :
    ∃ e ∈ (c.run s).tail, d ∈ behind e ∧
      ∀ e' ∈ (c.run s).tail, e.offset < e'.offset → behind e' = [] := by
  rw [List.head?_flatMap] at h
  obtain ⟨farther, e, nearer, hsplit, hd, hnone⟩ := List.findSome?_eq_some_iff.1 h
  have he : e ∈ (c.run s).tail := by
    rw [← List.mem_reverse, hsplit]
    simp
  refine ⟨e, he, List.mem_of_head? hd, fun e' he' hlt => ?_⟩
  have horder : ((c.run s).tail.reverse).Pairwise fun d e => e.offset < d.offset :=
    List.pairwise_reverse.2 ((pairwise_runFrom ..).tail)
  rw [← List.mem_reverse, hsplit] at he'
  rw [hsplit, List.pairwise_append, List.pairwise_cons] at horder
  rcases List.mem_append.1 he' with hmem | hmem
  · exact List.head?_eq_none_iff.1 (hnone e' hmem)
  · rcases List.mem_cons.1 hmem with rfl | hmem
    · exact absurd hlt (Nat.lt_irrefl _)
    · exact absurd hlt (Nat.lt_asymm (horder.2.1.1 e' hmem))

end Cursor

namespace Regex

/-- Of the blanks behind a word as many are taken as a character of the same line can
follow. -/
theorem exists_of_head?_spacedLine {c d : Cursor}
    (h : (spacedLine.ends ignoreCase c).head? = some d) :
    ∃ gap args, c.Leads (gap ++ args) d ∧ (∀ x ∈ gap, isBlank x) ∧ args ≠ [] ∧ '\n' ∉ args ∧
      ∀ blanks x rest, c.rest = blanks ++ x :: rest → blanks ≠ [] →
        (∀ y ∈ blanks, isBlank y) → x ≠ '\n' → Text.size blanks ≤ Text.size gap := by
  have hends : spacedLine.ends ignoreCase c = (c.run .blank).tail.reverse.flatMap
      (fun e => (e.run (.except ['\n'])).tail.reverse) := rfl
  rw [hends] at h
  obtain ⟨e, he, hd, hfarther⟩ := Cursor.exists_farthest h
  obtain ⟨gap, hgap, -, hblank⟩ := Cursor.leads_of_mem_tail_run he
  obtain ⟨args, hargs, hne, hline⟩ := Cursor.leads_of_mem_tail_run (List.mem_reverse.1 hd)
  refine ⟨gap, args, hgap.trans hargs, hblank, hne, fun hnew => ?_, ?_⟩
  · simpa [Charset.mem] using hline _ hnew
  intro blanks x rest hrest hblanks hall hx
  by_contra hlt
  -- behind more blanks stands a place that is farther, and there the rest matches
  have hplace := Cursor.mem_tail_run (s := .blank) hrest hblanks hall
  have hfar : e.offset < (c.after blanks (x :: rest)).offset := by
    show e.offset < c.offset + Text.size blanks
    rw [hgap.2]
    omega
  have hstep := Cursor.mem_tail_run (s := .except ['\n']) (c := c.after blanks (x :: rest))
    (t := [x]) rfl (by simp) (by simpa [Charset.mem] using hx)
  rw [List.reverse_eq_nil_iff.1 (hfarther _ hplace hfar)] at hstep
  contradiction

end Regex

/-! ## Hits -/

/-- The parts of a hit and the line on which it begins: a word, the blanks behind it
and what follows them, with what stands around the word on its line. -/
structure Hit.Parts (content : Text) (h : Hit) (word gap args left behind : Text)
    (above below : List Text) : Prop where
  lines_eq : content.lines = above ++ (left ++ word ++ behind) :: below
  start_eq : h.start = Text.size (Text.terminated above ++ left)
  text_eq : h.text = word ++ gap ++ args
  newline_not_mem_word : '\n' ∉ word
  isBlank_gap : ∀ x ∈ gap, isBlank x
  args_ne_nil : args ≠ []
  newline_not_mem_args : '\n' ∉ args

namespace Hit.Parts

variable {content word gap args left behind rest : Text} {above below : List Text} {h : Hit}

/-- A hit stays on its line unless its blanks do not. -/
theorem newline_mem_iff (hp : h.Parts content word gap args left behind above below) :
    '\n' ∈ h.text ↔ '\n' ∈ gap := by
  rw [hp.text_eq, List.mem_append, List.mem_append]
  simp [hp.newline_not_mem_word, hp.newline_not_mem_args]

/-- Blanks that lead to another line are all that follows the word on its own line, and
the lines below are not all empty. -/
theorem of_newline_mem_gap (hp : h.Parts content word gap args left behind above below)
    (hb : Text.lines (gap ++ args ++ rest) = behind :: below) (hnew : '\n' ∈ gap) :
    (∀ x ∈ behind, isBlank x) ∧ ∃ l ∈ below, l ≠ [] := by
  obtain ⟨first, more, rfl, hfirst⟩ := List.eq_append_cons_of_mem hnew
  rw [List.append_assoc, List.append_assoc, List.cons_append,
    Text.lines_append_newline hfirst] at hb
  obtain ⟨rfl, rfl⟩ := List.cons.inj hb
  refine ⟨fun x hx => hp.isBlank_gap x (List.mem_append_left _ hx), ?_⟩
  by_contra hempty
  obtain ⟨x, hx⟩ := List.exists_mem_of_ne_nil args hp.args_ne_nil
  have hmem : x ∈ Text.unlines (Text.lines (more ++ (args ++ rest))) := by
    rw [Text.unlines_lines]
    simp [hx]
  obtain rfl := Text.eq_newline_of_mem_unlines (by simpa using hempty) hmem
  exact hp.newline_not_mem_args hx

/-- Blanks on the line of the word are the beginning of what follows the word there. -/
theorem of_newline_not_mem_gap (hp : h.Parts content word gap args left behind above below)
    (hb : Text.lines (gap ++ args ++ rest) = behind :: below) (hnew : '\n' ∉ gap) :
    gap ++ args <+: behind := by
  obtain ⟨right, more, hrest⟩ := Text.exists_lines_eq_cons rest
  have hline : '\n' ∉ gap ++ args := by
    rw [List.mem_append]
    exact fun h => h.elim hnew hp.newline_not_mem_args
  rw [Text.lines_append_of_not_mem hline hrest] at hb
  exact ⟨right, (List.cons.inj hb).1⟩

/-- A hit at the beginning of a text begins on its first line. -/
theorem lines_eq_of_start_eq_zero (hp : h.Parts content word gap args left behind above below)
    (hstart : h.start = 0) : content.lines = (word ++ behind) :: below := by
  have hnil := Text.eq_nil_of_size_eq_zero (hp.start_eq.symm.trans hstart)
  obtain ⟨habove, rfl⟩ := List.append_eq_nil_iff.1 hnil
  cases above with
  | nil => exact hp.lines_eq
  | cons l ls => simp at habove

end Hit.Parts

namespace Pattern

open Regex

/-- The word with which a hit begins stands on one line. -/
theorem exists_parts_of_append {content a word gap args : Text} {h : Hit} (rest : Text)
    (hcontent : content = a ++ (word ++ (gap ++ args ++ rest))) (hstart : h.start = Text.size a)
    (htext : h.text = word ++ gap ++ args) (hword : '\n' ∉ word) (hgap : ∀ x ∈ gap, isBlank x)
    (hargs : args ≠ []) (hline : '\n' ∉ args) :
    ∃ left behind above below, h.Parts content word gap args left behind above below ∧
      Text.lines (gap ++ args ++ rest) = behind :: below := by
  obtain ⟨above, left, ha⟩ := Text.exists_lines_eq_append a
  obtain ⟨behind, below, hb⟩ := Text.exists_lines_eq_cons (gap ++ args ++ rest)
  refine ⟨left, behind, above, below, ⟨?_, ?_, htext, hword, hgap, hargs, hline⟩, hb⟩
  · rw [hcontent, Text.lines_append ha (Text.lines_append_of_not_mem hword hb), List.append_assoc]
  · rw [hstart, Text.eq_of_lines_eq_append ha]

/-- A hit of a word with an argument stays on its line exactly when something else than
blanks follows the word there, or nothing but empty lines follow the line. -/
theorem exists_parts_of_mem_hits {p : Pattern} {word : Regex} (hp : p.body = word ++ spacedLine)
    (hword : ∀ t, word.Spells p.ignoreCase t → '\n' ∉ t) {content : Text} {h : Hit}
    (hmem : h ∈ p.hits content) :
    ∃ w gap args left behind above below, word.Spells p.ignoreCase w ∧
      h.Parts content w gap args left behind above below ∧
      ('\n' ∉ h.text ↔ (∃ x ∈ behind, isBlank x = false) ∨ ∀ l ∈ below, l = []) := by
  obtain ⟨a, c, d, hcontent, hstart, hend, hlead⟩ := exists_leads_of_mem_hits hmem
  have hends : (p.body.ends p.ignoreCase c).head? =
      (word.ends p.ignoreCase c).findSome? fun e => (spacedLine.ends p.ignoreCase e).head? := by
    rw [hp]
    exact List.head?_flatMap
  rw [end?_eq_head?, hends] at hend
  obtain ⟨e, he, hd⟩ := List.exists_of_findSome?_eq_some hend
  obtain ⟨w, hw, hspell⟩ := spells_of_mem_ends he
  obtain ⟨gap, args, hlead', hgap, hargs, hline, hlongest⟩ := exists_of_head?_spacedLine hd
  have htext : h.text = w ++ gap ++ args := by
    rw [List.append_assoc]
    exact hlead.unique (hw.trans hlead')
  obtain ⟨left, behind, above, below, hparts, hb⟩ := exists_parts_of_append d.rest
    (hcontent.trans (by rw [hw.1, hlead'.1])) hstart htext (hword w hspell) hgap hargs hline
  refine ⟨w, gap, args, left, behind, above, below, hspell, hparts, ?_⟩
  rw [hparts.newline_mem_iff]
  constructor
  · intro hnew
    by_contra hbare
    obtain ⟨hblanks, hbelow⟩ : (∀ x ∈ behind, isBlank x) ∧ ∃ l ∈ below, l ≠ [] := by
      simpa using hbare
    -- then more blanks could be taken
    obtain ⟨blanks, x, rest, hrest, hall, hx, hmore⟩ := Text.exists_more_blanks hb hblanks hbelow
    have hne : blanks ≠ [] := by
      rintro rfl
      simp at hmore
    have hle := hlongest blanks x rest (hlead'.1.trans hrest) hne hall hx
    obtain ⟨right, rfl⟩ := hparts.of_newline_not_mem_gap hb hnew
    simp only [Text.size_append] at hmore
    omega
  · intro hthere hnew
    obtain ⟨hblanks, l, hl, hne⟩ := hparts.of_newline_mem_gap hb hnew
    rcases hthere with ⟨x, hx, hsolid⟩ | hempty
    · rw [hblanks x hx] at hsolid
      contradiction
    · exact hne (hempty l hl)

/-- A hit of a line comment with a call stays on its line exactly when something else than
blanks follows the marker there. -/
theorem exists_parts_of_mem_hits_commentedCall {marker : Text} (hmarker : '\n' ∉ marker)
    {content : Text} {h : Hit} (hmem : h ∈ (commentedCall marker).hits content) :
    ∃ gap args left behind above below,
      h.Parts content marker gap args left behind above below ∧
      ('\n' ∉ h.text ↔ ∃ x ∈ behind, isBlank x = false) := by
  obtain ⟨a, c, d, hcontent, hstart, hend, hlead⟩ := exists_leads_of_mem_hits hmem
  obtain ⟨-, t, hlead', hspell⟩ := leads_of_end?_commentedCall hend
  obtain rfl : t = h.text := hlead'.unique hlead
  obtain ⟨gap, call, rest, htext, hgap, hcall, hrest⟩ := spells_commentedLine_iff.1 hspell
  obtain ⟨hcall, x, xs, rfl, hx, -⟩ := call_spec hcall
  have htext : h.text = marker ++ gap ++ (x :: xs ++ rest) := by rw [htext, List.append_assoc]
  obtain ⟨left, behind, above, below, hparts, hb⟩ := exists_parts_of_append d.rest
    (hcontent.trans (by rw [hlead.1, htext]; simp)) hstart htext hmarker hgap
    (List.cons_ne_nil x _) (by
      rw [List.mem_append]
      exact fun h => h.elim hcall hrest)
  refine ⟨gap, x :: xs ++ rest, left, behind, above, below, hparts, ?_⟩
  rw [hparts.newline_mem_iff]
  constructor
  · intro hnew
    obtain ⟨right, rfl⟩ := hparts.of_newline_not_mem_gap hb hnew
    exact ⟨x, by simp, hx⟩
  · rintro ⟨y, hy, hsolid⟩ hnew
    rw [(hparts.of_newline_mem_gap hb hnew).1 y hy] at hsolid
    contradiction

/-- A character with which none of a literal agrees is not in what the literal stands for. -/
theorem not_mem_of_agrees {s t : Text} {y : Char} {folds : Bool}
    (h : List.Forall₂ (agrees folds) s t) (hs : ∀ x ∈ s, ¬ agrees true x y) : y ∉ t := by
  induction h with
  | nil => exact List.not_mem_nil
  | @cons x z xs zs hxz _ ih =>
      refine List.not_mem_cons_of_ne_of_not_mem ?_ (ih fun w hw => hs w (List.mem_cons_of_mem x hw))
      rintro rfl
      exact hs x List.mem_cons_self (hxz.imp_right fun hfold => ⟨rfl, hfold.2⟩)

/-- The patterns of statements on one line, with the words that they begin with. -/
def lineStatements : List (Pattern × List String) :=
  [(rubyPuts, ["puts", "print", "p"]), (shellEcho, ["echo"]),
   (sqlPrint, ["PRINT", "RAISERROR"])]

end Pattern

open Pattern Regex in
/-- Hits of the statements and comments that are to stay on one line.  A hit of a statement
does so exactly when something else than blanks follows its word there, or nothing but empty
lines follow the line; one of a comment, exactly when something else than blanks follows its
marker. -/
theorem hits_on_one_line_iff (content : Text) :
    (∀ s ∈ lineStatements, ∀ h ∈ s.1.hits content,
      ∃ word gap args left behind above below, (oneOf s.2).Spells s.1.ignoreCase word ∧
        h.Parts content word gap args left behind above below ∧
        ('\n' ∉ h.text ↔ (∃ x ∈ behind, isBlank x = false) ∨ ∀ l ∈ below, l = [])) ∧
    ∀ marker : Text, marker ≠ [] → '\n' ∉ marker → ∀ h ∈ (commentedCall marker).hits content,
      ∃ gap args left behind above below,
        h.Parts content marker gap args left behind above below ∧
        ('\n' ∉ h.text ↔ ∃ x ∈ behind, isBlank x = false) := by
  refine ⟨fun s hs h hmem => ?_, fun marker _ hmarker h hmem =>
    exists_parts_of_mem_hits_commentedCall hmarker hmem⟩
  have hwords : ∀ s ∈ lineStatements, s.2 ≠ [] ∧ ∀ w ∈ s.2, ∀ x ∈ w.toList,
      ¬ agrees true x '\n' := by simp [lineStatements, agrees, foldCase]
  have hline : ∀ t, (oneOf s.2).Spells s.1.ignoreCase t → '\n' ∉ t := fun t ht => by
    obtain ⟨hne, hnot⟩ := hwords s hs
    obtain ⟨w, hw, hagree⟩ := exists_of_spells_oneOf hne ht
    exact not_mem_of_agrees hagree (hnot w hw)
  simp only [lineStatements, List.mem_cons, List.not_mem_nil, or_false] at hs
  rcases hs with rfl | rfl | rfl
  · -- the word edge is no part of the word
    have hedge : ∀ t, (wordEdge ++ group (oneOf ["puts", "print", "p"])).Spells false t ↔
        (oneOf ["puts", "print", "p"]).Spells false t := by
      intro t
      constructor
      · rintro ⟨_, _, rfl, rfl, h⟩
        exact h
      · exact fun h => ⟨[], t, rfl, rfl, h⟩
    obtain ⟨word, gap, args, left, behind, above, below, hword, hparts⟩ :=
      exists_parts_of_mem_hits (p := rubyPuts) rfl (fun t ht => hline t ((hedge t).1 ht)) hmem
    exact ⟨word, gap, args, left, behind, above, below, (hedge word).1 hword, hparts⟩
  · exact exists_parts_of_mem_hits (p := shellEcho) rfl hline hmem
  · have hbody : sqlPrint.body = .group (oneOf ["PRINT", "RAISERROR"]) ++ spacedLine := rfl
    exact exists_parts_of_mem_hits hbody hline hmem

open Pattern in
/-- A bare word above empty lines, and a comment with blanks behind its marker. -/
theorem hits_on_one_line_iff_bare :
    (∃ h ∈ rubyPuts.hits "puts  \n\n".toList, h.start = 0 ∧ '\n' ∉ h.text) ∧
    ∃ h ∈ (commentedCall "#".toList).hits "# \techo 1\nrun".toList, '\n' ∉ h.text := by
  have hputs : rubyPuts.hits "puts  \n\n".toList = [⟨0, "puts  ".toList⟩] := by cbv
  have hecho : (commentedCall "#".toList).hits "# \techo 1\nrun".toList =
      [⟨0, "# \techo 1".toList⟩] := by cbv
  refine ⟨⟨⟨0, "puts  ".toList⟩, by rw [hputs]; exact List.mem_singleton.2 rfl, rfl, ?_⟩,
    ⟨0, "# \techo 1".toList⟩, by rw [hecho]; exact List.mem_singleton.2 rfl, ?_⟩
  · obtain ⟨word, gap, args, left, behind, above, below, -, hparts, hiff⟩ :=
      (hits_on_one_line_iff "puts  \n\n".toList).1 (rubyPuts, ["puts", "print", "p"])
        List.mem_cons_self ⟨0, "puts  ".toList⟩ (by rw [hputs]; exact List.mem_singleton.2 rfl)
    obtain ⟨-, hbelow⟩ := List.cons.inj (hparts.lines_eq_of_start_eq_zero rfl)
    exact hiff.2 (.inr (hbelow ▸ by decide))
  · obtain ⟨gap, args, left, behind, above, below, hparts, hiff⟩ :=
      (hits_on_one_line_iff "# \techo 1\nrun".toList).2 "#".toList (by decide) (by decide)
        ⟨0, "# \techo 1".toList⟩ (by rw [hecho]; exact List.mem_singleton.2 rfl)
    obtain ⟨hbehind, -⟩ := List.cons.inj (hparts.lines_eq_of_start_eq_zero rfl)
    obtain rfl := List.append_cancel_left
      (show "#".toList ++ " \techo 1".toList = "#".toList ++ behind from hbehind)
    exact hiff.2 ⟨'e', by decide, by decide⟩

open Pattern in
/-- A bare `echo` takes in the line below it and is removed with it; a comment marker above a
call makes a comment of the call, which then is not commented out. -/
theorem bare_word_takes_next_line :
    (∃ h ∈ shellEcho.hits "echo\nrun".toList, '\n' ∈ h.text) ∧
    (∃ h ∈ (commentedCall "//".toList).hits "//\nconsole.log(1);".toList, '\n' ∈ h.text) ∧
    (∃ cleaned, clean? "echo\nrun".toList "shellscript" { mode := .delete } = some cleaned ∧
      cleaned.newContent = []) ∧
    ∃ cleaned,
      clean? "//\nconsole.log(1);".toList "javascript" { mode := .comment } = some cleaned ∧
      cleaned.newContent = "//\nconsole.log(1);".toList ∧ cleaned.commented = 0 := by
  have hecho : shellEcho.hits "echo\nrun".toList = [⟨0, "echo\nrun".toList⟩] := by cbv
  have hcall : (commentedCall "//".toList).hits "//\nconsole.log(1);".toList =
      [⟨0, "//\nconsole.log(1);".toList⟩] := by cbv
  have hdelete : clean? "echo\nrun".toList "shellscript" { mode := .delete } = some
      { newContent := []
        findings := [
          { text := "echo\nrun".toList, startLine := 0, endLine := 1, startChar := 0,
            endChar := 3, description := "Shell echo statements", priority := 10,
            keep := false }]
        kept := 0, removed := 1, commented := 0 } := by cbv
  have hcomment : clean? "//\nconsole.log(1);".toList "javascript" { mode := .comment } = some
      { newContent := "//\nconsole.log(1);".toList
        findings := [
          { text := "//\nconsole.log(1);".toList, startLine := 0, endLine := 1, startChar := 0,
            endChar := 15, description := "Single-line commented console statements",
            priority := 8, keep := false }]
        kept := 0, removed := 0, commented := 0 } := by cbv
  refine ⟨⟨_, by rw [hecho]; exact List.mem_singleton.2 rfl, by decide⟩,
    ⟨_, by rw [hcall]; exact List.mem_singleton.2 rfl, by decide⟩,
    ⟨_, hdelete, rfl⟩, _, hcomment, rfl, rfl⟩

end LogPrune
