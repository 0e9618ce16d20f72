import LogPrune.Proofs.Clean.Remnant
import Mathlib.Data.List.Nodup

/-!
# LogPrune.Proofs.Clean.Delete

Removing findings one by one, from the last one up, against removing all of
them at once.

A finding is removed by the numbers that its lines had at first.  They still
hold, except that the line on which it ends may be gone already, taken by a
finding that starts there; its number then stands for the next line of which
something is left, and that line is edited as well.  `erased?` follows what
becomes of each line by its number, this slip included, and the lines that are
left are those (`Orderly.eraseAll_eq`).

A line that such a slip changes is a stray.
-/

namespace LogPrune
namespace Finding

variable {f : Finding} {fs gs : List Finding} {lines above below : List Text} {line : Text}
  {i : Nat}

/-! ## Removing one finding -/

/-- Removing a finding from a line changes it only by making it smaller. -/
theorem size_lt_of_strip? {rest : Text} (htext : f.text ≠ []) (h : f.strip? line = some rest) :
    rest = line ∨ Text.size rest < Text.size line := by
  rw [strip?] at h
  split at h
  · contradiction
  · obtain rfl := Option.some.inj h
    by_cases hsame : f.cutFrom line = line
    · exact .inl hsame
    · exact .inr (size_cutFrom_lt htext hsame)

/-- A finding on one line is removed from the line with its number. -/
theorem eraseInLine_append (h : above.length = f.startLine) :
    f.eraseInLine (above ++ line :: below) = above ++ (f.strip? line).toList ++ below := by
  have hget : (above ++ line :: below)[f.startLine]? = some line := by simp [← h]
  have herase : (above ++ line :: below).eraseIdx f.startLine = above ++ below := by
    rw [← h, List.eraseIdx_append_of_length_le (Nat.le_refl _)]
    simp
  rw [eraseInLine, hget, strip?]
  by_cases hfills : f.fills line
  · simp [hfills, herase]
  · by_cases hleft : isLeftover (f.cutFrom line)
    · simp [hfills, hleft, herase]
    · simp [hfills, hleft, ← h]

theorem eraseInLine_of_length_le (h : lines.length ≤ f.startLine) : f.eraseInLine lines = lines := by
  rw [eraseInLine, List.getElem?_eq_none h]

/-- A finding over several lines takes them with it. -/
theorem eraseLines_append {covered : List Text} (habove : above.length = f.startLine)
    (hcovered : above.length + covered.length = f.endLine + 1) (hne : covered ≠ []) :
    f.eraseLines (above ++ covered ++ below) = above ++ below := by
  have hpos := List.length_pos_of_ne_nil hne
  have hlen : (above ++ covered ++ below).length =
      above.length + covered.length + below.length := by simp; omega
  rw [eraseLines, if_pos (by omega)]
  have htake : (above ++ covered ++ below).take f.startLine = above := by
    rw [List.append_assoc, ← habove, List.take_left]
  have hdrop : min f.endLine ((above ++ covered ++ below).length - 1) + 1 =
      (above ++ covered).length := by
    rw [hlen, List.length_append]; omega
  rw [htake, hdrop, List.drop_left]

/-- Where fewer lines are left, it takes what there is. -/
theorem eraseLines_append_of_le {covered : List Text} (habove : above.length = f.startLine)
    (hcovered : above.length + covered.length ≤ f.endLine + 1) (hne : covered ≠ []) :
    f.eraseLines (above ++ covered) = above := by
  have hpos := List.length_pos_of_ne_nil hne
  have hlen : (above ++ covered).length = above.length + covered.length := by simp
  rw [eraseLines, if_pos (by omega), ← habove, List.take_left,
    List.drop_eq_nil_of_le (by omega), List.append_nil]

/-! ## Lines by their numbers -/

/-- The numbers of the lines below another one. -/
def numbersBelow (count i : Nat) : List Nat := List.range' (i + 1) (count - (i + 1))

/-- The first line below another one of which something is left. -/
def nextLeft? (left : Nat → Option Text) (count i : Nat) : Option Nat :=
  (numbersBelow count i).find? fun j => (left j).isSome

/-- Whether the removal of a finding edits a line, given what is left of each:
a line that the finding covers, or, when the one it ends on is gone, the next
one below. -/
def reaches (f : Finding) (left : Nat → Option Text) (count i : Nat) : Bool :=
  f.covers i || ((left f.endLine).isNone && nextLeft? left count f.endLine = some i)

/-- What the removal of a finding leaves of a line that it edits. -/
def edit? (f : Finding) (line : Text) : Option Text := if f.onOneLine then f.strip? line else none

/-- What removing findings one by one leaves of the line with a number. -/
def erased? (lines : List Text) : List Finding → Nat → Option Text
  | [], i => lines[i]?
  | f :: gs, i =>
    if f.reaches (erased? lines gs) lines.length i then (erased? lines gs i).bind f.edit?
    else erased? lines gs i

/-- Whether the removal of one of some findings changes a line that it does not
stand on. -/
def Stray (lines : List Text) : List Finding → Nat → Prop
  | [], _ => False
  | f :: gs, i =>
    (f.covers i = false ∧ erased? lines (f :: gs) i ≠ erased? lines gs i) ∨ Stray lines gs i

instance decidableStray (lines : List Text) :
    (fs : List Finding) → (i : Nat) → Decidable (Stray lines fs i)
  | [], _ => inferInstanceAs (Decidable False)
  | _ :: gs, i =>
    have := decidableStray lines gs i
    inferInstanceAs (Decidable (_ ∨ Stray lines gs i))

theorem nodup_numbersBelow (count i : Nat) : (numbersBelow count i).Nodup :=
  List.nodup_range' ..

theorem covers_of_le (hs : f.startLine ≤ i) (he : i ≤ f.endLine) : f.covers i := by
  simp [covers, hs, he]

/-- The places of a finding lie on its lines. -/
theorem covers_of_noLater {q : Nat × Nat} (hs : Text.NoLater f.startPlace q)
    (he : ¬ Text.NoLater f.endPlace q) : f.covers q.1 := by
  simp only [Text.NoLater, startPlace, endPlace] at hs he
  exact covers_of_le (by omega) (by omega)

theorem not_covers_of_lt (h : i < f.startLine) : f.covers i = false := by
  simp only [covers, Bool.and_eq_false_iff, decide_eq_false_iff_not]
  omega

theorem not_covers_of_gt (h : f.endLine < i) : f.covers i = false := by
  simp only [covers, Bool.and_eq_false_iff, decide_eq_false_iff_not]
  omega

theorem lt_of_nextLeft? {left : Nat → Option Text} {count j : Nat}
    (h : nextLeft? left count i = some j) : i < j := by
  have := List.mem_range'_1.1 (List.mem_of_find?_eq_some h)
  omega

/-- A line that a finding covers is edited. -/
theorem erased?_cons_of_covers (h : f.covers i) :
    erased? lines (f :: gs) i = (erased? lines gs i).bind f.edit? := by
  rw [erased?, if_pos (by simp [reaches, h])]

/-- A line that a finding does not cover is edited only if it is the next one
left. -/
theorem erased?_cons_of_not_covers (h : f.covers i = false)
    (hnext : erased? lines gs f.endLine = none →
      nextLeft? (erased? lines gs) lines.length f.endLine ≠ some i) :
    erased? lines (f :: gs) i = erased? lines gs i := by
  rw [erased?, if_neg]
  simp only [reaches, h, Bool.false_or, Bool.and_eq_true, Option.isNone_iff_eq_none,
    decide_eq_true_eq]
  exact fun hr => hnext hr.1 hr.2

/-- Lines above a finding are not edited. -/
theorem erased?_cons_of_lt (h : i < f.startLine) (hle : f.startLine ≤ f.endLine) :
    erased? lines (f :: gs) i = erased? lines gs i :=
  erased?_cons_of_not_covers (not_covers_of_lt h) fun _ hnext => by
    have := lt_of_nextLeft? hnext
    omega

theorem erased?_above {fs : List Finding} (h : ∀ f ∈ fs, i < f.startLine ∧ f.startLine ≤ f.endLine) :
    erased? lines fs i = lines[i]? := by
  induction fs with
  | nil => rfl
  | cons f gs ih =>
      obtain ⟨hlt, hle⟩ := h f List.mem_cons_self
      rw [erased?_cons_of_lt hlt hle, ih fun g hg => h g (List.mem_cons_of_mem _ hg)]

/-! ## The lines that are left -/

/-- What all findings of a text have in common, and their order. -/
structure Orderly (lines : List Text) (fs : List Finding) : Prop where
  noNewline : ∀ l ∈ lines, '\n' ∉ l
  fits : ∀ f ∈ fs, f.FitsIn lines
  before : fs.Pairwise Before
  code : ∀ f ∈ fs, ∃ x ∈ f.text, isCode x

theorem Orderly.tail (h : Orderly lines (f :: fs)) : Orderly lines fs where
  noNewline := h.noNewline
  fits g hg := h.fits g (List.mem_cons_of_mem _ hg)
  before := (List.pairwise_cons.1 h.before).2
  code g hg := h.code g (List.mem_cons_of_mem _ hg)

theorem Orderly.text_ne_nil (h : Orderly lines fs) (hf : f ∈ fs) : f.text ≠ [] := by
  obtain ⟨x, hx, -⟩ := h.code f hf
  exact List.ne_nil_of_mem hx

/-- The numbers up to a line, the line, and the numbers below it. -/
theorem filterMap_range_split {left : Nat → Option Text} {count k : Nat} (hk : k < count) :
    (List.range count).filterMap left = (List.range k).filterMap left ++ (left k).toList ++
      (numbersBelow count k).filterMap left := by
  have hrange : List.range count = List.range k ++ k :: numbersBelow count k := by
    have hsplit := @List.range'_append_1 0 k (count - (k + 1) + 1)
    rw [Nat.zero_add, show k + (count - (k + 1) + 1) = count by omega] at hsplit
    rw [numbersBelow, List.range_eq_range', List.range_eq_range', ← List.range'_succ, hsplit]
  rw [hrange, List.filterMap_append, List.filterMap_cons]
  cases left k <;> simp

/-- Lines of which everything is left. -/
theorem filterMap_range_eq_take {left : Nat → Option Text} {k : Nat} (hk : k ≤ lines.length)
    (h : ∀ i < k, left i = lines[i]?) : (List.range k).filterMap left = lines.take k := by
  induction k with
  | zero => rfl
  | succ k ih =>
      rw [List.range_succ, List.filterMap_append, ih (by omega) fun i hi => h i (by omega),
        List.take_add_one, ← h k (by omega)]
      cases hleft : left k <;> simp [hleft]

/-- Lines of which nothing is left, below others. -/
theorem filterMap_range_of_none {left : Nat → Option Text} {j k : Nat} (hjk : j ≤ k)
    (h : ∀ i, j ≤ i → i < k → left i = none) :
    (List.range k).filterMap left = (List.range j).filterMap left := by
  induction k with
  | zero => rw [Nat.le_zero.1 hjk]
  | succ k ih =>
      rcases Nat.lt_or_ge k j with hlt | hge
      · rw [show j = k + 1 by omega]
      · rw [List.range_succ, List.filterMap_append, ih hge fun i h1 h2 => h i h1 (by omega),
          List.filterMap_cons_none (h k hge (Nat.lt_succ_self k)), List.filterMap_nil,
          List.append_nil]

/-- Editing the first line of which something is left. -/
theorem filterMap_update {left : Nat → Option Text} {numbers : List Nat} {rest : List Text}
    (hnodup : numbers.Nodup) (h : numbers.filterMap left = line :: rest) :
    ∃ j, numbers.find? (fun j => (left j).isSome) = some j ∧ left j = some line ∧
      ∀ left' : Nat → Option Text, (∀ i ∈ numbers, i ≠ j → left' i = left i) →
        numbers.filterMap left' = (left' j).toList ++ rest := by
  obtain ⟨before, j, after, rfl, hnone, hj, rfl⟩ := List.filterMap_eq_cons_iff.1 h
  refine ⟨j, ?_, hj, fun left' hsame => ?_⟩
  · rw [List.find?_eq_some_iff_append]
    exact ⟨by simp [hj], before, after, rfl, fun i hi => by simp [hnone i hi]⟩
  · rw [List.nodup_middle, List.nodup_cons] at hnodup
    have hbefore : before.filterMap left' = [] := by
      rw [List.filterMap_eq_nil_iff]
      intro i hi
      rw [hsame i (by simp [hi]) (fun h => hnodup.1 (by simp [← h, hi])), hnone i hi]
    have hafter : after.filterMap left' = after.filterMap left :=
      List.filterMap_congr fun i hi =>
        hsame i (by simp [hi]) fun h => hnodup.1 (by simp [← h, hi])
    rw [List.filterMap_append, hbefore, List.filterMap_cons, hafter]
    cases left' j <;> simp

/-- What the removal of a finding makes of the lines below it. -/
theorem filterMap_below (f : Finding) (gs : List Finding) (lines : List Text) :
    (numbersBelow lines.length f.endLine).filterMap (erased? lines (f :: gs)) =
      match erased? lines gs f.endLine,
          (numbersBelow lines.length f.endLine).filterMap (erased? lines gs) with
      | none, next :: rest => (f.edit? next).toList ++ rest
      | _, rest => rest := by
  have hcovers : ∀ i ∈ numbersBelow lines.length f.endLine, f.covers i = false := by
    intro i hi
    have := List.mem_range'_1.1 hi
    exact not_covers_of_gt (by omega)
  cases hend : erased? lines gs f.endLine with
  | some line =>
      apply List.filterMap_congr
      intro i hi
      exact erased?_cons_of_not_covers (hcovers i hi) (by simp [hend])
  | none =>
      cases hrest : (numbersBelow lines.length f.endLine).filterMap (erased? lines gs) with
      | nil =>
          rw [List.filterMap_eq_nil_iff] at hrest ⊢
          intro i hi
          rw [erased?, hrest i hi]
          split <;> rfl
      | cons next rest =>
          obtain ⟨j, hfind, hj, hupdate⟩ := filterMap_update (nodup_numbersBelow ..) hrest
          have hreaches : f.reaches (erased? lines gs) lines.length j := by
            simp only [reaches, hend, Option.isNone_none, Bool.true_and, Bool.or_eq_true,
              decide_eq_true_eq]
            exact .inr hfind
          have hedit : erased? lines (f :: gs) j = f.edit? next := by
            rw [erased?, if_pos hreaches, hj, Option.bind_some]
          rw [hupdate (erased? lines (f :: gs)) ?_, hedit]
          intro i hi hne
          refine erased?_cons_of_not_covers (hcovers i hi) fun _ hnext => hne ?_
          rw [nextLeft?] at hnext
          exact Option.some.inj (hnext.symm.trans hfind)

theorem eraseAll_cons (f : Finding) (gs : List Finding) (lines : List Text) :
    eraseAll (f :: gs) lines = f.erase (eraseAll gs lines) := by
  simp [eraseAll]

/-- Removing a finding on one line from lines of which those above it are all
there. -/
theorem eraseInLine_left {rest : Option Text} (habove : above.length = f.startLine) :
    f.eraseInLine (above ++ rest.toList ++ below) =
      above ++ (rest.bind f.strip?).toList ++
        match rest, below with
        | none, next :: below => (f.strip? next).toList ++ below
        | _, below => below := by
  cases rest with
  | some rest =>
      rw [Option.toList_some, List.append_assoc, List.singleton_append, eraseInLine_append habove,
        Option.bind_some]
  | none =>
      rw [Option.toList_none, List.append_nil, Option.bind_none, Option.toList_none,
        List.append_nil]
      cases below with
      | nil => rw [eraseInLine_of_length_le (by simp [habove])]
      | cons next below => rw [eraseInLine_append habove, List.append_assoc]

/-- Removing a finding over several lines, of which all but the last one are
there. -/
theorem eraseLines_left {covered : List Text} {rest : Option Text}
    (habove : above.length = f.startLine) (hcovered : above.length + covered.length = f.endLine)
    (hne : covered ≠ []) :
    f.eraseLines (above ++ covered ++ rest.toList ++ below) =
      above ++ match rest, below with
        | none, _ :: below => below
        | _, below => below := by
  cases rest with
  | some rest =>
      rw [Option.toList_some, List.append_assoc above, eraseLines_append habove _ (by simp)]
      simp only [List.length_append, List.length_singleton]
      omega
  | none =>
      rw [Option.toList_none, List.append_nil]
      cases below with
      | nil =>
          rw [List.append_nil, List.append_nil, eraseLines_append_of_le habove (by omega) hne]
      | cons next below =>
          rw [show above ++ covered ++ next :: below = above ++ (covered ++ [next]) ++ below by simp,
            eraseLines_append habove _ (by simp)]
          simp only [List.length_append, List.length_singleton]
          omega

/-- Of the line of a finding on one line, what stands around the finding is left, and the
lines above stay. -/
theorem filterMap_erased?_onLine (hone : f.onOneLine) (hinside : f.endLine < lines.length)
    (habove : ∀ i < f.startLine, erased? lines (f :: gs) i = lines[i]?) :
    (List.range lines.length).filterMap (erased? lines (f :: gs)) =
      lines.take f.startLine ++ ((erased? lines gs f.endLine).bind f.strip?).toList ++
        (numbersBelow lines.length f.endLine).filterMap (erased? lines (f :: gs)) := by
  have hon : f.startLine = f.endLine := by simpa [onOneLine] using hone
  have hedit : f.edit? = f.strip? := by funext line; rw [edit?, if_pos hone]
  rw [filterMap_range_split hinside,
    erased?_cons_of_covers (covers_of_le (by omega) (Nat.le_refl _)), hedit, ← hon,
    filterMap_range_eq_take (by omega) habove]

/-- Of the lines of a finding over several ones nothing is left, and the lines above
stay. -/
theorem filterMap_erased?_covered (hone : f.onOneLine = false) (hle : f.startLine ≤ f.endLine)
    (hinside : f.endLine < lines.length)
    (habove : ∀ i < f.startLine, erased? lines (f :: gs) i = lines[i]?) :
    (List.range lines.length).filterMap (erased? lines (f :: gs)) =
      lines.take f.startLine ++
        (numbersBelow lines.length f.endLine).filterMap (erased? lines (f :: gs)) := by
  have hedit : f.edit? = fun _ => none := by funext line; rw [edit?, if_neg (by simp [hone])]
  have hgone : ∀ i, f.startLine ≤ i → i ≤ f.endLine → erased? lines (f :: gs) i = none := by
    intro i h1 h2
    rw [erased?_cons_of_covers (covers_of_le h1 h2), hedit, Option.bind_fun_none]
  have hleft : (List.range f.endLine).filterMap (erased? lines (f :: gs)) =
      lines.take f.startLine := by
    rw [← filterMap_range_eq_take (by omega) habove]
    exact filterMap_range_of_none hle fun i h1 h2 => hgone i h1 (by omega)
  rw [filterMap_range_split hinside, hleft, hgone _ hle (Nat.le_refl _), Option.toList_none,
    List.append_nil]

/-- Removing one finding more from the lines that the others leave. -/
theorem erase_filterMap (hfits : f.FitsIn lines) (hbefore : ∀ g ∈ gs, f.Before g)
    (hgs : ∀ g ∈ gs, g.startLine ≤ g.endLine) :
    f.erase ((List.range lines.length).filterMap (erased? lines gs)) =
      (List.range lines.length).filterMap (erased? lines (f :: gs)) := by
  have hle := hfits.line_le
  have hinside := hfits.inside
  have hsame : ∀ i < f.endLine, erased? lines gs i = lines[i]? := fun i hi =>
    erased?_above fun g hg => ⟨by have := (hbefore g hg).line_le; omega, hgs g hg⟩
  have habove : ∀ i < f.startLine, erased? lines (f :: gs) i = lines[i]? := fun i hi => by
    rw [erased?_cons_of_lt hi hle, hsame i (by omega)]
  have hlen : (lines.take f.startLine).length = f.startLine := by rw [List.length_take]; omega
  rw [filterMap_range_split hinside, filterMap_range_eq_take (by omega) hsame]
  cases hone : f.onOneLine with
  | true =>
      have hon : f.startLine = f.endLine := by simpa [onOneLine] using hone
      have hedit : f.edit? = f.strip? := by funext line; rw [edit?, if_pos hone]
      rw [filterMap_erased?_onLine hone hinside habove, filterMap_below, hedit, erase, if_pos hone,
        ← hon, eraseInLine_left hlen]
  | false =>
      have hne : f.startLine ≠ f.endLine := by simpa [onOneLine] using hone
      have hedit : ∀ line, f.edit? line = none := fun line => by rw [edit?, if_neg (by simp [hone])]
      have htake : lines.take f.endLine =
          lines.take f.startLine ++ (lines.drop f.startLine).take (f.endLine - f.startLine) := by
        rw [← List.take_add, Nat.add_sub_cancel' hle]
      have hcovered : ((lines.drop f.startLine).take (f.endLine - f.startLine)).length =
          f.endLine - f.startLine := by
        rw [List.length_take, List.length_drop]; omega
      rw [filterMap_erased?_covered hone hle hinside habove, filterMap_below, erase,
        if_neg (by simp [hone]), htake,
        eraseLines_left hlen (by omega) (List.ne_nil_of_length_pos (by omega))]
      simp only [hedit, Option.toList_none, List.nil_append]

/-- The lines that removing all findings leaves, by their numbers. -/
theorem Orderly.eraseAll_eq (h : Orderly lines fs) :
    eraseAll fs lines = (List.range lines.length).filterMap (erased? lines fs) := by
  induction fs with
  | nil =>
      have hall : (List.range lines.length).filterMap (erased? lines []) =
          lines.take lines.length := filterMap_range_eq_take (Nat.le_refl _) fun _ _ => rfl
      rw [hall, List.take_length]
      rfl
  | cons f gs ih =>
      rw [eraseAll_cons, ih h.tail, erase_filterMap (h.fits f List.mem_cons_self)
        (List.pairwise_cons.1 h.before).1 fun g hg => (h.tail.fits g hg).line_le]

end Finding
end LogPrune
