import LogPrune.Proofs.Checked.Access

/-!
# LogPrune.Proofs.Checked.Position

The place of an offset, found by a binary search among the starts of the lines.

1. The search halves a window of increasing numbers.  All that is read lies in the
   window, and it ends at the number or between its neighbours (`search_spec`).
2. The starts of lines increase, and the first one is zero, so that a line starts
   at or before any offset (`startsFrom`).
3. No access goes wrong for any offset, also behind the end of the text or inside a
   character, and the place found is that of `locate` (`position_lineStarts`).
-/

namespace LogPrune
namespace Checked

/-! ## Searching -/

/-- The outcome of a search: the index of a number, or that of the first larger
one. -/
inductive Sought
  | found (i : Nat)
  | missing (i : Nat)
  deriving DecidableEq, Repr

/-- What a search in increasing numbers is to say. -/
def Sought.Holds (ns : List Nat) (n : Nat) : Sought → Prop
  | .found i => ns[i]? = some n
  | .missing i => i ≤ ns.length ∧ (∀ j < i, ∀ m, ns[j]? = some m → m < n) ∧
      ∀ j ≥ i, ∀ m, ns[j]? = some m → n < m

/-- The index in the middle of a window. -/
def middle (lo hi : Nat) : Nat := (lo + hi) / 2

theorem middle_bounds {lo hi : Nat} (h : lo < hi) : lo ≤ middle lo hi ∧ middle lo hi < hi := by
  unfold middle
  omega

/-- Searches a window of increasing numbers, from one index up to another. -/
def search (ns : List Nat) (n lo hi : Nat) : Checked Sought :=
  if lo < hi then do
    let m ← get ns (middle lo hi)
    if m = n then return .found (middle lo hi)
    else if m < n then search ns n (middle lo hi + 1) hi
    else search ns n lo (middle lo hi)
  else return .missing lo
termination_by hi - lo
decreasing_by
  · have := middle_bounds ‹lo < hi›
    omega
  · have := middle_bounds ‹lo < hi›
    omega

theorem lt_of_getElem? {ns : List Nat} {j k a b : Nat} (hinc : ns.Pairwise (· < ·)) (hjk : j < k)
    (hj : ns[j]? = some a) (hk : ns[k]? = some b) : a < b := by
  obtain ⟨hj', rfl⟩ := List.getElem?_eq_some_iff.1 hj
  obtain ⟨hk', rfl⟩ := List.getElem?_eq_some_iff.1 hk
  exact List.pairwise_iff_getElem.1 hinc j k hj' hk' hjk

/-- A search does not go wrong, and says what it is to say if what it looks for cannot
stand outside the window. -/
theorem search_spec {ns : List Nat} {n lo hi : Nat} (hinc : ns.Pairwise (· < ·)) (hle : lo ≤ hi)
    (hhi : hi ≤ ns.length) (hlow : ∀ j < lo, ∀ m, ns[j]? = some m → m < n)
    (hhigh : ∀ j ≥ hi, ∀ m, ns[j]? = some m → n < m) :
    ∃ r, search ns n lo hi = .ok r ∧ r.Holds ns n := by
  induction hk : hi - lo using Nat.strongRecOn generalizing lo hi with
  | ind k ih =>
      rw [search]
      split
      · next hlt =>
        have hbounds := middle_bounds hlt
        generalize middle lo hi = mid at hbounds ⊢
        have hget := List.getElem?_eq_getElem (show mid < ns.length by omega)
        rw [get_eq_ok hget, ok_bind]
        split
        · next heq => exact ⟨.found mid, rfl, heq ▸ hget⟩
        · next hne =>
          split
          · next hless =>
            -- the number can only stand to the right of the middle
            refine ih (hi - (mid + 1)) (by omega) (by omega) hhi ?_ hhigh rfl
            intro j hj m hm
            rcases Nat.lt_or_eq_of_le (Nat.le_of_lt_succ hj) with hj | rfl
            · exact Nat.lt_trans (lt_of_getElem? hinc hj hm hget) hless
            · obtain rfl := Option.some.inj (hget.symm.trans hm)
              exact hless
          · next hless =>
            have hmore : n < ns[mid] := by omega
            refine ih (mid - lo) (by omega) (by omega) (by omega) hlow ?_ rfl
            intro j hj m hm
            rcases Nat.lt_or_eq_of_le hj with hj | rfl
            · exact Nat.lt_trans hmore (lt_of_getElem? hinc hj hget hm)
            · obtain rfl := Option.some.inj (hget.symm.trans hm)
              exact hmore
      · next hge =>
        obtain rfl : lo = hi := by omega
        exact ⟨.missing lo, rfl, hhi, hlow, hhigh⟩

/-! ## Places -/

/-- The offsets of the newlines of a text that starts at an offset. -/
def newlinesFrom (n : Nat) : Text → List Nat
  | [] => []
  | c :: cs => if c = '\n' then n :: newlinesFrom (n + c.utf8Size) cs
    else newlinesFrom (n + c.utf8Size) cs

/-- The offsets at which the lines of a text start. -/
def lineStarts (content : Text) : List Nat := 0 :: (newlinesFrom 0 content).map (· + 1)

/-- The starts of lines of the given sizes, the first of which starts at an
offset. -/
def startsFrom (n : Nat) : List Nat → List Nat
  | [] => []
  | size :: sizes => n :: startsFrom (n + size + 1) sizes

theorem newlinesFrom_eq (n : Nat) (t : Text) :
    n :: (newlinesFrom n t).map (· + 1) = startsFrom n (t.lines.map Text.size) := by
  induction t generalizing n with
  | nil => rfl
  | cons c cs ih =>
      obtain ⟨p, ps, hp⟩ := Text.exists_lines_eq_cons cs
      have ih := ih (n + c.utf8Size)
      rw [hp, List.map_cons, startsFrom] at ih
      rw [Text.lines] at hp
      rw [newlinesFrom, Text.lines, Text.pieces, hp]
      split
      · next hc =>
        subst hc
        have hsize : n + Text.size [] + 1 = n + Char.utf8Size '\n' := rfl
        rw [List.map_cons, List.map_cons, startsFrom, hsize, List.map_cons, startsFrom]
        exact congrArg (n :: ·) ih
      · rw [(List.cons.inj ih).2, List.map_cons, startsFrom, Text.size_cons, Nat.add_assoc n]

/-- The lines of a text start where their sizes say. -/
theorem lineStarts_eq (content : Text) :
    lineStarts content = startsFrom 0 (content.lines.map Text.size) := newlinesFrom_eq 0 content

theorem le_of_mem_startsFrom {n m : Nat} {sizes : List Nat} (h : m ∈ startsFrom n sizes) :
    n ≤ m := by
  induction sizes generalizing n with
  | nil => contradiction
  | cons size sizes ih =>
      rcases List.mem_cons.1 h with rfl | h
      · exact Nat.le_refl _
      · have := ih h
        omega

theorem pairwise_startsFrom (n : Nat) (sizes : List Nat) :
    (startsFrom n sizes).Pairwise (· < ·) := by
  induction sizes generalizing n with
  | nil => exact .nil
  | cons size sizes ih =>
      refine List.pairwise_cons.2 ⟨fun m hm => ?_, ih _⟩
      have := le_of_mem_startsFrom hm
      omega

/-- An offset stands in the last line that starts at it or before. -/
theorem locate_of_startsFrom {n m i offset : Nat} {sizes : List Nat}
    (hstart : (startsFrom n sizes)[i]? = some m) (hle : m ≤ offset)
    (hnext : ∀ m', (startsFrom n sizes)[i + 1]? = some m' → offset < m') :
    Text.locate sizes (offset - n) = (i, offset - m) := by
  induction sizes generalizing n i with
  | nil => contradiction
  | cons size sizes ih =>
      cases i with
      | zero =>
          obtain rfl : n = m := Option.some.inj hstart
          cases sizes with
          | nil => rfl
          | cons size' sizes =>
              have hlt := hnext (n + size + 1) rfl
              rw [Text.locate, if_pos (by omega)]
              simp
      | succ i =>
          rw [startsFrom, List.getElem?_cons_succ] at hstart
          have hge := le_of_mem_startsFrom (List.mem_of_getElem? hstart)
          have ih := ih hstart fun m' hm' => hnext m' hm'
          have hsub : offset - n - (size + 1) = offset - (n + size + 1) := by omega
          have hne : sizes ≠ [] := by
            rintro rfl
            contradiction
          rw [Text.locate, if_neg (by omega), hsub, ih]
          exact hne

/-- The line that holds an offset, and the offset within that line. -/
def position (starts : List Nat) (offset : Nat) : Checked (Nat × Nat) := do
  let line ← match ← search starts offset 0 starts.length with
    | .found line => pure line
    | .missing next => sub next 1
  let start ← get starts line
  return (line, ← sub offset start)

/-- The place of an offset is found without an access going wrong, for any offset. -/
theorem position_lineStarts (content : Text) (offset : Nat) :
    position (lineStarts content) offset =
      .ok (Text.locate (content.lines.map Text.size) offset) := by
  obtain ⟨l, ls, hlines⟩ := Text.exists_lines_eq_cons content
  have hinc := pairwise_startsFrom 0 (content.lines.map Text.size)
  have hfirst : (startsFrom 0 (content.lines.map Text.size))[0]? = some 0 := by rw [hlines]; rfl
  rw [lineStarts_eq]
  generalize content.lines.map Text.size = sizes at hinc hfirst ⊢
  have hplace : ∀ i m, (startsFrom 0 sizes)[i]? = some m → m ≤ offset →
      (∀ m', (startsFrom 0 sizes)[i + 1]? = some m' → offset < m') →
      (do let start ← get (startsFrom 0 sizes) i; return (i, ← sub offset start)) =
        (.ok (Text.locate sizes offset) : Checked (Nat × Nat)) := by
    intro i m hstart hle hnext
    have hlocate := locate_of_startsFrom hstart hle hnext
    rw [Nat.sub_zero] at hlocate
    rw [get_eq_ok hstart, ok_bind, sub_eq_ok hle, ok_bind, hlocate]
    rfl
  obtain ⟨r, hr, hholds⟩ := search_spec (n := offset) hinc (Nat.zero_le _) (Nat.le_refl _) (by omega)
    fun j hj m hm => by rw [List.getElem?_eq_none hj] at hm; contradiction
  rw [position, hr, ok_bind]
  cases r with
  | found i =>
      exact hplace i offset hholds (Nat.le_refl _)
        fun m' hm' => lt_of_getElem? hinc (Nat.lt_succ_self i) hholds hm'
  | missing i =>
      obtain ⟨hile, hbelow, habove⟩ := hholds
      -- the first line starts at zero, which is no larger than the offset
      have hpos : 1 ≤ i := by
        by_contra hzero
        exact Nat.not_lt_zero _ (habove 0 (by omega) 0 hfirst)
      have hstart := List.getElem?_eq_getElem (show i - 1 < (startsFrom 0 sizes).length by omega)
      have hless := hbelow (i - 1) (by omega) _ hstart
      have hstep := hplace (i - 1) _ hstart (Nat.le_of_lt hless)
        fun m' hm' => habove (i - 1 + 1) (by omega) m' hm'
      simp only [sub_eq_ok hpos, ok_bind]
      exact hstep

end Checked
end LogPrune
