import LogPrune.Proofs.Finding.Layout
import LogPrune.Proofs.Text.Revise

/-!
# LogPrune.Proofs.Clean.Remnant

What removing findings is to leave of the lines of a text, line by line.

1. A line that a finding over several lines covers goes.
2. A line with findings on it loses their characters, all at once, and goes
   when a leftover remains.
3. Every other line stays.

`remnant?` computes this from the original lines.  The lemmas say what one more
finding, in front of the others, changes about a line (`remnant?_cons_onLine`),
and what removing a finding from a line that still holds it leaves
(`strip?_of_fits`).
-/

namespace LogPrune
namespace Finding

variable {f : Finding} {fs gs : List Finding} {i : Nat} {line : Text} {lines : List Text}

/-! ## The lines that are left -/

/-- Whether a finding stands on a line, at least in part. -/
def covers (f : Finding) (i : Nat) : Bool := f.startLine ≤ i && i ≤ f.endLine

/-- Whether the character at a place belongs to a finding on one line. -/
def holds (f : Finding) (p : Nat × Nat) : Bool :=
  f.onOneLine && f.startLine = p.1 && f.startChar ≤ p.2 && p.2 < f.endChar

/-- The revision that cuts out the findings on one line. -/
def cutOut (fs : List Finding) (p : Nat × Nat) (c : Char) : Text :=
  if fs.any (·.holds p) then [] else [c]

/-- What is to be left of a line with a number, if anything. -/
def cutLine? (fs : List Finding) (i : Nat) (line : Text) : Option Text :=
  if fs.any fun f => !f.onOneLine && f.covers i then none
  else if fs.any fun f => f.onOneLine && f.startLine = i then
    let rest := Text.revise (cutOut fs) (i, 0) line
    if isLeftover rest then none else some rest
  else some line

/-- What is to be left of the line with a number, if there is such a line. -/
def remnant? (lines : List Text) (fs : List Finding) (i : Nat) : Option Text :=
  lines[i]?.bind (cutLine? fs i)

/-! ## One finding more -/

theorem covers_of_onOneLine (h : f.onOneLine) : f.covers i ↔ f.startLine = i := by
  simp only [onOneLine, decide_eq_true_eq] at h
  simp only [covers, Bool.and_eq_true, decide_eq_true_eq]
  omega

/-- A line on which no finding stands is left as it is. -/
theorem remnant?_of_not_covers (h : ∀ f ∈ fs, f.covers i = false) :
    remnant? lines fs i = lines[i]? := by
  have hmany : (fs.any fun f => !f.onOneLine && f.covers i) = false :=
    List.any_eq_false.2 fun f hf => by simp [h f hf]
  have hone : (fs.any fun f => f.onOneLine && f.startLine = i) = false := by
    refine List.any_eq_false.2 fun f hf hstart => ?_
    obtain ⟨hf1, hi⟩ : f.onOneLine ∧ f.startLine = i := by simpa using hstart
    exact absurd ((covers_of_onOneLine hf1).2 hi) (by simp [h f hf])
  have hself : cutLine? fs i = some := by
    funext line
    rw [cutLine?, if_neg (by simp [hmany]), if_neg (by simp [hone])]
  rw [remnant?, hself, Option.bind_fun_some]

/-- A finding over several lines takes those that it covers. -/
theorem remnant?_cons_covered (hmany : f.onOneLine = false) (h : f.covers i) :
    remnant? lines (f :: gs) i = none := by
  have hnone : cutLine? (f :: gs) i = fun _ => none := by
    funext line
    rw [cutLine?, if_pos (by simp [hmany, h])]
  rw [remnant?, hnone, Option.bind_fun_none]

/-- A finding does nothing to lines that it does not stand on. -/
theorem remnant?_cons_of_not_covers (hlines : ∀ l ∈ lines, '\n' ∉ l) (h : f.covers i = false) :
    remnant? lines (f :: gs) i = remnant? lines gs i := by
  have hstart : (f.onOneLine && f.startLine = i) = false := by
    rw [Bool.eq_false_iff]
    intro hf
    obtain ⟨hone, hi⟩ : f.onOneLine ∧ f.startLine = i := by simpa using hf
    exact absurd ((covers_of_onOneLine hone).2 hi) (by simp [h])
  rw [remnant?, remnant?]
  cases hget : lines[i]? with
  | none => rfl
  | some line =>
      have hline : '\n' ∉ line := hlines line (List.mem_of_getElem? hget)
      have hcut : Text.revise (cutOut (f :: gs)) (i, 0) line =
          Text.revise (cutOut gs) (i, 0) line := by
        apply Text.revise_congr
        intro q c _ hle hlt
        obtain ⟨hq, -, -⟩ := (Text.mem_line_iff hline).1 ⟨hle, hlt⟩
        have hholds : f.holds q = false := by rw [holds, hq, hstart]; rfl
        simp [cutOut, hholds]
      simp only [Option.bind_some, cutLine?, List.any_cons, h, hstart, hcut, Bool.and_false,
        Bool.false_or]

/-! ## A finding and its line -/

/-- A line without a finding on it, if anything is left. -/
def strip? (f : Finding) (line : Text) : Option Text :=
  if f.fills line || isLeftover (f.cutFrom line) then none else some (f.cutFrom line)

/-- Cutting a finding out leaves a line as it is, or takes its text out somewhere. -/
theorem cutFrom_eq (f : Finding) (line : Text) :
    f.cutFrom line = line ∨ ∃ a b, line = a ++ f.text ++ b ∧ f.cutFrom line = a ++ b := by
  rw [cutFrom]
  split
  · next before rest part before' after hcut hslice hcut' =>
    split
    · next hpart =>
      obtain ⟨a, b, hline, hstart, hstop⟩ := Text.cuts_of_slice? hslice
      obtain ⟨rfl, -⟩ := Prod.mk.inj (Option.some.inj (hcut.symm.trans hstart))
      obtain ⟨-, rfl⟩ := Prod.mk.inj (Option.some.inj (hcut'.symm.trans hstop))
      exact .inr ⟨before, after, hpart ▸ hline, rfl⟩
    · exact Text.eraseFirst_eq f.text line
  · exact Text.eraseFirst_eq f.text line

/-- Cutting a finding out changes a line only by making it smaller. -/
theorem size_cutFrom_lt (htext : f.text ≠ []) (h : f.cutFrom line ≠ line) :
    Text.size (f.cutFrom line) < Text.size line := by
  rcases f.cutFrom_eq line with heq | ⟨a, b, hline, heq⟩
  · contradiction
  · have hpos := Text.size_pos htext
    rw [heq, hline]
    simp only [Text.size_append]
    omega

/-- A line that a finding fills is a leftover without it. -/
theorem isLeftover_of_fills {a b : Text} (h : f.fills (a ++ f.text ++ b)) :
    isLeftover (a ++ b) := by
  rw [isLeftover_iff, Text.solid_append]
  rw [fills, Bool.or_eq_true, decide_eq_true_iff, decide_eq_true_iff] at h
  rcases h with h | h
  · left
    have hsolid := congrArg Text.solid h
    simp only [Text.solid_trim, Text.solid_append] at hsolid
    have hlen := congrArg List.length hsolid
    simp only [List.length_append] at hlen
    have ha : Text.solid a = [] := List.eq_nil_of_length_eq_zero (by omega)
    have hb : Text.solid b = [] := List.eq_nil_of_length_eq_zero (by omega)
    rw [ha, hb]; rfl
  · -- all that is not blank is the text and a semicolon, in front of it or behind
    right
    have hsolid := congrArg Text.solid (Text.append_of_dropEnding? h)
    simp only [Text.solid_trim, Text.solid_append] at hsolid
    have hsemi : Text.solid [';'] = [';'] := by decide
    rw [hsemi] at hsolid
    have hlen := congrArg List.length hsolid
    simp only [List.length_append, List.length_singleton] at hlen
    have hperm : (Text.solid a ++ Text.solid b).Perm [';'] := by
      have h1 : (Text.solid f.text ++ (Text.solid a ++ Text.solid b)).Perm
          (Text.solid f.text ++ [';']) := by
        rw [← hsolid, ← List.append_assoc]
        exact List.perm_append_comm.append_right _
      exact (List.perm_append_left_iff _).1 h1
    exact List.perm_singleton.1 hperm

/-- Removing a finding from a line that holds it leaves what stands around
it. -/
theorem strip?_of_fits {a b : Text} (ha : Text.size a = f.startChar)
    (hb : Text.size (a ++ f.text) = f.endChar) :
    f.strip? (a ++ f.text ++ b) = if isLeftover (a ++ b) then none else some (a ++ b) := by
  have hcut : f.cutFrom (a ++ f.text ++ b) = a ++ b := by
    have h1 := Text.cut?_append a (f.text ++ b)
    have h2 := Text.cut?_append (a ++ f.text) b
    have h3 := Text.slice?_append a f.text b
    rw [← List.append_assoc, ha] at h1
    rw [hb] at h2
    rw [← Text.size_append, ha, hb] at h3
    simp only [cutFrom, h1, h2, h3, if_true]
  rw [strip?, hcut]
  by_cases h : isLeftover (a ++ b)
  · simp [h]
  · have hfills : f.fills (a ++ f.text ++ b) = false :=
      Bool.eq_false_iff.2 fun hf => h (isLeftover_of_fills hf)
    rw [hfills, Bool.false_or]

/-- Cutting findings out of a part of a line in which none of them stands
leaves the part as it is. -/
theorem revise_cutOut_eq_self {k : Nat} (hline : '\n' ∉ line)
    (h : ∀ g ∈ gs, g.onOneLine → g.startLine = i →
      g.endChar ≤ k ∨ k + Text.size line ≤ g.startChar) :
    Text.revise (cutOut gs) (i, k) line = line := by
  apply Text.revise_eq_self
  intro q c _ hle hlt
  obtain ⟨hq, hlow, hhigh⟩ := (Text.mem_line_iff hline).1 ⟨hle, hlt⟩
  have hholds : (gs.any (·.holds q)) = false := by
    refine List.any_eq_false.2 fun g hg hgq => ?_
    simp only [holds, Bool.and_eq_true, decide_eq_true_eq] at hgq
    obtain ⟨⟨⟨hone, hi⟩, hs⟩, he⟩ := hgq
    have := h g hg hone (by omega)
    omega
  simp [cutOut, hholds]

/-- Cutting a finding on one line out takes the part of the line in which it stands. -/
theorem revise_cutOut_eq_nil {k : Nat} (hline : '\n' ∉ line) (hone : f.onOneLine)
    (hs : f.startChar ≤ k) (he : k + Text.size line ≤ f.endChar) :
    Text.revise (cutOut (f :: gs)) (f.startLine, k) line = [] := by
  apply Text.revise_eq_nil
  intro q c _ hle hlt
  obtain ⟨hq, hlow, hhigh⟩ := (Text.mem_line_iff hline).1 ⟨hle, hlt⟩
  have hholds : f.holds q := by
    simp only [holds, hone, Bool.and_eq_true, decide_eq_true_eq, true_and]
    omega
  simp [cutOut, hholds]

/-- Cutting one finding more out does nothing behind it. -/
theorem revise_cutOut_cons_behind {k : Nat} (hline : '\n' ∉ line) (he : f.endChar ≤ k) :
    Text.revise (cutOut (f :: gs)) (i, k) line = Text.revise (cutOut gs) (i, k) line := by
  apply Text.revise_congr
  intro q c _ hle hlt
  obtain ⟨-, hlow, -⟩ := (Text.mem_line_iff hline).1 ⟨hle, hlt⟩
  have hholds : f.holds q = false := by
    rw [Bool.eq_false_iff]
    intro h
    simp only [holds, Bool.and_eq_true, decide_eq_true_eq] at h
    omega
  simp [cutOut, hholds]

/-- A finding on one line, in front of others: where it stands, cutting all of
them out is cutting it out of what the others leave. -/
theorem revise_cutOut_cons {a b : Text} (hline : '\n' ∉ a ++ f.text ++ b)
    (hone : f.onOneLine) (ha : Text.size a = f.startChar)
    (hb : Text.size (a ++ f.text) = f.endChar) (hbefore : ∀ g ∈ gs, f.Before g) :
    ∃ b', Text.revise (cutOut gs) (f.startLine, 0) (a ++ f.text ++ b) = a ++ f.text ++ b' ∧
      Text.revise (cutOut (f :: gs)) (f.startLine, 0) (a ++ f.text ++ b) = a ++ b' := by
  have hon : f.startLine = f.endLine := by simpa [onOneLine] using hone
  have hafter : ∀ g ∈ gs, g.startLine = f.startLine → f.endChar ≤ g.startChar := by
    intro g hg hline
    exact (hbefore g hg).char_le (by omega)
  simp only [List.mem_append, not_or] at hline
  obtain ⟨⟨hna, hnt⟩, hnb⟩ := hline
  have hadv : Text.advance (f.startLine, 0) (a ++ f.text) = (f.startLine, f.endChar) := by
    rw [Text.advance_of_not_mem _ (by simp [hna, hnt]), hb, Nat.zero_add]
  have hsize : Text.size a + Text.size f.text = f.endChar := by rw [← Text.size_append, hb]
  refine ⟨Text.revise (cutOut gs) (f.startLine, f.endChar) b, ?_, ?_⟩
  · rw [Text.revise_append, hadv, revise_cutOut_eq_self (by simp [hna, hnt])]
    intro g hg _ hi
    have := hafter g hg hi
    rw [hb]
    omega
  · have hleft : Text.revise (cutOut (f :: gs)) (f.startLine, 0) a = a := by
      apply revise_cutOut_eq_self hna
      intro g hg _ hi
      rcases List.mem_cons.1 hg with rfl | hg
      · omega
      · have := hafter g hg hi
        omega
    rw [Text.revise_append, hadv, Text.revise_append, Text.advance_of_not_mem _ hna, hleft,
      revise_cutOut_eq_nil hnt hone (by omega) (by omega),
      revise_cutOut_cons_behind hnb (Nat.le_refl _), List.append_nil]

/-- A finding on one line, in front of others, is removed from what the others
leave of the line.  They leave nothing of it only when one of them covers it:
the finding itself keeps it from being a leftover. -/
theorem remnant?_cons_onLine (hfits : f.FitsIn lines)
    (hlines : ∀ l ∈ lines, '\n' ∉ l) (hone : f.onOneLine) (hbefore : ∀ g ∈ gs, f.Before g)
    (hcode : ∃ x ∈ f.text, isCode x) :
    remnant? lines (f :: gs) f.startLine = (remnant? lines gs f.startLine).bind f.strip? := by
  have hon : f.startLine = f.endLine := by simpa [onOneLine] using hone
  obtain ⟨a, b, hline, ha, hb⟩ := hfits.onLine hon
  have hnew : '\n' ∉ a ++ f.text ++ b := hlines _ (List.mem_of_getElem? hline)
  obtain ⟨b', hgs, hfgs⟩ := revise_cutOut_cons hnew hone ha hb hbefore
  have hsolid : isLeftover (a ++ f.text ++ b') = false := by
    obtain ⟨x, hx, hcode⟩ := hcode
    exact isLeftover_of_mem (by simp [hx]) hcode
  rw [remnant?, remnant?, hline, Option.bind_some, Option.bind_some, cutLine?, cutLine?]
  simp only [List.any_cons, hone, hgs, hfgs, hsolid, Bool.not_true, Bool.false_and, Bool.false_or,
    decide_true, Bool.and_self, Bool.true_or, if_true, Bool.false_eq_true, if_false]
  by_cases hmany : gs.any fun g => !g.onOneLine && g.covers f.startLine
  · rw [if_pos hmany, if_pos hmany]; rfl
  · rw [if_neg hmany, if_neg hmany]
    by_cases hstart : gs.any fun g => g.onOneLine && decide (g.startLine = f.startLine)
    · rw [if_pos hstart, Option.bind_some, strip?_of_fits ha hb]
    · -- no other finding stands on the line, which the others thus leave as it is
      have hsame : a ++ f.text ++ b = a ++ f.text ++ b' := by
        rw [← hgs, revise_cutOut_eq_self hnew]
        intro g hg hg1 hgi
        exact absurd (List.any_eq_true.2 ⟨g, hg, by simp [hg1, hgi]⟩) hstart
      rw [if_neg hstart, hsame, Option.bind_some, strip?_of_fits ha hb]

end Finding
end LogPrune
