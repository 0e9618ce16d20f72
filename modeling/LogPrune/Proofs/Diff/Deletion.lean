import LogPrune.Proofs.Diff.Reading

/-!
# LogPrune.Proofs.Diff.Deletion

What a difference shows when lines have only been dropped.

1. The old text has as many lines more than the new one as the hunks take out
   more than they put in (`Aligned.length_eq`).
2. Where the texts differ, a walk first asks whether the line of the old text is
   still to come in the new one.  So it takes a dropped line out only if no line
   kept behind it is the same; otherwise it puts kept lines in
   (`onlyRemoves_hunksFrom_iff`).
3. A written difference has a sign before each line of a hunk and before no
   other (`signCount_minus`, `signCount_plus`), so it tells the same
   (`unified_only_removes_iff`).
-/

namespace LogPrune
namespace Diff

/-! ## Dropping lines -/

/-- The new lines are what is left of the old ones when some are dropped, none of
which is the same as a line kept behind it. -/
inductive DropsUnrepeated : List Text → List Text → Prop
  | nil : DropsUnrepeated [] []
  | keep (a : Text) (h : DropsUnrepeated old new) : DropsUnrepeated (a :: old) (a :: new)
  | drop (a : Text) (ha : a ∉ new) (h : DropsUnrepeated old new) :
    DropsUnrepeated (a :: old) new

section
variable {a b : Text} {old new : List Text}

theorem dropsUnrepeated_cons_iff : DropsUnrepeated (a :: old) new ↔
    (∃ rest, new = a :: rest ∧ DropsUnrepeated old rest)
      ∨ a ∉ new ∧ DropsUnrepeated old new := by
  constructor
  · intro h
    cases h with
    | keep a h => exact .inl ⟨_, rfl, h⟩
    | drop a ha h => exact .inr ⟨ha, h⟩
  · rintro (⟨rest, rfl, h⟩ | ⟨ha, h⟩)
    · exact .keep a h
    · exact .drop a ha h

/-- All lines can be dropped. -/
theorem dropsUnrepeated_nil (old : List Text) : DropsUnrepeated old [] := by
  induction old with
  | nil => exact .nil
  | cons a old ih => exact .drop a List.not_mem_nil ih

theorem dropsUnrepeated_cons_self :
    DropsUnrepeated (a :: old) (a :: new) ↔ DropsUnrepeated old new := by
  simp [dropsUnrepeated_cons_iff]

theorem dropsUnrepeated_cons_of_not_mem (ha : a ∉ new) :
    DropsUnrepeated (a :: old) new ↔ DropsUnrepeated old new := by
  rw [dropsUnrepeated_cons_iff]
  constructor
  · rintro (⟨rest, rfl, -⟩ | ⟨-, h⟩)
    · exact absurd List.mem_cons_self ha
    · exact h
  · exact fun h => .inr ⟨ha, h⟩

/-- A line that is kept further behind cannot be dropped. -/
theorem not_dropsUnrepeated_of_mem (hne : a ≠ b) (ha : a ∈ b :: new) :
    ¬ DropsUnrepeated (a :: old) (b :: new) := by
  rw [dropsUnrepeated_cons_iff]
  rintro (⟨rest, heq, -⟩ | ⟨hnot, -⟩)
  · exact hne (List.cons.inj heq).1.symm
  · exact hnot ha

end

/-! ## Walking -/

/-- No line is put in by any of some hunks. -/
def OnlyRemoves (hs : List Hunk) : Prop := ∀ h ∈ hs, h.addedLines = []

theorem onlyRemoves_append {hs hs' : List Hunk} :
    OnlyRemoves (hs ++ hs') ↔ OnlyRemoves hs ∧ OnlyRemoves hs' := by
  simp only [OnlyRemoves, List.mem_append, or_imp, forall_and]

@[simp] theorem addedLines_extend_removed (h : Hunk) (a : Text) :
    (h.extend [.removed a]).addedLines = h.addedLines := by
  simp only [Hunk.addedLines, Hunk.extend, List.filterMap_append, List.filterMap_cons,
    List.filterMap_nil, List.append_nil]

@[simp] theorem addedLines_extend_added (h : Hunk) (b : Text) :
    (h.extend [.added b]).addedLines = h.addedLines ++ [b] := by
  simp only [Hunk.addedLines, Hunk.extend, List.filterMap_append, List.filterMap_cons,
    List.filterMap_nil]

/-- A line that is taken out changes nothing about what is put in. -/
theorem onlyRemoves_removed (i j : Nat) (current : Option Hunk) (a : Text) :
    OnlyRemoves (some ((current.getD ⟨i, j, []⟩).extend [.removed a])).toList
      ↔ OnlyRemoves current.toList := by
  cases current <;> simp [OnlyRemoves]
  simp [Hunk.addedLines]

theorem not_onlyRemoves_added (h : Hunk) (b : Text) :
    ¬ OnlyRemoves (some (h.extend [.added b])).toList := by
  simp [OnlyRemoves]

/-- Where lines have been dropped, a walk only takes lines out exactly if none of
them is the same as a line kept behind it. -/
theorem onlyRemoves_hunksFrom_iff {i j : Nat} {current : Option Hunk} {old new : List Text}
    (h : new.Sublist old) :
    OnlyRemoves (hunksFrom i j current old new)
      ↔ OnlyRemoves current.toList ∧ DropsUnrepeated old new := by
  fun_induction hunksFrom i j current old new with
  | case1 => simp [dropsUnrepeated_nil]
  | case2 => contradiction
  | case3 i j current a old ih =>
    rw [ih (List.nil_sublist old), onlyRemoves_removed]
    simp [dropsUnrepeated_nil]
  | case4 i j current old a new ih =>
    rw [onlyRemoves_append, ih (List.cons_sublist_cons.1 h), dropsUnrepeated_cons_self]
    simp [OnlyRemoves]
  | case5 i j current a old b new hne _ ha ih =>
    have hmem : a ∈ b :: new := by simpa using ha
    rw [ih ((List.sublist_cons_self b new).trans h)]
    exact iff_of_false (fun hadded => not_onlyRemoves_added _ _ hadded.1)
      fun hdrops => not_dropsUnrepeated_of_mem hne hmem hdrops.2
  | case6 i j current a old b new hne _ ha _ ih =>
    have hnot : a ∉ b :: new := by simpa using ha
    rw [ih (List.Sublist.of_cons_of_ne (Ne.symm hne) h), onlyRemoves_removed,
      dropsUnrepeated_cons_of_not_mem hnot]
  | case7 i j current a old b new _ _ _ hb _ =>
    -- a line of the new text is one of the old text
    exact absurd (h.subset List.mem_cons_self) (by simpa using hb)

/-- What is put in and what is taken out make up for the difference in length. -/
theorem Aligned.length_eq {ended : Prop} {old new : List Text} {hs : List Hunk}
    (h : Aligned ended i j old new hs) :
    old.length + (hs.map (·.addedLines.length)).sum
      = new.length + (hs.map (·.removedLines.length)).sum := by
  induction hs generalizing ended i j old new with
  | nil => simp [show old = new from h]
  | cons k hs ih =>
    obtain ⟨common, old', new', rfl, rfl, -, -, -, hrest⟩ := h
    have heq := ih hrest
    simp only [List.map_cons, List.sum_cons, List.length_append]
    omega

/-! ## Signs -/

@[simp] theorem signed_removed (l : Text) : signed (.removed l) = '-' :: l := rfl

@[simp] theorem signed_added (l : Text) : signed (.added l) = '+' :: l := rfl

/-- The number of lines behind a sign. -/
def signCount (sign : Char) (ls : List Text) : Nat := ls.countP (·.head? == some sign)

theorem head?_header (h : Hunk) : (header h).head? = some '@' := by
  have hopen : "@@ -".toList = ['@', '@', ' ', '-'] := by simp
  unfold header
  rw [hopen]
  simp only [List.append_assoc, List.cons_append, List.head?_cons]

theorem signCount_hunkLines (sign : Char) (hsign : sign ≠ '@') (h : Hunk) :
    signCount sign (hunkLines h)
      = h.lines.countP fun l => (signed l).head? == some sign := by
  have hheader : ((header h).head? == some sign) = false := by
    simpa [head?_header] using hsign.symm
  simp [signCount, hunkLines, hheader, List.countP_map, Function.comp_def]

theorem signCount_flatMap_hunkLines (sign : Char) (hs : List Hunk) :
    signCount sign (hs.flatMap hunkLines) = (hs.map fun h => signCount sign (hunkLines h)).sum := by
  simp [signCount, List.countP_flatMap, Function.comp_def]

/-- The lines behind a minus are those that the hunks take out. -/
theorem signCount_minus (hs : List Hunk) :
    signCount '-' (hs.flatMap hunkLines) = (hs.map (·.removedLines.length)).sum := by
  have hremoved (h : Hunk) : signCount '-' (hunkLines h) = h.removedLines.length := by
    rw [signCount_hunkLines '-' (by decide), Hunk.removedLines]
    induction h.lines with
    | nil => rfl
    | cons l ls ih => cases l <;> simp [ih]
  simp only [signCount_flatMap_hunkLines, hremoved]

/-- The lines behind a plus are those that they put in. -/
theorem signCount_plus (hs : List Hunk) :
    signCount '+' (hs.flatMap hunkLines) = (hs.map (·.addedLines.length)).sum := by
  have hadded (h : Hunk) : signCount '+' (hunkLines h) = h.addedLines.length := by
    rw [signCount_hunkLines '+' (by decide), Hunk.addedLines]
    induction h.lines with
    | nil => rfl
    | cons l ls ih => cases l <;> simp [ih]
  simp only [signCount_flatMap_hunkLines, hadded]

theorem signCount_plus_eq_zero_iff (hs : List Hunk) :
    signCount '+' (hs.flatMap hunkLines) = 0 ↔ OnlyRemoves hs := by
  rw [signCount_plus, List.sum_eq_zero_iff]
  simp [OnlyRemoves]

/-! ## What a difference shows -/

/-- **Pure deletion**: where lines have been dropped and at least one is kept, the
lines behind a minus outnumber those behind a plus by the number of dropped lines.
There is no line behind a plus, and one behind a minus for each dropped line,
exactly if the lines can be dropped so that none of them is the same as a line
kept behind it. -/
theorem unified_only_removes_iff {old new : Text} (h : new.lines.Sublist old.lines)
    (fileName : Text) :
    ∃ body, unified old new fileName
        = .unlines (("--- ".toList ++ fileName) :: ("+++ ".toList ++ fileName) :: body)
      ∧ (∀ l ∈ body, '\n' ∉ l)
      ∧ signCount '-' body = old.lines.length - new.lines.length + signCount '+' body
      ∧ (signCount '+' body = 0 ∧ signCount '-' body = old.lines.length - new.lines.length
        ↔ DropsUnrepeated old.lines new.lines) := by
  have haligned := aligned_hunks old.lines new.lines
  have hcount : signCount '-' ((hunks old.lines new.lines).flatMap hunkLines)
      = old.lines.length - new.lines.length
        + signCount '+' ((hunks old.lines new.lines).flatMap hunkLines) := by
    have hlength := haligned.length_eq
    have hle := h.length_le
    rw [signCount_minus, signCount_plus]
    omega
  have hwalk : OnlyRemoves (hunks old.lines new.lines)
      ↔ DropsUnrepeated old.lines new.lines := by
    rw [hunks, onlyRemoves_hunksFrom_iff h]
    simp [OnlyRemoves]
  refine ⟨_, rfl, newline_not_mem_hunkLines haligned, hcount, ?_⟩
  rw [← hwalk, ← signCount_plus_eq_zero_iff]
  omega

/-- Lines dropped behind a kept line that is the same as one of them show as taken
out. -/
theorem unified_only_removes_iff_behind :
    let old : Text := "run(\n);\nlog(\n);".toList
    let new : Text := "run(\n);".toList
    new.lines.Sublist old.lines ∧ ∃ body, unified old new "app.js".toList
        = .unlines ("--- app.js".toList :: "+++ app.js".toList :: body)
      ∧ signCount '+' body = 0 ∧ signCount '-' body = 2 := by
  intro old new
  have hsub : new.lines.Sublist old.lines := by decide
  have hdrops : DropsUnrepeated old.lines new.lines :=
    .keep _ (.keep _ (.drop _ (by decide) (.drop _ (by decide) .nil)))
  obtain ⟨body, hbody, -, -, hiff⟩ := unified_only_removes_iff hsub "app.js".toList
  obtain ⟨hplus, hminus⟩ := hiff.2 hdrops
  exact ⟨hsub, body, hbody, hplus, hminus⟩

/-- A call over several lines is dropped whose last line is the same as that of the
call kept behind it: the difference shows the first line of the kept call as put in,
and as taken out as well. -/
theorem kept_line_put_in :
    let old : Text := "console.log(\n1\n);\nrun(\n);\n".toList
    let new : Text := "run(\n);\n".toList
    new.lines.Sublist old.lines ∧ unified old new "app.js".toList
      = ("--- app.js\n+++ app.js\n@@ -1,2 +1,1 @@\n-console.log(\n-1\n+run(\n"
        ++ "@@ -4,2 +3,0 @@\n-run(\n-);").toList := by
  intro old new
  refine ⟨by decide, ?_⟩
  decide +kernel

end Diff
end LogPrune
