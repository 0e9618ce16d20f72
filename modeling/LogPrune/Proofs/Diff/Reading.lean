import LogPrune.Proofs.Diff.Walk
import LogPrune.Proofs.Text.Lines

/-!
# LogPrune.Proofs.Diff.Reading

Reading a written difference back.

1. A hunk is read from its header, which says how many lines follow it
   (`readHunks?`).
2. Written hunks are read as they were, so no others are written the same way
   (`readHunks?_hunkLines`).
3. What is written for two texts is thus one list of hunks, and it tells how to
   get from either text to the other (`unified_tells`).
-/

namespace LogPrune
namespace Diff

/-! ## Reading -/

/-- What follows a word at the beginning of a text. -/
def skip? (word t : Text) : Option Text :=
  if word.isPrefixOf t then some (t.drop word.length) else none

/-- The number that a text begins with, and what follows it. -/
def readNumber (t : Text) : Nat × Text :=
  (Nat.ofDigitChars 10 (t.takeWhile Char.isDigit) 0, t.dropWhile Char.isDigit)

/-- The numbers in the header of a hunk. -/
structure HunkHeader where
  oldStart : Nat
  oldCount : Nat
  newStart : Nat
  newCount : Nat

/-- Reads the header of a hunk. -/
def readHeader? (t : Text) : Option HunkHeader := do
  let t ← skip? "@@ -".toList t
  let (oldStart, t) := readNumber t
  let t ← skip? [','] t
  let (oldCount, t) := readNumber t
  let t ← skip? " +".toList t
  let (newStart, t) := readNumber t
  let t ← skip? [','] t
  let (newCount, t) := readNumber t
  if t = " @@".toList then return { oldStart, oldCount, newStart, newCount } else none

/-- Reads a line behind its sign. -/
def readLine? : Text → Option DiffLine
  | '-' :: l => some (.removed l)
  | '+' :: l => some (.added l)
  | _ => none

/-- Reads hunks, each with as many lines as its header says. -/
def readHunks? : List Text → Option (List Hunk)
  | [] => some []
  | l :: ls => do
    let header ← readHeader? l
    let count := header.oldCount + header.newCount
    let h : Hunk := ⟨header.oldStart, header.newStart, ← (ls.take count).mapM readLine?⟩
    let hs ← readHunks? (ls.drop count)
    if h.removedLines.length = header.oldCount ∧ h.addedLines.length = header.newCount then
      return h :: hs
    else none
termination_by ls => ls.length
decreasing_by
  rw [List.length_cons, List.length_drop]
  omega

/-! ## Reading what was written -/

@[simp] theorem skip?_append (word t : Text) : skip? word (word ++ t) = some t := by
  simp [skip?]

@[simp] theorem skip?_cons (c : Char) (t : Text) : skip? [c] (c :: t) = some t :=
  skip?_append [c] t

theorem decimal_eq (n : Nat) : decimal n = Nat.toDigits 10 n := by
  rw [decimal, Nat.toString_eq_ofList_toDigits, String.toList_ofList]

theorem isDigit_of_mem_decimal {n : Nat} {c : Char} (h : c ∈ decimal n) : c.isDigit := by
  rw [decimal_eq] at h
  exact Nat.isDigit_of_mem_toDigits (by decide) (by decide) h

/-- A number ends where no digit follows. -/
theorem readNumber_decimal (n : Nat) {t : Text} (h : ∀ c ∈ t.head?, c.isDigit = false) :
    readNumber (decimal n ++ t) = (n, t) := by
  have hdigits : ∀ c ∈ decimal n, c.isDigit := fun c hc => isDigit_of_mem_decimal hc
  have htake : t.takeWhile Char.isDigit = [] := by cases t <;> simp_all
  have hdrop : t.dropWhile Char.isDigit = t := by cases t <;> simp_all
  rw [readNumber, List.takeWhile_append_of_pos hdigits, List.dropWhile_append_of_pos hdigits,
    htake, hdrop, List.append_nil, decimal_eq, Nat.ofDigitChars_ten_toDigits]

theorem readHeader?_header (h : Hunk) :
    readHeader? (header h)
      = some ⟨h.oldStart, h.removedLines.length, h.newStart, h.addedLines.length⟩ := by
  unfold header
  simp only [List.append_assoc, List.cons_append, readHeader?, skip?_append, bind, Option.bind]
  rw [readNumber_decimal _ (by simp)]
  simp only [skip?_cons]
  rw [readNumber_decimal _ (by simp)]
  simp only [skip?_append]
  rw [readNumber_decimal _ (by simp)]
  simp only [skip?_cons]
  rw [readNumber_decimal _ (by simp)]
  rfl

theorem readLine?_signed (l : DiffLine) : readLine? (signed l) = some l := by
  cases l <;> rfl

/-- Hunks are read as they were written. -/
theorem readHunks?_hunkLines (hs : List Hunk) : readHunks? (hs.flatMap hunkLines) = some hs := by
  induction hs with
  | nil => simp [readHunks?]
  | cons h hs ih =>
    have hcount : h.removedLines.length + h.addedLines.length = (h.lines.map signed).length := by
      rw [List.length_map, h.length_lines]
    rw [List.flatMap_cons, hunkLines, List.cons_append, readHunks?, readHeader?_header]
    simp only [bind, Option.bind]
    rw [hcount, List.take_left, List.drop_left, mapM_map_eq_some readLine?_signed, ih]
    simp [Hunk.removedLines, Hunk.addedLines]

/-- Different hunks are written differently. -/
theorem hunkLines_injective {hs hs' : List Hunk}
    (h : hs.flatMap hunkLines = hs'.flatMap hunkLines) : hs = hs' := by
  have hread := readHunks?_hunkLines hs
  rw [h, readHunks?_hunkLines, Option.some.injEq] at hread
  exact hread.symm

/-! ## Lines of the written difference -/

theorem newline_not_mem_header (h : Hunk) : '\n' ∉ header h := by
  have hdecimal (n : Nat) : '\n' ∉ decimal n := fun hn =>
    absurd (isDigit_of_mem_decimal hn) (by decide)
  have hopen : '\n' ∉ "@@ -".toList := by decide
  have hnext : '\n' ∉ " +".toList := by decide
  have hclose : '\n' ∉ " @@".toList := by decide
  unfold header
  simp only [List.mem_append, List.mem_cons, hdecimal, hopen, hnext, hclose]
  decide

theorem newline_not_mem_signed {l : DiffLine} {h : Hunk} (hl : l ∈ h.lines)
    (hremoved : ∀ l ∈ h.removedLines, '\n' ∉ l) (hadded : ∀ l ∈ h.addedLines, '\n' ∉ l) :
    '\n' ∉ signed l := by
  cases l with
  | removed l =>
    have hmem : l ∈ h.removedLines := List.mem_filterMap.2 ⟨_, hl, rfl⟩
    simpa [signed] using hremoved l hmem
  | added l =>
    have hmem : l ∈ h.addedLines := List.mem_filterMap.2 ⟨_, hl, rfl⟩
    simpa [signed] using hadded l hmem

/-- The lines written for hunks whose lines are those of a text. -/
theorem newline_not_mem_hunkLines {hs : List Hunk} {old new : Text}
    (h : Aligned ended i j old.lines new.lines hs) : ∀ l ∈ hs.flatMap hunkLines, '\n' ∉ l := by
  intro l hl
  obtain ⟨k, hk, hl⟩ := List.mem_flatMap.1 hl
  rcases List.mem_cons.1 hl with rfl | hl
  · exact newline_not_mem_header k
  · obtain ⟨d, hd, rfl⟩ := List.mem_map.1 hl
    obtain ⟨before, after, hold, -⟩ := h.removed_at hk
    obtain ⟨before', after', hnew, -⟩ := h.added_at hk
    refine newline_not_mem_signed hd (fun m hm => ?_) fun m hm => ?_
    · exact Text.not_mem_of_mem_lines (t := old) (by simp [hold, hm])
    · exact Text.not_mem_of_mem_lines (t := new) (by simp [hnew, hm])

/-- What is written for two texts, line by line. -/
theorem lines_unified {fileName : Text} (hname : '\n' ∉ fileName) (old new : Text) :
    (unified old new fileName).lines
      = ("--- ".toList ++ fileName) :: ("+++ ".toList ++ fileName)
        :: (hunks old.lines new.lines).flatMap hunkLines := by
  refine Text.lines_unlines (fun l hl => ?_) (List.cons_ne_nil _ _)
  rcases List.mem_cons.1 hl with rfl | hl
  · simpa using hname
  · rcases List.mem_cons.1 hl with rfl | hl
    · simpa using hname
    · exact newline_not_mem_hunkLines (aligned_hunks old.lines new.lines) l hl

/-! ## What a difference tells -/

/-- Hunks tell two texts apart. -/
structure Tells (old new : List Text) (hs : List Hunk) : Prop where
  /-- They are in order, and between any two are lines that both texts have. -/
  apart : hs.IsChain (Gap old new)
  /-- The lines taken out are those of the old text at the number given. -/
  removed : ∀ h ∈ hs, ∃ before after,
    old = before ++ h.removedLines ++ after ∧ h.oldStart = before.length + 1
  /-- The lines put in are those of the new text at the number given. -/
  added : ∀ h ∈ hs, ∃ before after,
    new = before ++ h.addedLines ++ after ∧ h.newStart = before.length + 1
  patches : patchFrom 0 hs old = new
  reverts : patchFrom 0 (hs.map .reverse) new = old
  /-- No line of either text is in two hunks. -/
  length_le : (hs.map (·.lines.length)).sum ≤ old.length + new.length

theorem tells_hunks (old new : List Text) : Tells old new (hunks old new) := by
  have h := aligned_hunks old new
  refine ⟨h.isChain_gap (a := []) (b := []), fun k hk => ?_, fun k hk => ?_, h.patchFrom_eq,
    h.reverse.patchFrom_eq, h.length_lines_le⟩
  · simpa using h.removed_at hk
  · simpa using h.added_at hk

/-- **Faithful patch**: behind its two first lines a written difference can be
read as hunks, each as long as its header says, and as no others.  They tell
the texts apart: patching the old text gives the new one, and the same hunks
the other way round give the old one back.  There are none exactly when the
texts are equal.  The walk ends on all texts, as each of its steps takes a line
off one of them. -/
theorem unified_tells {fileName : Text} (hname : '\n' ∉ fileName) (old new : Text) :
    let written := (unified old new fileName).lines
    ∃ hs, written = ("--- ".toList ++ fileName) :: ("+++ ".toList ++ fileName)
        :: hs.flatMap hunkLines
      ∧ readHunks? (written.drop 2) = some hs
      ∧ (∀ hs', hs'.flatMap hunkLines = written.drop 2 → hs' = hs)
      ∧ Tells old.lines new.lines hs
      ∧ (hs = [] ↔ old = new) := by
  intro written
  have hlines : written = _ := lines_unified hname old new
  refine ⟨hunks old.lines new.lines, hlines, ?_, fun hs' hs => ?_, tells_hunks _ _, ?_⟩
  · rw [hlines]
    exact readHunks?_hunkLines _
  · rw [hlines] at hs
    exact hunkLines_injective hs
  · rw [hunks_eq_nil_iff]
    refine ⟨fun h => ?_, fun h => congrArg Text.lines h⟩
    rw [← Text.unlines_lines old, h, Text.unlines_lines]

/-- What is written for two calls that were removed tells so. -/
theorem unified_tells_removed_calls :
    let old : Text := "log(1);\nrun();\nlog(2);\nend();".toList
    let new : Text := "run();\nend();".toList
    '\n' ∉ "app.js".toList ∧ ∃ hs,
      readHunks? ((unified old new "app.js".toList).lines.drop 2) = some hs
        ∧ Tells old.lines new.lines hs ∧ hs ≠ [] := by
  intro old new
  have hname : '\n' ∉ "app.js".toList := by decide
  obtain ⟨hs, -, hread, -, htells, hnil⟩ := unified_tells hname old new
  exact ⟨hname, hs, hread, htells, fun h => absurd (hnil.1 h) (by decide)⟩

end Diff
end LogPrune
