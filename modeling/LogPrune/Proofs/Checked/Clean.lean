import LogPrune.Proofs.Checked.Finding
import LogPrune.Proofs.Clean.Found

/-!
# LogPrune.Proofs.Checked.Clean

Cleaning a text with every access checked.

A finding is removed by the numbers that its lines had at first, from lines that may
have been shortened or removed since.  So each access is guarded: a line is looked up
before it is edited, its characters are compared before they are cut out, and the last
line to be taken out is one that is left.  With these guards nothing goes wrong for any
finding and any lines (`eraseInLine_eq_ok`, `erase_eq_ok`, `commentLine_eq_ok`), and
so cleaning does not for any text (`checked_eq_ok`).
-/

namespace LogPrune
namespace Checked

/-! ## Removing -/

/-- A line without the statement on it: cut out where it was found, or else where its
text first occurs. -/
def cutFrom (f : Finding) (line : Text) : Checked Text :=
  match Text.slice? f.startChar f.endChar line with
  | some part =>
    if part = f.text then do
      let start ← before f.startChar line
      let rest ← after f.endChar line
      return start ++ rest
    else return Text.eraseFirst f.text line
  | none => return Text.eraseFirst f.text line

/-- Lines without a statement on one line. -/
def eraseInLine (f : Finding) (lines : List Text) : Checked (List Text) :=
  match lines[f.startLine]? with
  | none => return lines
  | some line =>
    if f.fills line then remove lines f.startLine
    else do
      let rest ← cutFrom f line
      if isLeftover rest then remove lines f.startLine else put lines f.startLine rest

/-- Lines without a statement. -/
def erase (f : Finding) (lines : List Text) : Checked (List Text) :=
  if f.startLine = f.endLine then eraseInLine f lines
  else if f.startLine < lines.length then do
    let last ← sub lines.length 1
    drain lines f.startLine (min f.endLine last)
  else return lines

theorem cutFrom_eq_ok (f : Finding) (line : Text) : cutFrom f line = .ok (f.cutFrom line) := by
  rw [cutFrom, Finding.cutFrom]
  cases hslice : Text.slice? f.startChar f.endChar line with
  | none => cases Text.cut? f.startChar line <;> rfl
  | some part =>
      obtain ⟨a, b, rfl, hcut, hcut'⟩ := Text.cuts_of_slice? hslice
      have hbefore : before f.startChar (a ++ part ++ b) = .ok a := by rw [before, hcut]
      have hafter : after f.endChar (a ++ part ++ b) = .ok b := by rw [after, hcut']
      simp only [hcut, hcut', hbefore, hafter, ok_bind]
      split <;> rfl

/-- A statement is removed from any line without an access going wrong. -/
theorem eraseInLine_eq_ok (f : Finding) (lines : List Text) :
    eraseInLine f lines = .ok (f.eraseInLine lines) := by
  rw [eraseInLine, Finding.eraseInLine]
  cases hline : lines[f.startLine]? with
  | none => rfl
  | some line =>
      have hlt := (List.getElem?_eq_some_iff.1 hline).1
      simp only [remove_eq_ok hlt, put_eq_ok hlt, cutFrom_eq_ok, ok_bind]
      split
      · rfl
      · split <;> rfl

/-- A statement is removed from any lines without an access going wrong. -/
theorem erase_eq_ok {f : Finding} (hle : f.startLine ≤ f.endLine) (lines : List Text) :
    erase f lines = .ok (f.erase lines) := by
  rw [erase, Finding.erase, Finding.onOneLine]
  by_cases hone : f.startLine = f.endLine
  · simp [hone, eraseInLine_eq_ok]
  · rw [if_neg hone, if_neg (show ¬ decide (f.startLine = f.endLine) by simpa using hone),
      Finding.eraseLines]
    by_cases hlt : f.startLine < lines.length
    · rw [if_pos hlt, if_pos hlt, sub_eq_ok (by omega), ok_bind,
        drain_eq_ok (by omega) (by omega)]
    · rw [if_neg hlt, if_neg hlt]
      rfl

theorem eraseAll_eq_ok {fs : List Finding} (hle : ∀ f ∈ fs, f.startLine ≤ f.endLine)
    (lines : List Text) :
    fs.reverse.foldlM (fun lines f => erase f lines) lines = .ok (Finding.eraseAll fs lines) :=
  foldlM_eq_ok (fun lines f hf => erase_eq_ok (hle f (List.mem_reverse.1 hf)) lines) lines

/-! ## Commenting out -/

/-- Comments out the line with an index, if there is one and it has not been commented
out. -/
def commentLine (opener closer : Text) (s : CommentedLines) (i : Nat) :
    Checked CommentedLines :=
  if i < s.lines.length then
    if s.done.contains i then return s
    else do
      let line ← get s.lines i
      let lines ← put s.lines i (commentOut opener closer line)
      return ⟨lines, i :: s.done⟩
  else return s

/-- Comments out the lines of a statement that is no comment itself. -/
def commentFinding (opener closer : Text) (s : CommentedLines) (f : Finding) :
    Checked CommentedLines :=
  if isComment f.text then return s
  else (List.range' f.startLine (f.endLine + 1 - f.startLine)).foldlM (commentLine opener closer) s

theorem commentLine_eq_ok (opener closer : Text) (s : CommentedLines) (i : Nat) :
    commentLine opener closer s i = .ok (s.commentLine opener closer i) := by
  rw [commentLine, CommentedLines.commentLine]
  cases hline : s.lines[i]? with
  | none =>
      have hge := List.getElem?_eq_none_iff.1 hline
      rw [if_neg (Nat.not_lt.2 hge)]
      rfl
  | some line =>
      have hlt := (List.getElem?_eq_some_iff.1 hline).1
      simp only [hlt, get_eq_ok hline, put_eq_ok hlt, ok_bind, if_true]
      split <;> rfl

theorem commentFinding_eq_ok (opener closer : Text) (s : CommentedLines) (f : Finding) :
    commentFinding opener closer s f =
      .ok (if !isComment f.text then s.commentFinding opener closer f else s) := by
  rw [commentFinding, CommentedLines.commentFinding,
    foldlM_eq_ok fun s i _ => commentLine_eq_ok opener closer s i]
  cases isComment f.text <;> rfl

theorem commentAll_eq_ok (opener closer : Text) (fs : List Finding) (s : CommentedLines) :
    fs.reverse.foldlM (commentFinding opener closer) s =
      .ok ((liveFindings fs).reverse.foldl (CommentedLines.commentFinding opener closer) s) := by
  rw [foldlM_eq_ok fun s f _ => commentFinding_eq_ok opener closer s f, ← List.foldl_filter,
    List.filter_reverse]
  rfl

/-! ## Cleaning -/

/-- Whether a statement may be edited before another one: it starts at the same place
or further down. -/
def editsBefore (f g : Finding) : Bool :=
  g.startLine < f.startLine || (g.startLine = f.startLine && g.startChar ≤ f.startChar)

theorem editsBefore_total (f g : Finding) : editsBefore f g || editsBefore g f := by
  simp only [editsBefore, Bool.or_eq_true, Bool.and_eq_true, decide_eq_true_eq]
  omega

theorem editsBefore_trans (f g h : Finding) (hfg : editsBefore f g) (hgh : editsBefore g h) :
    editsBefore f h := by
  simp only [editsBefore, Bool.or_eq_true, Bool.and_eq_true, decide_eq_true_eq] at *
  omega

/-- Of two findings of a text the lower one is edited first. -/
theorem editsBefore_iff {f g : Finding} {lines : List Text} (hfits : f.FitsIn lines)
    (htext : f.text ≠ []) (h : f.Before g) : editsBefore g f ∧ ¬ editsBefore f g := by
  have hle := hfits.line_le
  have hline := h.line_le
  have hchar := h.char_le
  have hlt := hfits.startChar_lt htext
  simp only [editsBefore, Bool.or_eq_true, Bool.and_eq_true, decide_eq_true_eq]
  omega

/-- The findings of a text are edited from the last one up. -/
theorem mergeSort_editsBefore {fs : List Finding} {lines : List Text}
    (h : Finding.Orderly lines fs) : fs.mergeSort editsBefore = fs.reverse := by
  have hreverse : fs.reverse.Pairwise (editsBefore · ·) :=
    List.pairwise_reverse.2 (h.before.imp_of_mem fun hf _ hbefore =>
      (editsBefore_iff (h.fits _ hf) (h.text_ne_nil hf) hbefore).1)
  have hsorted : (fs.mergeSort editsBefore).Pairwise (editsBefore · ·) :=
    List.pairwise_mergeSort editsBefore_trans editsBefore_total fs
  have hperm : (fs.mergeSort editsBefore).Perm fs.reverse :=
    (List.mergeSort_perm fs _).trans (List.reverse_perm fs).symm
  refine List.Perm.eq_of_pairwise ?_ hsorted hreverse hperm
  intro f g hf hg hfg hgf
  have hf := List.mem_mergeSort.1 hf
  have hg := List.mem_reverse.1 hg
  by_contra hne
  rcases Finding.before_or_before h.before hf hg hne with hbefore | hbefore
  · exact (editsBefore_iff (h.fits f hf) (h.text_ne_nil hf) hbefore).2 hfg
  · exact (editsBefore_iff (h.fits g hg) (h.text_ne_nil hg) hbefore).2 hgf

/-- A text cleaned of the statements found in it. -/
def cleanFindings (content : Text) (language : String) (mode : Mode) (all : List Finding) :
    Checked Cleaned :=
  let findings := all.filter (!·.keep)
  let kept := (all.filter (·.keep)).length
  let ordered := findings.mergeSort editsBefore
  match mode with
  | .delete => do
    let lines ← ordered.foldlM (fun lines f => erase f lines) content.lines
    return { newContent := .unlines lines, findings, kept, removed := ordered.length, commented := 0 }
  | .comment => do
    let s ← ordered.foldlM
      (commentFinding (commentOpener language).toList (commentCloser language).toList)
      ⟨content.lines, []⟩
    let commented := (ordered.filter fun f => !isComment f.text).length
    return { newContent := .unlines s.lines, findings, kept, removed := 0, commented }
  | .preview => return { newContent := content, findings, kept, removed := 0, commented := 0 }

/-- A text in a language cleaned as configured, if the language has rules. -/
def clean? (content : Text) (language : String) (config : Config) : Checked (Option Cleaned) :=
  match Ruleset.forLanguage? language with
  | none => return none
  | some ruleset => do
    let all ← findings content (ruleset.rules config) config.whitelistTags
    let cleaned ← cleanFindings content language config.mode all
    return some cleaned

/-- The findings of a text are acted on without an access going wrong. -/
theorem cleanFindings_eq_ok {content : Text} {all : List Finding}
    (h : Finding.Orderly content.lines (all.filter (!·.keep))) (language : String) (mode : Mode) :
    cleanFindings content language mode all =
      .ok (LogPrune.cleanFindings content language mode all) := by
  have hordered := mergeSort_editsBefore h
  cases mode with
  | delete =>
      have herase := eraseAll_eq_ok (fun f hf => (h.fits f hf).line_le) content.lines
      simp only [cleanFindings, hordered, herase, ok_bind, List.length_reverse]
      rfl
  | comment =>
      simp only [cleanFindings, hordered, commentAll_eq_ok, ok_bind, List.filter_reverse,
        List.length_reverse]
      rfl
  | preview => rfl

/-- A text is cleaned without an access going wrong. -/
theorem clean?_eq_ok (content : Text) (language : String) (config : Config) :
    clean? content language config = .ok (LogPrune.clean? content language config) := by
  rw [clean?, LogPrune.clean?]
  cases hlang : Ruleset.forLanguage? language with
  | none => rfl
  | some ruleset =>
      have horderly : Finding.Orderly content.lines
          ((Finding.all content (ruleset.rules config) config.whitelistTags).filter (!·.keep)) :=
        Finding.orderly_of_sublist_all
          (fun r hr => Ruleset.wellFormed_of_forLanguage? hlang hr) List.filter_sublist
      simp only [findings_eq_ok, cleanFindings_eq_ok horderly, ok_bind]
      rfl

/-- No access goes wrong: when the place of an offset is looked up, when a marker is
looked for, when the statements of a text are found, when one of them is removed from
lines of whatever text, and when a text is cleaned. -/
theorem checked_eq_ok :
    (∀ (content : Text) (offset : Nat), position (lineStarts content) offset =
      .ok (Text.locate (content.lines.map Text.size) offset)) ∧
    (∀ (tags : List String) (lines : List Text) (i : Nat),
      isProtected tags lines i = .ok (LogPrune.isProtected tags lines i)) ∧
    (∀ (content : Text) (rules : List Rule) (tags : List String),
      findings content rules tags = .ok (Finding.all content rules tags)) ∧
    (∀ (f : Finding) (lines : List Text), eraseInLine f lines = .ok (f.eraseInLine lines)) ∧
    ∀ (content : Text) (language : String) (config : Config),
      clean? content language config = .ok (LogPrune.clean? content language config) :=
  ⟨position_lineStarts, isProtected_eq_ok, findings_eq_ok, eraseInLine_eq_ok, clean?_eq_ok⟩

end Checked
end LogPrune
