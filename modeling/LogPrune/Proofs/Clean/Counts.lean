import LogPrune.Proofs.Clean.Again
import LogPrune.Proofs.Scan.Batch
import LogPrune.Report.Listing

/-!
# LogPrune.Proofs.Clean.Counts

What cleaning does to a text as a whole, against what the counters say.

1. Removing a finding only takes characters away, whatever its lines hold by then
   (`terminated_erase`), and so does removing all of them (`terminated_eraseAll`).
   The one that is removed first still stands where it was found, so that
   something is taken away (`size_erase_lt`).
2. Commenting lines out only adds characters (`sublist_commentFindings`).
3. So the counters tell whether a text changes, and a file that is modified has
   findings, with which a listing shows it (`counts_agree`).
-/

namespace LogPrune

/-! ## Parts of texts -/

namespace Text

/-- A part of a text that is not all of it is smaller. -/
theorem size_lt_of_sublist {s t : Text} (h : s.Sublist t) (hne : s ≠ t) : size s < size t := by
  induction h with
  | slnil => contradiction
  | @cons s t c h ih =>
      have hpos := c.utf8Size_pos
      rw [size_cons]
      by_cases heq : s = t
      · rw [heq]; omega
      · have := ih heq; omega
  | @cons_cons s t c h ih =>
      have := ih fun heq => hne (by rw [heq])
      rw [size_cons, size_cons]
      omega

theorem size_le_of_sublist {s t : Text} (h : s.Sublist t) : size s ≤ size t := by
  rcases eq_or_ne s t with rfl | hne
  · exact Nat.le_refl _
  · exact Nat.le_of_lt (size_lt_of_sublist h hne)

/-- A part of a text differs from it exactly when it is smaller. -/
theorem ne_iff_size_lt {s t : Text} (h : s.Sublist t) : s ≠ t ↔ size s < size t :=
  ⟨size_lt_of_sublist h, fun hlt heq => Nat.lt_irrefl _ (heq ▸ hlt)⟩

/-- Joined lines are as large as the lines with newlines behind them but for the
last newline. -/
theorem size_unlines (ls : List Text) : size (unlines ls) = size (terminated ls) - 1 := by
  cases ls with
  | nil => rfl
  | cons l ls =>
      rw [← unlines_append_newline (List.cons_ne_nil l ls), size_append]
      rfl

/-- Lines that are parts of other lines, joined, are a part of those joined. -/
theorem unlines_sublist {ls ms : List Text} (h : (terminated ls).Sublist (terminated ms)) :
    (unlines ls).Sublist (unlines ms) := by
  rcases eq_or_ne ls [] with rfl | hls
  · exact List.nil_sublist _
  · have hms : ms ≠ [] := by
      rintro rfl
      obtain ⟨l, ls, rfl⟩ := List.exists_cons_of_ne_nil hls
      simp at h
    rw [← unlines_append_newline hls, ← unlines_append_newline hms] at h
    exact (List.append_sublist_append_right ['\n']).1 h

/-- Lines each of which is a part of another one. -/
theorem terminated_sublist_of_forall₂ {ls ms : List Text} (h : List.Forall₂ List.Sublist ls ms) :
    (terminated ls).Sublist (terminated ms) := by
  induction h with
  | nil => exact .slnil
  | cons h _ ih =>
      rw [terminated_cons, terminated_cons]
      exact h.append (ih.cons_cons '\n')

/-! ## Lines in their places -/

/-- A line in its place between the lines above it and those below it. -/
theorem exists_append_of_getElem? {lines : List Text} {line : Text} {i : Nat}
    (h : lines[i]? = some line) :
    ∃ above below, lines = above ++ line :: below ∧ above.length = i := by
  obtain ⟨hlt, rfl⟩ := List.getElem?_eq_some_iff.1 h
  refine ⟨lines.take i, lines.drop (i + 1), ?_, List.length_take_of_le (Nat.le_of_lt hlt)⟩
  rw [← List.drop_eq_getElem_cons hlt, List.take_append_drop]

/-- Lines between those above them and those below them. -/
theorem exists_append_append {lines : List Text} {i j : Nat} (hij : i ≤ j) (hj : j ≤ lines.length) :
    ∃ above covered below, lines = above ++ covered ++ below ∧ above.length = i ∧
      above.length + covered.length = j := by
  refine ⟨lines.take i, (lines.drop i).take (j - i), (lines.drop i).drop (j - i), ?_, ?_, ?_⟩
  · rw [List.append_assoc, List.take_append_drop, List.take_append_drop]
  · rw [List.length_take]; omega
  · rw [List.length_take, List.length_take, List.length_drop]; omega

end Text

namespace Finding

variable {f : Finding} {fs : List Finding} {lines : List Text}

/-! ## Removing findings -/

/-- What is left of a line, with a newline behind it, is a part of the line with its
newline. -/
theorem terminated_strip? (f : Finding) (line : Text) :
    (Text.terminated (f.strip? line).toList).Sublist (Text.terminated [line]) := by
  cases hrest : f.strip? line with
  | none => exact List.nil_sublist _
  | some rest =>
      rw [Option.toList_some, Text.terminated_cons, Text.terminated_cons]
      exact (sublist_of_strip? hrest).append (.refl _)

theorem terminated_eraseInLine (f : Finding) (lines : List Text) :
    (Text.terminated (f.eraseInLine lines)).Sublist (Text.terminated lines) := by
  cases hline : lines[f.startLine]? with
  | none => rw [eraseInLine_of_length_le (List.getElem?_eq_none_iff.1 hline)]
  | some line =>
      obtain ⟨above, below, rfl, habove⟩ := Text.exists_append_of_getElem? hline
      rw [eraseInLine_append habove, List.append_cons]
      simp only [Text.terminated_append]
      exact ((terminated_strip? f line).append_left _).append_right _

/-- Lines that are taken out leave the others. -/
theorem eraseLines_sublist (hle : f.startLine ≤ f.endLine) (lines : List Text) :
    (f.eraseLines lines).Sublist lines := by
  rw [eraseLines]
  split
  · next hlt =>
    have hdrop : (lines.drop (min f.endLine (lines.length - 1) + 1)).Sublist
        (lines.drop f.startLine) := List.drop_sublist_drop_left lines (by omega)
    have hall := hdrop.append_left (lines.take f.startLine)
    rwa [List.take_append_drop] at hall
  · exact .refl _

/-- Removing a finding takes characters away only, whatever its lines hold. -/
theorem terminated_erase (hle : f.startLine ≤ f.endLine) (lines : List Text) :
    (Text.terminated (f.erase lines)).Sublist (Text.terminated lines) := by
  rw [erase]
  split
  · exact terminated_eraseInLine f lines
  · exact (eraseLines_sublist hle lines).flatMap _

/-- Removing all findings takes characters away only. -/
theorem terminated_eraseAll (hle : ∀ f ∈ fs, f.startLine ≤ f.endLine) (lines : List Text) :
    (Text.terminated (eraseAll fs lines)).Sublist (Text.terminated lines) := by
  induction fs with
  | nil => exact .refl _
  | cons f fs ih =>
      rw [eraseAll_cons]
      exact (terminated_erase (hle f List.mem_cons_self) _).trans
        (ih fun g hg => hle g (List.mem_cons_of_mem _ hg))

/-! ## The finding that is removed first -/

/-- Removing a finding from the line where it was found makes the line smaller. -/
theorem size_strip?_lt {a b : Text} (htext : f.text ≠ []) (ha : Text.size a = f.startChar)
    (hb : Text.size (a ++ f.text) = f.endChar) :
    Text.size (Text.terminated (f.strip? (a ++ f.text ++ b)).toList) <
      Text.size (Text.terminated [a ++ f.text ++ b]) := by
  have hpos := Text.size_pos htext
  rw [strip?_of_fits ha hb, Text.size_terminated_cons]
  split
  · rw [Option.toList_none, Text.terminated_nil, Text.size_nil]
    omega
  · rw [Option.toList_some, Text.size_terminated_cons]
    simp only [Text.size_append]
    omega

/-- Removing a finding from the lines in which it was found makes them smaller. -/
theorem size_erase_lt (hfits : f.FitsIn lines) (htext : f.text ≠ []) :
    Text.size (Text.terminated (f.erase lines)) < Text.size (Text.terminated lines) := by
  have hle := hfits.line_le
  have hinside := hfits.inside
  rw [erase]
  split
  · next hone =>
    obtain ⟨a, b, hline, ha, hb⟩ := hfits.onLine (by simpa [onOneLine] using hone)
    obtain ⟨above, below, rfl, habove⟩ := Text.exists_append_of_getElem? hline
    have hlt := size_strip?_lt (b := b) htext ha hb
    rw [eraseInLine_append habove, List.append_cons]
    simp only [Text.terminated_append, Text.size_append]
    omega
  · obtain ⟨above, covered, below, rfl, habove, hcovered⟩ :=
      Text.exists_append_append (show f.startLine ≤ f.endLine + 1 by omega) hinside
    have hne : covered ≠ [] := List.ne_nil_of_length_pos (by omega)
    obtain ⟨line, more, rfl⟩ := List.exists_cons_of_ne_nil hne
    rw [eraseLines_append habove hcovered hne]
    simp only [Text.terminated_append, Text.size_append, Text.size_terminated_cons]
    omega

theorem eraseAll_concat (fs : List Finding) (f : Finding) (lines : List Text) :
    eraseAll (fs ++ [f]) lines = eraseAll fs (f.erase lines) := by
  simp [eraseAll]

/-- Removing findings makes the lines smaller if there are any. -/
theorem Orderly.size_eraseAll_lt (h : Orderly lines fs) (hne : fs ≠ []) :
    Text.size (Text.terminated (eraseAll fs lines)) < Text.size (Text.terminated lines) := by
  obtain ⟨gs, f, rfl⟩ := (List.eq_nil_or_concat' fs).resolve_left hne
  have hf : f ∈ gs ++ [f] := List.mem_append_right _ List.mem_cons_self
  have hle : ∀ g ∈ gs, g.startLine ≤ g.endLine :=
    fun g hg => (h.fits g (List.mem_append_left _ hg)).line_le
  rw [eraseAll_concat]
  exact Nat.lt_of_le_of_lt (Text.size_le_of_sublist (terminated_eraseAll hle _))
    (size_erase_lt (h.fits f hf) (h.text_ne_nil hf))

/-- A text with a finding is not empty. -/
theorem FitsIn.ne_nil {t : Text} (h : f.FitsIn t.lines) (htext : f.text ≠ []) : t ≠ [] := by
  rintro rfl
  have hle := h.line_le
  have hinside : f.endLine < 1 := h.inside
  obtain ⟨a, b, hline, -⟩ := h.onLine (by omega)
  rw [show f.startLine = 0 by omega] at hline
  have hnil : [] = a ++ f.text ++ b := Option.some.inj hline
  exact htext (by simp_all)

/-- A text from which findings are removed is another one. -/
theorem unlines_eraseAll_ne {t : Text} (h : Orderly t.lines fs) (hne : fs ≠ []) :
    .unlines (eraseAll fs t.lines) ≠ t := by
  intro heq
  obtain ⟨f, gs, rfl⟩ := List.exists_cons_of_ne_nil hne
  have hf : f ∈ f :: gs := List.mem_cons_self
  have hlt := h.size_eraseAll_lt hne
  have hpos := Text.size_pos ((h.fits f hf).ne_nil (h.text_ne_nil hf))
  have hsize := Text.size_unlines t.lines
  have hsize' := congrArg Text.size heq
  rw [Text.size_unlines] at hsize'
  rw [Text.unlines_lines] at hsize
  omega

end Finding

/-! ## Commenting out -/

/-- A line that is commented out is still there. -/
theorem sublist_commentOut (opener closer line : Text) :
    line.Sublist (commentOut opener closer line) := by
  rw [commentOut_eq]
  conv_lhs => rw [← Text.body_append_ending line]
  refine List.Sublist.append ?_ (.refl _)
  rw [List.append_assoc]
  exact (List.sublist_append_left _ _).trans (List.sublist_append_right _ _)

/-- Commenting lines out adds characters only. -/
theorem sublist_commentFindings (language : String) (fs : List Finding) (lines : List Text) :
    List.Forall₂ List.Sublist lines (commentFindings language fs lines) := by
  refine List.forall₂_iff_get.2 ⟨(length_commentFindings language fs lines).symm, ?_⟩
  intro i hi hi'
  have hline := getElem?_commentFindings language fs lines i
  rw [List.getElem?_eq_getElem hi, List.getElem?_eq_getElem hi', Option.map_some] at hline
  rw [List.get_eq_getElem, List.get_eq_getElem, Option.some.inj hline]
  split
  · exact sublist_commentOut _ _ _
  · exact .refl _

/-! ## Texts and their counters -/

/-- What cleaning in a mode makes of a text, and what the counters say about it. -/
def Cleaned.AgreesWith (r : Cleaned) (content : Text) : Mode → Prop
  | .delete => r.newContent.Sublist content ∧
      (r.newContent ≠ content ↔ Text.size r.newContent < Text.size content) ∧
      (r.newContent ≠ content ↔ r.findings ≠ []) ∧
      r.removed = r.findings.length ∧ r.commented = 0
  | .comment => content.Sublist r.newContent ∧
      (r.newContent ≠ content ↔ Text.size content < Text.size r.newContent) ∧
      (r.newContent ≠ content ↔ 0 < r.commented) ∧
      r.removed = 0 ∧ r.commented ≤ r.findings.length
  | .preview => r.newContent = content ∧ r.removed = 0 ∧ r.commented = 0

variable {content : Text} {language : String} {config : Config} {cleaned : Cleaned}

theorem kept_add_findings (h : clean? content language config = some cleaned) :
    cleaned.kept + cleaned.findings.length = (findingsIn content language config).length := by
  rw [eq_cleanFindings_of_clean? h, findings_cleanFindings]
  have hkept : (cleanFindings content language config.mode
      (findingsIn content language config)).kept =
        ((findingsIn content language config).filter (·.keep)).length := by
    unfold cleanFindings
    split <;> rfl
  rw [hkept]
  exact (List.length_eq_length_filter_add Finding.keep).symm

theorem agreesWith_delete (h : clean? content language config = some cleaned)
    (hmode : config.mode = .delete) : cleaned.AgreesWith content .delete := by
  have horderly := orderly_of_clean? h
  have hnew : cleaned.newContent =
      .unlines (Finding.eraseAll cleaned.findings content.lines) := by
    rw [newContent_of_delete h hmode, horderly.eraseAll_eq]
  have hle : ∀ f ∈ cleaned.findings, f.startLine ≤ f.endLine :=
    fun f hf => (horderly.fits f hf).line_le
  have hsub : cleaned.newContent.Sublist content := by
    conv_rhs => rw [← Text.unlines_lines content]
    rw [hnew]
    exact Text.unlines_sublist (Finding.terminated_eraseAll hle _)
  have hfindings : cleaned.newContent ≠ content ↔ cleaned.findings ≠ [] := by
    rw [hnew]
    refine ⟨fun hne hnil => hne ?_, Finding.unlines_eraseAll_ne horderly⟩
    rw [hnil]
    exact Text.unlines_lines content
  have hcounts : cleaned.removed = cleaned.findings.length ∧ cleaned.commented = 0 := by
    rw [eq_cleanFindings_of_clean? h, hmode]
    exact ⟨rfl, rfl⟩
  exact ⟨hsub, Text.ne_iff_size_lt hsub, hfindings, hcounts⟩

theorem agreesWith_comment (h : clean? content language config = some cleaned)
    (hmode : config.mode = .comment) : cleaned.AgreesWith content .comment := by
  have hsub : content.Sublist cleaned.newContent := by
    rw [← Text.unlines_lines cleaned.newContent, lines_of_comment h hmode]
    conv_lhs => rw [← Text.unlines_lines content]
    exact Text.unlines_sublist
      (Text.terminated_sublist_of_forall₂ (sublist_commentFindings ..))
  have hsize : cleaned.newContent ≠ content ↔
      Text.size content < Text.size cleaned.newContent :=
    ne_comm.trans (Text.ne_iff_size_lt hsub)
  have hcommented : cleaned.newContent ≠ content ↔ 0 < cleaned.commented :=
    (newContent_eq_self_iff h hmode).not.trans Nat.pos_iff_ne_zero.symm
  have hremoved : cleaned.removed = 0 := by
    rw [eq_cleanFindings_of_clean? h, hmode]
    rfl
  refine ⟨hsub, hsize, hcommented, hremoved, ?_⟩
  rw [commented_of_comment h hmode]
  exact List.length_filter_le ..

theorem agreesWith_of_clean? (h : clean? content language config = some cleaned) :
    cleaned.AgreesWith content config.mode := by
  cases hmode : config.mode with
  | delete => exact agreesWith_delete h hmode
  | comment => exact agreesWith_comment h hmode
  | preview =>
      rw [eq_cleanFindings_of_clean? h, hmode]
      exact ⟨rfl, rfl, rfl⟩

/-- A text changes exactly when something is counted. -/
theorem Cleaned.AgreesWith.ne_iff {mode : Mode} (h : cleaned.AgreesWith content mode) :
    cleaned.newContent ≠ content ↔ 0 < cleaned.removed + cleaned.commented := by
  cases mode with
  | delete =>
      obtain ⟨-, -, hfindings, hremoved, hcommented⟩ := h
      rw [hfindings, hremoved, hcommented, Nat.add_zero, List.length_pos_iff]
  | comment =>
      obtain ⟨-, -, hne, hremoved, -⟩ := h
      rw [hne, hremoved, Nat.zero_add]
  | preview =>
      obtain ⟨hsame, hremoved, hcommented⟩ := h
      simp [hsame, hremoved, hcommented]

/-- A text changes only if there are findings. -/
theorem Cleaned.AgreesWith.findings_ne_nil {mode : Mode} (h : cleaned.AgreesWith content mode)
    (hne : cleaned.newContent ≠ content) : cleaned.findings ≠ [] := by
  cases mode with
  | delete => exact h.2.2.1.1 hne
  | comment =>
      obtain ⟨-, -, hcommented, -, hle⟩ := h
      exact List.ne_nil_of_length_pos (Nat.lt_of_lt_of_le (hcommented.1 hne) hle)
  | preview => exact absurd h.1 hne

/-! ## Files and their counters -/

namespace FileReport

/-- The counters of a report tell whether the file is modified, and where it is there
are findings. -/
structure Accounted (r : FileReport) : Prop where
  modified_iff : r.error = none → (r.modified ↔ 0 < r.affected)
  findings : r.modified → r.findings ≠ []

theorem Accounted.failed {r : FileReport} (h : r.Accounted) (e : Error) :
    (r.failed e).Accounted :=
  ⟨fun herror => absurd herror (Option.some_ne_none _), h.findings⟩

/-- A write that is refused is an error, and changes no counter. -/
theorem Accounted.write {r : FileReport} (h : r.Accounted) (d : Disk) :
    (write d r).1.Accounted := by
  unfold FileReport.write
  split
  · split
    · exact h
    · exact h.failed _
  · exact h

/-- A file with nothing to report is not modified. -/
theorem accounted_of_not_modified {r : FileReport} (h : r.modified = false)
    (haffected : r.affected = 0) : r.Accounted :=
  ⟨fun _ => by simp [h, haffected], by simp [h]⟩

theorem accounted_ofContent (c : Config) (p : FilePath) (content : Text) (language : String) :
    (ofContent c p content language).Accounted := by
  unfold ofContent
  cases h : clean? content language c with
  | none => exact (accounted_of_not_modified rfl rfl).failed _
  | some cleaned =>
      have hagrees := agreesWith_of_clean? h
      exact ⟨fun _ => bne_iff_ne.trans hagrees.ne_iff,
        fun hmodified => hagrees.findings_ne_nil (bne_iff_ne.1 hmodified)⟩

theorem accounted_scan (d : Disk) (c : Config) (p : FilePath) : (scan d c p).Accounted := by
  unfold scan
  split
  · exact (accounted_of_not_modified rfl rfl).failed _
  · split
    · exact (accounted_of_not_modified rfl rfl).failed _
    · exact accounted_ofContent ..

theorem accounted_clean (d : Disk) (c : Config) (p : FilePath) : (clean d c p).1.Accounted := by
  rw [clean_eq]
  exact (accounted_scan d c p).write d

/-- A file with findings is listed under a heading of its own. -/
theorem heading_prefix_listing {r : FileReport} (hfindings : r.findings ≠ [])
    (herror : r.error = none) (base : FilePath) (showDiff : Bool) :
    (r.heading (r.path.display base)).toList <+: r.listing base showDiff := by
  have hempty : r.findings.isEmpty = false := by simpa using hfindings
  simp only [listing, herror, hempty, Bool.false_eq_true, if_false, List.append_assoc]
  exact List.prefix_append ..

/-- A file with findings is listed, with its heading or with what went wrong. -/
theorem listing_ne_nil {r : FileReport} (hfindings : r.findings ≠ []) (base : FilePath)
    (showDiff : Bool) : r.listing base showDiff ≠ [] := by
  cases herror : r.error with
  | none =>
      intro hnil
      have hheading := heading_prefix_listing hfindings herror base showDiff
      rw [hnil, List.prefix_nil] at hheading
      simp [heading] at hheading
  | some message => simp [listing, herror]

end FileReport

/-- Each statement that is found is kept or reported.  Removing statements takes
characters away, commenting them out adds some, and a text is another one exactly when
statements are counted.  So a file with which nothing went wrong is modified exactly when
some of its statements are counted, and a file that is modified has statements, so that a
listing shows it. -/
theorem counts_agree :
    (∀ (content : Text) (language : String) (config : Config),
      language ∈ Ruleset.supportedLanguages →
      ∃ cleaned, clean? content language config = some cleaned ∧
        cleaned.kept + cleaned.findings.length = (findingsIn content language config).length ∧
        cleaned.AgreesWith content config.mode) ∧
    ∀ (d : Disk) (c : Config) (p : FilePath),
      ∀ r ∈ [FileReport.scan d c p, (FileReport.clean d c p).1],
        (r.error = none → (r.modified ↔ 0 < r.affected)) ∧
        (r.modified → r.findings ≠ [] ∧ ∀ base showDiff, r.listing base showDiff ≠ [] ∧
          (r.error = none →
            (r.heading (r.path.display base)).toList <+: r.listing base showDiff)) := by
  refine ⟨fun content language config hlang => ?_, fun d c p r hr => ?_⟩
  · obtain ⟨cleaned, h⟩ := exists_clean? content config hlang
    exact ⟨cleaned, h, kept_add_findings h, agreesWith_of_clean? h⟩
  · have haccounted : r.Accounted := by
      rcases List.mem_pair.1 hr with rfl | rfl
      · exact FileReport.accounted_scan d c p
      · exact FileReport.accounted_clean d c p
    refine ⟨haccounted.modified_iff, fun hmodified => ?_⟩
    have hfindings := haccounted.findings hmodified
    exact ⟨hfindings, fun base showDiff => ⟨FileReport.listing_ne_nil hfindings base showDiff,
      fun herror => FileReport.heading_prefix_listing hfindings herror base showDiff⟩⟩

/-- Two calls that meet on a line, with all lines removed, and two files of which the
first one cannot be written. -/
theorem counts_agree_calls :
    "javascript" ∈ Ruleset.supportedLanguages ∧
    (∃ cleaned, clean? "console.log(\n 1); console.log(\n 2);\nkeep me\n".toList "javascript"
        { mode := .delete } = some cleaned ∧
      cleaned.kept + cleaned.findings.length = 2 ∧ cleaned.newContent = [] ∧
      cleaned.AgreesWith "console.log(\n 1); console.log(\n 2);\nkeep me\n".toList .delete) ∧
    ((FileReport.clean Workers.halfWritable { mode := .delete } ⟨"a.py"⟩).1.modified ∧
      (FileReport.clean Workers.halfWritable { mode := .delete } ⟨"a.py"⟩).1.findings ≠ []) ∧
    ((FileReport.scan Workers.halfWritable { mode := .delete } ⟨"b.py"⟩).error = none ∧
      (FileReport.scan Workers.halfWritable { mode := .delete } ⟨"b.py"⟩).modified ∧
      0 < (FileReport.scan Workers.halfWritable { mode := .delete } ⟨"b.py"⟩).affected ∧
      (FileReport.scan Workers.halfWritable { mode := .delete } ⟨"b.py"⟩).listing ⟨"."⟩ true ≠ []) := by
  have hlang : "javascript" ∈ Ruleset.supportedLanguages := by decide
  obtain ⟨htexts, hfiles⟩ := counts_agree
  have h : clean? "console.log(\n 1); console.log(\n 2);\nkeep me\n".toList "javascript"
      { mode := .delete } = some
      { newContent := []
        findings := [
          { text := "console.log(\n 1);".toList, startLine := 0, endLine := 1, startChar := 0,
            endChar := 4, description := "JavaScript console.* statements", priority := 10,
            keep := false },
          { text := "console.log(\n 2);".toList, startLine := 1, endLine := 2, startChar := 5,
            endChar := 4, description := "JavaScript console.* statements", priority := 10,
            keep := false }]
        kept := 0, removed := 2, commented := 0 } := by cbv
  obtain ⟨cleaned, hcleaned, -, hagrees⟩ := htexts
    "console.log(\n 1); console.log(\n 2);\nkeep me\n".toList "javascript" { mode := .delete } hlang
  obtain rfl := Option.some.inj (hcleaned.symm.trans h)
  obtain ⟨-, hlisted⟩ := hfiles Workers.halfWritable { mode := .delete } ⟨"a.py"⟩ _
    (List.mem_cons_of_mem _ List.mem_cons_self)
  have hrefused : (FileReport.clean Workers.halfWritable { mode := .delete } ⟨"a.py"⟩).1.modified := by
    rw [FileReport.clean_eq, Workers.modified_write]
    exact Workers.modified_halfWritable.1
  obtain ⟨hiff, hlisted'⟩ := hfiles Workers.halfWritable { mode := .delete } ⟨"b.py"⟩ _
    List.mem_cons_self
  have hmodified := Workers.modified_halfWritable.2
  have herror := Workers.error_of_modified hmodified
  exact ⟨hlang, ⟨_, h, rfl, rfl, hagrees⟩, ⟨hrefused, (hlisted hrefused).1⟩, herror, hmodified,
    (hiff herror).1 hmodified, ((hlisted' hmodified).2 ⟨"."⟩ true).1⟩

end LogPrune
