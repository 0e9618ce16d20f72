import LogPrune.Proofs.Checked.Position
import LogPrune.Proofs.Finding.Ranking

/-!
# LogPrune.Proofs.Checked.Finding

Finding the log statements of a text by offsets, with every access checked.

Here a candidate is a span between two offsets.  Its text is sliced out of the content
where it is needed, its length is the difference of the offsets, and its places are
looked up among the starts of the lines.  None of this goes wrong, for any rules and
any text, and what is found are the findings (`findings_eq_ok`): the spans are those
of the candidates, each of which stands in the text.
-/

namespace LogPrune
namespace Checked

/-! ## Markers -/

/-- Whether the line with an index exists and it or the line above it carries a
marker. -/
def isProtected (tags : List String) (lines : List Text) (i : Nat) : Checked Bool :=
  match lines[i]? with
  | none => return false
  | some line =>
    if carriesMarker tags line then return true
    else if 0 < i then do
      let above ← get lines (← sub i 1)
      return carriesMarker tags above
    else return false

/-- Whether any line from one index through another is protected. -/
def isProtectedRange (tags : List String) (lines : List Text) (first last : Nat) : Checked Bool :=
  (List.range' first (last + 1 - first)).anyM (isProtected tags lines)

theorem isProtected_eq_ok (tags : List String) (lines : List Text) (i : Nat) :
    isProtected tags lines i = .ok (LogPrune.isProtected tags lines i) := by
  rw [isProtected, LogPrune.isProtected]
  cases hline : lines[i]? with
  | none => rfl
  | some line =>
      cases hmarker : carriesMarker tags line with
      | true => simp [hmarker]
      | false =>
          by_cases hpos : 0 < i
          · have hlen := (List.getElem?_eq_some_iff.1 hline).1
            have habove := List.getElem?_eq_getElem (show i - 1 < lines.length by omega)
            simp [hpos, hmarker, sub_eq_ok hpos, get_eq_ok habove, habove]
          · simp [hpos, hmarker]

/-- Lines that do not exist are not protected. -/
theorem any_isProtected (tags : List String) (lines : List Text) (first last : Nat) :
    (List.range' first (last + 1 - first)).any (LogPrune.isProtected tags lines) =
      LogPrune.isProtectedRange tags lines first last := by
  rw [LogPrune.isProtectedRange, Bool.eq_iff_iff, List.any_eq_true, List.any_eq_true]
  refine exists_congr fun i => and_congr_left fun hprotected => ?_
  have hlen : i < lines.length := by
    by_contra hge
    rw [LogPrune.isProtected, List.getElem?_eq_none (Nat.le_of_not_lt hge)] at hprotected
    contradiction
  rw [List.mem_range'_1, List.mem_range'_1]
  omega

theorem isProtectedRange_eq_ok (tags : List String) (lines : List Text) (first last : Nat) :
    isProtectedRange tags lines first last =
      .ok (LogPrune.isProtectedRange tags lines first last) := by
  rw [isProtectedRange, anyM_eq_ok fun i _ => isProtected_eq_ok tags lines i, any_isProtected]

/-! ## Spans -/

/-- Where a rule hits a text. -/
structure Span where
  start : Nat
  stop : Nat
  rule : Rule

/-- The span of a hit, without the blanks at its end. -/
def Span.ofHit (rule : Rule) (h : Hit) : Span :=
  ⟨h.start, h.start + Text.size (Text.trimEnd h.text), rule⟩

/-- Whether a span is a candidate: it is not empty, and the filter of its rule lets
its text pass. -/
def Span.counts (content : Text) (s : Span) : Checked Bool :=
  if s.start < s.stop then do
    let text ← slice s.start s.stop content
    return s.rule.accepts text
  else return false

/-- A span and its length. -/
def Span.measure (s : Span) : Checked (Span × Nat) := do
  let length ← sub s.stop s.start
  return (s, length)

/-- Whether a span may stand before another one in the ranking. -/
def Span.ranksBefore (a b : Span × Nat) : Bool :=
  a.1.start < b.1.start
    || (a.1.start = b.1.start && (b.2 < a.2
      || (a.2 = b.2 && b.1.rule.priority ≤ a.1.rule.priority)))

/-- Whether a marker protects a span from one line through another. -/
def Span.keep (tags : List String) (lines : List Text) (s : Span) (first last : Nat) :
    Checked Bool :=
  if s.rule.heedsMarkers then isProtectedRange tags lines first last else return false

/-- The finding of a span. -/
def Span.finding (content : Text) (tags : List String) (starts : List Nat) (lines : List Text)
    (s : Span) : Checked Finding := do
  let text ← slice s.start s.stop content
  let (startLine, startChar) ← position starts s.start
  let (endLine, lastChar) ← position starts (← sub s.stop 1)
  let keep ← s.keep tags lines startLine endLine
  return {
    text, startLine, endLine, startChar, endChar := lastChar + 1
    description := s.rule.description, priority := s.rule.priority, keep }

/-- The findings of ranked spans, given how far the last one before them reaches. -/
def sweep (finding : Span → Checked Finding) (covered : Nat) : List Span → Checked (List Finding)
  | [] => return []
  | s :: ss =>
    if s.start < covered then sweep finding covered ss
    else do
      let f ← finding s
      let fs ← sweep finding s.stop ss
      return f :: fs

/-- The log statements of a text, in order. -/
def findings (content : Text) (rules : List Rule) (tags : List String) :
    Checked (List Finding) := do
  let hits := rules.flatMap fun rule => (rule.pattern.hits content).map (Span.ofHit rule)
  let spans ← hits.filterM (Span.counts content)
  let measured ← spans.mapM Span.measure
  let ranked := (measured.mergeSort Span.ranksBefore).map (·.1)
  sweep (Span.finding content tags (lineStarts content) content.lines) 0 ranked

end Checked

/-! ## Spans of candidates -/

namespace Candidate

/-- The hits of a rule without the blanks at their ends, whether they are candidates or
not. -/
def trimmed (content : Text) (rule : Rule) : List Candidate :=
  (rule.pattern.hits content).map fun h => ⟨h.start, Text.trimEnd h.text, rule⟩

theorem all_eq_filter_trimmed (content : Text) (rules : List Rule) :
    all content rules =
      (rules.flatMap (trimmed content)).filter fun c => c.text ≠ [] && c.rule.accepts c.text := by
  rw [all_eq_filter, List.filter_flatMap]
  refine congrArg (fun candidates => rules.flatMap candidates) (funext fun rule => ?_)
  refine List.filter_congr fun c hc => ?_
  obtain ⟨hit, -, rfl⟩ := List.mem_map.1 hc
  rfl

/-- The span of a candidate. -/
def span (c : Candidate) : Checked.Span := ⟨c.start, c.stop, c.rule⟩

variable {content : Text} {c : Candidate}

/-- The text of a candidate is found between its offsets. -/
theorem slice_span (h : c.StandsIn content) :
    Checked.slice c.span.start c.span.stop content = .ok c.text := by
  obtain ⟨a, b, rfl, ha⟩ := h
  rw [span, stop, ha]
  exact Checked.slice_append a c.text b

/-- A span is empty only if its text is. -/
theorem span_lt_iff : c.span.start < c.span.stop ↔ c.text ≠ [] := by
  rw [span, stop]
  constructor
  · intro hlt hnil
    rw [hnil] at hlt
    simp at hlt
  · exact fun hne => Nat.lt_add_of_pos_right (Text.size_pos hne)

theorem counts_span (h : c.StandsIn content) :
    c.span.counts content = .ok (c.text ≠ [] && c.rule.accepts c.text) := by
  rw [Checked.Span.counts]
  by_cases hne : c.text = []
  · rw [if_neg (by simp [span_lt_iff, hne])]
    simp [hne]
  · rw [if_pos (span_lt_iff.2 hne), slice_span h]
    simp [hne, span]

theorem measure_span (c : Candidate) : c.span.measure = .ok (c.span, Text.size c.text) := by
  have hle : c.start ≤ c.stop := Nat.le_add_right ..
  have hsize : c.stop - c.start = Text.size c.text := Nat.add_sub_cancel_left ..
  rw [Checked.Span.measure, span, Checked.sub_eq_ok hle, hsize]
  rfl

/-- The finding of a span is that of its candidate. -/
theorem finding_span (tags : List String) (h : c.StandsIn content) (hne : c.text ≠ []) :
    c.span.finding content tags (Checked.lineStarts content) content.lines =
      .ok (Finding.ofCandidate tags content.lines (content.lines.map Text.size) c) := by
  have hpos : 1 ≤ c.span.stop := by
    have := span_lt_iff.2 hne
    omega
  have hkeep : ∀ first last, c.span.keep tags content.lines first last =
      .ok (c.rule.heedsMarkers && isProtectedRange tags content.lines first last) := by
    intro first last
    rw [Checked.Span.keep, Checked.isProtectedRange_eq_ok, span]
    cases c.rule.heedsMarkers <;> rfl
  simp only [Checked.Span.finding, slice_span h, Checked.sub_eq_ok hpos,
    Checked.position_lineStarts, hkeep, Checked.ok_bind]
  rfl

/-- A sweep over spans accepts those of the candidates accepted. -/
theorem sweep_span {finding : Checked.Span → Checked Finding} {value : Candidate → Finding}
    {cs : List Candidate} (h : ∀ c ∈ cs, finding c.span = .ok (value c)) (covered : Nat) :
    Checked.sweep finding covered (cs.map span) = .ok ((accepted covered cs).map value) := by
  induction cs generalizing covered with
  | nil => rfl
  | cons c cs ih =>
      have ih := ih fun d hd => h d (List.mem_cons_of_mem _ hd)
      rw [List.map_cons, Checked.sweep, accepted]
      by_cases hcovered : c.start < covered
      · rw [if_pos hcovered, if_pos (show c.span.start < covered from hcovered), ih]
      · rw [if_neg hcovered, if_neg (show ¬ c.span.start < covered from hcovered),
          h c List.mem_cons_self, Checked.ok_bind, ih]
        rfl

end Candidate

namespace Checked

/-- The spans that count are those of the candidates. -/
theorem filterM_counts (content : Text) (rules : List Rule) :
    (rules.flatMap fun rule => (rule.pattern.hits content).map (Span.ofHit rule)).filterM
        (Span.counts content) = .ok ((Candidate.all content rules).map Candidate.span) := by
  have hspans : (rules.flatMap fun rule => (rule.pattern.hits content).map (Span.ofHit rule)) =
      (rules.flatMap (Candidate.trimmed content)).map Candidate.span := by
    rw [List.map_flatMap]
    refine congrArg (fun spans => rules.flatMap spans) (funext fun rule => ?_)
    rw [Candidate.trimmed, List.map_map]
    rfl
  rw [hspans, Candidate.all_eq_filter_trimmed]
  refine filterM_map_eq_ok fun c hc => Candidate.counts_span ?_
  obtain ⟨rule, -, hc⟩ := List.mem_flatMap.1 hc
  obtain ⟨hit, hhit, rfl⟩ := List.mem_map.1 hc
  exact Candidate.standsIn_of_mem_hits hhit

/-- The log statements of a text are found without an access going wrong. -/
theorem findings_eq_ok (content : Text) (rules : List Rule) (tags : List String) :
    findings content rules tags = .ok (Finding.all content rules tags) := by
  have hmeasured : ((Candidate.all content rules).map Candidate.span).mapM Span.measure =
      .ok ((Candidate.all content rules).map fun c => (c.span, Text.size c.text)) := by
    rw [List.mapM_map]
    exact mapM_eq_ok fun c _ => Candidate.measure_span c
  have hranked : (((Candidate.all content rules).map fun c => (c.span, Text.size c.text)).mergeSort
      Span.ranksBefore).map (·.1) =
        ((Candidate.all content rules).mergeSort Candidate.ranksBefore).map Candidate.span := by
    rw [← List.map_mergeSort (r := Candidate.ranksBefore), List.map_map]
    · rfl
    · exact fun a _ b _ => rfl
  simp only [findings, filterM_counts, hmeasured, hranked, ok_bind]
  rw [Candidate.sweep_span]
  · rfl
  · intro c hc
    have hmem : c ∈ Candidate.all content rules := List.mem_mergeSort.1 hc
    obtain ⟨s, x, htext, -⟩ := Candidate.endsSolid_of_mem_all hmem
    exact Candidate.finding_span tags (Candidate.standsIn_of_mem_all hmem) (by simp [htext])

end Checked
end LogPrune
