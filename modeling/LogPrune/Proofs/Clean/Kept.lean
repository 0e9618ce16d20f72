import LogPrune.Proofs.Clean.Comment
import LogPrune.Proofs.Clean.Frame

/-!
# LogPrune.Proofs.Clean.Kept

What cleaning does to the statements that a marker protects.

Removing and commenting out are revisions of the text, character by character
(`revise_removal`, `revise_marking`).  A kept statement survives when nothing of
it is removed and nothing is put into it, and statements that survive are found
in their order afterwards (`Laid.holdsInOrder`).

No statement that is acted on stands on a protected line, so a kept statement on
one line is out of reach, strays apart.  One over several lines need not be: its
first and its last line may carry other statements when the marker is on
another one.  `SafeIn` says when these do no harm.
-/

namespace LogPrune
namespace Finding

open Text (NoLater advance revise terminated)

variable {f g k : Finding} {fs ks : List Finding} {lines : List Text} {i : Nat}

/-! ## Kept and other findings -/

/-- Between the first and the last line of a finding no other one stands. -/
theorem not_covers_inside (h : f.Before k ∨ k.Before f) (hs : k.startLine < i)
    (he : i < k.endLine) : f.covers i = false := by
  rcases h with h | h
  · have := h.line_le
    exact not_covers_of_gt (by omega)
  · have := h.line_le
    exact not_covers_of_lt (by omega)

/-- A range of lines is protected when one of its lines is. -/
theorem isProtectedRange_iff {tags : List String} {first last : Nat} :
    isProtectedRange tags lines first last ↔
      ∃ i, first ≤ i ∧ i ≤ last ∧ i < lines.length ∧ isProtected tags lines i := by
  rw [isProtectedRange, List.any_eq_true]
  constructor
  · rintro ⟨i, hi, hprotected⟩
    have := List.mem_range'_1.1 hi
    exact ⟨i, by omega, by omega, by omega, hprotected⟩
  · rintro ⟨i, hfirst, hlast, hlen, hprotected⟩
    exact ⟨i, List.mem_range'_1.2 (by omega), hprotected⟩

/-- A finding that is not kept does not stand on the line of one that is kept
and stands on one line. -/
theorem not_covers_kept {tags : List String}
    (hf : f.keep = isProtectedRange tags lines f.startLine f.endLine)
    (hk : k.keep = isProtectedRange tags lines k.startLine k.endLine)
    (hkeep : k.keep) (hnot : f.keep = false) (hone : k.onOneLine) :
    f.covers k.startLine = false := by
  have hon : k.startLine = k.endLine := by simpa [onOneLine] using hone
  obtain ⟨i, hfirst, hlast, hlen, hprotected⟩ := isProtectedRange_iff.1 (hk ▸ hkeep)
  obtain rfl : i = k.startLine := by omega
  rw [Bool.eq_false_iff]
  intro hcovers
  simp only [covers, Bool.and_eq_true, decide_eq_true_eq] at hcovers
  have hprotected := isProtectedRange_iff.2 ⟨_, hcovers.1, hcovers.2, hlen, hprotected⟩
  rw [← hf, hnot] at hprotected
  contradiction

/-! ## Surviving a revision -/

/-- Whether a revision leaves the text of a finding in one piece: all that it
may do is to put something in front of it. -/
def Survives (edit : Nat × Nat → Char → Text) (k : Finding) : Prop :=
  ∃ s, revise edit k.startPlace k.text = s ++ k.text

/-- Findings that survive a revision of the text are found in it afterwards. -/
theorem Laid.holdsInOrder {p : Nat × Nat} {t : Text} (h : Laid p t ks)
    {edit : Nat × Nat → Char → Text}
    (hsurvive : ∀ k ∈ ks, k.endPlace = advance k.startPlace k.text → k.Survives edit) :
    Text.HoldsInOrder (ks.map (·.text)) (revise edit p t) := by
  induction ks generalizing p t with
  | nil => trivial
  | cons k ks ih =>
      obtain ⟨gap, rest, rfl, hs, he, hrest⟩ := h
      have hplaces : k.endPlace = advance k.startPlace k.text := by
        rw [he, hs, Text.advance_append]
      obtain ⟨s, hk⟩ := hsurvive k List.mem_cons_self hplaces
      refine ⟨revise edit p gap ++ s, revise edit k.endPlace rest, ?_, ?_⟩
      · rw [Text.revise_append, Text.revise_append, ← hs, hk, ← he]
        simp
      · rw [he]
        exact ih hrest fun k hk => hsurvive k (List.mem_cons_of_mem _ hk)

/-! ## Removing as a revision -/

/-- The revision that removing findings amounts to.  Lines that are not strays
are cut or go; what becomes of a stray is put in the place of its first
character. -/
def removal (lines : List Text) (fs : List Finding) (q : Nat × Nat) (c : Char) : Text :=
  if Stray lines fs q.1 then
    if q.2 = 0 then (erased? lines fs q.1).elim [] (· ++ ['\n']) else []
  else if remnant? lines fs q.1 = none then [] else cutOut fs q c

/-- What is left of a line is what cutting the findings on it out leaves. -/
theorem eq_revise_of_cutLine? {line rest : Text} (hline : '\n' ∉ line)
    (h : cutLine? fs i line = some rest) : rest = revise (cutOut fs) (i, 0) line := by
  rw [cutLine?] at h
  split at h
  · contradiction
  · split at h
    · simp only at h
      split at h
      · contradiction
      · exact (Option.some.inj h).symm
    · next hone =>
      rw [revise_cutOut_eq_self hline]
      · exact (Option.some.inj h).symm
      · intro g hg hg1 hgi
        exact absurd (List.any_eq_true.2 ⟨g, hg, by simp [hg1, hgi]⟩) hone

/-- No finding holds the newline behind a line. -/
theorem cutOut_newline (h : ∀ f ∈ fs, f.FitsIn lines) {line : Text}
    (hline : lines[i]? = some line) (c : Char) : cutOut fs (i, Text.size line) c = [c] := by
  have hholds : (fs.any (·.holds (i, Text.size line))) = false := by
    refine List.any_eq_false.2 fun f hf hhold => ?_
    simp only [holds, Bool.and_eq_true, decide_eq_true_eq] at hhold
    obtain ⟨⟨⟨hone, rfl⟩, -⟩, hlt⟩ := hhold
    obtain ⟨a, b, hget, -, hend⟩ := (h f hf).onLine (by simpa [onOneLine] using hone)
    rw [hline] at hget
    have hsize := congrArg Text.size (Option.some.inj hget)
    rw [Text.size_append, hend] at hsize
    omega
  simp [cutOut, hholds]

/-- What becomes of a stray comes out of its first character. -/
theorem revise_removal_of_stray {line : Text} (hline : '\n' ∉ line) (hstray : Stray lines fs i) :
    revise (removal lines fs) (i, 0) (line ++ ['\n']) =
      (erased? lines fs i).elim [] (· ++ ['\n']) := by
  obtain ⟨c, cs, hcs⟩ := List.exists_cons_of_ne_nil (show line ++ ['\n'] ≠ [] by simp)
  have hrest : revise (removal lines fs) (advance (i, 0) [c]) cs = [] := by
    apply Text.revise_eq_nil
    intro q d _ hle hlt
    have hadv : advance (i, 0) (line ++ ['\n']) = advance (advance (i, 0) [c]) cs := by
      rw [hcs, ← Text.advance_append]; rfl
    rw [← hadv] at hlt
    have hfirst : NoLater (i, 0) q := (Text.noLater_advance _ _).trans hle
    obtain ⟨hq, -⟩ := Text.mem_terminated_line hline hfirst hlt
    have hne : q.2 ≠ 0 := by
      intro h0
      have hq0 : q = (i, 0) := Prod.ext hq h0
      rw [hq0] at hle
      exact Text.not_noLater_advance (i, 0) c [] hle
    rw [removal, hq, if_pos hstray, if_neg hne]
  rw [hcs, revise, hrest, List.append_nil, removal, if_pos hstray, if_pos rfl]

/-- Of any other line comes out what cutting the findings on it out leaves. -/
theorem revise_removal_of_not_stray (hfits : ∀ f ∈ fs, f.FitsIn lines) {line : Text}
    (hline : '\n' ∉ line) (hget : lines[i]? = some line) (hstray : ¬ Stray lines fs i) :
    revise (removal lines fs) (i, 0) (line ++ ['\n']) =
      (remnant? lines fs i).elim [] (· ++ ['\n']) := by
  cases hleft : remnant? lines fs i with
  | none =>
      apply Text.revise_eq_nil
      intro q d _ hle hlt
      obtain ⟨hq, -⟩ := Text.mem_terminated_line hline hle hlt
      rw [removal, hq, if_neg hstray, if_pos hleft]
  | some rest =>
      have hcut : revise (removal lines fs) (i, 0) (line ++ ['\n']) =
          revise (cutOut fs) (i, 0) (line ++ ['\n']) := by
        apply Text.revise_congr
        intro q d _ hle hlt
        obtain ⟨hq, -⟩ := Text.mem_terminated_line hline hle hlt
        rw [removal, hq, if_neg hstray, if_neg (by simp [hleft])]
      rw [remnant?, hget, Option.bind_some] at hleft
      rw [hcut, Text.revise_append, ← eq_revise_of_cutLine? hline hleft,
        Text.advance_of_not_mem _ hline, Nat.zero_add, revise, cutOut_newline hfits hget]
      rfl

/-- Removing findings is a revision of the text. -/
theorem Orderly.revise_removal (h : Orderly lines fs) :
    revise (removal lines fs) (0, 0) (terminated lines) =
      terminated ((List.range lines.length).filterMap (erased? lines fs)) := by
  rw [List.range_eq_range']
  apply Text.revise_terminated h.noNewline
  intro i line hget
  rw [Nat.zero_add]
  have hline : '\n' ∉ line := h.noNewline line (List.mem_of_getElem? hget)
  by_cases hstray : Stray lines fs i
  · exact revise_removal_of_stray hline hstray
  · rw [h.erased?_eq_remnant? hstray]
    exact revise_removal_of_not_stray h.fits hline hget hstray

/-- A finding survives the removal of others when its lines are no strays, are
left, and hold none of the others in its place. -/
theorem survives_removal (hplaces : k.endPlace = advance k.startPlace k.text)
    (hbefore : ∀ f ∈ fs, f.Before k ∨ k.Before f)
    (hstray : ∀ i, k.covers i → ¬ Stray lines fs i)
    (hleft : ∀ i, k.covers i → (remnant? lines fs i).isSome) :
    k.Survives (removal lines fs) := by
  refine ⟨[], Text.revise_eq_self ?_⟩
  intro q c _ hle hlt
  rw [← hplaces] at hlt
  have hcovers := covers_of_noLater hle hlt
  have hholds : (fs.any (·.holds q)) = false := by
    refine List.any_eq_false.2 fun f hf hhold => ?_
    simp only [holds, onOneLine, Bool.and_eq_true, decide_eq_true_eq] at hhold
    have := hbefore f hf
    simp only [Before, NoLater, startPlace, endPlace] at this hle hlt
    omega
  have hne : remnant? lines fs q.1 ≠ none := by
    have := hleft q.1 hcovers
    intro hnone
    rw [hnone] at this
    contradiction
  rw [removal, if_neg (hstray q.1 hcovers), if_neg hne, cutOut, if_neg (by simp [hholds])]

/-! ## Commenting out as a revision -/

/-- What commenting findings out puts in front of the character at a place: the
opener at the start of a line, and the closer behind its body. -/
def marking (opener closer : Text) (lines : List Text) (live : List Finding) (q : Nat × Nat) :
    Text :=
  if live.any (·.covers q.1) then
    (if q.2 = 0 then opener else []) ++
      (lines[q.1]?.elim [] fun line => if q.2 = Text.size line.body then closing closer line else [])
  else []

/-- What commenting findings out makes of a line. -/
def commented? (opener closer : Text) (lines : List Text) (live : List Finding) (i : Nat) :
    Option Text :=
  lines[i]?.map fun line =>
    if live.any (·.covers i) then commentOut opener closer line else line

/-- A line and the newline behind it, with the insertions of a comment. -/
theorem revise_marking_line {opener closer line : Text} {live : List Finding}
    (hline : '\n' ∉ line) (hget : lines[i]? = some line) (hcovers : live.any (·.covers i)) :
    revise (fun q c => marking opener closer lines live q ++ [c]) (i, 0) (line ++ ['\n']) =
      commentOut opener closer line ++ ['\n'] := by
  obtain ⟨e, he, hcomment⟩ := Text.exists_append_of_body line
  have hnew : '\n' ∉ line.body ∧ '\n' ∉ e := by
    rw [he, List.mem_append, not_or] at hline
    exact hline
  have hmark : ∀ k, marking opener closer lines live (i, k) = (if k = 0 then opener else []) ++
      if k = Text.size line.body then closing closer line else [] := by
    intro k
    rw [marking, if_pos hcovers, hget]
    rfl
  -- behind the body, only its end is a place where something is inserted
  have hend : revise (fun q c => marking opener closer lines live q ++ [c])
      (i, Text.size line.body) (e ++ ['\n']) =
        marking opener closer lines live (i, Text.size line.body) ++ (e ++ ['\n']) := by
    apply Text.revise_insert (by simp)
    intro q hle hlt hne
    obtain ⟨hq, hsize⟩ := Text.mem_terminated_line hnew.2 hle hlt
    have hgt : q.2 ≠ Text.size line.body := fun h => hne (Prod.ext hq h)
    rw [show q = (i, q.2) from Prod.ext hq rfl, hmark, if_neg (by omega), if_neg hgt]
    rfl
  rw [hcomment]
  conv_lhs => rw [he]
  rw [List.append_assoc, Text.revise_append, Text.advance_of_not_mem _ hnew.1, Nat.zero_add, hend]
  by_cases hbody : line.body = []
  · rw [hbody, Text.size_nil, hmark, hbody, if_pos rfl, Text.size_nil, if_pos rfl]
    simp [revise]
  · have hpos := Text.size_pos hbody
    have hstart : revise (fun q c => marking opener closer lines live q ++ [c]) (i, 0) line.body =
        marking opener closer lines live (i, 0) ++ line.body := by
      apply Text.revise_insert hbody
      intro q hle hlt hne
      obtain ⟨hq, -, hhigh⟩ := (Text.mem_line_iff hnew.1).1 ⟨hle, hlt⟩
      have hgt : q.2 ≠ 0 := fun h => hne (Prod.ext hq h)
      rw [show q = (i, q.2) from Prod.ext hq rfl, hmark, if_neg hgt, if_neg (by omega)]
      rfl
    rw [hstart, hmark, hmark, if_pos rfl, if_neg (by omega), if_neg (by omega), if_pos rfl]
    simp

/-- Commenting findings out is a revision of the text. -/
theorem revise_marking (hlines : ∀ l ∈ lines, '\n' ∉ l) (opener closer : Text)
    (live : List Finding) :
    revise (fun q c => marking opener closer lines live q ++ [c]) (0, 0) (terminated lines) =
      terminated ((List.range lines.length).filterMap (commented? opener closer lines live)) := by
  rw [List.range_eq_range']
  apply Text.revise_terminated hlines
  intro i line hget
  have hline := hlines line (List.mem_of_getElem? hget)
  rw [Nat.zero_add, commented?, hget, Option.map_some, Option.elim_some]
  by_cases hcovers : live.any (·.covers i)
  · rw [if_pos hcovers, revise_marking_line hline hget hcovers]
  · rw [if_neg hcovers]
    apply Text.revise_eq_self
    intro q c _ hle hlt
    obtain ⟨hq, -⟩ := Text.mem_terminated_line hline hle hlt
    rw [marking, hq, if_neg hcovers, List.nil_append]

/-- A finding survives when no line of it is commented out but the first one,
and no comment is closed there. -/
theorem survives_marking {opener closer : Text} {live : List Finding} (htext : k.text ≠ [])
    (hplaces : k.endPlace = advance k.startPlace k.text)
    (hsafe : ∀ i, k.covers i → live.any (·.covers i) → i = k.startLine ∧
      ∀ line ∈ lines[i]?, closing closer line = []) :
    k.Survives fun q c => marking opener closer lines live q ++ [c] := by
  refine ⟨marking opener closer lines live k.startPlace, Text.revise_insert htext ?_⟩
  intro q hle hlt hne
  rw [← hplaces] at hlt
  have hk := covers_of_noLater hle hlt
  rw [marking]
  split
  · next hcovers =>
    obtain ⟨hq, hclose⟩ := hsafe q.1 hk hcovers
    have hpos : q.2 ≠ 0 := by
      intro h0
      apply hne
      simp only [NoLater, startPlace] at hle
      exact Prod.ext hq (by show q.2 = k.startChar; omega)
    rw [if_neg hpos, List.nil_append]
    cases hline : lines[q.1]? with
    | none => rfl
    | some line =>
        rw [Option.elim_some, hclose line hline]
        split <;> rfl
  · rfl

/-! ## Safety of kept statements -/

/-- When cleaning does a kept finding no harm.  Removing: its lines are no
strays, and of one over several lines the first one and the last one are left.
Commenting out: the last one of several lines is not commented out, and the first
one gets no closer. -/
def SafeIn (mode : Mode) (language : String) (lines : List Text) (fs : List Finding)
    (k : Finding) : Prop :=
  match mode with
  | .delete => (∀ i, k.covers i → ¬ Stray lines fs i) ∧
      (k.onOneLine = false → (remnant? lines fs k.startLine).isSome ∧
        (remnant? lines fs k.endLine).isSome)
  | .comment => k.onOneLine = false →
      (∀ f ∈ liveFindings fs, f.covers k.endLine = false) ∧
      ((∃ f ∈ liveFindings fs, f.covers k.startLine) →
        ∀ line ∈ lines[k.startLine]?, closing (commentCloser language).toList line = [])
  | .preview => True

/-- Findings of a text that are kept, among all findings. -/
structure KeptAmong (all : List Finding) (lines : List Text) (tags : List String)
    (fs : List Finding) (k : Finding) : Prop where
  before : all.Pairwise Before
  keep_eq : ∀ f ∈ all, f.keep = isProtectedRange tags lines f.startLine f.endLine
  mem : k ∈ all
  keep : k.keep
  others : ∀ f ∈ fs, f ∈ all ∧ f.keep = false

variable {all : List Finding} {tags : List String}

theorem KeptAmong.before_or_before (h : KeptAmong all lines tags fs k) (hf : f ∈ fs) :
    f.Before k ∨ k.Before f := by
  obtain ⟨hmem, hnot⟩ := h.others f hf
  apply Finding.before_or_before h.before hmem h.mem
  rintro rfl
  rw [h.keep] at hnot
  contradiction

theorem KeptAmong.not_covers (h : KeptAmong all lines tags fs k) (hone : k.onOneLine)
    (hf : f ∈ fs) : f.covers k.startLine = false := by
  obtain ⟨hmem, hnot⟩ := h.others f hf
  exact not_covers_kept (h.keep_eq f hmem) (h.keep_eq k h.mem) h.keep hnot hone

/-- Kept findings that are safe survive the removal of others. -/
theorem KeptAmong.survives_removal (h : KeptAmong all lines tags fs k) (hfits : k.FitsIn lines)
    (hplaces : k.endPlace = advance k.startPlace k.text)
    (hsafe : SafeIn .delete language lines fs k) : k.Survives (removal lines fs) := by
  obtain ⟨hstray, hends⟩ := hsafe
  apply Finding.survives_removal hplaces (fun f hf => h.before_or_before hf) hstray
  intro i hi
  simp only [covers, Bool.and_eq_true, decide_eq_true_eq] at hi
  have hline : (lines[i]?).isSome := by
    have := hfits.inside
    rw [List.getElem?_eq_getElem (by omega)]
    rfl
  cases hone : k.onOneLine with
  | true =>
      have hon : k.startLine = k.endLine := by simpa [onOneLine] using hone
      obtain rfl : i = k.startLine := by omega
      rwa [remnant?_of_not_covers fun f hf => h.not_covers hone hf]
  | false =>
      obtain ⟨hs, he⟩ := hends hone
      rcases Nat.lt_or_eq_of_le hi.1 with hlt | rfl
      · rcases Nat.lt_or_eq_of_le hi.2 with hlt' | rfl
        · rwa [remnant?_of_not_covers fun f hf =>
            not_covers_inside (h.before_or_before hf) hlt hlt']
        · exact he
      · exact hs

/-- Kept findings that are safe survive the commenting out of others. -/
theorem KeptAmong.survives_marking (h : KeptAmong all lines tags fs k) (htext : k.text ≠ [])
    (hplaces : k.endPlace = advance k.startPlace k.text)
    (hsafe : SafeIn .comment language lines fs k) :
    k.Survives fun q c => marking (commentOpener language).toList (commentCloser language).toList
      lines (liveFindings fs) q ++ [c] := by
  apply Finding.survives_marking htext hplaces
  intro i hi hcovers
  obtain ⟨f, hf, hfi⟩ := List.any_eq_true.1 hcovers
  have hfs : f ∈ fs := (List.mem_filter.1 hf).1
  simp only [covers, Bool.and_eq_true, decide_eq_true_eq] at hi
  cases hone : k.onOneLine with
  | true =>
      have hon : k.startLine = k.endLine := by simpa [onOneLine] using hone
      obtain rfl : i = k.startLine := by omega
      rw [h.not_covers hone hfs] at hfi
      contradiction
  | false =>
      obtain ⟨hend, hstart⟩ := hsafe hone
      rcases Nat.lt_or_eq_of_le hi.1 with hlt | rfl
      · rcases Nat.lt_or_eq_of_le hi.2 with hlt' | rfl
        · rw [not_covers_inside (h.before_or_before hfs) hlt hlt'] at hfi
          contradiction
        · rw [hend f hf] at hfi
          contradiction
      · exact ⟨rfl, hstart ⟨f, hf, hfi⟩⟩

end Finding

/-! ## The kept statements of a cleaned text -/

/-- The statements of a text that a marker protects. -/
def keptFindings (content : Text) (language : String) (config : Config) : List Finding :=
  (Ruleset.forLanguage? language).elim [] fun ruleset =>
    (Finding.all content (ruleset.rules config) config.whitelistTags).filter (·.keep)

/-- A revision of the lines of a text leaves the joined lines that it makes of
them with the findings that survive it, in their order. -/
theorem Finding.Laid.holdsInOrder_unlines {content : Text} {ks : List Finding}
    (h : Finding.Laid (0, 0) content ks) {edit : Nat × Nat → Char → Text} {lines : List Text}
    (hedit : Text.revise edit (0, 0) (Text.terminated content.lines) = Text.terminated lines)
    (hends : ∀ k ∈ ks, ∃ s x, k.text = s ++ [x] ∧ x ≠ '\n')
    (hsurvive : ∀ k ∈ ks, k.endPlace = Text.advance k.startPlace k.text → k.Survives edit) :
    Text.HoldsInOrder (ks.map (·.text)) (Text.unlines lines) := by
  have hcontent : content ++ ['\n'] = Text.terminated content.lines := by
    rw [← Text.unlines_append_newline (Text.lines_ne_nil _), Text.unlines_lines]
  have hholds := (h.append_right ['\n']).holdsInOrder hsurvive
  rw [hcontent, hedit] at hholds
  by_cases hnil : lines = []
  · rw [hnil] at hholds ⊢
    exact hholds
  · rw [← Text.unlines_append_newline hnil] at hholds
    apply hholds.of_append_singleton
    intro part hpart
    obtain ⟨k, hk, rfl⟩ := List.mem_map.1 hpart
    exact hends k hk

/-- Kept statements that cleaning does no harm are found in the cleaned text, in
one piece and in their order. -/
theorem kept_holdsInOrder {content : Text} {language : String} {config : Config}
    {cleaned : Cleaned} (h : clean? content language config = some cleaned)
    (hsafe : ∀ k ∈ keptFindings content language config,
      k.SafeIn config.mode language content.lines cleaned.findings) :
    Text.HoldsInOrder ((keptFindings content language config).map (·.text))
      cleaned.newContent := by
  have horderly := orderly_of_clean? h
  have hdelete := newContent_of_delete h
  obtain ⟨ruleset, hlang, rfl⟩ := exists_ruleset_of_clean? h
  rw [findings_cleanFindings] at horderly hdelete hsafe
  have hkept : keptFindings content language config =
      (Finding.all content (ruleset.rules config) config.whitelistTags).filter (·.keep) := by
    rw [keptFindings, hlang]; rfl
  rw [hkept] at hsafe ⊢
  have hrules : ∀ r ∈ ruleset.rules config, r.WellFormed := fun r hr =>
    Ruleset.wellFormed_of_forLanguage? hlang hr
  generalize hall : Finding.all content (ruleset.rules config) config.whitelistTags = all at *
  have hlaid : Finding.Laid (0, 0) content all := hall ▸ Finding.laid_all ..
  have hks : Finding.Laid (0, 0) content (all.filter (·.keep)) :=
    hlaid.sublist List.filter_sublist
  have hends : ∀ k ∈ all.filter (·.keep), ∃ s x, k.text = s ++ [x] ∧ x ≠ '\n' := by
    intro k hk
    obtain ⟨s, x, htext, hx⟩ := Finding.endsSolid_of_mem_all (hall ▸ (List.mem_filter.1 hk).1)
    refine ⟨s, x, htext, ?_⟩
    rintro rfl
    exact absurd hx (by decide)
  have htext : ∀ k ∈ all.filter (·.keep), k.text ≠ [] := by
    intro k hk
    obtain ⟨s, x, htext, -⟩ := hends k hk
    rw [htext]
    simp
  have hamong : ∀ k ∈ all.filter (·.keep), Finding.KeptAmong all content.lines
      config.whitelistTags (all.filter (!·.keep)) k := by
    intro k hk
    refine ⟨hlaid.pairwise_before, ?_, (List.mem_filter.1 hk).1, (List.mem_filter.1 hk).2, ?_⟩
    · exact fun f hf => Finding.keep_of_mem_all hrules (hall ▸ hf)
    · intro f hf
      obtain ⟨hmem, hnot⟩ := List.mem_filter.1 hf
      exact ⟨hmem, by simpa using hnot⟩
  cases hmode : config.mode with
  | delete =>
      rw [hmode] at hsafe hdelete
      rw [hdelete rfl]
      exact hks.holdsInOrder_unlines horderly.revise_removal hends fun k hk hplaces =>
        (hamong k hk).survives_removal (hlaid.fitsIn (List.mem_filter.1 hk).1) hplaces
          (hsafe k hk)
  | comment =>
      rw [hmode] at hsafe
      have hlines : commentFindings language (all.filter (!·.keep)) content.lines =
          (List.range content.lines.length).filterMap
            (Finding.commented? (commentOpener language).toList (commentCloser language).toList
              content.lines (liveFindings (all.filter (!·.keep)))) := by
        have hlen := length_commentFindings language (all.filter (!·.keep)) content.lines
        rw [← hlen, Finding.filterMap_range_eq_take (Nat.le_refl _), List.take_length]
        intro i _
        rw [getElem?_commentFindings, Finding.commented?]
      show Text.HoldsInOrder _ (Text.unlines (commentFindings language _ content.lines))
      rw [hlines]
      exact hks.holdsInOrder_unlines (Finding.revise_marking horderly.noNewline _ _ _) hends
        fun k hk hplaces => (hamong k hk).survives_marking (htext k hk) hplaces (hsafe k hk)
  | preview =>
      show Text.HoldsInOrder _ content
      have hself : Text.revise (fun _ c => [c]) (0, 0) content = content :=
        Text.revise_eq_self fun _ _ _ _ _ => rfl
      rw [← hself]
      exact hks.holdsInOrder fun k _ _ => ⟨[], Text.revise_eq_self fun _ _ _ _ _ => rfl⟩

/-- Cleaning acts on the findings of a text, and keeps some of them. -/
theorem clean?_of_all {content : Text} (language : String) {config : Config} {ruleset : Ruleset}
    {all : List Finding} (hlang : Ruleset.forLanguage? language = some ruleset)
    (hall : Finding.all content (ruleset.rules config) config.whitelistTags = all) :
    clean? content language config = some (cleanFindings content language config.mode all) ∧
      keptFindings content language config = all.filter (·.keep) := by
  subst hall
  constructor
  · rw [clean?, hlang]; rfl
  · rw [keptFindings, hlang]; rfl

/-- A kept call over several lines, with a call removed below it. -/
theorem kept_holdsInOrder_over_lines :
    ∃ cleaned, clean? "console.log( // @keep\n 1\n);\n\nconsole.log(2);\n".toList "javascript"
        { mode := .delete } = some cleaned ∧
      (∀ k ∈ keptFindings "console.log( // @keep\n 1\n);\n\nconsole.log(2);\n".toList
          "javascript" { mode := .delete },
        k.SafeIn .delete "javascript"
          (Text.lines "console.log( // @keep\n 1\n);\n\nconsole.log(2);\n".toList)
          cleaned.findings) ∧
      Text.HoldsInOrder
        ((keptFindings "console.log( // @keep\n 1\n);\n\nconsole.log(2);\n".toList "javascript"
          { mode := .delete }).map (·.text)) cleaned.newContent := by
  have hall : Finding.all "console.log( // @keep\n 1\n);\n\nconsole.log(2);\n".toList
      (Ruleset.javascript.rules { mode := .delete }) ["@keep", "@preserve"] = [
        { text := "console.log( // @keep\n 1\n);".toList, startLine := 0, endLine := 2,
          startChar := 0, endChar := 2, description := "JavaScript console.* statements",
          priority := 10, keep := true },
        { text := "console.log(2);".toList, startLine := 4, endLine := 4, startChar := 0,
          endChar := 15, description := "JavaScript console.* statements", priority := 10,
          keep := false }] := by cbv
  obtain ⟨h, hkept⟩ := clean?_of_all "javascript" rfl hall
  refine ⟨_, h, (and_iff_left_of_imp fun hsafe => kept_holdsInOrder h hsafe).2 ?_⟩
  rw [hkept]
  intro k hk
  obtain rfl := List.mem_singleton.1 hk
  have hstray : ∀ i, ¬ Finding.Stray _ _ i := fun i =>
    (orderly_of_clean? h).not_stray_of_apart (List.pairwise_singleton ..)
  exact ⟨fun i _ => hstray i, fun _ => ⟨by cbv, by cbv⟩⟩

/-- A kept call over several lines loses its last line to a call that starts
there, and is broken by an opener put in front of that line. -/
theorem kept_call_broken :
    (∃ cleaned, clean? "console.log( // @keep\n 1\n); console.log(2\n);\nfoo();".toList
        "javascript" { mode := .delete } = some cleaned ∧
      ¬ Text.HoldsInOrder
        ((keptFindings "console.log( // @keep\n 1\n); console.log(2\n);\nfoo();".toList
          "javascript" { mode := .delete }).map (·.text)) cleaned.newContent) ∧
    ∃ cleaned, clean? "console.log( // @keep\n 1\n); console.log(2);\nfoo();".toList
        "javascript" { mode := .comment } = some cleaned ∧
      ¬ Text.HoldsInOrder
        ((keptFindings "console.log( // @keep\n 1\n); console.log(2);\nfoo();".toList
          "javascript" { mode := .comment }).map (·.text)) cleaned.newContent := by
  constructor
  · have hall : Finding.all "console.log( // @keep\n 1\n); console.log(2\n);\nfoo();".toList
        (Ruleset.javascript.rules { mode := .delete }) ["@keep", "@preserve"] = [
          { text := "console.log( // @keep\n 1\n);".toList, startLine := 0, endLine := 2,
            startChar := 0, endChar := 2, description := "JavaScript console.* statements",
            priority := 10, keep := true },
          { text := "console.log(2\n);".toList, startLine := 2, endLine := 3, startChar := 3,
            endChar := 2, description := "JavaScript console.* statements", priority := 10,
            keep := false }] := by cbv
    obtain ⟨h, hkept⟩ := clean?_of_all "javascript" rfl hall
    refine ⟨_, h, fun hholds => ?_⟩
    rw [hkept] at hholds
    exact Bool.false_ne_true ((by cbv : _ = false).symm.trans hholds.includes)
  · have hall : Finding.all "console.log( // @keep\n 1\n); console.log(2);\nfoo();".toList
        (Ruleset.javascript.rules { mode := .comment }) ["@keep", "@preserve"] = [
          { text := "console.log( // @keep\n 1\n);".toList, startLine := 0, endLine := 2,
            startChar := 0, endChar := 2, description := "JavaScript console.* statements",
            priority := 10, keep := true },
          { text := "console.log(2);".toList, startLine := 2, endLine := 2, startChar := 3,
            endChar := 18, description := "JavaScript console.* statements", priority := 10,
            keep := false }] := by cbv
    obtain ⟨h, hkept⟩ := clean?_of_all "javascript" rfl hall
    refine ⟨_, h, fun hholds => ?_⟩
    rw [hkept] at hholds
    exact Bool.false_ne_true ((by cbv : _ = false).symm.trans hholds.includes)

end LogPrune
