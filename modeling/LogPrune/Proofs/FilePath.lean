import LogPrune.Disk
import LogPrune.Language
import LogPrune.Proofs.Text.Lines

/-!
# LogPrune.Proofs.FilePath

The name that a path ends in.

Paths are compared by their components but followed by their steps.  Where
the last step is a name, it is the file name of the path too
(`fileName?_of_steps`), so paths that end in one name are in one language
however they are spelled.  The steps of an absolute path of a location are
that location (`steps_absolutePath`).
-/

namespace LogPrune
namespace FilePath

/-! ## Components -/

@[simp] theorem componentOf?_empty : componentOf? "" = none := by decide

@[simp] theorem componentOf?_dot : componentOf? "." = none := by decide

theorem segments_of_isAbsolute {p : FilePath} (h : p.isAbsolute) :
    p.segments = "" :: p.segments.tail := by
  unfold isAbsolute at h
  unfold segments
  cases ht : p.text.toList with
  | nil => simp [ht] at h
  | cons c cs =>
    have hc : c = '/' := by simpa [ht] using h
    simp [Text.pieces, hc]

/-- Behind the root or the leading `.` come the components of all segments. -/
theorem components_eq (p : FilePath) :
    p.components = p.headAndBody.1.toList ++ p.segments.filterMap componentOf? := by
  unfold components headAndBody
  by_cases habs : p.isAbsolute
  · have hseg : p.segments.filterMap componentOf? = p.segments.tail.filterMap componentOf? := by
      rw [segments_of_isAbsolute habs]
      simp
    simp [habs, hseg]
  · simp only [habs, Bool.false_eq_true, if_false]
    split <;> simp [*]

/-- Names are components. -/
theorem componentOf?_of_ne (hempty : s ≠ "") (hdot : s ≠ ".") (hdots : s ≠ "..") :
    componentOf? s = some (.name s) := by
  simp [componentOf?, counts, hempty, hdot, hdots]

/-- The last segment that is not empty is the file name, if it is a name. -/
theorem fileName?_of_segments {p : FilePath}
    (h : (p.segments.filter (· != "")).getLast? = some s) (hdot : s ≠ ".") (hdots : s ≠ "..") :
    p.fileName? = some s := by
  rw [List.getLast?_filter, List.find?_eq_some_iff_append] at h
  obtain ⟨hempty, behind, before, hrev, hbehind⟩ := h
  have hs : componentOf? s = some (.name s) :=
    componentOf?_of_ne (by simpa using hempty) hdot hdots
  have hskip : behind.findSome? componentOf? = none := by
    rw [List.findSome?_eq_none_iff]
    intro t ht
    have : t = "" := by simpa using hbehind t ht
    simp [this]
  have hlast : (p.segments.filterMap componentOf?).getLast? = some (.name s) := by
    rw [List.getLast?_filterMap, hrev, List.findSome?_append, hskip]
    simp [hs]
  unfold fileName?
  rw [components_eq, List.getLast?_append, hlast]
  rfl

theorem isAbsolute_of_name (hslash : '/' ∉ name.toList) : (⟨name⟩ : FilePath).isAbsolute = false := by
  unfold isAbsolute
  cases hname : name.toList with
  | nil => rfl
  | cons c cs =>
    have hc : c ≠ '/' := by
      rintro rfl
      simp [hname] at hslash
    simp [hc]

/-- The name of an entry is a segment behind those of the directory. -/
theorem segments_child (p : FilePath) (hslash : '/' ∉ name.toList) :
    (p.text = "" ∧ (p.child name).segments = [name])
    ∨ (p.text.toList.getLast? = some '/' ∧ ∃ front, p.segments = front ++ [""]
        ∧ (p.child name).segments = front ++ [name])
    ∨ (p.text ≠ "" ∧ p.text.toList.getLast? ≠ some '/'
        ∧ (p.child name).segments = p.segments ++ [name]) := by
  have hname : Text.pieces '/' name.toList = [name.toList] := Text.pieces_of_not_mem hslash
  unfold child join
  rw [isAbsolute_of_name hslash, if_neg (by simp)]
  by_cases hend : p.text.toList.getLast? = some '/'
  · rw [if_pos (by simp [hend])]
    obtain ⟨ps, hps⟩ := List.getLast?_eq_some_iff.1 (Text.getLast?_pieces hend)
    have hpieces := Text.pieces_append hps hname
    exact .inr (.inl ⟨hend, ps.map String.ofList, by simp [segments, hps], by
      simp [segments, hpieces]⟩)
  by_cases hnil : p.text = ""
  · rw [if_pos (by simp [hnil])]
    exact .inl ⟨hnil, by simp [segments, hnil, hname]⟩
  · rw [if_neg (by simp [hend, hnil])]
    have hpieces : Text.pieces '/' (p.text.toList ++ '/' :: name.toList)
        = Text.pieces '/' p.text.toList ++ [name.toList] := by
      obtain ⟨ps, a, hps⟩ := List.eq_nil_or_concat (Text.pieces '/' p.text.toList) |>.resolve_left
        (Text.pieces_ne_nil '/' _)
      have hsep : Text.pieces '/' ('/' :: name.toList) = [] :: [name.toList] := by
        simp [Text.pieces, hname]
      rw [List.concat_eq_append] at hps
      rw [Text.pieces_append hps hsep, hps]
      simp
    exact .inr (.inr ⟨hnil, hend, by simp [segments, hpieces]⟩)

/-- The entry of a directory has the name that it was given. -/
theorem fileName?_child (p : FilePath) (hempty : name ≠ "") (hdot : name ≠ ".")
    (hdots : name ≠ "..") (hslash : '/' ∉ name.toList) : (p.child name).fileName? = some name := by
  obtain ⟨front, hfront⟩ : ∃ front, (p.child name).segments = front ++ [name] := by
    obtain ⟨-, h⟩ | ⟨-, front, -, h⟩ | ⟨-, -, h⟩ := segments_child p hslash
    · exact ⟨[], h⟩
    · exact ⟨front, h⟩
    · exact ⟨p.segments, h⟩
  apply fileName?_of_segments _ hdot hdots
  simp [hfront, hempty]

/-- The path of what stands below a directory, by the names that lead to it. -/
def descend (p : FilePath) (names : List String) : FilePath := names.foldl child p

@[simp] theorem descend_nil (p : FilePath) : p.descend [] = p := rfl

@[simp] theorem descend_cons (p : FilePath) (n : String) (names : List String) :
    p.descend (n :: names) = (p.child n).descend names := rfl

/-- The language of a file depends on its name only. -/
theorem language?_congr {p q : FilePath} (h : p.fileName? = q.fileName?) :
    p.language? = q.language? := by
  simp [language?, extension?, h]

/-! ## Steps -/

theorem getLast?_ne_slash_of_steps {p : FilePath} (h : (Disk.steps p).getLast? = some s)
    (hdot : s ≠ ".") : p.text.toList.getLast? ≠ some '/' := by
  intro hslash
  rw [Disk.steps, if_pos hslash] at h
  simp at h
  exact hdot h.symm

/-- If the last step is a name, it is the file name. -/
theorem fileName?_of_steps {p : FilePath} (h : (Disk.steps p).getLast? = some s)
    (hdot : s ≠ ".") (hdots : s ≠ "..") : p.fileName? = some s := by
  have hslash := getLast?_ne_slash_of_steps h hdot
  rw [Disk.steps, if_neg hslash, List.append_nil] at h
  exact fileName?_of_segments h hdot hdots

/-- A path that does not end in a slash has none to remove. -/
theorem withoutSlash_eq {p : FilePath} (h : p.text.toList.getLast? ≠ some '/') :
    Disk.withoutSlash p = p := by
  unfold Disk.withoutSlash
  have hdrop : p.text.toList.reverse.dropWhile (· = '/') = p.text.toList.reverse := by
    rw [List.getLast?_eq_head?_reverse] at h
    cases hrev : p.text.toList.reverse with
    | nil => rfl
    | cons c cs =>
      have hc : c ≠ '/' := by simpa [hrev] using h
      simp [hc]
  by_cases hnil : p.text.toList = []
  · simp [hnil]
  · simp [hdrop, hnil]

theorem endsInSlash_eq {p : FilePath} (h : p.text.toList.getLast? ≠ some '/') :
    Disk.endsInSlash p = false := by
  simp [Disk.endsInSlash, withoutSlash_eq h]

/-- Removing slashes changes a path only where it ends in one. -/
theorem withoutSlash_of_endsInSlash {p : FilePath} (h : Disk.endsInSlash p = false) :
    Disk.withoutSlash p = p := by
  have htext : (Disk.withoutSlash p).text = p.text := by simpa [Disk.endsInSlash] using h
  cases hp : Disk.withoutSlash p
  cases p
  simp_all

/-! ## Absolute paths -/

theorem toList_absolutePath (l : Location) :
    (Disk.absolutePath l).text.toList = '/' :: Text.glue '/' (l.map String.toList) := by
  simp [Disk.absolutePath, joinSegments, String.toList_intercalate, Text.glue_eq_intercalate]

theorem isAbsolute_child {p : FilePath} (h : p.isAbsolute) (name : String) :
    (p.child name).isAbsolute := by
  have hhead : p.text.toList.head? = some '/' := by simpa [isAbsolute] using h
  cases hp : p.text.toList with
  | nil => simp [hp] at hhead
  | cons c t =>
    have hc : c = '/' := by simpa [hp] using hhead
    unfold child join
    split
    · assumption
    · split <;> simp [isAbsolute, hp, hc]

theorem isAbsolute_absolutePath (l : Location) : (Disk.absolutePath l).isAbsolute := by
  simp [isAbsolute, toList_absolutePath]

/-- The steps of an absolute path are the names it is made of. -/
theorem steps_absolutePath {l : Location} (hne : l ≠ []) (hempty : ∀ n ∈ l, n ≠ "")
    (hslash : ∀ n ∈ l, '/' ∉ n.toList) : Disk.steps (Disk.absolutePath l) = l := by
  have hpieces : Text.pieces '/' (Text.glue '/' (l.map String.toList)) = l.map String.toList := by
    apply Text.pieces_glue
    · simpa using hslash
    · simpa using hne
  have hsegments : (Disk.absolutePath l).segments = "" :: l := by
    simp [segments, toList_absolutePath, Text.pieces, hpieces, Function.comp_def]
  have hlast : (Disk.absolutePath l).text.toList.getLast? ≠ some '/' := by
    intro h
    have hempty' : (l.map String.toList).getLast? = some [] := by
      have := Text.getLast?_pieces h
      rw [toList_absolutePath, Text.pieces, if_pos rfl, hpieces] at this
      rwa [List.getLast?_cons_of_ne_nil (by simpa using hne)] at this
    obtain ⟨n, hn, hnil⟩ := List.mem_map.1 (List.mem_of_getLast? hempty')
    exact hempty n hn (String.toList_eq_nil_iff.1 hnil)
  rw [Disk.steps, hsegments, if_neg hlast]
  simp only [bne_self_eq_false, Bool.false_eq_true, not_false_eq_true, List.filter_cons_of_neg,
    List.append_nil, List.filter_eq_self]
  intro n hn
  simpa using hempty n hn

end FilePath
end LogPrune
