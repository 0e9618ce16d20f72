import LogPrune.Proofs.Disk.Change

/-!
# LogPrune.Proofs.Disk.Spelling

How spellings and locations go together on a disk without links.

1. Where a path leads can be read off its components, whatever the disk holds
   (`LeadsTo.eq_foldl`).  So paths with the same components that lead anywhere
   lead to the same location (`LeadsTo.unique_of_same`).
2. The path of an entry has one more component than that of its directory, and
   leads to the entry (`components_child`, `LeadsTo.child`).
-/

namespace LogPrune

/-- The location that a component leads to. -/
def Component.enter (l : Location) : Component → Location
  | .root => []
  | .here => l
  | .up => l.dropLast
  | .name n => l ++ [n]

namespace Disk

/-- Where a path leads, however long it is. -/
def LeadsTo (d : Disk) (p : FilePath) (l : Location) : Prop :=
  walk d.look (start p d.workingDir) (steps p) = .ok l

theorem leadsTo_of_locate {d : Disk} (h : d.locate p = .ok l) : d.LeadsTo p l :=
  (locate_eq_ok_iff.1 h).2.2.2

theorem LeadsTo.unique {d : Disk} (h : d.LeadsTo p l) (h' : d.LeadsTo p l') : l = l' :=
  Except.ok.inj (h.symm.trans h')

/-! ## Reading locations off -/

theorem eq_foldl_of_walk {look : Location → Option Entry} {segments : List String}
    (hempty : "" ∉ segments) (h : walk look here segments = .ok l) :
    l = (segments.filterMap FilePath.componentOf?).foldl Component.enter here := by
  induction segments generalizing here with
  | nil =>
    rw [walk] at h
    split at h
    · simpa using h.symm
    · contradiction
  | cons s rest ih =>
    have hrest : "" ∉ rest := fun hmem => hempty (List.mem_cons_of_mem s hmem)
    obtain ⟨rfl, h⟩ | ⟨rfl, h⟩ | ⟨⟨hdot, hdots, -⟩, hname⟩ := walk_cons_eq_ok_iff.1 h
    · simpa using ih hrest h
    · simpa [FilePath.componentOf?, Component.enter] using ih hrest h
    · have hs : FilePath.componentOf? s = some (.name s) :=
        FilePath.componentOf?_of_ne (fun hs => hempty (by simp [hs])) hdot hdots
      rw [List.filterMap_cons_some hs, List.foldl_cons, Component.enter]
      obtain ⟨hnil, hl⟩ | ⟨-, -, h⟩ := hname
      · simpa [hnil] using hl.symm
      · exact ih hrest h

/-- The segments that are no components make no difference. -/
theorem filterMap_steps (p : FilePath) :
    (steps p).filterMap FilePath.componentOf? = p.segments.filterMap FilePath.componentOf? := by
  have hfilter : (p.segments.filter (· != "")).filterMap FilePath.componentOf?
      = p.segments.filterMap FilePath.componentOf? := by
    rw [List.filterMap_filter]
    congr 1
    funext s
    by_cases hs : s = "" <;> simp [hs]
  rw [steps, List.filterMap_append, hfilter]
  split <;> simp

/-- Where a path leads can be read off its components. -/
theorem LeadsTo.eq_foldl {d : Disk} (h : d.LeadsTo p l) :
    l = p.components.foldl Component.enter d.workingDir := by
  have hempty : "" ∉ steps p := by
    unfold steps
    split <;> simp
  rw [eq_foldl_of_walk hempty h, filterMap_steps, FilePath.components_eq, List.foldl_append]
  congr 1
  unfold start FilePath.headAndBody
  by_cases habs : p.isAbsolute
  · simp [habs, Component.enter]
  · rw [if_neg habs, if_neg habs]
    split <;> simp [Component.enter]

/-- Spellings of one path that lead anywhere lead to the same location. -/
theorem LeadsTo.unique_of_same {d : Disk} (h : d.LeadsTo p l) (h' : d.LeadsTo q l')
    (hsame : p.components = q.components) : l = l' := by
  rw [h.eq_foldl, h'.eq_foldl, hsame]

/-! ## Entries -/

theorem head_eq (p : FilePath) : p.headAndBody.1
    = if p.isAbsolute then some .root
      else if p.segments.head? = some "." then some .here else none := by
  unfold FilePath.headAndBody
  split
  · rfl
  · split
    · next h => simp [h]
    · next h =>
      rw [if_neg]
      intro hhead
      obtain ⟨rest, hrest⟩ := List.head?_eq_some_iff.1 hhead
      exact h rest hrest

/-- An entry's path starts as that of its directory does. -/
theorem isAbsolute_child {p : FilePath} (hp : p.text ≠ "") (hslash : '/' ∉ n.toList) :
    (p.child n).isAbsolute = p.isAbsolute := by
  obtain ⟨c, t, ht⟩ : ∃ c t, p.text.toList = c :: t :=
    List.exists_cons_of_ne_nil (by simpa using hp)
  unfold FilePath.child FilePath.join
  rw [FilePath.isAbsolute_of_name hslash, if_neg (by simp)]
  split <;> simp [FilePath.isAbsolute, ht]

theorem head_child (p : FilePath) (hn : Dir.isName n) :
    (p.child n).headAndBody.1 = p.headAndBody.1 := by
  obtain ⟨-, hdot, -, -, hslash, -⟩ := Dir.isName_iff.1 hn
  have hhead : ∀ {front rest}, front ≠ [] → p.segments = front ++ rest →
      (p.child n).segments = front ++ [n] → (p.child n).segments.head? = p.segments.head? := by
    intro front rest hne hp hchild
    obtain ⟨s, front, rfl⟩ := List.exists_cons_of_ne_nil hne
    simp [hp, hchild]
  rw [head_eq, head_eq]
  obtain ⟨hnil, h⟩ | ⟨hlast, front, hp, h⟩ | ⟨hne, -, h⟩ := p.segments_child hslash
  · have hp : p.segments = [""] := by simp [FilePath.segments, hnil, Text.pieces]
    have habs : p.isAbsolute = false := by simp [FilePath.isAbsolute, hnil]
    have habs' : (p.child n).isAbsolute = false := by
      have hchild : p.child n = ⟨n⟩ := by
        simp [FilePath.child, FilePath.join, FilePath.isAbsolute_of_name hslash, hnil]
      rw [hchild, FilePath.isAbsolute_of_name hslash]
    simp [habs, habs', h, hp, hdot]
  · have hfront : front ≠ [] := by
      rintro rfl
      have hpieces : Text.pieces '/' p.text.toList = [[]] := by
        simpa [FilePath.segments, String.ext_iff] using hp
      have hnil : p.text.toList = [] := by
        simpa [hpieces, Text.glue] using (Text.glue_pieces '/' p.text.toList).symm
      simp [hnil] at hlast
    have hne : p.text ≠ "" := by
      rintro hnil
      simp [hnil] at hlast
    rw [isAbsolute_child hne hslash, hhead hfront hp h]
  · have hfront : p.segments ≠ [] := by simp [FilePath.segments, Text.pieces_ne_nil]
    rw [isAbsolute_child hne hslash, hhead hfront (List.append_nil _).symm h]

theorem components_child (p : FilePath) (hn : Dir.isName n) :
    (p.child n).components = p.components ++ [.name n] := by
  obtain ⟨hempty, hdot, hdots, -, hslash, -⟩ := Dir.isName_iff.1 hn
  have hname := FilePath.componentOf?_of_ne hempty hdot hdots
  rw [FilePath.components_eq, FilePath.components_eq, head_child p hn, List.append_assoc]
  congr 1
  obtain ⟨hnil, h⟩ | ⟨-, front, hp, h⟩ | ⟨-, -, h⟩ := p.segments_child hslash
  · have hp : p.segments = [""] := by simp [FilePath.segments, hnil, Text.pieces]
    simp [h, hp, hname]
  · simp [h, hp, hname]
  · simp [h, hname]

theorem components_descend (p : FilePath) {names : List String}
    (hnames : ∀ n ∈ names, Dir.isName n) :
    (p.descend names).components = p.components ++ names.map .name := by
  induction names generalizing p with
  | nil => simp
  | cons n names ih =>
    rw [FilePath.descend_cons, ih _ fun m hm => hnames m (List.mem_cons_of_mem n hm),
      components_child p (hnames n List.mem_cons_self)]
    simp

/-- A name leads from a directory to its place there. -/
theorem walk_name {look : Location → Option Entry} (hn : Dir.isName n) (here : Location) :
    walk look here [n] = .ok (here ++ [n]) := by
  obtain ⟨-, hdot, hdots, hshort, -, -⟩ := Dir.isName_iff.1 hn
  exact walk_cons_eq_ok_iff.2 (.inr (.inr ⟨⟨hdot, hdots, hshort⟩, .inl ⟨rfl, rfl⟩⟩))

/-- A walk to a directory, whose last step may be a `.`, goes on to the entries
of the directory. -/
theorem walk_append_name {look : Location → Option Entry} {here : Location}
    {front tail : List String} (htail : tail = [] ∨ tail = ["."])
    (h : walk look here (front ++ tail) = .ok l) (hl : look l = some .dir) (hn : Dir.isName n) :
    walk look here (front ++ [n]) = .ok (l ++ [n]) := by
  induction front generalizing here with
  | nil =>
    have hhere : walk look here [] = .ok l := by
      obtain rfl | rfl := htail
      · exact h
      · simpa [walk] using h
    rw [walk] at hhere
    split at hhere
    · cases hhere
      exact walk_name hn _
    · contradiction
  | cons s rest ih =>
    rw [List.cons_append, walk_cons_eq_ok_iff] at h ⊢
    obtain ⟨hdot, h⟩ | ⟨hdots, h⟩ | ⟨hs, ⟨hnil, rfl⟩ | ⟨-, hdir, h⟩⟩ := h
    · exact .inl ⟨hdot, ih h⟩
    · exact .inr (.inl ⟨hdots, ih h⟩)
    · -- the last step before the name
      obtain ⟨rfl, -⟩ := List.append_eq_nil_iff.1 hnil
      exact .inr (.inr ⟨hs, .inr ⟨by simp, hl, walk_name hn _⟩⟩)
    · exact .inr (.inr ⟨hs, .inr ⟨by simp, hdir, ih h⟩⟩)

theorem text_child (p : FilePath) (hslash : '/' ∉ n.toList) :
    ∃ front, (p.child n).text = front ++ n := by
  unfold FilePath.child FilePath.join
  rw [FilePath.isAbsolute_of_name hslash, if_neg (by simp)]
  split
  · exact ⟨p.text, rfl⟩
  · exact ⟨p.text ++ "/", rfl⟩

/-- The steps to an entry are those to its directory and one more, but for a `.`
that stands for a slash. -/
theorem steps_child {p : FilePath} (hp : p.text ≠ "") (hn : Dir.isName n) :
    ∃ front tail, (tail = [] ∨ tail = ["."]) ∧ steps p = front ++ tail
      ∧ steps (p.child n) = front ++ [n] := by
  obtain ⟨hempty, -, -, -, hslash, -⟩ := Dir.isName_iff.1 hn
  have hlast : (p.child n).text.toList.getLast? ≠ some '/' := by
    obtain ⟨front, hfront⟩ := text_child p hslash
    obtain ⟨c, hc⟩ : ∃ c, n.toList.getLast? = some c :=
      Option.isSome_iff_exists.1 (by simpa using hempty)
    rintro h
    obtain rfl : c = '/' := by simpa [hfront, hc] using h
    exact hslash (List.mem_of_getLast? hc)
  obtain ⟨hnil, -⟩ | ⟨hend, front, hp, h⟩ | ⟨-, hend, h⟩ := p.segments_child hslash
  · contradiction
  · exact ⟨front.filter (· != ""), ["."], .inr rfl, by simp [steps, hend, hp], by
      simp [steps, hlast, h, hempty]⟩
  · exact ⟨p.segments.filter (· != ""), [], .inl rfl, by simp [steps, hend], by
      simp [steps, hlast, h, hempty]⟩

/-- The path of an entry of a directory leads to the entry. -/
theorem LeadsTo.child {d : Disk} (h : d.LeadsTo p l) (hp : p.text ≠ "") (hl : d.look l = some .dir)
    (hn : Dir.isName n) : d.LeadsTo (p.child n) (l ++ [n]) := by
  obtain ⟨-, -, -, -, hslash, -⟩ := Dir.isName_iff.1 hn
  obtain ⟨front, tail, htail, hsteps, hsteps'⟩ := steps_child hp hn
  have hstart : start (p.child n) d.workingDir = start p d.workingDir := by
    rw [start, start, isAbsolute_child hp hslash]
  rw [LeadsTo, hstart, hsteps']
  rw [LeadsTo, hsteps] at h
  exact walk_append_name htail h hl hn

/-- So does the path of what stands further below. -/
theorem LeadsTo.descend {d : Disk} (hd : d.Plain) {names : List String} (h : d.LeadsTo p l)
    (hp : p.text ≠ "") (hl : d.look (l ++ names) ≠ none) :
    d.LeadsTo (p.descend names) (l ++ names) := by
  induction names generalizing p l with
  | nil => simpa using h
  | cons n names ih =>
    have hdir : d.look l = some .dir := Dir.look_above hl (by simp)
    have hn : Dir.isName n := isName_of_look hd hl n (by simp)
    have hne : (p.child n).text ≠ "" := by
      obtain ⟨hempty, -, -, -, hslash, -⟩ := Dir.isName_iff.1 hn
      obtain ⟨front, hfront⟩ := text_child p hslash
      simp [hfront, hempty]
    rw [List.append_cons l n names] at hl ⊢
    exact ih (h.child hp hdir hn) hne hl

end Disk
end LogPrune
