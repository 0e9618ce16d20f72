import LogPrune.Disk

/-!
# LogPrune.Proofs.Disk.Tree

What a change at one place of a tree does to the others.

1. `look` says what stands at a location.  It leaves out the entries of a
   directory, so it changes at one location only when a node is put there or
   removed (`look_put`, `look_remove`).
2. Removing takes for granted that no directory holds a name twice.  Putting
   nodes leaves it so (`namesOnce_put`).
3. A tree is *plain* if it holds no links and its names are names that a file
   system allows, each once in its directory.  Putting and removing nodes
   keeps it plain.
-/

namespace LogPrune

/-- What stands at a location. -/
inductive Entry
  | file (data : FileData)
  | link (target : FilePath)
  | dir
  deriving DecidableEq

namespace Node

/-- A node without the entries of a directory. -/
def entry : Node → Entry
  | file data => .file data
  | link target => .link target
  | dir _ => .dir

/-- The node at a location below a node. -/
def get? (l : Location) : Node → Option Node
  | dir entries => entries.get? l
  | node => if l = [] then some node else none

/-- What stands at a location below a node. -/
def look (l : Location) (node : Node) : Option Entry := (node.get? l).map entry

end Node

namespace Dir

/-- What stands at a location. -/
def look (l : Location) (d : Dir) : Option Entry := (d.get? l).map Node.entry

end Dir

namespace Node

@[simp] theorem look_file_nil (data : FileData) : (file data).look [] = some (.file data) := rfl

@[simp] theorem look_link_nil (target : FilePath) : (link target).look [] = some (.link target) :=
  rfl

@[simp] theorem look_dir (l : Location) (entries : Dir) : (dir entries).look l = entries.look l :=
  rfl

theorem look_below_file (data : FileData) (hl : l ≠ []) : (file data).look l = none := by
  simp [look, get?, hl]

theorem look_below_link (target : FilePath) (hl : l ≠ []) : (link target).look l = none := by
  simp [look, get?, hl]

end Node

namespace Dir

/-! ## Following a location -/

@[simp] theorem get?_nil (d : Dir) : d.get? [] = some (.dir d) := by simp [get?]

@[simp] theorem look_nil (d : Dir) : d.look [] = some .dir := by simp [look, Node.entry]

theorem get?_cons (n : String) (l : Location) (d : Dir) :
    d.get? (n :: l) = (d.find? n).bind (Node.get? l) := by
  cases l with
  | nil => cases h : d.find? n with
    | none => simp [get?, h]
    | some node => cases node <;> simp [get?, h, Node.get?]
  | cons m l => cases h : d.find? n with
    | none => simp [get?, h]
    | some node => cases node <;> simp [get?, h, Node.get?]

theorem look_cons (n : String) (l : Location) (d : Dir) :
    d.look (n :: l) = (d.find? n).bind (Node.look l) := by
  simp only [look, get?_cons, Option.map_bind]
  rfl

/-- A location below another one is followed in two steps. -/
theorem get?_append (l m : Location) (d : Dir) :
    d.get? (l ++ m) = (d.get? l).bind (Node.get? m) := by
  induction l generalizing d with
  | nil => simp [Node.get?]
  | cons n l ih =>
    rw [List.cons_append, get?_cons, get?_cons, Option.bind_assoc]
    congr 1
    funext node
    cases node with
    | dir entries => simpa [Node.get?] using ih entries
    | file data => by_cases hl : l = [] <;> simp [Node.get?, hl]
    | link target => by_cases hl : l = [] <;> simp [Node.get?, hl]

theorem look_append (l m : Location) (d : Dir) :
    d.look (l ++ m) = (d.get? l).bind (Node.look m) := by
  simp only [look, get?_append, Option.map_bind]
  rfl

/-- Below a file, a link or a vacant location there is nothing. -/
theorem look_below {d : Dir} {l m : Location} (h : d.look l ≠ some .dir) (hm : m ≠ []) :
    look (l ++ m) d = none := by
  rw [look_append]
  cases hl : d.get? l with
  | none => rfl
  | some node =>
    cases node with
    | dir entries => simp [look, hl, Node.entry] at h
    | file data => simp [Node.look_below_file _ hm]
    | link target => simp [Node.look_below_link _ hm]

/-- Where something stands, a directory stands above it. -/
theorem look_above {d : Dir} {l m : Location} (h : look (l ++ m) d ≠ none) (hm : m ≠ []) :
    d.look l = some .dir := by
  by_cases hl : d.look l = some .dir
  · exact hl
  · exact absurd (look_below hl hm) h

/-! ## Changing a directory -/

/-- A directory is built entry by entry, whatever the names stand for. -/
@[elab_as_elim]
theorem cons_induction {motive : Dir → Prop} (empty : motive empty)
    (cons : ∀ name node rest, motive rest → motive (cons name node rest)) (d : Dir) :
    motive d := by
  induction d with
  | empty => exact empty
  | file n data rest ih => exact cons n (.file data) rest ih
  | link n target rest ih => exact cons n (.link target) rest ih
  | dir n entries rest _ ih => exact cons n (.dir entries) rest ih

theorem find?_cons (n m : String) (node : Node) (d : Dir) :
    (cons n node d).find? m = if n = m then some node else d.find? m := by
  cases node <;> simp [cons, find?]

theorem insert_cons (n m : String) (node above : Node) (d : Dir) :
    (cons m above d).insert n node =
      if m = n then cons n node d else cons m above (d.insert n node) := by
  cases above <;> rfl

theorem erase_cons (n m : String) (node : Node) (d : Dir) :
    (cons m node d).erase n = if m = n then d else cons m node (d.erase n) := by
  cases node <;> rfl

theorem find?_insert (n m : String) (node : Node) (d : Dir) :
    (d.insert n node).find? m = if n = m then some node else d.find? m := by
  induction d using cons_induction with
  | empty => simp [insert, find?_cons]
  | cons k above rest ih => grind [insert_cons, find?_cons]

/-- What an entry of a directory shows of a location below it. -/
theorem look_of_find? (h : d.find? n = some node) (l : Location) :
    look (n :: l) d = node.look l := by
  simp [look_cons, h]

/-- A directory that stands below an entry makes that entry one. -/
theorem find?_of_look_dir {d : Dir} {n : String} {l : Location}
    (h : d.look (n :: l) = some .dir) :
    ∃ entries, d.find? n = some (.dir entries) ∧ entries.look l = some .dir := by
  rw [look_cons] at h
  cases hfind : d.find? n with
  | none => simp [hfind] at h
  | some node =>
    cases node with
    | dir entries => exact ⟨entries, rfl, by simpa [hfind] using h⟩
    | file data => by_cases hl : l = [] <;> simp [hfind, hl, Node.look_below_file] at h
    | link target => by_cases hl : l = [] <;> simp [hfind, hl, Node.look_below_link] at h

/-- Putting a leaf into a tree, a file or an empty directory in place of one
or where nothing stands, changes what stands at its location only. -/
theorem look_put {d : Dir} {node : Node} {l : Location}
    (hnode : ∀ m, m ≠ [] → node.look m = none) (hl : l ≠ [])
    (habove : d.look l.dropLast = some .dir) (hleaf : ∀ m, m ≠ [] → d.look (l ++ m) = none)
    (l' : Location) :
    (d.put node l).look l' = if l' = l then some node.entry else d.look l' := by
  induction l generalizing d l' with
  | nil => contradiction
  | cons n l ih =>
    cases l' with
    | nil => simp
    | cons n' l' =>
      cases l with
      | nil =>
        rw [put, look_cons, find?_insert]
        by_cases hn : n = n'
        · subst hn
          by_cases hl' : l' = []
          · subst hl'
            cases node <;> simp [Node.entry]
          · simpa [hl', hnode l' hl'] using (hleaf l' hl').symm
        · simp [hn, Ne.symm hn, look_cons]
      | cons m l =>
        rw [List.dropLast_cons_of_ne_nil (by simp)] at habove
        obtain ⟨entries, hfind, habove⟩ := find?_of_look_dir habove
        rw [put, hfind, look_cons, find?_insert]
        · by_cases hn : n = n'
          · subst hn
            have hrest := ih (by simp) habove
              (fun k hk => by simpa [look_of_find? hfind] using hleaf k hk) l'
            simpa [look_of_find? hfind] using hrest
          · simp [hn, Ne.symm hn, look_cons]
        · simp

/-! ## Names -/

/-- Whether each name of a tree stands once in its directory. -/
def namesOnce : Dir → Bool
  | empty => true
  | file n _ rest => (rest.find? n).isNone && rest.namesOnce
  | link n _ rest => (rest.find? n).isNone && rest.namesOnce
  | dir n entries rest => (rest.find? n).isNone && entries.namesOnce && rest.namesOnce

/-- Whether each name below a node stands once in its directory. -/
def nodeNamesOnce : Node → Bool
  | .dir entries => entries.namesOnce
  | _ => true

theorem namesOnce_cons (n : String) (node : Node) (d : Dir) :
    (cons n node d).namesOnce = ((d.find? n).isNone && nodeNamesOnce node && d.namesOnce) := by
  cases node <;> simp [cons, namesOnce, nodeNamesOnce]

theorem namesOnce_of_find? {d : Dir} {n : String} {node : Node} (hd : d.namesOnce)
    (h : d.find? n = some node) : nodeNamesOnce node := by
  induction d using cons_induction with
  | empty => simp [find?] at h
  | cons k above rest ih => grind [find?_cons, namesOnce_cons]

theorem namesOnce_insert {d : Dir} {n : String} {node : Node} (hd : d.namesOnce)
    (hnode : nodeNamesOnce node) : (d.insert n node).namesOnce := by
  induction d using cons_induction with
  | empty => simp [insert, namesOnce_cons, hnode, find?, namesOnce]
  | cons k above rest ih => grind [insert_cons, namesOnce_cons, find?_insert]

theorem namesOnce_put {d : Dir} {l : Location} {node : Node} (hd : d.namesOnce)
    (hnode : nodeNamesOnce node) : (d.put node l).namesOnce := by
  induction l generalizing d with
  | nil => simpa [put] using hd
  | cons n l ih =>
    cases l with
    | nil => exact namesOnce_insert hd hnode
    | cons m l =>
      cases hfind : d.find? n with
      | none => simpa [put, hfind] using hd
      | some above =>
        cases above with
        | file data => simpa [put, hfind] using hd
        | link target => simpa [put, hfind] using hd
        | dir entries =>
          have hbelow : nodeNamesOnce (.dir (put node (m :: l) entries)) :=
            ih (namesOnce_of_find? hd hfind)
          simpa [put, hfind] using namesOnce_insert hd hbelow

/-! ## Removing -/

theorem find?_erase {d : Dir} (hd : d.namesOnce) (n m : String) :
    (d.erase n).find? m = if n = m then none else d.find? m := by
  induction d using cons_induction with
  | empty => simp [erase, find?]
  | cons k node rest ih => grind [erase_cons, namesOnce_cons, find?_cons, Option.isNone_iff_eq_none]

theorem namesOnce_erase {d : Dir} (hd : d.namesOnce) (n : String) : (d.erase n).namesOnce := by
  induction d using cons_induction with
  | empty => rfl
  | cons k node rest ih => grind [erase_cons, namesOnce_cons, find?_erase]

theorem namesOnce_remove {d : Dir} (hd : d.namesOnce) (l : Location) : (d.remove l).namesOnce := by
  induction l generalizing d with
  | nil => simpa [remove] using hd
  | cons n l ih =>
    cases l with
    | nil => exact namesOnce_erase hd n
    | cons m l =>
      cases hfind : d.find? n with
      | none => simpa [remove, hfind] using hd
      | some above =>
        cases above with
        | file data => simpa [remove, hfind] using hd
        | link target => simpa [remove, hfind] using hd
        | dir entries =>
          have hbelow : nodeNamesOnce (.dir (remove (m :: l) entries)) :=
            ih (namesOnce_of_find? hd hfind)
          simpa [remove, hfind] using namesOnce_insert hd hbelow

/-- Removing a leaf changes what stands at its location only. -/
theorem look_remove {d : Dir} {l : Location} (hd : d.namesOnce) (hl : d.look l ≠ some .dir)
    (l' : Location) : (d.remove l).look l' = if l' = l then none else d.look l' := by
  induction l generalizing d l' with
  | nil => simp at hl
  | cons n l ih =>
    cases l' with
    | nil => simp
    | cons n' l' =>
      cases l with
      | nil =>
        rw [remove, look_cons, find?_erase hd]
        by_cases hn : n = n'
        · subst hn
          by_cases hl' : l' = []
          · simp [hl']
          · simpa [hl'] using (look_below hl hl').symm
        · simp [hn, Ne.symm hn, look_cons]
      | cons m l =>
        cases hfind : d.find? n with
        | none =>
          by_cases hn : n = n' <;> grind [remove, look_cons]
        | some above =>
          cases above with
          | file data => grind [remove, look_cons, Node.look_below_file]
          | link target => grind [remove, look_cons, Node.look_below_link]
          | dir entries =>
            rw [remove, hfind, look_cons, find?_insert]
            · by_cases hn : n = n'
              · subst hn
                have hrest := ih (namesOnce_of_find? hd hfind)
                  (by simpa [look_of_find? hfind] using hl) l'
                simpa [look_of_find? hfind] using hrest
              · simp [hn, Ne.symm hn, look_cons]
            · simp

/-! ## Plain trees -/

/-- Whether a file system allows a name in a directory. -/
def isName (s : String) : Bool :=
  s != "" && s != "." && s != ".." && s.utf8ByteSize ≤ Disk.nameLimit
    && s.toList.all fun c => c != '/' && c != '\x00'

theorem isName_iff {s : String} : isName s ↔ s ≠ "" ∧ s ≠ "." ∧ s ≠ ".." ∧
    s.utf8ByteSize ≤ Disk.nameLimit ∧ '/' ∉ s.toList ∧ '\x00' ∉ s.toList := by
  simp only [isName, Bool.and_eq_true, bne_iff_ne, decide_eq_true_eq, List.all_eq_true]
  grind

/-- Whether a tree holds no links, and only names that a file system allows,
each once in its directory. -/
def isPlain : Dir → Bool
  | empty => true
  | file n _ rest => isName n && (rest.find? n).isNone && rest.isPlain
  | link _ _ _ => false
  | dir n entries rest =>
    isName n && (rest.find? n).isNone && entries.isPlain && rest.isPlain

/-- Whether a node is no link and all below it is plain. -/
def nodeIsPlain : Node → Bool
  | .file _ => true
  | .link _ => false
  | .dir entries => entries.isPlain

theorem isPlain_cons (n : String) (node : Node) (d : Dir) :
    (cons n node d).isPlain
      = (isName n && (d.find? n).isNone && nodeIsPlain node && d.isPlain) := by
  cases node <;> simp [cons, isPlain, nodeIsPlain]

/-- Every entry of a plain directory is plain and has a proper name. -/
theorem isPlain_of_find? {d : Dir} (hd : d.isPlain) (h : d.find? n = some node) :
    isName n ∧ nodeIsPlain node := by
  induction d using cons_induction with
  | empty => simp [find?] at h
  | cons k above rest ih => grind [find?_cons, isPlain_cons]

/-- So is every node of a plain tree, and all names on the way to it are. -/
theorem isPlain_of_get? {d : Dir} (hd : d.isPlain) (h : d.get? l = some node) :
    nodeIsPlain node ∧ ∀ n ∈ l, isName n := by
  induction l generalizing d with
  | nil =>
    simp only [get?_nil, Option.some.injEq] at h
    simpa [← h, nodeIsPlain] using hd
  | cons n l ih =>
    rw [get?_cons] at h
    cases hfind : d.find? n with
    | none => simp [hfind] at h
    | some above =>
      obtain ⟨hn, habove⟩ := isPlain_of_find? hd hfind
      cases above with
      | dir entries =>
        have hrest := ih habove (by simpa [hfind, Node.get?] using h)
        simpa [hn] using hrest
      | file data => grind [Node.get?]
      | link target => simp [nodeIsPlain] at habove

theorem isPlain_insert {d : Dir} (hd : d.isPlain) (hn : isName n) (hnode : nodeIsPlain node) :
    (d.insert n node).isPlain := by
  induction d using cons_induction with
  | empty => simp [insert, isPlain_cons, hn, hnode, find?, isPlain]
  | cons k above rest ih => grind [insert_cons, isPlain_cons, find?_insert]

theorem isPlain_put {d : Dir} (hd : d.isPlain) (hl : ∀ n ∈ l, isName n)
    (hnode : nodeIsPlain node) : (d.put node l).isPlain := by
  induction l generalizing d with
  | nil => simpa [put] using hd
  | cons n l ih =>
    cases l with
    | nil => exact isPlain_insert hd (hl n (by simp)) hnode
    | cons m l =>
      cases hfind : d.find? n with
      | none => simpa [put, hfind] using hd
      | some above =>
        cases above with
        | file data => simpa [put, hfind] using hd
        | link target => simpa [put, hfind] using hd
        | dir entries =>
          have hentries := (isPlain_of_find? hd hfind).2
          have hrest := ih hentries (fun k hk => hl k (List.mem_cons_of_mem n hk))
          have hbelow : nodeIsPlain (.dir (put node (m :: l) entries)) := hrest
          simpa [put, hfind] using isPlain_insert hd (hl n (by simp)) hbelow

theorem namesOnce_of_isPlain {d : Dir} (hd : d.isPlain) : d.namesOnce := by
  induction d with
  | empty => rfl
  | file k data rest ih => grind [isPlain, namesOnce]
  | link k target rest ih => simp [isPlain] at hd
  | dir k entries rest ihentries ih => grind [isPlain, namesOnce]

theorem isPlain_erase {d : Dir} (hd : d.isPlain) (n : String) : (d.erase n).isPlain := by
  induction d using cons_induction with
  | empty => rfl
  | cons k node rest ih => grind [erase_cons, isPlain_cons, find?_erase, namesOnce_of_isPlain]

theorem isPlain_remove {d : Dir} (hd : d.isPlain) (l : Location) : (d.remove l).isPlain := by
  induction l generalizing d with
  | nil => simpa [remove] using hd
  | cons n l ih =>
    cases l with
    | nil => exact isPlain_erase hd n
    | cons m l =>
      cases hfind : d.find? n with
      | none => simpa [remove, hfind] using hd
      | some above =>
        cases above with
        | file data => simpa [remove, hfind] using hd
        | link target => simpa [remove, hfind] using hd
        | dir entries =>
          obtain ⟨hn, hentries⟩ := isPlain_of_find? hd hfind
          have hbelow : nodeIsPlain (.dir (remove (m :: l) entries)) := ih hentries
          simpa [remove, hfind] using isPlain_insert hd hn hbelow

end Dir
end LogPrune
