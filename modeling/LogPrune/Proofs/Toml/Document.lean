import LogPrune.Proofs.Toml.Reader
import Mathlib.Data.List.Nodup

/-!
# LogPrune.Proofs.Toml.Document

Documents are read as they were written.

1. A written table consists of statements: its header, if it has one, and an
   assignment for each value in it; then come those of the tables in it
   (`pretty_laid`).
2. While a table is under construction, everything around it stays as it is.  What
   is around it is a function that puts the entries of the table back (`Focus`), so
   a table is built the same way wherever it stands (`builds_table`).
3. So a written table is read back, but that the tables in a table come behind its
   other entries (`parse?_pretty`).
-/

namespace LogPrune
namespace Toml

/-! ## Tables -/

/-- Whether a value is simple, or a table with distinct keys whose entries are,
with at most a number of tables one in the other. -/
def isTree : Nat → Toml → Bool
  | n + 1, table es => decide (es.map (·.1)).Nodup && es.all fun e => isTree n e.2
  | _, v => isSimple v

mutual

/-- A value in which the tables of every table come behind its other entries. -/
def tidy : Toml → Toml
  | table es => table (es.filter (!isTable ·.2) ++ tidyTables es)
  | v => v

/-- The tables among some entries. -/
def tidyTables : List (String × Toml) → List (String × Toml)
  | [] => []
  | e :: es => tidyEntry e ++ tidyTables es

/-- An entry that is a table. -/
def tidyEntry : String × Toml → List (String × Toml)
  | (key, v) => if isTable v then [(key, tidy v)] else []

end

/-! ## Statements -/

/-- The statements of a table, the tables in it apart. -/
def tableStatements (path : List String) (es : List (String × Toml)) : List Statement :=
  (if hasHeader path es then [.header path.dropLast (path.getLastD "")] else [])
    ++ (es.filter (!isTable ·.2)).map fun e => .assign [] e.1 e.2

mutual

/-- The statements of the tables of a value, table by table. -/
def groups (path : List String) : Toml → List (List Statement)
  | table es => tableStatements path es :: entriesGroups path es
  | _ => []

/-- The statements of the tables among some entries. -/
def entriesGroups (path : List String) : List (String × Toml) → List (List Statement)
  | [] => []
  | e :: es => entryGroups path e ++ entriesGroups path es

/-- The statements of an entry that is a table. -/
def entryGroups (path : List String) : String × Toml → List (List Statement)
  | (key, v) => groups (path ++ [key]) v

end

/-- Only a table has statements of its own. -/
theorem groups_of_not_isTable {v : Toml} (h : isTable v = false) (path : List String) :
    groups path v = [] := by
  cases v with
  | table es => contradiction
  | _ => rfl

theorem writeTable_eq (path : List String) (es : List (String × Toml)) :
    writeTable path es = (tableStatements path es).flatMap Statement.write := by
  have hentries : writeEntries es
      = ((es.filter (!isTable ·.2)).map fun e => Statement.assign [] e.1 e.2).flatMap
          Statement.write := by
    rw [writeEntries, List.flatMap_map]
    congr 1
    funext ⟨key, v⟩
    simp [Statement.write, writePath, Text.glue, writeInPlace]
  unfold writeTable tableStatements
  rw [List.flatMap_append, hentries]
  congr 1
  split
  · next h =>
    have hne : path ≠ [] := by
      rintro rfl
      simp [hasHeader] at h
    obtain ⟨above, key, rfl⟩ := List.eq_nil_or_concat path |>.resolve_left hne
    simp [List.concat_eq_append, Statement.write, writeHeader, writePath]
  · rfl

mutual

/-- The sections of a document are the written statements of its tables. -/
theorem sections_eq (path : List String) (v : Toml) :
    sections path v = (groups path v).map (·.flatMap Statement.write) := by
  match v with
  | .table es => simp [sections, groups, writeTable_eq, entriesSections_eq path es]
  | .string _ | .integer _ | .float _ | .boolean _ | .date _ | .array _ => simp [sections, groups]

theorem entriesSections_eq (path : List String) (es : List (String × Toml)) :
    entriesSections path es = (entriesGroups path es).map (·.flatMap Statement.write) := by
  match es with
  | [] => simp [entriesSections, entriesGroups]
  | (key, v) :: es =>
    simp [entriesSections, entriesGroups, entrySections, entryGroups, sections_eq (path ++ [key]) v,
      entriesSections_eq path es]

end

theorem laid_append {t : Text} {ss : List Statement} (h : Laid t ss) {g : List Statement}
    (hg : g.all Statement.isReadable) : Laid (g.flatMap Statement.write ++ t) (g ++ ss) := by
  induction g with
  | nil => exact h
  | cons s g ih =>
    rw [List.all_cons, Bool.and_eq_true] at hg
    rw [List.flatMap_cons, List.append_assoc, List.cons_append]
    exact .cons hg.1 (ih hg.2)

/-- Written groups of statements with empty lines between them are laid out. -/
theorem laid_glue {gs : List (List Statement)} (h : gs.all (·.all Statement.isReadable)) :
    Laid (Text.glue '\n' ((gs.map (·.flatMap Statement.write)).filter (· != []))) gs.flatten := by
  induction gs with
  | nil => exact .nil
  | cons g gs ih =>
    rw [List.all_cons, Bool.and_eq_true] at h
    have hrest := ih h.2
    rw [List.map_cons, List.flatten_cons]
    by_cases hempty : g.flatMap Statement.write = []
    · have hg : g = [] := by
        cases g with
        | nil => rfl
        | cons s g =>
          obtain ⟨c, u, hcons, -⟩ := write_eq_cons s
          simp [hcons] at hempty
      simpa [hg] using hrest
    · rw [List.filter_cons_of_pos (by simpa using hempty)]
      cases hmore : (gs.map (·.flatMap Statement.write)).filter (· != []) with
      | nil =>
        rw [hmore] at hrest
        have hlaid := laid_append hrest h.1
        rwa [Text.glue, List.append_nil] at hlaid
      | cons u us =>
        rw [hmore] at hrest
        exact laid_append (.blank hrest) h.1

theorem isSimple_of_isTree {n : Nat} {v : Toml} (hv : isTree n v) (htable : isTable v = false) :
    isSimple v := by
  cases n <;> cases v <;> simp_all [isTree, isTable]

theorem isReadable_tableStatements {n : Nat} {path : List String} {es : List (String × Toml)}
    (hes : es.all fun e => isTree n e.2) (hpath : path.length < depthLimit) :
    (tableStatements path es).all Statement.isReadable := by
  rw [tableStatements, List.all_append, Bool.and_eq_true]
  constructor
  · split
    · next h =>
      have hne : path ≠ [] := by
        rintro rfl
        simp [hasHeader] at h
      have hpos := List.length_pos_iff.2 hne
      simp only [List.all_cons, List.all_nil, Bool.and_true, Statement.isReadable,
        List.length_dropLast, decide_eq_true_eq]
      omega
    · rfl
  · simp only [List.all_map, List.all_eq_true, List.mem_filter, Bool.not_eq_true'] at hes ⊢
    rintro e ⟨he, htable⟩
    simp [Statement.isReadable, isSimple_of_isTree (hes e he) htable, depthLimit]

/-- The statements of a tree are readable. -/
theorem isReadable_groups {n : Nat} {v : Toml} (hv : isTree n v) {path : List String}
    (hpath : path.length + n ≤ depthLimit) : (groups path v).all (·.all Statement.isReadable) := by
  induction n generalizing v path with
  | zero =>
    cases v with
    | table es => simp [isTree, isSimple, isScalar] at hv
    | _ => rfl
  | succ n ih =>
    cases v with
    | table es =>
      rw [isTree, Bool.and_eq_true] at hv
      have hentries : ∀ es : List (String × Toml), es.all (fun e => isTree n e.2) →
          (entriesGroups path es).all (·.all Statement.isReadable) := by
        intro es hes
        induction es with
        | nil => rfl
        | cons e es ihes =>
          obtain ⟨key, v⟩ := e
          rw [List.all_cons, Bool.and_eq_true] at hes
          rw [entriesGroups, List.all_append, Bool.and_eq_true]
          exact ⟨ih hes.1 (by rw [List.length_append, List.length_singleton]; omega), ihes hes.2⟩
      rw [groups, List.all_cons, Bool.and_eq_true]
      exact ⟨isReadable_tableStatements hv.2 (by omega), hentries es hv.2⟩
    | _ => rfl

/-- The written form of a tree consists of the statements of its tables. -/
theorem pretty_laid {v : Toml} (hv : isTree depthLimit v) :
    Laid (pretty v) (groups [] v).flatten := by
  rw [pretty, sections_eq]
  exact laid_glue (isReadable_groups hv (Nat.le_refl _))

/-! ## Building tables -/

theorem find?_eq_none {key : String} {es : List (String × α)} (h : key ∉ es.map (·.1)) :
    find? key es = none := by
  have hne : ∀ e ∈ es, ¬ e.1 = key := by
    rintro e he rfl
    exact h (List.mem_map_of_mem he)
  simpa [find?] using hne

namespace Entries

theorem update_append (f : Entries → Option Entries) (p q : List String) (es : Entries) :
    update f (p ++ q) es = update (update f q) p es := by
  induction p generalizing es with
  | nil => rfl
  | cons k p ih =>
    rw [List.cons_append, update, update]
    simp only [ih]

theorem find?_concat {key : String} {es : Entries} (h : key ∉ es.map (·.1)) (item : Item) :
    find? key (es ++ [(key, item)]) = some item := by
  have hnone := find?_eq_none h
  simp only [find?, Option.map_eq_none_iff] at hnone
  simp [find?, List.find?_append, hnone]

theorem replace_concat {key : String} {es : Entries} (h : key ∉ es.map (·.1)) (item item' : Item) :
    replace (es ++ [(key, item)]) key item' = es ++ [(key, item')] := by
  have hsame : es.map (fun e => if e.1 = key then (key, item') else e) = es := by
    refine (List.map_congr_left fun e he => if_neg ?_).trans (List.map_id es)
    rintro rfl
    exact h (List.mem_map_of_mem he)
  rw [replace, List.map_append, hsame]
  simp

/-- Changing the table at a path of a document is changing some entries and
putting them back. -/
def Acts (root : Entries) (path : List String) (es : Entries) (put : Entries → Entries) : Prop :=
  ∀ f, update f path root = (f es).map put

/-- What is around the table at a path. -/
def Focus (put : Entries → Entries) (path : List String) : Prop := ∀ es, Acts (put es) path es put

theorem focus_root : Focus id [] := fun es f => by simp [update]

section
variable {root es : Entries} {path : List String} {put : Entries → Entries} {key : String}

/-- What is around a table that comes last in its table. -/
theorem Focus.child (h : Focus put path) (hkey : key ∉ es.map (·.1)) (origin : Origin) :
    Focus (fun inner => put (es ++ [(key, .table origin inner)])) (path ++ [key]) := by
  intro inner f
  rw [update_append, h, update, find?_concat hkey]
  simp [update, replace_concat hkey, Option.map_map, Function.comp_def]

/-- A table that is not there is made on the way. -/
theorem Acts.child (h : Acts root path es put) (hkey : key ∉ es.map (·.1)) :
    Acts root (path ++ [key]) [] fun inner => put (es ++ [(key, .table .passage inner)]) := by
  intro f
  rw [update_append, h, update, find?_eq_none hkey]
  simp [update, Option.map_map, Function.comp_def]

theorem Acts.openTable (h : Acts root path es put) (hkey : key ∉ es.map (·.1)) :
    update (openTable key) path root = some (put (es ++ [(key, .table .header [])])) := by
  rw [h, Entries.openTable, find?_eq_none hkey]
  rfl

theorem Acts.assign (h : Acts root path es put) (hkey : key ∉ es.map (·.1)) (v : Toml) :
    update (assign key v []) path root = some (put (es ++ [(key, .value v)])) := by
  rw [h, Entries.assign, find?_eq_none hkey]
  rfl

end

end Entries

/-! ## Documents -/

/-- How a table of a written document comes into being. -/
def originOf : Toml → Origin
  | table es => if es.isEmpty || es.any (!isTable ·.2) then .header else .passage
  | _ => .header

/-- The entries that are no tables. -/
def valueItems (es : List (String × Toml)) : Entries :=
  (es.filter (!isTable ·.2)).map fun e => (e.1, .value e.2)

mutual

/-- The entries of a table of a written document. -/
def entriesOf : Toml → Entries
  | table es => valueItems es ++ tableItems es
  | _ => []

/-- The tables among some entries. -/
def tableItems : List (String × Toml) → Entries
  | [] => []
  | e :: es => tableItem e ++ tableItems es

/-- An entry that is a table. -/
def tableItem : String × Toml → Entries
  | (key, v) => if isTable v then [(key, .table (originOf v) (entriesOf v))] else []

end

section
variable {path : List String} {put : Entries → Entries} {es : List (String × Toml)}

/-- Assignments add to the table that is open. -/
theorem foldlM_assign (hput : Entries.Focus put path) (base : Entries)
    (hkeys : (base.map (·.1) ++ es.map (·.1)).Nodup) :
    (es.map fun e => Statement.assign [] e.1 e.2).foldlM Document.step? ⟨put base, path⟩
      = some ⟨put (base ++ es.map fun e => (e.1, .value e.2)), path⟩ := by
  induction es generalizing base with
  | nil => simp
  | cons e es ih =>
    have hkey : e.1 ∉ base.map (·.1) := fun hmem =>
      List.disjoint_of_nodup_append hkeys hmem (by simp)
    have hrest := ih (base ++ [(e.1, .value e.2)]) (by simpa using hkeys)
    have hstep : Document.step? ⟨put base, path⟩ (.assign [] e.1 e.2)
        = some ⟨put (base ++ [(e.1, .value e.2)]), path⟩ := by
      rw [Document.step?, (hput base).assign hkey]
      rfl
    rw [List.map_cons, List.foldlM_cons, hstep, Option.bind_eq_bind, Option.bind_some, hrest]
    simp

/-- The statements of a table build it behind the entries that are there. -/
def Builds (path : List String) (put : Entries → Entries) (key : String) (v : Toml) : Prop :=
  ∀ root base opened, root.Acts path base put → key ∉ base.map (·.1) →
    ∃ opened', (groups (path ++ [key]) v).flatten.foldlM Document.step? ⟨root, opened⟩
      = some ⟨put (base ++ [(key, .table (originOf v) (entriesOf v))]), opened'⟩

/-- The tables among some entries are built one after another. -/
theorem exists_foldlM_entriesGroups (hput : Entries.Focus put path)
    (hone : ∀ e ∈ es, isTable e.2 → Builds path put e.1 e.2) (hkeys : (es.map (·.1)).Nodup)
    (root base : Entries) (opened : List String) (hroot : root.Acts path base put)
    (hbase : ∀ e ∈ es, isTable e.2 → e.1 ∉ base.map (·.1)) :
    ∃ d, (entriesGroups path es).flatten.foldlM Document.step? ⟨root, opened⟩ = some d ∧
      (d.root = put (base ++ tableItems es) ∨ tableItems es = [] ∧ d.root = root) := by
  induction es generalizing root base opened with
  | nil => exact ⟨⟨root, opened⟩, rfl, .inr ⟨rfl, rfl⟩⟩
  | cons e es ih =>
    obtain ⟨key, v⟩ := e
    obtain ⟨hnew, hkeys⟩ := List.nodup_cons.1 hkeys
    have hone' : ∀ e ∈ es, isTable e.2 → Builds path put e.1 e.2 := fun e he =>
      hone e (List.mem_cons_of_mem _ he)
    rw [entriesGroups, entryGroups, List.flatten_append, List.foldlM_append, tableItems, tableItem]
    cases htable : isTable v with
    | true =>
      obtain ⟨opened', hfirst⟩ := hone (key, v) List.mem_cons_self htable root base opened hroot
        (hbase (key, v) List.mem_cons_self htable)
      have hbase' : ∀ e ∈ es, isTable e.2 →
          e.1 ∉ (base ++ [(key, Item.table (originOf v) (entriesOf v))]).map (·.1) := by
        intro e he ht
        have hne : e.1 ≠ key := fun h => hnew (List.mem_map.2 ⟨e, he, h⟩)
        simpa [hne] using hbase e (List.mem_cons_of_mem _ he) ht
      obtain ⟨d, hrest, hd⟩ := ih hone' hkeys _ _ opened' (hput _) hbase'
      rw [hfirst]
      refine ⟨d, hrest, .inl ?_⟩
      obtain hd | ⟨hnil, hd⟩ := hd
      · simpa using hd
      · simpa [hnil] using hd
    | false =>
      rw [groups_of_not_isTable htable]
      simpa using ih hone' hkeys root base opened hroot fun e he =>
        hbase e (List.mem_cons_of_mem _ he)

/-- The keys of the tables among some entries are not those of the others. -/
theorem not_mem_valueItems (hkeys : (es.map (·.1)).Nodup) (he : e ∈ es) (htable : isTable e.2) :
    e.1 ∉ (valueItems es).map (·.1) := by
  intro hmem
  simp only [valueItems, List.map_map, List.mem_map, List.mem_filter] at hmem
  obtain ⟨e', ⟨he', hvalue⟩, hkey⟩ := hmem
  obtain rfl := List.inj_on_of_nodup_map hkeys he' he hkey
  simp [htable] at hvalue

theorem nodup_valueItems (hkeys : (es.map (·.1)).Nodup) :
    ((es.filter (!isTable ·.2)).map (·.1)).Nodup :=
  hkeys.sublist (List.filter_sublist.map _)

/-- In a table that is open and empty, the assignments and the tables build its
entries. -/
theorem exists_foldlM_table (hput : Entries.Focus put path)
    (hone : ∀ e ∈ es, isTable e.2 → Builds path put e.1 e.2) (hkeys : (es.map (·.1)).Nodup) :
    ∃ opened, ((es.filter (!isTable ·.2)).map (fun e => Statement.assign [] e.1 e.2)
        ++ (entriesGroups path es).flatten).foldlM Document.step? ⟨put [], path⟩
      = some ⟨put (entriesOf (table es)), opened⟩ := by
  have hassign := foldlM_assign hput [] (by simpa using nodup_valueItems hkeys)
  obtain ⟨d, hfold, hd⟩ := exists_foldlM_entriesGroups hput hone hkeys _ (valueItems es) path
    (hput _) fun e he ht => not_mem_valueItems hkeys he ht
  refine ⟨d.opened, ?_⟩
  rw [List.foldlM_append, hassign, Option.bind_eq_bind, Option.bind_some, entriesOf]
  refine hfold.trans ?_
  obtain hd | ⟨hnil, hd⟩ := hd
  · exact congrArg some (congrArg (Document.mk · d.opened) hd)
  · rw [hnil, List.append_nil]
    exact congrArg some (congrArg (Document.mk · d.opened) hd)

theorem flatten_groups_table (path : List String) (key : String) (es : List (String × Toml)) :
    (groups (path ++ [key]) (table es)).flatten
      = (if es.isEmpty || es.any (!isTable ·.2) then [.header path key] else [])
        ++ ((es.filter (!isTable ·.2)).map (fun e => Statement.assign [] e.1 e.2)
          ++ (entriesGroups (path ++ [key]) es).flatten) := by
  have hheader : hasHeader (path ++ [key]) es = (es.isEmpty || es.any (!isTable ·.2)) := by
    have hne : (path ++ [key] != []) = true := by simp
    rw [hasHeader, hne, Bool.true_and]
  rw [groups, tableStatements, hheader]
  simp

/-- A table is built the same way wherever it stands. -/
theorem builds_table {n : Nat} {v : Toml} (hv : isTree n v) (htable : isTable v)
    {path : List String} {put : Entries → Entries} (hput : Entries.Focus put path) (key : String) :
    Builds path put key v := by
  induction n generalizing v path put key with
  | zero => cases v <;> simp_all [isTree, isTable, isSimple, isScalar]
  | succ n ih =>
    obtain ⟨es, rfl⟩ : ∃ es, v = table es := by
      cases v <;> simp_all [isTable]
    simp only [isTree, Bool.and_eq_true, decide_eq_true_eq, List.all_eq_true] at hv
    obtain ⟨hkeys, hentries⟩ := hv
    intro root base opened hroot hkey
    have hone : ∀ put', Entries.Focus put' (path ++ [key]) → ∀ e ∈ es, isTable e.2 →
        Builds (path ++ [key]) put' e.1 e.2 := fun put' hput' e he ht =>
      ih (hentries e he) ht hput' e.1
    rw [flatten_groups_table, originOf]
    cases horigin : es.isEmpty || es.any (!isTable ·.2) with
    | true =>
      have hput' := hput.child hkey .header
      have hopen : Document.step? ⟨root, opened⟩ (.header path key)
          = some ⟨put (base ++ [(key, .table .header [])]), path ++ [key]⟩ := by
        rw [Document.step?, hroot.openTable hkey]
        rfl
      rw [if_pos rfl, List.singleton_append, List.foldlM_cons, hopen]
      exact exists_foldlM_table hput' (hone _ hput') hkeys
    | false =>
      -- without a header, the first of its tables makes the table
      have hput' := hput.child hkey .passage
      simp only [Bool.or_eq_false_iff, List.isEmpty_eq_false_iff, List.any_eq_false,
        Bool.not_eq_true', Bool.not_eq_false] at horigin
      have hnone : es.filter (!isTable ·.2) = [] := by
        simpa using horigin.2
      have hne : tableItems es ≠ [] := by
        obtain ⟨⟨k, v⟩, more, rfl⟩ := List.exists_cons_of_ne_nil horigin.1
        have ht := horigin.2 (k, v) List.mem_cons_self
        simp [tableItems, tableItem, ht]
      obtain ⟨d, hfold, hd | ⟨hnil, -⟩⟩ := exists_foldlM_entriesGroups hput' (hone _ hput') hkeys
        _ [] opened (hroot.child hkey) (by simp)
      · refine ⟨d.opened, ?_⟩
        rw [if_neg Bool.false_ne_true, hnone, List.map_nil, List.nil_append, List.nil_append, hfold,
          entriesOf, valueItems, hnone]
        exact congrArg some (congrArg (Document.mk · d.opened) hd)
      · exact absurd hnil hne

/-- The statements of a tree build its entries. -/
theorem foldlM_groups {n : Nat} (hv : isTree (n + 1) (table es)) :
    ∃ opened, (groups [] (table es)).flatten.foldlM Document.step? {}
      = some ⟨entriesOf (table es), opened⟩ := by
  simp only [isTree, Bool.and_eq_true, decide_eq_true_eq, List.all_eq_true] at hv
  obtain ⟨hkeys, hentries⟩ := hv
  have hstatements : (groups [] (table es)).flatten
      = (es.filter (!isTable ·.2)).map (fun e => Statement.assign [] e.1 e.2)
        ++ (entriesGroups [] es).flatten := by
    simp [groups, tableStatements, hasHeader]
  rw [hstatements]
  exact exists_foldlM_table Entries.focus_root
    (fun e he ht => builds_table (hentries e he) ht Entries.focus_root e.1) hkeys

end

/-! ## Reading -/

theorem entriesToValues_eq_map (es : Entries) :
    entriesToValues es = es.map fun e => (e.1, e.2.toValue) := by
  induction es with
  | nil => rfl
  | cons e es ih => rw [entriesToValues, ih]; rfl

theorem entriesToValues_valueItems (es : List (String × Toml)) :
    entriesToValues (valueItems es) = es.filter (!isTable ·.2) := by
  rw [entriesToValues_eq_map, valueItems, List.map_map]
  exact List.map_id _

mutual

/-- The entries that are built have the values that were written. -/
theorem entriesToValues_entriesOf (es : List (String × Toml)) :
    table (entriesToValues (entriesOf (table es))) = tidy (table es) := by
  rw [entriesOf, tidy, entriesToValues_eq_map, List.map_append, ← entriesToValues_eq_map,
    ← entriesToValues_eq_map, entriesToValues_valueItems, entriesToValues_tableItems es]

theorem entriesToValues_tableItems (es : List (String × Toml)) :
    entriesToValues (tableItems es) = tidyTables es := by
  match es with
  | [] => rfl
  | (key, .table inner) :: es =>
    have hinner := entriesToValues_entriesOf inner
    rw [tableItems, tableItem, tidyTables, tidyEntry, show isTable (table inner) from rfl,
      if_pos rfl, if_pos rfl, List.singleton_append, List.singleton_append, entriesToValues,
      Item.toValue, hinner, entriesToValues_tableItems es]
  | (_, .string _) :: es | (_, .integer _) :: es | (_, .float _) :: es | (_, .boolean _) :: es
  | (_, .date _) :: es | (_, .array _) :: es =>
    exact entriesToValues_tableItems es

end

theorem skipByteOrderMark_laid {t : Text} {ss : List Statement} (h : Laid t ss) :
    skipByteOrderMark t = t := by
  cases h with
  | nil => rfl
  | blank h => rfl
  | @cons t ss s hs h =>
    obtain ⟨c, u, hcons, hc⟩ := write_eq_cons s
    have hne : c ≠ '\uFEFF' := by
      rintro rfl
      revert hc
      decide
    rw [hcons, List.cons_append, skipByteOrderMark]
    intro rest heq
    exact hne (List.cons.inj heq).1

theorem length_le_of_laid {t : Text} {ss : List Statement} (h : Laid t ss) :
    ss.length ≤ t.length := by
  induction h with
  | nil => exact Nat.le_refl _
  | blank h ih => exact Nat.le_succ_of_le ih
  | @cons t ss s hs h ih =>
    obtain ⟨c, u, hcons, -⟩ := write_eq_cons s
    rw [hcons, List.length_cons, List.length_append, List.length_cons]
    omega

/-- **A written document is read back**, but that the tables in a table come
behind its other entries. -/
theorem parse?_pretty {es : List (String × Toml)} (h : isTree depthLimit (table es)) :
    parse? (pretty (table es)) = some (tidy (table es)) := by
  have hlaid := pretty_laid h
  obtain ⟨opened, hfold⟩ := foldlM_groups h
  have hread := readStatements?_laid hlaid (Nat.lt_succ_of_le (length_le_of_laid hlaid))
  simp only [parse?, skipByteOrderMark_laid hlaid]
  rw [hread, Option.bind_some, ofStatements?, hfold, Option.map_some, entriesToValues_entriesOf]

end Toml
end LogPrune
