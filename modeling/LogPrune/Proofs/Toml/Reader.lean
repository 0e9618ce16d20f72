import LogPrune.Proofs.Toml.Quoted
import LogPrune.Proofs.Toml.Scalar
import LogPrune.Toml.Reader

/-!
# LogPrune.Proofs.Toml.Reader

Values, keys and statements are read as they were written.

1. A value is *simple* if it is a text, a truth value, an integer of 64 bits or an
   array of these.  A simple value is read back in front of whatever may follow a
   value (`readValue?_writeValue`).
2. A key is read back part by part (`readKey?_writePath`).
3. So a statement is (`readStatement?_write`), and so are statements one after
   another, with empty lines before some of them (`readStatements?_laid`).
-/

namespace LogPrune
namespace Toml

/-! ## Values -/

/-- Whether a value is a text, a truth value or an integer of 64 bits. -/
def isScalar : Toml → Bool
  | string _ | boolean _ => true
  | integer n => -(integerBound : Int) ≤ n && n < integerBound
  | _ => false

/-- Whether a value is written on a line or, item by item, on some. -/
def isSimple : Toml → Bool
  | array vs => vs.all isScalar
  | v => isScalar v

/-- Whether a character may begin a value without being a bracket. -/
def beginsScalar (c : Char) : Bool :=
  !isSpace c && c != '\n' && c != '\r' && c != '#' && c != '[' && c != ']' && c != '\x7b'

section
variable {v : Toml} {rest : Text}

theorem writeString_eq_cons (t : Text) :
    ∃ u, writeString t = '\x22' :: u ∨ writeString t = '\x27' :: u := by
  unfold writeString
  obtain hk | hk | ⟨hk, -⟩ | ⟨hk, -⟩ := kindFor_cases t
  · exact ⟨_, .inl (by rw [hk]; rfl)⟩
  · exact ⟨_, .inl (by rw [hk]; rfl)⟩
  · exact ⟨_, .inr (by rw [hk]; rfl)⟩
  · exact ⟨_, .inr (by rw [hk]; rfl)⟩

theorem writeValue_eq_cons (hv : isScalar v) :
    ∃ c u, writeValue v = c :: u ∧ beginsScalar c := by
  cases v with
  | string t =>
    rw [writeValue]
    obtain ⟨u, hu | hu⟩ := writeString_eq_cons t
    · exact ⟨_, u, hu, by decide⟩
    · exact ⟨_, u, hu, by decide⟩
  | boolean b =>
    cases b with
    | true => exact ⟨'t', _, rfl, by decide⟩
    | false => exact ⟨'f', _, rfl, by decide⟩
  | integer n =>
    rw [writeValue]
    obtain ⟨c, u, hu, rfl | hc⟩ := writeInteger_eq_cons n
    · exact ⟨'-', u, hu, by decide⟩
    · have hne : ∀ x, x.isDigit = false → c ≠ x := fun x => ne_of_isDigit hc
      refine ⟨c, u, hu, ?_⟩
      simp [beginsScalar, isSpace, hne ' ' (by decide), hne '\t' (by decide), hne '\n' (by decide),
        hne '\r' (by decide), hne '#' (by decide), hne '[' (by decide), hne ']' (by decide),
        hne '\x7b' (by decide)]
  | _ => simp [isScalar] at hv

/-- What begins with a character of a word is read as a word. -/
theorem readValue?_word {c : Char} (hc : beginsScalar c) (hdouble : c ≠ '\x22')
    (hsingle : c ≠ '\x27') (n depth : Nat) (u : Text) :
    readValue? (n + 1) depth (c :: u) = readWord? (c :: u) := by
  simp only [beginsScalar, Bool.and_eq_true, bne_iff_ne] at hc
  rw [readValue?]
  all_goals
    intro tail h
    simp_all

/-- A scalar is read back. -/
theorem readValue?_scalar (hv : isScalar v) (n depth : Nat) (rest : Text)
    (hrest : ∀ c ∈ rest.head?, endsWord c) :
    readValue? (n + 1) depth (writeValue v ++ rest) = some (v, rest) := by
  have hhead : ∀ x, endsWord x = false → rest.head? ≠ some x := by
    intro x hx h
    simp [hrest x h] at hx
  cases v with
  | string t =>
    have hread := readAnyString?_writeString t (hhead '\x22' (by decide)) (hhead '\x27' (by decide))
    rw [writeValue]
    obtain ⟨u, hu | hu⟩ := writeString_eq_cons t
    · rw [hu, List.cons_append] at hread ⊢
      rw [readValue?, hread]
      rfl
    · rw [hu, List.cons_append] at hread ⊢
      rw [readValue?, hread]
      rfl
  | boolean b =>
    have hread := readWord?_boolean b hrest
    cases b with
    | true => exact (readValue?_word (by decide) (by decide) (by decide) n depth _).trans hread
    | false => exact (readValue?_word (by decide) (by decide) (by decide) n depth _).trans hread
  | integer k =>
    simp only [isScalar, Bool.and_eq_true, decide_eq_true_eq] at hv
    have hread := readWord?_writeInteger hv.1 hv.2 hrest
    obtain ⟨c, u, hu, hbegins⟩ := writeValue_eq_cons (v := integer k) (by simp [isScalar, hv])
    obtain ⟨c', u', hu', hc⟩ := writeInteger_eq_cons k
    rw [writeValue] at hu ⊢
    obtain ⟨rfl, rfl⟩ := List.cons.inj (hu.symm.trans hu')
    rw [hu, List.cons_append] at hread ⊢
    rw [readValue?_word hbegins _ _, hread]
    · rintro rfl
      simp at hc
    · rintro rfl
      simp at hc
  | _ => simp [isScalar] at hv

theorem skipLayout_of_beginsScalar {c : Char} (hc : beginsScalar c) (u : Text) :
    skipLayout false (c :: u) = c :: u := by
  simp only [beginsScalar, Bool.and_eq_true, bne_iff_ne] at hc
  unfold skipLayout
  split
  all_goals simp_all

theorem skipLayout_writeValue (hv : isScalar v) (u : Text) :
    skipLayout false (writeValue v ++ u) = writeValue v ++ u := by
  obtain ⟨c, w, hcons, hbegins⟩ := writeValue_eq_cons hv
  rw [hcons, List.cons_append]
  exact skipLayout_of_beginsScalar hbegins _

/-- The last item may have a comma behind it. -/
theorem readItems?_last (hv : isScalar v) (n depth : Nat) {more : Text}
    (hmore : skipLayout false more = ']' :: rest) :
    readItems? (n + 2) depth (writeValue v ++ ',' :: more) = some ([v], rest) := by
  have hcomma : skipLayout false (',' :: more) = ',' :: more :=
    skipLayout_of_beginsScalar (by decide) more
  have hread := readValue?_scalar hv n depth (',' :: more) (by simp; decide)
  rw [readItems?, hread]
  simp [hcomma, hmore]

/-- Behind the comma of an item there may be another one. -/
theorem readItems?_next {w : Toml} (hv : isScalar v) (hw : isScalar w) (n depth : Nat)
    {more u : Text} (hmore : skipLayout false more = writeValue w ++ u) :
    readItems? (n + 2) depth (writeValue v ++ ',' :: more)
      = (readItems? (n + 1) depth (writeValue w ++ u)).map fun (vs, rest) => (v :: vs, rest) := by
  have hcomma : skipLayout false (',' :: more) = ',' :: more :=
    skipLayout_of_beginsScalar (by decide) more
  have hread := readValue?_scalar hv n depth (',' :: more) (by simp; decide)
  obtain ⟨c, w', hcons, hbegins⟩ := writeValue_eq_cons hw
  have hc : c ≠ ']' := by
    rintro rfl
    exact absurd hbegins (by decide)
  rw [hcons, List.cons_append] at hmore ⊢
  rw [readItems?, hread]
  simp only [bind, Option.bind, hcomma, hmore]
  split
  · next heq => exact absurd (List.cons.inj heq).1 hc
  · cases readItems? (n + 1) depth (c :: (w' ++ u)) <;> rfl

theorem writeItems_cons (v : Toml) (vs : List Toml) :
    writeItems (v :: vs) = "\n    ".toList ++ writeValue v ++ ',' :: writeItems vs := rfl

/-- The items on lines of their own are read back. -/
theorem readItems?_writeItems {vs : List Toml} (hv : isScalar v) (hvs : vs.all isScalar) {n : Nat}
    (hn : vs.length + 2 ≤ n) (depth : Nat) :
    readItems? n depth (writeValue v ++ ',' :: (writeItems vs ++ '\n' :: ']' :: rest))
      = some (v :: vs, rest) := by
  induction vs generalizing v n with
  | nil =>
    obtain ⟨n, rfl⟩ := Nat.exists_eq_add_of_le' hn
    exact readItems?_last hv n depth rfl
  | cons w vs ih =>
    rw [List.all_cons, Bool.and_eq_true] at hvs
    rw [List.length_cons] at hn
    obtain ⟨n, rfl⟩ := Nat.exists_eq_add_of_le' (show 2 ≤ n by omega)
    have hlayout : skipLayout false (writeItems (w :: vs) ++ '\n' :: ']' :: rest)
        = writeValue w ++ ',' :: (writeItems vs ++ '\n' :: ']' :: rest) := by
      have hmore := skipLayout_writeValue hvs.1 (',' :: (writeItems vs ++ '\n' :: ']' :: rest))
      simpa [writeItems_cons, skipLayout, isSpace] using hmore
    rw [readItems?_next hv hvs.1 n depth hlayout, ih hvs.1 hvs.2 (by omega)]
    rfl

/-- Behind the bracket that opens an array there is an item. -/
theorem readValue?_open (hv : isScalar v) {n depth : Nat} (hdepth : depth + 1 < depthLimit)
    {t u : Text} (ht : skipLayout false t = writeValue v ++ u) :
    readValue? (n + 1) depth ('[' :: t)
      = (readItems? n (depth + 1) (writeValue v ++ u)).map fun (vs, rest) => (array vs, rest) := by
  obtain ⟨c, w, hcons, hbegins⟩ := writeValue_eq_cons hv
  have hc : c ≠ ']' := by
    rintro rfl
    exact absurd hbegins (by decide)
  rw [hcons, List.cons_append] at ht ⊢
  rw [readValue?, if_pos hdepth, ht]
  split
  · next heq => exact absurd (List.cons.inj heq).1 hc
  · rfl

theorem length_le_writeItems (vs : List Toml) : vs.length ≤ (writeItems vs).length := by
  induction vs with
  | nil => exact Nat.zero_le _
  | cons v vs ih =>
    simp only [writeItems_cons, List.length_append, List.length_cons]
    omega

/-- An array of scalars is read back. -/
theorem readValue?_array {vs : List Toml} (hvs : vs.all isScalar) {n : Nat}
    (hn : (writeValue (array vs)).length + 3 ≤ n) :
    readValue? n 0 (writeValue (array vs) ++ rest) = some (array vs, rest) := by
  obtain ⟨n, rfl⟩ := Nat.exists_eq_add_of_le' (show 3 ≤ n by omega)
  match vs with
  | [] =>
    rw [writeValue]
    rfl
  | [v] =>
    have hv : isScalar v := by simpa using hvs
    have hread := readValue?_scalar hv n 1 (']' :: rest) (by simp; decide)
    have hitems : readItems? (n + 2) 1 (writeValue v ++ ']' :: rest) = some ([v], rest) := by
      rw [readItems?, hread]
      rfl
    rw [writeValue, List.append_assoc, List.cons_append, List.singleton_append,
      readValue?_open hv (by decide) (skipLayout_writeValue hv _), hitems]
    rfl
  | v :: w :: vs =>
    rw [List.all_cons, Bool.and_eq_true] at hvs
    have hlength := length_le_writeItems (w :: vs)
    have hwrite : writeValue (array (v :: w :: vs)) ++ rest = '[' :: ("\n    ".toList
        ++ (writeValue v ++ ',' :: (writeItems (w :: vs) ++ '\n' :: ']' :: rest))) := by
      simp [writeValue, writeItems_cons]
    have hlayout : skipLayout false ("\n    ".toList
        ++ (writeValue v ++ ',' :: (writeItems (w :: vs) ++ '\n' :: ']' :: rest)))
        = writeValue v ++ ',' :: (writeItems (w :: vs) ++ '\n' :: ']' :: rest) := by
      have hmore := skipLayout_writeValue hvs.1
        (',' :: (writeItems (w :: vs) ++ '\n' :: ']' :: rest))
      simpa [skipLayout, isSpace] using hmore
    have hitems : (w :: vs).length + 2 ≤ n + 2 := by
      have : (writeItems (w :: vs)).length ≤ (writeValue (array (v :: w :: vs))).length := by
        simp [writeValue, writeItems_cons]
        omega
      omega
    rw [hwrite, readValue?_open hvs.1 (by decide) hlayout,
      readItems?_writeItems hvs.1 hvs.2 hitems]
    rfl

/-- A simple value is read back. -/
theorem readValue?_writeValue (hv : isSimple v) {n : Nat} (hn : (writeValue v).length + 3 ≤ n)
    (rest : Text) (hrest : ∀ c ∈ rest.head?, endsWord c) :
    readValue? n 0 (writeValue v ++ rest) = some (v, rest) := by
  obtain ⟨n, rfl⟩ := Nat.exists_eq_add_of_le' (show 1 ≤ n by omega)
  cases v with
  | array vs => exact readValue?_array hv hn
  | string t => exact readValue?_scalar (v := string t) hv n 0 rest hrest
  | boolean b => exact readValue?_scalar (v := boolean b) hv n 0 rest hrest
  | integer k => exact readValue?_scalar (v := integer k) hv n 0 rest hrest
  | _ => simp [isSimple, isScalar] at hv

end

/-! ## Keys -/

/-- Whether a character may stand behind a key. -/
def endsKey (c : Char) : Bool := c = ' ' || c = '.' || c = ']'

section
variable {rest : Text}

theorem isBare_of_endsKey {c : Char} (hc : endsKey c) : isBare c = false := by
  simp only [endsKey, Bool.or_eq_true, decide_eq_true_eq] at hc
  obtain (rfl | rfl) | rfl := hc <;> decide

/-- A key that is not bare is written in quotes. -/
theorem writeKey_cases (key : String) :
    (∃ c u, key.toList = c :: u ∧ isBare c ∧ u.all isBare ∧ writeKey key = c :: u)
      ∨ ∃ u, writeKey key = '\x22' :: u ∧ u = escape .basic 0 key.toList ++ ['\x22'] := by
  unfold writeKey
  by_cases h : key.toList != [] && key.toList.all isBare
  · rw [if_pos h]
    simp only [Bool.and_eq_true, bne_iff_ne] at h
    obtain ⟨c, u, hcons⟩ := List.exists_cons_of_ne_nil h.1
    rw [hcons, List.all_cons, Bool.and_eq_true] at h
    exact .inl ⟨c, u, hcons, h.2.1, h.2.2, hcons⟩
  · rw [if_neg h]
    exact .inr ⟨_, rfl, rfl⟩

/-- A part of a key is read back. -/
theorem readKeyPart?_writeKey (key : String) (hrest : ∀ c ∈ rest.head?, endsKey c) :
    readKeyPart? (writeKey key ++ rest) = some (key, rest) := by
  obtain ⟨c, u, hkey, hc, hu, hwrite⟩ | ⟨u, hwrite, hu⟩ := writeKey_cases key
  · have hline : readLineString? (c :: u ++ rest) = none := by
      have hdouble : c ≠ '\x22' := by
        rintro rfl
        exact absurd hc (by decide)
      have hsingle : c ≠ '\x27' := by
        rintro rfl
        exact absurd hc (by decide)
      unfold readLineString?
      split <;> simp_all
    have hstop : rest.takeWhile isBare = [] := by
      cases rest with
      | nil => rfl
      | cons d rest => simp [isBare_of_endsKey (hrest d (by simp))]
    have htake : (c :: u ++ rest).takeWhile isBare = c :: u := by
      have hall : ∀ d ∈ c :: u, isBare d := by
        simpa [hc] using hu
      rw [List.takeWhile_append_of_pos hall, hstop, List.append_nil]
    rw [readKeyPart?, hwrite, hline]
    simp only [htake]
    rw [if_neg (by simp), List.drop_left, ← hkey, String.ofList_toList]
  · have hquote : rest.head? ≠ some StringKind.basic.quote := by
      intro h
      have := hrest _ h
      simp [endsKey, StringKind.basic] at this
    have hread := readString?_escape (k := .basic) rfl rfl (Nat.zero_le _) key.toList hquote
    have hline : readLineString? ('\x22' :: u ++ rest) = some (key.toList, rest) := by
      rw [hu, List.cons_append, List.append_assoc]
      exact hread
    rw [readKeyPart?, hwrite, hline]
    simp

/-- A character may begin a key. -/
def beginsKey (c : Char) : Bool := isBare c || c = '\x22'

theorem ne_of_beginsKey {c x : Char} (hc : beginsKey c) (hx : beginsKey x = false) : c ≠ x := by
  rintro rfl
  simp [hc] at hx

theorem writeKey_eq_cons (key : String) : ∃ c u, writeKey key = c :: u ∧ beginsKey c := by
  obtain ⟨c, u, -, hc, -, hwrite⟩ | ⟨u, hwrite, -⟩ := writeKey_cases key
  · exact ⟨c, u, hwrite, by simp [beginsKey, hc]⟩
  · exact ⟨_, u, hwrite, by decide⟩

theorem skipSpace_writeKey (key : String) (u : Text) :
    skipSpace (writeKey key ++ u) = writeKey key ++ u := by
  obtain ⟨c, w, hcons, hbegins⟩ := writeKey_eq_cons key
  have hc : isSpace c = false := by
    simp [isSpace, ne_of_beginsKey hbegins (x := ' ') (by decide),
      ne_of_beginsKey hbegins (x := '\t') (by decide)]
  rw [hcons, List.cons_append, skipSpace, List.dropWhile_cons_of_neg (by simp [hc])]

/-- A dotted key as it is written. -/
def writePath (parts : List String) : Text := Text.glue '.' (parts.map writeKey)

/-- The parts of a dotted key are read back. -/
theorem readKeyParts?_writePath {parts : List String} (hparts : parts ≠ []) {n : Nat}
    (hn : parts.length ≤ n) (hrest : ∀ c ∈ rest.head?, endsKey c)
    (hdot : (skipSpace rest).head? ≠ some '.') :
    readKeyParts? n (writePath parts ++ rest) = some (parts, skipSpace rest) := by
  unfold writePath
  induction parts generalizing n with
  | nil => contradiction
  | cons p parts ih =>
    rw [List.length_cons] at hn
    obtain ⟨n, rfl⟩ := Nat.exists_eq_add_of_le' (show 1 ≤ n by omega)
    cases parts with
    | nil =>
      rw [List.map_cons, List.map_nil, Text.glue, readKeyParts?, skipSpace_writeKey,
        readKeyPart?_writeKey p hrest]
      simp only [bind, Option.bind]
      split
      · next heq => simp [heq] at hdot
      · rfl
    | cons q parts =>
      have hglue : Text.glue '.' ((p :: q :: parts).map writeKey) ++ rest
          = writeKey p ++ '.' :: (Text.glue '.' ((q :: parts).map writeKey) ++ rest) := by
        simp [Text.glue]
      have hspace : ∀ u, skipSpace ('.' :: u) = '.' :: u := fun u => by simp [skipSpace, isSpace]
      rw [hglue, readKeyParts?, skipSpace_writeKey, readKeyPart?_writeKey p (by simp; decide)]
      simp only [bind, Option.bind, hspace]
      rw [ih (by simp) (by omega)]
      rfl

/-- A dotted key is read back. -/
theorem readKey?_writePath {path : List String} (hpath : path.length + 1 < depthLimit)
    (key : String) (rest : Text) (hrest : ∀ c ∈ rest.head?, endsKey c)
    (hdot : (skipSpace rest).head? ≠ some '.') :
    readKey? (writePath (path ++ [key]) ++ rest) = some (path, key, skipSpace rest) := by
  rw [readKey?, readKeyParts?_writePath (by simp) (by simp; omega) hrest hdot]
  simp [hpath]

theorem writePath_eq_cons (path : List String) (key : String) :
    ∃ c u, writePath (path ++ [key]) = c :: u ∧ beginsKey c := by
  cases path with
  | nil => exact writeKey_eq_cons key
  | cons p path =>
    obtain ⟨c, u, hcons, hbegins⟩ := writeKey_eq_cons p
    have hglue : ∃ w, writePath (p :: path ++ [key]) = writeKey p ++ w := by
      cases path with
      | nil => exact ⟨'.' :: writeKey key, rfl⟩
      | cons q path => exact ⟨_, rfl⟩
    obtain ⟨w, hw⟩ := hglue
    exact ⟨c, u ++ w, by rw [hw, hcons, List.cons_append], hbegins⟩

/-! ## Statements -/

/-- A statement as it is written. -/
def Statement.write : Statement → Text
  | .header path key => '[' :: writePath (path ++ [key]) ++ [']', '\n']
  | .arrayHeader path key => '[' :: '[' :: writePath (path ++ [key]) ++ [']', ']', '\n']
  | .assign path key v => writePath (path ++ [key]) ++ " = ".toList ++ writeValue v ++ ['\n']

/-- Whether a statement is not nested too deeply and assigns a simple value, if
any. -/
def Statement.isReadable : Statement → Bool
  | .header path _ | .arrayHeader path _ => path.length + 1 < depthLimit
  | .assign path _ v => path.length + 1 < depthLimit && isSimple v

theorem afterStatement?_newline (rest : Text) : afterStatement? ('\n' :: rest) = some rest := rfl

/-- Statements begin with a bracket or a key. -/
theorem write_eq_cons (s : Statement) :
    ∃ c u, s.write = c :: u ∧ (c = '[' ∨ beginsKey c) := by
  cases s with
  | header path key => exact ⟨'[', _, rfl, .inl rfl⟩
  | arrayHeader path key => exact ⟨'[', _, rfl, .inl rfl⟩
  | assign path key v =>
    obtain ⟨c, u, hcons, hbegins⟩ := writePath_eq_cons path key
    exact ⟨c, u ++ (" = ".toList ++ (writeValue v ++ ['\n'])), by simp [Statement.write, hcons],
      .inr hbegins⟩

theorem readStatement?_header {path : List String} (hpath : path.length + 1 < depthLimit)
    (key : String) (rest : Text) :
    readStatement? ('[' :: (writePath (path ++ [key]) ++ ']' :: '\n' :: rest))
      = some (.header path key, rest) := by
  have hkey := readKey?_writePath hpath key (']' :: '\n' :: rest) (by simp; decide)
    (by simp [skipSpace, isSpace])
  obtain ⟨c, u, hcons, hbegins⟩ := writePath_eq_cons path key
  have hc : c ≠ '[' := ne_of_beginsKey hbegins (by decide)
  rw [hcons, List.cons_append] at hkey ⊢
  rw [readStatement?, hkey]
  · simp [skipSpace, isSpace, after?, afterStatement?_newline]
  · intro tail h
    exact hc (List.cons.inj h).1

theorem readStatement?_arrayHeader {path : List String} (hpath : path.length + 1 < depthLimit)
    (key : String) (rest : Text) :
    readStatement? ('[' :: '[' :: (writePath (path ++ [key]) ++ ']' :: ']' :: '\n' :: rest))
      = some (.arrayHeader path key, rest) := by
  have hkey := readKey?_writePath hpath key (']' :: ']' :: '\n' :: rest) (by simp; decide)
    (by simp [skipSpace, isSpace])
  rw [readStatement?, hkey]
  simp [skipSpace, isSpace, after?, afterStatement?_newline]

theorem skipSpace_writeValue {v : Toml} (hv : isSimple v) (u : Text) :
    skipSpace (writeValue v ++ u) = writeValue v ++ u := by
  obtain ⟨c, w, hcons, hc⟩ : ∃ c w, writeValue v = c :: w ∧ isSpace c = false := by
    have hscalar : isScalar v → ∃ c w, writeValue v = c :: w ∧ isSpace c = false := by
      intro hv
      obtain ⟨c, w, hcons, hbegins⟩ := writeValue_eq_cons hv
      simp only [beginsScalar, Bool.and_eq_true, Bool.not_eq_true'] at hbegins
      exact ⟨c, w, hcons, hbegins.1.1.1.1.1.1⟩
    cases v with
    | array vs =>
      match vs with
      | [] => exact ⟨'[', _, rfl, by decide⟩
      | [v] => exact ⟨'[', _, rfl, by decide⟩
      | v :: w :: vs => exact ⟨'[', _, rfl, by decide⟩
    | _ => exact hscalar hv
  rw [hcons, List.cons_append, skipSpace, List.dropWhile_cons_of_neg (by simp [hc])]

theorem readStatement?_assign {path : List String} (hpath : path.length + 1 < depthLimit)
    (key : String) {v : Toml} (hv : isSimple v) (rest : Text) :
    readStatement?
        (writePath (path ++ [key]) ++ (' ' :: '=' :: ' ' :: (writeValue v ++ '\n' :: rest)))
      = some (.assign path key v, rest) := by
  have hkey := readKey?_writePath hpath key
    (' ' :: '=' :: ' ' :: (writeValue v ++ '\n' :: rest)) (by simp; decide)
    (by simp [skipSpace, isSpace])
  have hspace : skipSpace (' ' :: '=' :: ' ' :: (writeValue v ++ '\n' :: rest))
      = '=' :: ' ' :: (writeValue v ++ '\n' :: rest) := by
    simp [skipSpace, isSpace]
  have hvalue : skipSpace (' ' :: (writeValue v ++ '\n' :: rest)) = writeValue v ++ '\n' :: rest :=
    skipSpace_writeValue hv _
  have hread := readValue?_writeValue hv
    (n := 2 * (' ' :: (writeValue v ++ '\n' :: rest)).length + 2)
    (by simp; omega) ('\n' :: rest) (by simp; decide)
  obtain ⟨c, u, hcons, hbegins⟩ := writePath_eq_cons path key
  have hc : c ≠ '[' := ne_of_beginsKey hbegins (by decide)
  rw [hcons, List.cons_append] at hkey ⊢
  rw [readStatement?, hkey]
  · simp only [bind, Option.bind, hspace, after?, if_true, hvalue]
    rw [hread]
    simp only [afterStatement?_newline]
    rfl
  · intro tail h
    exact hc (List.cons.inj h).1
  · intro tail h
    exact hc (List.cons.inj h).1

/-- A statement is read back. -/
theorem readStatement?_write {s : Statement} (hs : s.isReadable) (rest : Text) :
    readStatement? (s.write ++ rest) = some (s, rest) := by
  cases s with
  | header path key =>
    simpa [Statement.write] using
      readStatement?_header (by simpa [Statement.isReadable] using hs) key rest
  | arrayHeader path key =>
    simpa [Statement.write] using
      readStatement?_arrayHeader (by simpa [Statement.isReadable] using hs) key rest
  | assign path key v =>
    simp only [Statement.isReadable, Bool.and_eq_true, decide_eq_true_eq] at hs
    simpa [Statement.write] using readStatement?_assign hs.1 key hs.2 rest

/-- A text that consists of statements, with empty lines before some of them. -/
inductive Laid : Text → List Statement → Prop
  | nil : Laid [] []
  | blank : Laid t ss → Laid ('\n' :: t) ss
  | cons (hs : s.isReadable) : Laid t ss → Laid (s.write ++ t) (s :: ss)

theorem skipLayout_write (s : Statement) (u : Text) :
    skipLayout false (s.write ++ u) = s.write ++ u := by
  obtain ⟨c, w, hcons, hc⟩ := write_eq_cons s
  have hne : ∀ x, beginsKey x = false → x ≠ '[' → c ≠ x := by
    rintro x hx hbracket rfl
    simp [hx, hbracket] at hc
  have hlayout : c ≠ '\n' ∧ c ≠ '\r' ∧ c ≠ '#' ∧ isSpace c = false := by
    simp [isSpace, hne '\n' (by decide) (by decide), hne '\r' (by decide) (by decide),
      hne '#' (by decide) (by decide), hne ' ' (by decide) (by decide),
      hne '\t' (by decide) (by decide)]
  rw [hcons, List.cons_append, skipLayout] <;> simp_all

/-- Such a text is read as its statements. -/
theorem readStatements?_laid {t : Text} {ss : List Statement} (h : Laid t ss) {n : Nat}
    (hn : ss.length < n) : readStatements? n t = some ss := by
  induction h generalizing n with
  | nil =>
    obtain ⟨n, rfl⟩ := Nat.exists_eq_add_of_le' hn
    rfl
  | blank h ih =>
    obtain ⟨n, rfl⟩ := Nat.exists_eq_add_of_le' (show 1 ≤ n by omega)
    have hrest := ih hn
    rw [readStatements?] at hrest ⊢
    exact hrest
  | @cons t ss s hs h ih =>
    rw [List.length_cons] at hn
    obtain ⟨n, rfl⟩ := Nat.exists_eq_add_of_le' (show 1 ≤ n by omega)
    obtain ⟨c, u, hcons, -⟩ := write_eq_cons s
    have hread := readStatement?_write hs t
    rw [readStatements?, skipLayout_write]
    rw [hcons, List.cons_append] at hread ⊢
    simp only [hread, bind, Option.bind]
    rw [ih (by omega)]
    rfl

end

end Toml
end LogPrune
