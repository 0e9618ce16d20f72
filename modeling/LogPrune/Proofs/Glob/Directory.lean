import LogPrune.Exclusion
import LogPrune.Proofs.Text.Lines
import Mathlib.Data.List.Basic

/-!
# LogPrune.Proofs.Glob.Directory

Globs of all that is in directories of one name.

1. Such a glob is read as directories at the start, the characters of the name
   and everything below (`parse_directoryText`).
2. It matches a path just if the name stands in it with a slash behind it, and with
   a slash or nothing before it (`matchesText_directory_iff`).
3. So it matches with a path all that starts with it (`matchesText_append`), and
   one slash at the end is as good as two (`matchesText_of_append_slash`).
4. A path that has the name as a segment other than the last is matched
   (`matchesText_withSlashes`).
-/

namespace LogPrune

/-! ## Bytes -/

/-- The bytes from an index on are put behind those before it. -/
theorem loop_eq_append_drop (bytes : ByteArray) (i : Nat) (before : List UInt8) :
    ByteArray.toList.loop bytes i before = before.reverse ++ bytes.data.toList.drop i := by
  rw [ByteArray.toList.loop]
  split
  · next hi =>
    have hdrop : bytes.data.toList.drop i = bytes.get! i :: bytes.data.toList.drop (i + 1) := by
      rw [List.drop_eq_getElem_cons (show i < bytes.data.toList.length from hi)]
      simp [ByteArray.get!, hi]
    rw [loop_eq_append_drop bytes (i + 1), hdrop, List.reverse_cons, List.append_assoc,
      List.singleton_append]
  · next hi =>
    have hdrop : bytes.data.toList.drop i = [] := List.drop_eq_nil_of_le (Nat.le_of_not_lt hi)
    rw [hdrop, List.append_nil]
termination_by bytes.size - i

theorem toList_eq_data (bytes : ByteArray) : bytes.toList = bytes.data.toList := by
  simp [ByteArray.toList, loop_eq_append_drop]

namespace Glob

theorem charBytes_eq (c : Char) : charBytes c = String.utf8EncodeChar c := by
  rw [charBytes, toList_eq_data, String.toUTF8, String.toByteArray_singleton, List.utf8Encode]
  simp

/-- The bytes of a text are those of its characters. -/
theorem toUTF8_toList (s : String) : s.toUTF8.toList = s.toList.flatMap charBytes := by
  have hbytes : s.toByteArray = s.toList.utf8Encode := by
    rw [← String.toByteArray_ofList, String.ofList_toList]
  rw [toList_eq_data, String.toUTF8, hbytes, List.utf8Encode]
  simp [funext charBytes_eq]

theorem toUTF8_append (s t : String) :
    (s ++ t).toUTF8.toList = s.toUTF8.toList ++ t.toUTF8.toList := by
  rw [toUTF8_toList, toUTF8_toList, toUTF8_toList, String.toList_append, List.flatMap_append]

theorem mod_of_slash_eq {n : Nat} (h : slash = UInt8.ofNat n) : n % 256 = 0x2F := by
  simpa [slash] using (congrArg UInt8.toNat h).symm

theorem charBytes_ne_nil (c : Char) : charBytes c ≠ [] := by
  rw [charBytes_eq]
  exact String.utf8EncodeChar_ne_nil

/-- No other character has the byte of a slash among its bytes. -/
theorem eq_of_slash_mem_charBytes {c : Char} (h : slash ∈ charBytes c) : c = '/' := by
  rw [charBytes_eq, String.utf8EncodeChar] at h
  split at h
  · next hsmall =>
    have hmod := mod_of_slash_eq (List.mem_singleton.1 h)
    have hval : c.val.toNat = 0x2F := by omega
    exact Char.ext (UInt32.toNat_inj.1 hval)
  · -- the bytes of a character of several bytes are 128 or more
    obtain ⟨n, hn, hlow, hhigh⟩ : ∃ n, slash = UInt8.ofNat n ∧ 128 ≤ n ∧ n < 256 := by
      split_ifs at h <;> simp only [List.mem_cons, List.not_mem_nil, or_false] at h
      · obtain h | h := h <;> exact ⟨_, h, by omega, by omega⟩
      · obtain h | h | h := h <;> exact ⟨_, h, by omega, by omega⟩
      · obtain h | h | h | h := h <;> exact ⟨_, h, by omega, by omega⟩
    have hmod := mod_of_slash_eq hn
    omega

/-! ## Reading -/

/-- The characters that mean something to a glob, and the slash. -/
def specialChars : List Char := ['?', '*', '[', '\x7b', '\x7d', '\\', '/']

/-- Names of single directories that a glob takes as they are written. -/
structure IsLiteral (name : String) : Prop where
  ne_empty : name ≠ ""
  plain : ∀ c ∈ name.toList, c ∉ specialChars

/-- The glob of all that is in directories of a name, as it is written. -/
def directoryText (name : String) : String := "**/" ++ name ++ "/**"

/-- The glob of all that is in directories of a name. -/
def directory (name : String) : Glob :=
  seq leadingDirs (name.toList.foldr (fun c g => seq (char c) g) (seq everythingBelow empty))

/-- A character that means nothing outside braces stands for itself. -/
theorem read_literal {c : Char} (hc : c ∉ specialChars)
    (parts : List Glob) (previous : Option Char) :
    read ⟨[], parts, previous, .plain⟩ c = .ok ⟨[], char c :: parts, some c, .plain⟩ := by
  simp only [specialChars, List.mem_cons, List.not_mem_nil, or_false, not_or] at hc
  obtain ⟨hany, hrun, hclass, hopen, hclose, hescape, -⟩ := hc
  by_cases hcomma : c = ','
  · subst hcomma
    rfl
  · simp [read, readPlain, hany, hrun, hclass, hopen, hclose, hescape, hcomma, ReaderState.push,
      bind, Except.bind, pure, Except.pure]

theorem foldlM_read_literal {cs : List Char}
    (h : ∀ c ∈ cs, c ∉ specialChars) (parts : List Glob)
    (previous : Option Char) :
    ∃ last, cs.foldlM read ⟨[], parts, previous, .plain⟩
      = .ok ⟨[], (cs.map char).reverse ++ parts, last, .plain⟩ := by
  induction cs generalizing parts previous with
  | nil => exact ⟨previous, rfl⟩
  | cons c cs ih =>
    obtain ⟨last, hlast⟩ := ih (fun c hc => h c (List.mem_cons_of_mem _ hc)) (char c :: parts) (some c)
    refine ⟨last, ?_⟩
    rw [List.foldlM_cons, read_literal (h c List.mem_cons_self)]
    simpa [bind, Except.bind] using hlast

theorem ofParts_reverse (parts : List Glob) : ofParts parts.reverse = parts.foldr seq empty := by
  rw [ofParts, List.foldl_reverse]

/-- The glob of a directory is read as it was meant. -/
theorem parse_directoryText {name : String} (h : IsLiteral name) :
    parse (directoryText name) = .ok (directory name) := by
  have hopen : "**/".toList.foldlM read {} = .ok ⟨[], [leadingDirs], some '/', .plain⟩ := rfl
  obtain ⟨last, hname⟩ := foldlM_read_literal h.plain [leadingDirs] (some '/')
  have hclose : ∀ parts, "/**".toList.foldlM read ⟨[], parts, last, .plain⟩
      = .ok ⟨[], char '/' :: parts, some '*', .twoStars (some '/')⟩ := fun _ => rfl
  have hparts : everythingBelow :: ((name.toList.map char).reverse ++ [leadingDirs])
      = (leadingDirs :: (name.toList.map char ++ [everythingBelow])).reverse := by
    simp
  rw [parse, directoryText, String.toList_append, String.toList_append, List.foldlM_append,
    List.foldlM_append, hopen]
  simp only [bind, Except.bind, hname, hclose]
  have hfinish : finish ⟨[], char '/' :: ((name.toList.map char).reverse ++ [leadingDirs]),
      some '*', .twoStars (some '/')⟩
      = .ok (ofParts (everythingBelow :: ((name.toList.map char).reverse ++ [leadingDirs]))) := by
    simp [finish, readTwoStars, ReaderState.inGroup, bind, Except.bind, pure, Except.pure]
  rw [hfinish, hparts, ofParts_reverse]
  simp [directory, List.foldr_append, List.foldr_map]

/-! ## Matching -/

theorem matchesBytes_iff {g : Glob} {t : List UInt8} : g.matchesBytes t ↔ [] ∈ g.leaves t := by
  simp [matchesBytes]

theorem mem_leaves_seq {a b : Glob} {r t : List UInt8} :
    r ∈ (seq a b).leaves t ↔ ∃ m ∈ a.leaves t, r ∈ b.leaves m := by
  simp [leaves]

theorem nil_mem_tails (t : List UInt8) : [] ∈ tails t := by
  induction t with
  | nil => simp [tails]
  | cons x t ih => simp [tails, ih]

theorem mem_behindSlashes {r t : List UInt8} :
    r ∈ behindSlashes t ↔ ∃ front, t = front ++ slash :: r := by
  induction t with
  | nil => simp [behindSlashes]
  | cons x t ih =>
    rw [behindSlashes]
    split
    · next hx =>
      subst hx
      rw [List.mem_cons, ih]
      constructor
      · rintro (rfl | ⟨front, rfl⟩)
        · exact ⟨[], rfl⟩
        · exact ⟨slash :: front, rfl⟩
      · rintro ⟨_ | ⟨y, front⟩, h⟩ <;> grind
    · next hx =>
      rw [ih]
      constructor
      · rintro ⟨front, rfl⟩
        exact ⟨x :: front, rfl⟩
      · rintro ⟨_ | ⟨y, front⟩, h⟩ <;> grind

theorem behind?_eq_some_iff {bytes r t : List UInt8} :
    behind? bytes t = some r ↔ t = bytes ++ r := by
  fun_induction behind? bytes t <;> grind

theorem mem_leaves_char {c : Char} {r t : List UInt8} :
    r ∈ (char c).leaves t ↔ t = charBytes c ++ r := by
  simp [leaves, behind?_eq_some_iff]

theorem mem_leaves_chars {cs : List Char} {g : Glob} {r t : List UInt8} :
    r ∈ (cs.foldr (fun c g => seq (char c) g) g).leaves t
      ↔ ∃ m, t = cs.flatMap charBytes ++ m ∧ r ∈ g.leaves m := by
  induction cs generalizing t with
  | nil => simp
  | cons c cs ih =>
    simp only [List.foldr_cons, mem_leaves_seq, mem_leaves_char, ih, List.flatMap_cons]
    grind

theorem nil_mem_leaves_below {t : List UInt8} :
    [] ∈ (seq everythingBelow empty).leaves t ↔ ∃ after, t = slash :: after := by
  rw [mem_leaves_seq]
  cases t with
  | nil => simp [leaves]
  | cons x t =>
    by_cases hx : x = slash
    · simp [leaves, hx, nil_mem_tails]
    · simp [leaves, hx]

theorem mem_leaves_leadingDirs {m t : List UInt8} :
    m ∈ leadingDirs.leaves t ↔ m = t ∨ ∃ front, t = front ++ slash :: m := by
  simp [leaves, mem_behindSlashes]

/-- Such a glob matches where the name stands between slashes, or at the start with
a slash behind it. -/
theorem matchesText_directory_iff {name path : String} :
    (directory name).matchesText path ↔ ∃ before after,
      path.toUTF8.toList = before ++ name.toUTF8.toList ++ slash :: after
        ∧ (before = [] ∨ ∃ front, before = front ++ [slash]) := by
  rw [matchesText, matchesBytes_iff, directory, mem_leaves_seq, toUTF8_toList name]
  simp only [mem_leaves_leadingDirs, mem_leaves_chars, nil_mem_leaves_below]
  generalize path.toUTF8.toList = bytes
  constructor
  · rintro ⟨m, hm, _, rfl, after, rfl⟩
    obtain hm | ⟨front, hm⟩ := hm
    · exact ⟨[], after, by simpa using hm.symm, .inl rfl⟩
    · exact ⟨front ++ [slash], after, by simpa using hm, .inr ⟨front, rfl⟩⟩
  · rintro ⟨before, after, hpath, rfl | ⟨front, rfl⟩⟩
    · exact ⟨_, .inl rfl, slash :: after, by simpa using hpath, after, rfl⟩
    · exact ⟨_, .inr ⟨front, by simpa using hpath⟩, _, rfl, after, rfl⟩

/-- With a path all that starts with it is matched. -/
theorem matchesText_append {name s : String} (h : (directory name).matchesText s) (t : String) :
    (directory name).matchesText (s ++ t) := by
  obtain ⟨before, after, hs, hbefore⟩ := matchesText_directory_iff.1 h
  refine matchesText_directory_iff.2 ⟨before, after ++ t.toUTF8.toList, ?_, hbefore⟩
  rw [toUTF8_append, hs, List.append_assoc, List.cons_append]

theorem slash_not_mem_bytes {name : String} (h : IsLiteral name) :
    slash ∉ name.toUTF8.toList := by
  rw [toUTF8_toList, List.mem_flatMap]
  rintro ⟨c, hc, hslash⟩
  have hplain := h.plain c hc
  simp [eq_of_slash_mem_charBytes hslash, specialChars] at hplain

theorem bytes_ne_nil {name : String} (h : IsLiteral name) : name.toUTF8.toList ≠ [] := by
  have hname : name.toList ≠ [] := by simpa using h.ne_empty
  obtain ⟨c, cs, hcs⟩ := List.exists_cons_of_ne_nil hname
  rw [toUTF8_toList, hcs, List.flatMap_cons]
  exact List.append_ne_nil_of_left_ne_nil (charBytes_ne_nil c) _

theorem slash_bytes : "/".toUTF8.toList = [slash] := by decide +kernel

/-- A name does not end in a slash, so it is not the end of a text that does. -/
theorem toUTF8_ne_append_name {name s : String} (hname : IsLiteral name)
    (hs : s = "" ∨ ∃ front, s = front ++ "/") (before : List UInt8) :
    s.toUTF8.toList ≠ before ++ name.toUTF8.toList := by
  intro hend
  obtain ⟨front, last, hlast⟩ :=
    (List.eq_nil_or_concat' name.toUTF8.toList).resolve_left (bytes_ne_nil hname)
  rw [hlast, ← List.append_assoc] at hend
  obtain rfl | ⟨front', rfl⟩ := hs
  · simp at hend
  · rw [toUTF8_append, slash_bytes] at hend
    have hslash : slash ∈ name.toUTF8.toList := by
      rw [hlast, ← List.append_inj_right' hend rfl]
      exact List.mem_append_right front (List.mem_singleton_self slash)
    exact slash_not_mem_bytes hname hslash

/-- Behind nothing or behind a slash, one more slash at the end makes no difference. -/
theorem matchesText_of_append_slash {name s : String} (hname : IsLiteral name)
    (hs : s = "" ∨ ∃ front, s = front ++ "/") (h : (directory name).matchesText (s ++ "/")) :
    (directory name).matchesText s := by
  obtain ⟨before, after, hbytes, hbefore⟩ := matchesText_directory_iff.1 h
  rw [toUTF8_append, slash_bytes] at hbytes
  obtain rfl | ⟨after, last, rfl⟩ := List.eq_nil_or_concat' after
  · exact absurd (List.append_cancel_right hbytes) (toUTF8_ne_append_name hname hs before)
  · refine matchesText_directory_iff.2 ⟨before, after, ?_, hbefore⟩
    rw [← List.cons_append, ← List.append_assoc] at hbytes
    exact List.append_inj_left' hbytes rfl

end Glob

/-! ## Segments -/

/-- A piece other than the last has the separator behind it, and also before it unless
it is the first. -/
theorem Text.exists_glue_eq (sep : Char) (ps : List Text) (a b : Text) (qs : List Text) :
    ∃ before, glue sep (ps ++ a :: b :: qs) = before ++ a ++ sep :: glue sep (b :: qs)
      ∧ (before = [] ∨ ∃ front, before = front ++ [sep]) := by
  induction ps with
  | nil => exact ⟨[], rfl, .inl rfl⟩
  | cons p ps ih =>
    obtain ⟨before, hglue, hbefore⟩ := ih
    have hcons : glue sep (p :: (ps ++ a :: b :: qs)) = p ++ sep :: glue sep (ps ++ a :: b :: qs) := by
      cases ps <;> rfl
    refine ⟨p ++ sep :: before, ?_, .inr ?_⟩
    · rw [List.cons_append, hcons, hglue]
      simp
    · obtain rfl | ⟨front, rfl⟩ := hbefore
      · exact ⟨p, rfl⟩
      · exact ⟨p ++ sep :: front, by simp⟩

namespace Glob

/-- The bytes that stand for a character of a path. -/
def pathBytes (c : Char) : List UInt8 := if c = '\\' then [slash] else charBytes c

theorem toUTF8_withSlashes (p : FilePath) :
    p.withSlashes.toUTF8.toList = p.text.toList.flatMap pathBytes := by
  rw [toUTF8_toList, FilePath.withSlashes, String.toList_ofList, List.flatMap_map]
  refine List.flatMap_congr fun c _ => ?_
  rw [pathBytes, apply_ite charBytes]
  exact congrArg (fun bytes => if c = '\\' then bytes else charBytes c) slash_bytes

theorem pathBytes_slash : pathBytes '/' = [slash] := slash_bytes

theorem flatMap_pathBytes {name : String} (h : IsLiteral name) :
    name.toList.flatMap pathBytes = name.toUTF8.toList := by
  rw [toUTF8_toList]
  refine List.flatMap_congr fun c hc => if_neg ?_
  rintro rfl
  simpa [specialChars] using h.plain _ hc

/-- A path that has the name as a segment other than the last is matched. -/
theorem matchesText_withSlashes {name : String} {p : FilePath} (hname : IsLiteral name)
    (h : name ∈ p.segments.dropLast) : (directory name).matchesText p.withSlashes := by
  obtain ⟨ps, b, qs, hpieces⟩ : ∃ ps b qs, Text.pieces '/' p.text.toList
      = ps ++ name.toList :: b :: qs := by
    rw [FilePath.segments, ← List.map_dropLast, List.mem_map] at h
    obtain ⟨piece, hpiece, rfl⟩ := h
    obtain ⟨ps, qs, hsplit⟩ := List.mem_iff_append.1 hpiece
    obtain ⟨front, last, hlast⟩ := List.eq_nil_or_concat' (Text.pieces '/' p.text.toList)
      |>.resolve_left (Text.pieces_ne_nil '/' _)
    rw [hlast, List.dropLast_concat] at hsplit
    obtain ⟨b, rest, hrest⟩ := List.exists_cons_of_ne_nil
      (List.append_ne_nil_of_right_ne_nil qs (List.cons_ne_nil last []))
    exact ⟨ps, b, rest, by simp [hlast, hsplit, hrest]⟩
  obtain ⟨before, hglue, hbefore⟩ := Text.exists_glue_eq '/' ps name.toList b qs
  rw [← hpieces, Text.glue_pieces] at hglue
  refine matchesText_directory_iff.2
    ⟨before.flatMap pathBytes, (Text.glue '/' (b :: qs)).flatMap pathBytes, ?_, ?_⟩
  · rw [toUTF8_withSlashes, hglue, List.flatMap_append, List.flatMap_append,
      flatMap_pathBytes hname, List.flatMap_cons, pathBytes_slash, List.singleton_append]
  · obtain rfl | ⟨front, rfl⟩ := hbefore
    · exact .inl rfl
    · exact .inr ⟨front.flatMap pathBytes, by simp [pathBytes_slash]⟩

end Glob
end LogPrune
