import LogPrune.Toml.Quoted

/-!
# LogPrune.Proofs.Toml.Quoted

Strings are read as they were written.

1. What is written for a character in a kind with escapes is read as that
   character (`readString?_escapeChar`); in a kind without, a character that suits
   the kind stands for itself (`readString?_self`).
2. Inside a string over several lines quotes are pending until the next character
   tells whether they are text.  Both forms of a string are read back from any
   number of pending quotes (`readString?_escape`, `readString?_raw`).
3. Whatever kind a text is written in, it is read back, provided that no quote
   follows (`readAnyString?_writeString`).
-/

namespace LogPrune
namespace Toml

/-! ## Single characters -/

/-- What the next character is part of, behind a number of quotes. -/
def pending : Nat → StringContext
  | 0 => .body
  | n + 1 => .quotes (n + 1)

/-- The number of quotes in a row that a string of a kind may hold. -/
def quoteLimit (k : StringKind) : Nat := if k.multiLine then 2 else 0

section
variable {k : StringKind} {c : Char}

theorem isPlain_of_not_isControl (h : isControl c = false) : isPlain c ∧ c ≠ '\n' ∧ c ≠ '\r' := by
  refine ⟨?_, ?_, ?_⟩
  · simp [isControl] at h
    simp [isPlain, h]
  · rintro rfl
    simp [isControl] at h
  · rintro rfl
    simp [isControl] at h

theorem bodyStep?_ne_quote (h : c ≠ k.quote) :
    bodyStep? k c = none ∨ ∃ t next, bodyStep? k c = some (.add t next) := by
  unfold bodyStep?
  grind

/-- A character that is no quote is read as in the body, behind the quotes that
are pending. -/
theorem readString?_pending {n : Nat} (hn : n ≤ 2) (h : c ≠ k.quote) (cs : Text) :
    readString? k (pending n) (c :: cs)
      = (readString? k .body (c :: cs)).map fun (s, rest) =>
          (List.replicate n k.quote ++ s, rest) := by
  obtain _ | n := n
  · simp [pending]
  have hstep : stringStep? k c (.quotes (n + 1))
      = (bodyStep? k c).map (·.after (List.replicate (n + 1) k.quote)) := by
    rw [stringStep?, if_neg (by omega), if_neg h, if_neg (by omega)]
  rw [pending, readString?, readString?, hstep]
  obtain hnone | ⟨t, next, hadd⟩ := bodyStep?_ne_quote h
  · simp [stringStep?, hnone]
  · simp [stringStep?, hadd, StringStep.after, Option.map_map, Function.comp_def]

/-- In a string over several lines a quote waits for what follows it. -/
theorem readString?_quote (hlines : k.multiLine) {n : Nat} (hn : n < 5) (cs : Text) :
    readString? k (pending n) (k.quote :: cs) = readString? k (pending (n + 1)) cs := by
  rw [readString?]
  obtain _ | n := n
  · simp [pending, stringStep?, bodyStep?, hlines]
  · simp [pending, stringStep?, show ¬ 5 ≤ n + 1 by omega]

theorem hexDigitValue?_upperHexDigit : ∀ n < 16, hexDigitValue? (upperHexDigit n) = some n := by
  decide

/-- A control character is read back from its two digits. -/
theorem readString?_control (k : StringKind) (h : isControl c) (cs : Text) :
    readString? k (.digits 4 0)
        ('0' :: '0' :: upperHexDigit (c.toNat / 16) :: upperHexDigit (c.toNat % 16) :: cs)
      = (readString? k .body cs).map fun (s, rest) => (c :: s, rest) := by
  have hsmall : c.toNat < 0x80 := by
    simp [isControl] at h
    omega
  have hzero : hexDigitValue? '0' = some 0 := by decide
  have hhigh := hexDigitValue?_upperHexDigit (c.toNat / 16) (by omega)
  have hlow := hexDigitValue?_upperHexDigit (c.toNat % 16) (by omega)
  have hvalue : c.toNat / 16 * 16 + c.toNat % 16 = c.toNat := by omega
  have hvalid : c.toNat.isValidChar := .inl (by omega)
  simp [readString?, stringStep?, hzero, hhigh, hlow, hvalue, charOfNat?, hvalid,
    Char.ofNat_toNat, Option.map_map, Function.comp_def]

/-- A backslash begins an escape. -/
theorem readString?_backslash (hk : k.escapes) (hquote : k.quote ≠ '\\') (cs : Text) :
    readString? k .body ('\\' :: cs) = readString? k .escape cs := by
  simp [readString?, stringStep?, bodyStep?, hk, Ne.symm hquote]

/-- An escape with one letter is read as the character that it stands for. -/
theorem readString?_letter {letter : Char} (h : unescape? letter = some c)
    (hu : letter ≠ 'u' ∧ letter ≠ 'U') (cs : Text) :
    readString? k .escape (letter :: cs)
      = (readString? k .body cs).map fun (s, rest) => (c :: s, rest) := by
  simp [readString?, stringStep?, hu, h]

/-- What is written for a character in a kind with escapes is read as that
character. -/
theorem readString?_escapeChar (hk : k.escapes) (hquote : k.quote = '\x22') (h : c ≠ '\x22')
    (cs : Text) :
    readString? k .body (escapeChar k c ++ cs)
      = (readString? k .body cs).map fun (s, rest) => (c :: s, rest) := by
  have hslash : k.quote ≠ '\\' := by simp [hquote]
  have hletter : ∀ letter, unescape? letter = some c → letter ≠ 'u' ∧ letter ≠ 'U' →
      readString? k .body ('\\' :: letter :: cs)
        = (readString? k .body cs).map fun (s, rest) => (c :: s, rest) := by
    intro letter hun hu
    rw [readString?_backslash hk hslash, readString?_letter hun hu]
  unfold escapeChar
  by_cases hc : c = '\\'
  · subst hc
    exact hletter '\\' rfl (by decide)
  by_cases hback : c = '\x08'
  · subst hback
    exact hletter 'b' rfl (by decide)
  by_cases htab : c = '\t'
  · subst htab
    exact hletter 't' rfl (by decide)
  by_cases hnewline : c = '\n'
  · subst hnewline
    cases hlines : k.multiLine with
    | true => simp [readString?, stringStep?, bodyStep?, hquote, hlines]
    | false => exact hletter 'n' rfl (by decide)
  by_cases hfeed : c = '\x0c'
  · subst hfeed
    exact hletter 'f' rfl (by decide)
  by_cases hreturn : c = '\r'
  · subst hreturn
    exact hletter 'r' rfl (by decide)
  rw [if_neg hc, if_neg hback, if_neg htab, if_neg hnewline, if_neg hfeed, if_neg hreturn]
  by_cases hcontrol : isControl c
  · rw [if_pos hcontrol, List.cons_append, readString?_backslash hk hslash,
      ← readString?_control k hcontrol]
    simp [readString?, stringStep?]
  · have hplain := (isPlain_of_not_isControl (Bool.eq_false_iff.2 hcontrol)).1
    simp [hcontrol, readString?, stringStep?, bodyStep?, hquote, h, hc, hnewline, hreturn, hplain]

/-- A character that suits a kind without escapes stands for itself. -/
theorem readString?_self (hk : k.escapes = false) (h : c ≠ k.quote)
    (hc : !isControl c || c = '\t' || (k.multiLine && c = '\n')) (cs : Text) :
    readString? k .body (c :: cs)
      = (readString? k .body cs).map fun (s, rest) => (c :: s, rest) := by
  have hstep : bodyStep? k c = some (.add [c] .body) := by
    unfold bodyStep?
    rw [if_neg h, hk]
    simp only [Bool.or_eq_true, Bool.not_eq_true', decide_eq_true_eq, Bool.and_eq_true] at hc
    obtain (hplain | rfl) | ⟨hlines, rfl⟩ := hc
    · obtain ⟨hplain, hnewline, hreturn⟩ := isPlain_of_not_isControl hplain
      simp [hplain, hnewline, hreturn]
    · simp [isPlain]
    · simp [hlines]
  simp [readString?, stringStep?, hstep]

/-! ## Bodies of strings -/

/-- Three to five quotes close a string over several lines, if no quote follows. -/
theorem readString?_close {n : Nat} (hn : n ≤ 2) {rest : Text}
    (hrest : rest.head? ≠ some k.quote) :
    readString? k (pending (n + 3)) rest = some (List.replicate n k.quote, rest) := by
  obtain _ | ⟨c, rest⟩ := rest
  · simp [readString?, pending, atEnd?, show min (n + 3) 5 - 3 = n by omega]
  · have hc : c ≠ k.quote := by simpa using hrest
    by_cases hfive : n = 2
    · simp [readString?, pending, stringStep?, hfive]
    · simp [readString?, pending, stringStep?, hc, show ¬ 5 ≤ n + 3 by omega]

/-- The quotes at the end close a string, those that are pending apart, if no
quote follows. -/
theorem readString?_delimiter {n : Nat} (hn : n ≤ quoteLimit k) {rest : Text}
    (hrest : rest.head? ≠ some k.quote) :
    readString? k (pending n) (k.delimiter ++ rest) = some (List.replicate n k.quote, rest) := by
  cases hlines : k.multiLine with
  | false =>
    obtain rfl : n = 0 := by simpa [quoteLimit, hlines] using hn
    simp [StringKind.delimiter, hlines, pending, readString?, stringStep?, bodyStep?]
  | true =>
    have hn' : n ≤ 2 := by simpa [quoteLimit, hlines] using hn
    have hdelimiter : k.delimiter ++ rest = k.quote :: k.quote :: k.quote :: rest := by
      simp [StringKind.delimiter, hlines, List.replicate]
    rw [hdelimiter, readString?_quote hlines (by omega), readString?_quote hlines (by omega),
      readString?_quote hlines (by omega)]
    exact readString?_close hn' hrest

theorem quoteLimit_le (k : StringKind) : quoteLimit k ≤ 2 := by
  unfold quoteLimit
  split <;> omega

theorem multiLine_of_lt {n : Nat} (h : n < quoteLimit k) : k.multiLine := by
  cases hline : k.multiLine with
  | true => rfl
  | false => simp [quoteLimit, hline] at h

theorem escape_quote (k : StringKind) (n : Nat) (cs : Text) :
    escape k n (k.quote :: cs)
      = if n < quoteLimit k then k.quote :: escape k (n + 1) cs
        else '\\' :: k.quote :: escape k 0 cs := by
  rw [escape, if_pos rfl]
  rfl

theorem escape_ne_quote (h : c ≠ k.quote) (n : Nat) (cs : Text) :
    escape k n (c :: cs) = escapeChar k c ++ escape k 0 cs := by
  rw [escape, if_neg h]

/-- What is written for a character begins with no quote, and with a line break
only if the character is one. -/
theorem escapeChar_eq_cons (k : StringKind) (h : c ≠ '\x22') :
    ∃ x xs, escapeChar k c = x :: xs ∧ x ≠ '\x22' ∧ x ≠ '\r' ∧ (x = '\n' → c = '\n') := by
  unfold escapeChar
  repeat' split
  all_goals first | exact ⟨_, _, rfl, by decide, by decide, fun h => by simp_all⟩ | skip
  exact ⟨_, _, rfl, h, by assumption, fun h => h⟩

/-- A text with escapes is read back, behind the quotes that are pending. -/
theorem readString?_escape (hk : k.escapes) (hquote : k.quote = '\x22') {n : Nat}
    (hn : n ≤ quoteLimit k) (t : Text) {rest : Text} (hrest : rest.head? ≠ some k.quote) :
    readString? k (pending n) (escape k n t ++ (k.delimiter ++ rest))
      = some (List.replicate n k.quote ++ t, rest) := by
  have hlimit := quoteLimit_le k
  induction t generalizing n with
  | nil => simpa [escape] using readString?_delimiter hn hrest
  | cons c cs ih =>
    have hbody : readString? k .body (escape k 0 cs ++ (k.delimiter ++ rest)) = some (cs, rest) :=
      ih (n := 0) (Nat.zero_le _)
    by_cases hc : c = k.quote
    · subst hc
      rw [escape_quote]
      by_cases hmore : n < quoteLimit k
      · rw [if_pos hmore, List.cons_append, readString?_quote (multiLine_of_lt hmore) (by omega),
          ih (n := n + 1) hmore, List.replicate_succ']
        simp
      · have hslash : '\\' ≠ k.quote := by simp [hquote]
        have hletter : unescape? k.quote = some k.quote := by
          rw [hquote]
          rfl
        rw [if_neg hmore, List.cons_append, readString?_pending (by omega) hslash,
          readString?_backslash hk hslash.symm, List.cons_append,
          readString?_letter hletter (by simp [hquote]), hbody]
        rfl
    · have hchar : c ≠ '\x22' := hquote ▸ hc
      obtain ⟨x, xs, hx, hne, -⟩ := escapeChar_eq_cons k hchar
      have hread := readString?_escapeChar hk hquote hchar (escape k 0 cs ++ (k.delimiter ++ rest))
      rw [hbody, hx] at hread
      rw [escape_ne_quote hc, List.append_assoc, hx, List.cons_append,
        readString?_pending (by omega) (hquote ▸ hne), ← List.cons_append, hread]
      rfl

theorem le_longestRun (q : Char) (n : Nat) (t : Text) : n ≤ longestRun q n t := by
  induction t generalizing n with
  | nil => exact Nat.le_refl n
  | cons c cs ih =>
    rw [longestRun]
    split
    · exact Nat.le_trans (Nat.le_succ n) (ih (n + 1))
    · exact Nat.le_max_left _ _

/-- A text that suits a kind without escapes is read back, behind the quotes that
are pending. -/
theorem readString?_raw (hk : k.escapes = false) {n : Nat} {t : Text}
    (hchars : t.all fun c => !isControl c || c = '\t' || (k.multiLine && c = '\n'))
    (hrun : longestRun k.quote n t ≤ quoteLimit k) {rest : Text}
    (hrest : rest.head? ≠ some k.quote) :
    readString? k (pending n) (t ++ (k.delimiter ++ rest))
      = some (List.replicate n k.quote ++ t, rest) := by
  have hlimit := quoteLimit_le k
  induction t generalizing n with
  | nil =>
    have hn : n ≤ quoteLimit k := hrun
    simpa using readString?_delimiter hn hrest
  | cons c cs ih =>
    rw [List.all_cons, Bool.and_eq_true] at hchars
    rw [longestRun] at hrun
    by_cases hc : c = k.quote
    · rw [if_pos hc] at hrun
      have hmore : n < quoteLimit k := Nat.lt_of_lt_of_le (le_longestRun k.quote (n + 1) cs) hrun
      rw [hc, List.cons_append, readString?_quote (multiLine_of_lt hmore) (by omega),
        ih hchars.2 hrun, List.replicate_succ']
      simp
    · rw [if_neg hc] at hrun
      have hbody : readString? k .body (cs ++ (k.delimiter ++ rest)) = some (cs, rest) :=
        ih (n := 0) hchars.2 (by omega)
      rw [List.cons_append, readString?_pending (by omega) hc, readString?_self hk hc hchars.1,
        hbody]
      rfl

end

/-! ## Whole strings -/

theorem kindFor_cases (t : Text) :
    kindFor t = .basic ∨ kindFor t = .basicLines ∨ kindFor t = .literal ∧ suits .literal t
      ∨ kindFor t = .literalLines ∧ suits .literalLines t := by
  unfold kindFor
  cases hfind : [StringKind.basic, .literal, .basicLines, .literalLines].find? (suits · t) with
  | none =>
    rw [Option.getD_none]
    split
    · exact .inr (.inl rfl)
    · exact .inl rfl
  | some k =>
    have hsuits := List.find?_some hfind
    have hmem := List.mem_of_find?_eq_some hfind
    simp only [List.mem_cons, List.not_mem_nil, or_false] at hmem
    obtain rfl | rfl | rfl | rfl := hmem
    · exact .inl rfl
    · exact .inr (.inr (.inl ⟨rfl, hsuits⟩))
    · exact .inr (.inl rfl)
    · exact .inr (.inr (.inr ⟨rfl, hsuits⟩))

/-- A string on one line begins with one quote, and not with three. -/
theorem readAnyString?_basic {u : Text} (h : ∀ v, u ≠ '\x22' :: '\x22' :: v) :
    readAnyString? ('\x22' :: u) = readString? .basic .body u := by
  unfold readAnyString?
  split
  · next v heq => exact absurd (List.cons.inj heq).2 (h v)
  · next heq => simp at heq
  · rfl

theorem readAnyString?_literal {u : Text} (h : ∀ v, u ≠ '\x27' :: '\x27' :: v) :
    readAnyString? ('\x27' :: u) = readString? .literal .body u := by
  unfold readAnyString?
  split
  · next heq => simp at heq
  · next v heq => exact absurd (List.cons.inj heq).2 (h v)
  · rfl

theorem dropLineBreak_of_head {u : Text} (hnewline : u.head? ≠ some '\n')
    (hreturn : u.head? ≠ some '\r') : dropLineBreak u = u := by
  unfold dropLineBreak
  split <;> simp_all

/-- The line break behind the opening quotes is not text. -/
theorem dropLineBreak_body {t body : Text} (hnewline : body.head? = some '\n' → '\n' ∈ t)
    (hreturn : body.head? ≠ some '\r') :
    dropLineBreak ((if t.contains '\n' then ['\n'] else []) ++ body) = body := by
  by_cases h : '\n' ∈ t
  · simp [h, dropLineBreak]
  · simpa [h] using dropLineBreak_of_head (fun hbody => h (hnewline hbody)) hreturn

/-- What is written for a text in a kind with escapes begins with a quote only if
there are three around it, and with a line break only if the text does. -/
theorem escape_eq_cons {k : StringKind} (hquote : k.quote = '\x22') (c : Char) (cs : Text) :
    ∃ x xs, escape k 0 (c :: cs) = x :: xs ∧ (x = '\x22' → k.multiLine) ∧ x ≠ '\r'
      ∧ (x = '\n' → c = '\n') := by
  by_cases hc : c = k.quote
  · rw [hc, escape_quote]
    split
    · next hlimit => exact ⟨_, _, rfl, fun _ => multiLine_of_lt hlimit, by simp [hquote], id⟩
    · exact ⟨_, _, rfl, by simp, by simp, by simp⟩
  · obtain ⟨x, xs, hx, hne, hreturn, hnewline⟩ := escapeChar_eq_cons k (hquote ▸ hc)
    exact ⟨x, xs ++ escape k 0 cs, by rw [escape_ne_quote hc, hx, List.cons_append],
      fun h => absurd h hne, hreturn, hnewline⟩

/-- A character that suits a kind is no carriage return. -/
theorem ne_return_of_suits {k : StringKind} {t : Text} (h : suits k t) : '\r' ∉ t := by
  intro hmem
  simp only [suits, Bool.and_eq_true, List.all_eq_true] at h
  have := h.1.1 '\r' hmem
  simp [isControl] at this

section
variable (t : Text) {rest : Text}

theorem readAnyString?_escape_basic (hrest : rest.head? ≠ some '\x22') :
    readAnyString? ('\x22' :: (escape .basic 0 t ++ '\x22' :: rest)) = some (t, rest) := by
  have hread := readString?_escape (k := .basic) rfl rfl (Nat.zero_le _) t hrest
  rw [readAnyString?_basic]
  · exact hread
  · intro v hv
    obtain _ | ⟨c, cs⟩ := t
    · obtain ⟨-, rfl⟩ := List.cons.inj hv
      exact hrest rfl
    · obtain ⟨x, xs, hx, hquote, -⟩ := escape_eq_cons (k := .basic) rfl c cs
      rw [hx] at hv
      exact Bool.false_ne_true (hquote (List.cons.inj hv).1)

theorem readAnyString?_escape_lines (hrest : rest.head? ≠ some '\x22') :
    readAnyString? ('\x22' :: '\x22' :: '\x22' :: ((if t.contains '\n' then ['\n'] else [])
        ++ (escape .basicLines 0 t ++ '\x22' :: '\x22' :: '\x22' :: rest)))
      = some (t, rest) := by
  have hread := readString?_escape (k := .basicLines) rfl rfl (Nat.zero_le _) t hrest
  rw [readAnyString?, dropLineBreak_body]
  · exact hread
  all_goals
    intro hhead
    obtain _ | ⟨c, cs⟩ := t
    · simp [escape] at hhead
    obtain ⟨x, xs, hx, -, hreturn, hnewline⟩ := escape_eq_cons (k := .basicLines) rfl c cs
    rw [hx] at hhead
  · simp [hnewline (by simpa using hhead)]
  · exact hreturn (by simpa using hhead)

variable {t}

theorem readAnyString?_literal_of_suits (hsuits : suits .literal t)
    (hrest : rest.head? ≠ some '\x27') :
    readAnyString? ('\x27' :: (t ++ '\x27' :: rest)) = some (t, rest) := by
  simp only [suits, Bool.and_eq_true, decide_eq_true_eq] at hsuits
  have hread := readString?_raw (k := .literal) (n := 0) rfl hsuits.1.1 hsuits.2 hrest
  rw [readAnyString?_literal]
  · exact hread
  · intro v hv
    obtain _ | ⟨c, cs⟩ := t
    · obtain ⟨-, rfl⟩ := List.cons.inj hv
      exact hrest rfl
    · have hc : c = StringKind.literal.quote := (List.cons.inj hv).1
      have hrun : longestRun StringKind.literal.quote 0 (c :: cs) ≤ 0 := hsuits.2
      rw [longestRun, if_pos hc] at hrun
      exact absurd (Nat.le_trans (le_longestRun _ (0 + 1) cs) hrun) (by decide)

theorem readAnyString?_literalLines_of_suits (hsuits : suits .literalLines t)
    (hrest : rest.head? ≠ some '\x27') :
    readAnyString? ('\x27' :: '\x27' :: '\x27' :: ((if t.contains '\n' then ['\n'] else [])
        ++ (t ++ '\x27' :: '\x27' :: '\x27' :: rest)))
      = some (t, rest) := by
  have hreturn := ne_return_of_suits hsuits
  simp only [suits, Bool.and_eq_true, decide_eq_true_eq] at hsuits
  have hread := readString?_raw (k := .literalLines) (n := 0) rfl hsuits.1.1 hsuits.2 hrest
  rw [readAnyString?, dropLineBreak_body]
  · exact hread
  · intro hhead
    obtain _ | ⟨c, cs⟩ := t
    · simp at hhead
    · simp_all
  · intro hhead
    obtain _ | ⟨c, cs⟩ := t
    · simp at hhead
    · simp_all

end

/-- A text is read back from the string that it is written as, if no quote
follows. -/
theorem readAnyString?_writeString (t : Text) {rest : Text} (hdouble : rest.head? ≠ some '\x22')
    (hsingle : rest.head? ≠ some '\x27') :
    readAnyString? (writeString t ++ rest) = some (t, rest) := by
  unfold writeString
  obtain hk | hk | ⟨hk, hsuits⟩ | ⟨hk, hsuits⟩ := kindFor_cases t
  · simpa [hk, StringKind.basic, StringKind.delimiter] using readAnyString?_escape_basic t hdouble
  · simpa [hk, StringKind.basicLines, StringKind.delimiter, List.replicate] using
      readAnyString?_escape_lines t hdouble
  · simpa [hk, StringKind.literal, StringKind.delimiter] using
      readAnyString?_literal_of_suits hsuits hsingle
  · simpa [hk, StringKind.literalLines, StringKind.delimiter, List.replicate] using
      readAnyString?_literalLines_of_suits hsuits hsingle

end Toml
end LogPrune
