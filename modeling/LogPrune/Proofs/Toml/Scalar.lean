import LogPrune.Toml.Writer
import LogPrune.Toml.Scalar

/-!
# LogPrune.Proofs.Toml.Scalar

Truth values and integers are read as they were written.

1. A word ends where it is followed by a line break, a comma or the end of an
   array (`readWord?_append`).
2. Digits are neither a date nor a floating-point number, and neither are digits
   behind a minus sign; their value is the number that they were written for
   (`readWord?_writeInteger`).
-/

namespace LogPrune
namespace Toml

/-! ## Words -/

theorem wordOf_append {w rest : Text} (hw : ∀ c ∈ w, endsWord c = false)
    (hrest : ∀ c ∈ rest.head?, endsWord c) : wordOf (w ++ rest) = w := by
  have hstop : rest.takeWhile (!endsWord ·) = [] := by
    cases rest <;> simp_all
  rw [wordOf, List.takeWhile_append_of_pos (by simpa using hw), hstop, List.append_nil]

/-- A word that is no date is read on its own. -/
theorem readWord?_append {w rest : Text} (hw : ∀ c ∈ w, endsWord c = false)
    (hrest : ∀ c ∈ rest.head?, endsWord c) (hdate : afterDate? w = none) :
    readWord? (w ++ rest) = (ofWord? w).map fun v => (v, rest) := by
  simp [readWord?, wordOf_append hw hrest, hdate]

theorem readWord?_boolean (b : Bool) {rest : Text} (hrest : ∀ c ∈ rest.head?, endsWord c) :
    readWord? ((if b then "true" else "false").toList ++ rest) = some (.boolean b, rest) := by
  cases b with
  | true =>
    rw [if_pos rfl, readWord?_append (by simp [endsWord, isSpace]) hrest (by decide)]
    rfl
  | false =>
    rw [if_neg Bool.false_ne_true, readWord?_append (by simp [endsWord, isSpace]) hrest (by decide)]
    rfl

/-! ## Digits -/

section
variable {ds : Text}

theorem ne_of_isDigit {c x : Char} (hc : c.isDigit) (hx : x.isDigit = false) : c ≠ x := by
  rintro rfl
  simp [hc] at hx

theorem endsWord_of_isDigit {c : Char} (hc : c.isDigit) : endsWord c = false := by
  have hne : ∀ x, x.isDigit = false → c ≠ x := fun x => ne_of_isDigit hc
  simp [endsWord, isSpace, hne ' ' (by decide), hne '\t' (by decide), hne '\n' (by decide),
    hne '\r' (by decide), hne ',' (by decide), hne ']' (by decide), hne '\x7d' (by decide),
    hne '#' (by decide)]

theorem after?_of_digits (hds : ∀ c ∈ ds, c.isDigit) {x : Char} (hx : x.isDigit = false) :
    after? x ds = none := by
  cases ds with
  | nil => rfl
  | cons c cs => rw [after?, if_neg (ne_of_isDigit (hds c List.mem_cons_self) hx)]

/-- What follows some digits of a number are digits. -/
theorem readFixed?_of_digits (hds : ∀ c ∈ ds, c.isDigit) (h : readFixed? n ds = some (v, rest)) :
    ∀ c ∈ rest, c.isDigit := by
  simp only [readFixed?, Option.ite_none_right_eq_some, Option.some.injEq, Prod.mk.injEq] at h
  obtain ⟨-, -, rfl⟩ := h
  exact fun c hc => hds c (List.mem_of_mem_drop hc)

theorem readFixed?_of_head {c : Char} (hc : c.isDigit = false) (n : Nat) (t : Text) :
    readFixed? (n + 1) (c :: t) = none := by
  simp [readFixed?, hc]

theorem afterDate?_of_digits (hds : ∀ c ∈ ds, c.isDigit) : afterDate? ds = none := by
  unfold afterDate?
  cases h : readFixed? 4 ds with
  | none => rfl
  | some found =>
    have hrest := readFixed?_of_digits hds h
    simp [after?_of_digits hrest (x := '-') (by decide)]

theorem afterTime?_of_digits (hds : ∀ c ∈ ds, c.isDigit) : afterTime? ds = none := by
  unfold afterTime? afterHourMinute?
  cases h : readFixed? 2 ds with
  | none => rfl
  | some found =>
    have hrest := readFixed?_of_digits hds h
    simp [after?_of_digits hrest (x := ':') (by decide)]

theorem afterDate?_minus (t : Text) : afterDate? ('-' :: t) = none := by
  simp [afterDate?, readFixed?_of_head]

theorem afterTime?_minus (t : Text) : afterTime? ('-' :: t) = none := by
  simp [afterTime?, afterHourMinute?, readFixed?_of_head]

/-- Digits without underscores stand for themselves. -/
theorem ungroup?_of_digits (hds : ∀ c ∈ ds, c.isDigit) (hne : ds ≠ []) :
    ungroup? Char.isDigit ds = some ds := by
  induction ds with
  | nil => exact absurd rfl hne
  | cons c cs ih =>
    have hc : c.isDigit := hds c List.mem_cons_self
    cases cs with
    | nil => simp [ungroup?, hc]
    | cons d cs =>
      have hd : d ≠ '_' := ne_of_isDigit (hds d (by simp)) (by decide)
      have hrest := ih (fun e he => hds e (List.mem_cons_of_mem c he)) (by simp)
      rw [ungroup?, if_pos hc, hrest]
      · rfl
      · simp
      · rintro _ h
        exact hd (List.cons.inj h).1

theorem splitSign_of_digits (hds : ∀ c ∈ ds, c.isDigit) : splitSign ds = (none, ds) := by
  unfold splitSign
  split
  · exact absurd (hds '+' (by simp)) (by decide)
  · exact absurd (hds '-' (by simp)) (by decide)
  · rfl

/-- Digits, perhaps behind a sign, are no floating-point number. -/
theorem isFloat_of_digits (hds : ∀ c ∈ ds, c.isDigit) (hsign : splitSign t = (sign, ds)) :
    isFloat t = false := by
  have hword : ∀ c cs, c.isDigit = false → ds ≠ c :: cs := by
    rintro c cs hc rfl
    exact Bool.false_ne_true (hc.symm.trans (hds c List.mem_cons_self))
  have hinf : ds ≠ "inf".toList := hword 'i' _ (by decide)
  have hnan : ds ≠ "nan".toList := hword 'n' _ (by decide)
  have hwhole : ds.takeWhile (fun c => c != '.' && c != 'e' && c != 'E') = ds := by
    have hstay : ∀ c ∈ ds, (c != '.' && c != 'e' && c != 'E') = true := by
      intro c hc
      have hne : ∀ x, x.isDigit = false → c ≠ x := fun x => ne_of_isDigit (hds c hc)
      simp [hne '.' (by decide), hne 'e' (by decide), hne 'E' (by decide)]
    rw [← List.append_nil ds, List.takeWhile_append_of_pos hstay, List.takeWhile_nil]
  unfold isFloat
  simp only [hsign, hwhole, hinf, hnan, List.drop_length]
  cases wholeDigits? ds <;> rfl

/-! ## Integers -/

theorem hexDigitValue?_of_isDigit {c : Char} (hc : c.isDigit) :
    hexDigitValue? c = some (c.toNat - '0'.toNat) := by
  have hrange : '0' ≤ c ∧ c ≤ '9' := by simpa [Char.isDigit, Char.le_def] using hc
  rw [hexDigitValue?, if_pos hrange]

/-- The value of digits is that of the number that they were written for. -/
theorem digitsValue_toDigits (n : Nat) : digitsValue 10 (Nat.toDigits 10 n) = n := by
  have hvalue : ∀ ds : Text, (∀ c ∈ ds, c.isDigit) → ∀ m,
      ds.foldl (fun n c => n * 10 + (hexDigitValue? c).getD 0) m = Nat.ofDigitChars 10 ds m := by
    intro ds hds
    induction ds with
    | nil => simp [Nat.ofDigitChars]
    | cons c cs ih =>
      intro m
      rw [List.foldl_cons, ih fun d hd => hds d (List.mem_cons_of_mem c hd), Nat.ofDigitChars,
        Nat.ofDigitChars, List.foldl_cons, hexDigitValue?_of_isDigit (hds c List.mem_cons_self),
        Option.getD_some, Nat.mul_comm m 10]
  rw [digitsValue, hvalue _ (fun c hc => Nat.isDigit_of_mem_toDigits (by decide) (by decide) hc),
    Nat.ofDigitChars_ten_toDigits]

/-- The digits of a number do not begin with a zero unless it is zero. -/
theorem head?_toDigits {n : Nat} (hn : n ≠ 0) : (Nat.toDigits 10 n).head? ≠ some '0' := by
  induction n using Nat.strongRecOn with
  | _ n ih =>
    by_cases hsmall : n < 10
    · rw [Nat.toDigits_of_lt_base hsmall]
      have hdigit : ∀ m < 10, m ≠ 0 → m.digitChar ≠ '0' := by decide
      simpa using hdigit n hsmall hn
    · rw [Nat.toDigits_of_base_le (by decide) (by omega)]
      obtain ⟨c, cs, hcons⟩ :=
        List.exists_cons_of_ne_nil (Nat.toDigits_ne_nil (n := n / 10) (b := 10))
      have hhead := ih (n / 10) (by omega) (by omega)
      rw [hcons] at hhead ⊢
      simpa using hhead

theorem wholeDigits?_toDigits (n : Nat) :
    wholeDigits? (Nat.toDigits 10 n) = some (Nat.toDigits 10 n) := by
  have hdigits : ∀ c ∈ Nat.toDigits 10 n, c.isDigit := fun c hc =>
    Nat.isDigit_of_mem_toDigits (by decide) (by decide) hc
  rw [wholeDigits?, ungroup?_of_digits hdigits Nat.toDigits_ne_nil]
  by_cases hn : n = 0
  · subst hn
    rfl
  · simp [head?_toDigits hn]

theorem toList_toString_nat (n : Nat) : (toString n).toList = Nat.toDigits 10 n := by
  rw [Nat.toString_eq_ofList_toDigits, String.toList_ofList]

/-- A word of digits, perhaps behind a minus sign, is an integer. -/
theorem ofWord?_of_digits {t : Text} {n : Nat} (hsign : splitSign t = (sign, Nat.toDigits 10 n))
    (hdate : afterDate? t = none) (htime : afterTime? t = none) :
    ofWord? t = integer? (if sign = some '-' then -n else n) := by
  have hdigits : ∀ c ∈ Nat.toDigits 10 n, c.isDigit := fun c hc =>
    Nat.isDigit_of_mem_toDigits (by decide) (by decide) hc
  have hword : ∀ c d cs, c.isDigit = false ∨ d.isDigit = false → c ≠ '+' → c ≠ '-' →
      t ≠ c :: d :: cs := by
    rintro c d cs hcd hplus hminus rfl
    have hds : Nat.toDigits 10 n = c :: d :: cs := by
      have : splitSign (c :: d :: cs) = (none, c :: d :: cs) := by
        unfold splitSign
        split <;> simp_all
      exact (Prod.mk.inj (this.symm.trans hsign)).2.symm
    have hc := hdigits c (by simp [hds])
    have hd := hdigits d (by simp [hds])
    simp [hc, hd] at hcd
  have htrue : t ≠ "true".toList := hword _ _ _ (by decide) (by decide) (by decide)
  have hfalse : t ≠ "false".toList := hword _ _ _ (by decide) (by decide) (by decide)
  have hnodate : isDate t = false := by
    simp [isDate, hdate, htime]
  have hdecimal : readInteger? t = readDecimal? t := by
    unfold readInteger?
    split
    · exact absurd rfl (hword _ _ _ (by decide) (by decide) (by decide))
    · exact absurd rfl (hword _ _ _ (by decide) (by decide) (by decide))
    · exact absurd rfl (hword _ _ _ (by decide) (by decide) (by decide))
    · rfl
  rw [ofWord?, if_neg htrue, if_neg hfalse, hnodate, if_neg Bool.false_ne_true,
    isFloat_of_digits hdigits hsign, if_neg Bool.false_ne_true, hdecimal]
  simp [readDecimal?, hsign, wholeDigits?_toDigits, digitsValue_toDigits]

theorem writeInteger_ofNat (m : Nat) : writeInteger (.ofNat m) = Nat.toDigits 10 m :=
  toList_toString_nat m

theorem writeInteger_negSucc (m : Nat) :
    writeInteger (.negSucc m) = '-' :: Nat.toDigits 10 (m + 1) := by
  rw [writeInteger, Int.toString_eq_repr, Int.repr, String.toList_append]
  exact congrArg (['-'] ++ ·) (toList_toString_nat (m + 1))

theorem writeInteger_eq_cons (n : Int) :
    ∃ c u, writeInteger n = c :: u ∧ (c = '-' ∨ c.isDigit) := by
  cases n with
  | ofNat m =>
    obtain ⟨c, u, hcons⟩ := List.exists_cons_of_ne_nil (Nat.toDigits_ne_nil (n := m) (b := 10))
    exact ⟨c, u, (writeInteger_ofNat m).trans hcons, .inr
      (Nat.isDigit_of_mem_toDigits (b := 10) (n := m) (by decide) (by decide) (by simp [hcons]))⟩
  | negSucc m => exact ⟨'-', _, writeInteger_negSucc m, .inl rfl⟩

/-- An integer of 64 bits is read back. -/
theorem readWord?_writeInteger {n : Int} (hlow : -(integerBound : Int) ≤ n)
    (hhigh : n < integerBound) {rest : Text} (hrest : ∀ c ∈ rest.head?, endsWord c) :
    readWord? (writeInteger n ++ rest) = some (.integer n, rest) := by
  have hdigits : ∀ m, ∀ c ∈ Nat.toDigits 10 m, c.isDigit := fun m c hc =>
    Nat.isDigit_of_mem_toDigits (by decide) (by decide) hc
  have hends : ∀ m, ∀ c ∈ Nat.toDigits 10 m, endsWord c = false := fun m c hc =>
    endsWord_of_isDigit (hdigits m c hc)
  have hinteger : integer? n = some (.integer n) := by rw [integer?, if_pos ⟨hlow, hhigh⟩]
  cases n with
  | ofNat m =>
    have hdate := afterDate?_of_digits (hdigits m)
    rw [writeInteger_ofNat, readWord?_append (hends m) hrest hdate,
      ofWord?_of_digits (splitSign_of_digits (hdigits m)) hdate (afterTime?_of_digits (hdigits m)),
      if_neg (by simp)]
    exact congrArg (Option.map fun v => (v, rest)) hinteger
  | negSucc m =>
    have hword : ∀ c ∈ '-' :: Nat.toDigits 10 (m + 1), endsWord c = false := by
      rintro c (_ | ⟨_, hc⟩)
      · decide
      · exact hends _ c hc
    rw [writeInteger_negSucc, readWord?_append hword hrest (afterDate?_minus _),
      ofWord?_of_digits (n := m + 1) rfl (afterDate?_minus _) (afterTime?_minus _), if_pos rfl]
    exact congrArg (Option.map fun v => (v, rest)) hinteger

end

end Toml
end LogPrune
