import LogPrune.Json.Reader

/-!
# LogPrune.Proofs.Json.Lex

The tokens of a written value.

1. What is written for a character in a string is read as that character
   (`lex_escapeChar`), so a string in quotes is one token (`lex_quote`).
2. The layout leaves no trace: a value made of strings, arrays and objects is
   read as its tokens, whatever its indentation (`lex_write`).
-/

namespace LogPrune
namespace Json

/-! ## Strings -/

/-- A digit below sixteen is read back. -/
theorem hexValue?_hexDigit : ∀ n < 16, hexValue? (hexDigit n) = some n := by decide

/-- A character below the space is read back from its two digits. -/
theorem lex_control {c : Char} (h : c.toNat < 0x20) (tokens : List Token) (read : Text) :
    [hexDigit (c.toNat / 16), hexDigit (c.toNat % 16)].foldlM lexChar?
        ⟨tokens, .digits read none 2 0⟩
      = some ⟨tokens, .string (c :: read)⟩ := by
  have hhigh := hexValue?_hexDigit (c.toNat / 16) (by omega)
  have hlow := hexValue?_hexDigit (c.toNat % 16) (by omega)
  have hvalue : c.toNat / 16 * 16 + c.toNat % 16 = c.toNat := by omega
  have hplain : isHighSurrogate c.toNat = false ∧ isLowSurrogate c.toNat = false := by
    constructor <;> simp [isHighSurrogate, isLowSurrogate] <;> omega
  simp [lexChar?, hhigh, hlow, hvalue, afterDigits?, hplain, Char.ofNat_toNat]

/-- What is written for a character is read as that character. -/
theorem lex_escapeChar (c : Char) (tokens : List Token) (read : Text) :
    (escapeChar c).foldlM lexChar? ⟨tokens, .string read⟩
      = some ⟨tokens, .string (c :: read)⟩ := by
  unfold escapeChar
  by_cases hquote : c = '\x22'
  · subst hquote; rfl
  by_cases hslash : c = '\\'
  · subst hslash; rfl
  by_cases hback : c = '\x08'
  · subst hback; rfl
  by_cases hfeed : c = '\x0c'
  · subst hfeed; rfl
  by_cases hnewline : c = '\n'
  · subst hnewline; rfl
  by_cases hreturn : c = '\r'
  · subst hreturn; rfl
  by_cases htab : c = '\t'
  · subst htab; rfl
  rw [if_neg hquote, if_neg hslash, if_neg hback, if_neg hfeed, if_neg hnewline, if_neg hreturn,
    if_neg htab]
  by_cases hcontrol : c.toNat < 0x20
  · rw [if_pos hcontrol]
    exact lex_control hcontrol tokens read
  · simp [hcontrol, lexChar?, hquote, hslash]

theorem lex_escaped (t : Text) (tokens : List Token) (read : Text) :
    (t.flatMap escapeChar).foldlM lexChar? ⟨tokens, .string read⟩
      = some ⟨tokens, .string (t.reverse ++ read)⟩ := by
  induction t generalizing read with
  | nil => rfl
  | cons c t ih =>
    rw [List.flatMap_cons, List.foldlM_append, lex_escapeChar]
    simpa using ih (c :: read)

/-- A string in quotes is one token. -/
theorem lex_quote (t : Text) (tokens : List Token) :
    (quote t).foldlM lexChar? ⟨tokens, .between⟩ = some ⟨.string t :: tokens, .between⟩ := by
  have hopen : lexChar? ⟨tokens, .between⟩ '\x22' = some ⟨tokens, .string []⟩ := rfl
  rw [quote, List.cons_append, List.foldlM_cons, hopen, Option.bind_eq_bind, Option.bind_some,
    List.foldlM_append, lex_escaped]
  simp [lexChar?]

/-! ## Tokens of a value -/

mutual

/-- Whether a value is made of strings, arrays and objects only. -/
def isTextual : Json → Bool
  | string _ => true
  | array vs => itemsTextual vs
  | object fs => fieldsTextual fs
  | _ => false

/-- Whether all items are. -/
def itemsTextual : List Json → Bool
  | [] => true
  | v :: vs => isTextual v && itemsTextual vs

/-- Whether the values of all fields are. -/
def fieldsTextual : List (String × Json) → Bool
  | [] => true
  | (_, v) :: fs => isTextual v && fieldsTextual fs

end

mutual

/-- The tokens of a value. -/
def tokens : Json → List Token
  | null => [.word "null".toList]
  | bool b => [.word (if b then "true".toList else "false".toList)]
  | number literal => [.word literal]
  | string t => [.string t]
  | array vs => .openArray :: itemTokens vs ++ [.closeArray]
  | object fs => .openObject :: fieldTokens fs ++ [.closeObject]

/-- The tokens of items. -/
def itemTokens : List Json → List Token
  | [] => []
  | [v] => tokens v
  | v :: vs => tokens v ++ .comma :: itemTokens vs

/-- The tokens of fields. -/
def fieldTokens : List (String × Json) → List Token
  | [] => []
  | [(key, v)] => .string key.toList :: .colon :: tokens v
  | (key, v) :: fs => .string key.toList :: .colon :: tokens v ++ .comma :: fieldTokens fs

end

/-! ## Layout -/

/-- Spaces are no tokens. -/
theorem lex_spaces (n : Nat) (read : List Token) :
    (spaces n).foldlM lexChar? ⟨read, .between⟩ = some ⟨read, .between⟩ := by
  induction n with
  | zero => rfl
  | succ n ih => simpa [spaces, List.replicate_succ, lexChar?, lexBetween?, isSpace] using ih

theorem lexChar?_newline (read : List Token) :
    lexChar? ⟨read, .between⟩ '\n' = some ⟨read, .between⟩ := rfl

mutual

/-- A written value is read as its tokens. -/
theorem lex_write (v : Json) (h : v.isTextual) (indent : Nat) (read : List Token) :
    (write indent v).foldlM lexChar? ⟨read, .between⟩
      = some ⟨v.tokens.reverse ++ read, .between⟩ := by
  match v with
  | .string t => simpa [write, tokens] using lex_quote t read
  | .array [] => rfl
  | .array (v :: vs) =>
    have hitems := lex_writeItems (v :: vs) h (indent + 2) (.openArray :: read)
    have hopen : lexChar? ⟨read, .between⟩ '[' = some ⟨.openArray :: read, .between⟩ := rfl
    simp only [write, List.cons_append, List.foldlM_cons, hopen, Option.bind_eq_bind,
      Option.bind_some, lexChar?_newline, List.foldlM_append, hitems, lex_spaces]
    simp [lexChar?, lexBetween?, isSpace, punctuation?, tokens]
  | .object [] => rfl
  | .object (f :: fs) =>
    have hfields := lex_writeFields (f :: fs) h (indent + 2) (.openObject :: read)
    have hopen : lexChar? ⟨read, .between⟩ '\x7b' = some ⟨.openObject :: read, .between⟩ := rfl
    simp only [write, List.cons_append, List.foldlM_cons, hopen, Option.bind_eq_bind,
      Option.bind_some, lexChar?_newline, List.foldlM_append, hfields, lex_spaces]
    simp [lexChar?, lexBetween?, isSpace, punctuation?, tokens]
  | .null => simp [isTextual] at h
  | .bool b => simp [isTextual] at h
  | .number literal => simp [isTextual] at h

theorem lex_writeItems (vs : List Json) (h : itemsTextual vs) (indent : Nat)
    (read : List Token) :
    (writeItems indent vs).foldlM lexChar? ⟨read, .between⟩
      = some ⟨(itemTokens vs).reverse ++ read, .between⟩ := by
  match vs with
  | [] => rfl
  | [v] =>
    have hv := lex_write v (by simpa [itemsTextual] using h) indent read
    simp [writeItems, itemTokens, lex_spaces, hv]
  | v :: w :: vs =>
    rw [itemsTextual, Bool.and_eq_true] at h
    have hv := lex_write v h.1 indent read
    have hrest := lex_writeItems (w :: vs) h.2 indent (.comma :: (v.tokens.reverse ++ read))
    have hcomma : ∀ ts, lexChar? ⟨ts, .between⟩ ',' = some ⟨.comma :: ts, .between⟩ :=
      fun _ => rfl
    simp [writeItems, itemTokens, lex_spaces, hv, hcomma, lexChar?_newline, hrest]

theorem lex_writeFields (fs : List (String × Json)) (h : fieldsTextual fs) (indent : Nat)
    (read : List Token) :
    (writeFields indent fs).foldlM lexChar? ⟨read, .between⟩
      = some ⟨(fieldTokens fs).reverse ++ read, .between⟩ := by
  have hcolon : ∀ ts, lexChar? ⟨ts, .between⟩ ':' = some ⟨.colon :: ts, .between⟩ := fun _ => rfl
  have hspace : ∀ ts, lexChar? ⟨ts, .between⟩ ' ' = some ⟨ts, .between⟩ := fun _ => rfl
  match fs with
  | [] => rfl
  | [(key, v)] =>
    have hv := lex_write v (by simpa [fieldsTextual] using h) indent
      (.colon :: .string key.toList :: read)
    simp [writeFields, writeField, fieldTokens, lex_spaces, lex_quote, hcolon, hspace, hv]
  | (key, v) :: f :: fs =>
    rw [fieldsTextual, Bool.and_eq_true] at h
    have hv := lex_write v h.1 indent (.colon :: .string key.toList :: read)
    have hrest := lex_writeFields (f :: fs) h.2 indent
      (.comma :: (v.tokens.reverse ++ .colon :: .string key.toList :: read))
    have hcomma : ∀ ts, lexChar? ⟨ts, .between⟩ ',' = some ⟨.comma :: ts, .between⟩ :=
      fun _ => rfl
    simp [writeFields, writeField, fieldTokens, lex_spaces, lex_quote, hcolon, hspace, hv, hcomma,
      lexChar?_newline, hrest]

end

/-- The written form of a value consists of its tokens. -/
theorem lex?_pretty {v : Json} (h : v.isTextual) : lex? v.pretty = some v.tokens := by
  have hlex := lex_write v h 0 []
  simp [lex?, pretty, hlex]

end Json
end LogPrune
