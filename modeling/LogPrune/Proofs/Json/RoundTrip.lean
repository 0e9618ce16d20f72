import LogPrune.Proofs.Json.Lex

/-!
# LogPrune.Proofs.Json.RoundTrip

A written value is read back.

The reader gets one unit of fuel more than there are tokens, and every step
into a value uses up a token at least; so the fuel never runs out
(`parseValue?_tokens`).
-/

namespace LogPrune
namespace Json

/-- The tokens of a textual value begin with one that closes nothing. -/
theorem exists_tokens_eq_cons {v : Json} (h : v.isTextual) :
    ∃ t ts, v.tokens = t :: ts ∧ t ≠ .closeArray := by
  cases v with
  | string t => exact ⟨.string t, [], by rw [tokens], by simp⟩
  | array vs => exact ⟨.openArray, _, by rw [tokens, List.cons_append], by simp⟩
  | object fs => exact ⟨.openObject, _, by rw [tokens, List.cons_append], by simp⟩
  | null => simp [isTextual] at h
  | bool b => simp [isTextual] at h
  | number literal => simp [isTextual] at h

mutual

/-- Tokens of a value are put together to that value, and what follows them is
left. -/
theorem parseValue?_tokens (v : Json) (h : v.isTextual) (n : Nat) (hn : v.tokens.length ≤ n)
    (rest : List Token) : parseValue? n (v.tokens ++ rest) = some (v, rest) := by
  obtain ⟨n, rfl⟩ : ∃ m, n = m + 1 := by
    obtain ⟨t, ts, hts, -⟩ := exists_tokens_eq_cons h
    rw [hts, List.length_cons] at hn
    exact ⟨n - 1, by omega⟩
  match v with
  | .string t => simp [tokens, parseValue?]
  | .array [] => simp [tokens, itemTokens, parseValue?]
  | .array (v :: vs) =>
    rw [tokens, List.length_append, List.length_cons, List.length_singleton] at hn
    have hitems := parseItems?_tokens (v :: vs) h (by simp) n (by omega) rest
    rw [isTextual, itemsTextual, Bool.and_eq_true] at h
    obtain ⟨t, ts, hts, hclose⟩ := exists_tokens_eq_cons h.1
    obtain ⟨us, hus⟩ : ∃ us, itemTokens (v :: vs) = t :: us := by
      cases vs <;> simp [itemTokens, hts]
    rw [hus] at hitems
    simp only [List.cons_append] at hitems
    simp [tokens, hus, parseValue?, hclose, hitems]
  | .object [] => simp [tokens, fieldTokens, parseValue?]
  | .object (f :: fs) =>
    rw [tokens, List.length_append, List.length_cons, List.length_singleton] at hn
    have hfields := parseFields?_tokens (f :: fs) h (by simp) n (by omega) rest
    obtain ⟨us, hus⟩ : ∃ us, fieldTokens (f :: fs) = .string f.1.toList :: us := by
      cases fs <;> simp [fieldTokens]
    rw [hus] at hfields
    simp only [List.cons_append] at hfields
    simp [tokens, hus, parseValue?, hfields]
  | .null => simp [isTextual] at h
  | .bool b => simp [isTextual] at h
  | .number literal => simp [isTextual] at h

theorem parseItems?_tokens (vs : List Json) (h : itemsTextual vs) (hne : vs ≠ []) (n : Nat)
    (hn : (itemTokens vs).length + 1 ≤ n) (rest : List Token) :
    parseItems? n (itemTokens vs ++ .closeArray :: rest) = some (vs, rest) := by
  obtain ⟨n, rfl⟩ : ∃ m, n = m + 1 := ⟨n - 1, by omega⟩
  match vs with
  | [v] =>
    rw [itemTokens] at hn
    have hv := parseValue?_tokens v (by simpa [itemsTextual] using h) n (by omega)
      (.closeArray :: rest)
    simp [itemTokens, parseItems?, hv]
  | v :: w :: vs =>
    simp only [itemTokens, List.length_append, List.length_cons] at hn
    rw [itemsTextual, Bool.and_eq_true] at h
    have hv := parseValue?_tokens v h.1 n (by omega)
      (.comma :: (itemTokens (w :: vs) ++ .closeArray :: rest))
    have hrest := parseItems?_tokens (w :: vs) h.2 (by simp) n (by omega) rest
    simp [itemTokens, parseItems?, hv, hrest]

theorem parseFields?_tokens (fs : List (String × Json)) (h : fieldsTextual fs) (hne : fs ≠ [])
    (n : Nat) (hn : (fieldTokens fs).length + 1 ≤ n) (rest : List Token) :
    parseFields? n (fieldTokens fs ++ .closeObject :: rest) = some (fs, rest) := by
  obtain ⟨n, rfl⟩ : ∃ m, n = m + 1 := ⟨n - 1, by omega⟩
  match fs with
  | [(key, v)] =>
    simp only [fieldTokens, List.length_cons] at hn
    have hv := parseValue?_tokens v (by simpa [fieldsTextual] using h) n (by omega)
      (.closeObject :: rest)
    simp [fieldTokens, parseFields?, hv]
  | (key, v) :: f :: fs =>
    simp only [fieldTokens, List.length_append, List.length_cons] at hn
    rw [fieldsTextual, Bool.and_eq_true] at h
    have hv := parseValue?_tokens v h.1 n (by omega)
      (.comma :: (fieldTokens (f :: fs) ++ .closeObject :: rest))
    have hrest := parseFields?_tokens (f :: fs) h.2 (by simp) n (by omega) rest
    simp [fieldTokens, parseFields?, hv, hrest]

end

/-- **Round trip**: the written form of a value is read as that value. -/
theorem parse?_pretty {v : Json} (h : v.isTextual) : parse? v.pretty = some v := by
  have hvalue := parseValue?_tokens v h (v.tokens.length + 1) (by omega) []
  rw [List.append_nil] at hvalue
  simp [parse?, lex?_pretty h, hvalue]

end Json
end LogPrune
