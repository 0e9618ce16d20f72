import LogPrune.Pattern.Basic

/-!
# LogPrune.Pattern.Search

Searching a text for a pattern.  The hits of a pattern are its matches from
left to right: each is the match at the first place where there is one, and
the search goes on where it stops.  Hits therefore never overlap.

A match of the empty text counts as a hit too, unless it stands right where
the hit before it stopped.

Finding a match does not list all places where the pattern can stop: it tries
them in their order until one will do, so that a comment is read up to its
end and no further.  `first?_eq` says that this is the same.
-/

namespace LogPrune

/-! ## The first end that will do -/

namespace Cursor

/-- What a function yields first at the places of a run, nearest first. -/
def firstInRun (s : Charset) (k : Cursor → Option α) (offset : Nat) (before : Option Char) :
    Text → Option α
  | [] => k ⟨offset, before, []⟩
  | x :: xs =>
    match k ⟨offset, before, x :: xs⟩ with
    | some a => some a
    | none => if s.mem x then firstInRun s k (offset + x.utf8Size) (some x) xs else none

theorem firstInRun_eq (s : Charset) (k : Cursor → Option α) (t : Text) :
    ∀ offset before, firstInRun s k offset before t = (runFrom s offset before t).findSome? k := by
  induction t with
  | nil => intro offset before; simp [firstInRun, runFrom]
  | cons x xs ih =>
    intro offset before
    rw [firstInRun, runFrom, List.findSome?_cons]
    cases k ⟨offset, before, x :: xs⟩ with
    | some a => rfl
    | none => by_cases h : s.mem x <;> simp [h, ih]

end Cursor

namespace Regex

/-- What a function yields first at the ends of a pattern, best first. -/
def first? (ignoreCase : Bool) : Regex → (Cursor → Option α) → Cursor → Option α
  | fewest s, k, c => Cursor.firstInRun s k c.offset c.before c.rest
  | optional p, k, c =>
    match p.first? ignoreCase k c with
    | some a => some a
    | none => k c
  | seq p q, k, c => p.first? ignoreCase (q.first? ignoreCase k) c
  | choice p q, k, c =>
    match p.first? ignoreCase k c with
    | some a => some a
    | none => q.first? ignoreCase k c
  | group p, k, c => p.first? ignoreCase k c
  | plainGroup p, k, c => p.first? ignoreCase k c
  | p, k, c => (p.ends ignoreCase c).findSome? k

/-- Looking through lists one after another is looking through all of them. -/
theorem findSome?_flatMap_eq (f : α → List β) (k : β → Option γ) (as : List α) :
    (as.flatMap f).findSome? k = as.findSome? fun a => (f a).findSome? k := by
  induction as with
  | nil => rfl
  | cons a as ih =>
    rw [List.flatMap_cons, List.findSome?_append, ih, List.findSome?_cons]
    cases (f a).findSome? k <;> rfl

/-- Trying ends in their order is looking through the list of all ends. -/
theorem first?_eq (ignoreCase : Bool) (p : Regex) (k : Cursor → Option α) (c : Cursor) :
    p.first? ignoreCase k c = (p.ends ignoreCase c).findSome? k := by
  induction p generalizing k c with
  | fewest s => exact Cursor.firstInRun_eq s k c.rest c.offset c.before
  | optional p ih =>
    rw [first?, ends, ih, List.findSome?_append]
    cases (p.ends ignoreCase c).findSome? k <;> simp
  | seq p q ihp ihq =>
    rw [first?, ends, ihp, findSome?_flatMap_eq]
    exact congrArg (fun g => List.findSome? g (p.ends ignoreCase c)) (funext fun d => ihq k d)
  | choice p q ihp ihq =>
    rw [first?, ends, ihp, ihq, List.findSome?_append]
    cases (p.ends ignoreCase c).findSome? k <;> simp
  | group p ih => rw [first?, ends, ih]
  | plainGroup p ih => rw [first?, ends, ih]
  | _ => rfl

end Regex

/-- Where the match of a pattern at a place stops, if it matches there. -/
def Pattern.end? (p : Pattern) (c : Cursor) : Option Cursor :=
  p.body.first? p.ignoreCase some c

/-- The match at a place is the best one. -/
theorem Pattern.end?_eq_head? (p : Pattern) (c : Cursor) :
    p.end? c = (p.body.ends p.ignoreCase c).head? := by
  rw [Pattern.end?, Regex.first?_eq]
  cases p.body.ends p.ignoreCase c <;> simp

/-! ## Hits -/

/-- A match of a pattern: the offset at which it starts and the text that it
covers. -/
structure Hit where
  start : Nat
  text : Text
  deriving DecidableEq, Repr

/-- The offset just behind a hit. -/
def Hit.stop (h : Hit) : Nat := h.start + h.text.size

namespace Pattern

/-- The hit at a place that reaches to another one. -/
def hitBetween (c d : Cursor) : Hit := ⟨c.offset, c.rest.takeSize (d.offset - c.offset)⟩

/-- The hit at a place, if there is one, given where the hit before stopped. -/
def hitAt? (p : Pattern) (lastStop : Option Nat) (c : Cursor) : Option Hit :=
  match p.end? c with
  | none => none
  | some d =>
    if c.offset < d.offset then some (hitBetween c d)
    else if lastStop = some c.offset then none
    else some ⟨c.offset, []⟩

/-- Whether a place lies before the one where the hit before stopped. -/
def isCovered (lastStop : Option Nat) (offset : Nat) : Bool := lastStop.any (offset < ·)

/-- The hits from a place on, given where the hit before stopped. -/
def hitsFrom (p : Pattern) (lastStop : Option Nat) (offset : Nat) (before : Option Char) :
    Text → List Hit
  | [] =>
    if isCovered lastStop offset then [] else (p.hitAt? lastStop ⟨offset, before, []⟩).toList
  | x :: xs =>
    if isCovered lastStop offset then hitsFrom p lastStop (offset + x.utf8Size) (some x) xs
    else match p.hitAt? lastStop ⟨offset, before, x :: xs⟩ with
      | none => hitsFrom p lastStop (offset + x.utf8Size) (some x) xs
      | some h => h :: hitsFrom p (some h.stop) (offset + x.utf8Size) (some x) xs

/-- The hits of a pattern in a text, from left to right. -/
def hits (p : Pattern) (t : Text) : List Hit := p.hitsFrom none 0 none t

/-- Whether a pattern matches anywhere from a place on. -/
def occursFrom (p : Pattern) (offset : Nat) (before : Option Char) : Text → Bool
  | [] => (p.end? ⟨offset, before, []⟩).isSome
  | x :: xs =>
    (p.end? ⟨offset, before, x :: xs⟩).isSome
      || occursFrom p (offset + x.utf8Size) (some x) xs

/-- Whether a pattern matches anywhere in a text. -/
def occursIn (p : Pattern) (t : Text) : Bool := p.occursFrom 0 none t

end Pattern
end LogPrune
