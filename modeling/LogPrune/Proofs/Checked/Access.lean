import LogPrune.Proofs.Text.Cut
import Mathlib.Data.List.Basic

/-!
# LogPrune.Proofs.Checked.Access

Accesses to lists and texts that can go wrong, and say so.

The definitions of this library are total: beyond the end of a list nothing is
removed, and a number taken from a smaller one leaves zero.  A program on arrays
would stop there.  The accesses below stop as well, with a fault.  For each of them
one lemma says when it returns what the total operation does.
-/

namespace LogPrune

/-- What goes wrong with an access. -/
inductive Fault
  /-- An index or a range that does not lie within a list. -/
  | range
  /-- An offset behind the end of a text, or inside one of its characters. -/
  | boundary
  /-- A number that is taken from a smaller one. -/
  | underflow
  deriving DecidableEq, Repr

/-- The result of steps of which any may go wrong. -/
abbrev Checked (α : Type) := Except Fault α

namespace Checked

/-! ## Accesses -/

/-- The difference of two numbers. -/
def sub (a b : Nat) : Checked Nat := if b ≤ a then .ok (a - b) else .error .underflow

/-- The element with an index. -/
def get (xs : List α) (i : Nat) : Checked α :=
  match xs[i]? with
  | some a => .ok a
  | none => .error .range

/-- A list with another element at an index. -/
def put (xs : List α) (i : Nat) (a : α) : Checked (List α) :=
  if i < xs.length then .ok (xs.set i a) else .error .range

/-- A list without the element with an index. -/
def remove (xs : List α) (i : Nat) : Checked (List α) :=
  if i < xs.length then .ok (xs.eraseIdx i) else .error .range

/-- A list without the elements from one index through another. -/
def drain (xs : List α) (first last : Nat) : Checked (List α) :=
  if first ≤ last + 1 ∧ last < xs.length then .ok (xs.take first ++ xs.drop (last + 1))
  else .error .range

/-- The part of a text from one offset up to another. -/
def slice (start stop : Nat) (t : Text) : Checked Text :=
  match Text.slice? start stop t with
  | some part => .ok part
  | none => .error .boundary

/-- A text up to an offset. -/
def before (n : Nat) (t : Text) : Checked Text :=
  match Text.cut? n t with
  | some (a, _) => .ok a
  | none => .error .boundary

/-- A text from an offset on. -/
def after (n : Nat) (t : Text) : Checked Text :=
  match Text.cut? n t with
  | some (_, b) => .ok b
  | none => .error .boundary

theorem sub_eq_ok {a b : Nat} (h : b ≤ a) : sub a b = .ok (a - b) := if_pos h

theorem get_eq_ok {xs : List α} {i : Nat} {a : α} (h : xs[i]? = some a) : get xs i = .ok a := by
  rw [get, h]

theorem put_eq_ok {xs : List α} {i : Nat} (h : i < xs.length) (a : α) :
    put xs i a = .ok (xs.set i a) := if_pos h

theorem remove_eq_ok {xs : List α} {i : Nat} (h : i < xs.length) :
    remove xs i = .ok (xs.eraseIdx i) := if_pos h

theorem drain_eq_ok {xs : List α} {first last : Nat} (hle : first ≤ last + 1)
    (hlast : last < xs.length) : drain xs first last = .ok (xs.take first ++ xs.drop (last + 1)) :=
  if_pos ⟨hle, hlast⟩

theorem slice_append (a m b : Text) :
    slice (Text.size a) (Text.size a + Text.size m) (a ++ m ++ b) = .ok m := by
  rw [slice, Text.slice?_append]

/-- An offset inside a character is none at which a text can be cut. -/
example : slice 0 1 ['é'] = .error .boundary ∧ drain [1, 2] 3 1 = .error .range ∧
    sub 0 1 = .error .underflow := by decide

/-! ## Steps in a row -/

@[simp] theorem pure_eq_ok (a : α) : (pure a : Checked α) = .ok a := rfl

@[simp] theorem ok_bind (a : α) (f : α → Checked β) : (.ok a >>= f : Checked β) = f a := rfl

/-- Steps that cannot go wrong, one after another. -/
theorem foldlM_eq_ok {step : σ → α → Checked σ} {next : σ → α → σ} {as : List α}
    (h : ∀ s, ∀ a ∈ as, step s a = .ok (next s a)) (s : σ) :
    as.foldlM step s = .ok (as.foldl next s) := by
  induction as generalizing s with
  | nil => rfl
  | cons a as ih =>
      rw [List.foldlM_cons, h s a List.mem_cons_self, ok_bind, List.foldl_cons]
      exact ih (fun s b hb => h s b (List.mem_cons_of_mem _ hb)) _

/-- A step that cannot go wrong for any of some elements. -/
theorem mapM_eq_ok {step : α → Checked β} {value : α → β} {as : List α}
    (h : ∀ a ∈ as, step a = .ok (value a)) : as.mapM step = .ok (as.map value) := by
  induction as with
  | nil => rfl
  | cons a as ih =>
      rw [List.mapM_cons, h a List.mem_cons_self, ok_bind,
        ih fun b hb => h b (List.mem_cons_of_mem _ hb)]
      rfl

/-- A selection by a test that cannot go wrong, among what some elements are seen
as. -/
theorem filterM_map_eq_ok {test : β → Checked Bool} {view : α → β} {holds : α → Bool} {as : List α}
    (h : ∀ a ∈ as, test (view a) = .ok (holds a)) :
    (as.map view).filterM test = .ok ((as.filter holds).map view) := by
  have haux : ∀ kept, List.filterAuxM test (as.map view) kept =
      .ok (((as.filter holds).map view).reverse ++ kept) := by
    induction as with
    | nil => exact fun kept => rfl
    | cons a as ih =>
        intro kept
        rw [List.map_cons, List.filterAuxM, h a List.mem_cons_self, ok_bind,
          ih fun b hb => h b (List.mem_cons_of_mem _ hb)]
        cases hholds : holds a <;> simp [hholds]
  rw [List.filterM, haux, ok_bind, List.append_nil, List.reverse_reverse]
  rfl

/-- A test that cannot go wrong. -/
theorem anyM_eq_ok {test : α → Checked Bool} {holds : α → Bool} {as : List α}
    (h : ∀ a ∈ as, test a = .ok (holds a)) : as.anyM test = .ok (as.any holds) := by
  induction as with
  | nil => rfl
  | cons a as ih =>
      rw [List.anyM, h a List.mem_cons_self, ok_bind, List.any_cons]
      cases holds a with
      | true => rfl
      | false => exact ih fun b hb => h b (List.mem_cons_of_mem _ hb)

end Checked
end LogPrune
