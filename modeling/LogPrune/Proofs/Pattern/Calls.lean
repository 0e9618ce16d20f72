import LogPrune.Proofs.Pattern.Depth
import Mathlib

/-!
# LogPrune.Proofs.Pattern.Calls

The patterns of calls: the name of the call, blanks, an argument list and, where the call
ends a statement, a semicolon.

1. The pattern of a kind of calls spells its names, blanks and an argument list
   (`spells_call_iff`), in one way only (`IsCall.eq_of_append`).
2. Of the blanks behind a call all are taken, and the semicolon that follows them
   (`leads_of_head?_terminator`).
3. So every hit is a call with its ending, and every call is found with its ending, unless
   it starts inside an earlier hit (`calls_matched`).
-/

namespace LogPrune

/-! ## Endings -/

/-- The blanks with which a text begins, and a semicolon if it follows them. -/
def Text.terminator (t : Text) : Text :=
  match t.dropWhile isBlank with
  | ';' :: _ => t.takeWhile isBlank ++ [';']
  | _ => t.takeWhile isBlank

namespace Regex

/-- All blanks are taken, and a semicolon if one follows. -/
theorem leads_of_head?_terminator {e d : Cursor} (h : (terminator.ends false e).head? = some d) :
    e.Leads e.rest.terminator d := by
  have hlead : e.Leads (e.rest.takeWhile isBlank)
      (e.after (e.rest.takeWhile isBlank) (e.rest.dropWhile isBlank)) :=
    ⟨(List.takeWhile_append_dropWhile ..).symm, rfl⟩
  have hfar : ((Regex.many .blank).ends false e).head? =
      some (e.after (e.rest.takeWhile isBlank) (e.rest.dropWhile isBlank)) :=
    List.head?_reverse.trans (Cursor.getLast?_run .blank e)
  obtain ⟨nearer, hnearer⟩ := List.head?_eq_some_iff.1 hfar
  have hends : terminator.ends false e = ((Regex.many .blank).ends false e).flatMap
      ((Regex.optional (lit ";")).ends false) := rfl
  rw [hends, hnearer, List.flatMap_cons, ends, lit, ends] at h
  rw [Text.terminator]
  split
  · next rest hrest =>
    rw [hrest] at hlead h
    rw [show Cursor.skip? false ";".toList (e.after (e.rest.takeWhile isBlank) (';' :: rest)) = _
      from Cursor.skip?_of_append rfl] at h
    obtain rfl := Option.some.inj h
    exact hlead.trans ⟨rfl, rfl⟩
  · next hnone =>
    rw [Cursor.skip?_eq_none] at h
    · obtain rfl := Option.some.inj h
      exact hlead
    · rintro ⟨rest, hrest⟩
      exact hnone rest hrest.symm

end Regex

/-! ## Kinds of calls -/

open Regex Pattern

/-- Whether a character may stand in a name: it is no blank and no opening bracket. -/
def isNameChar (c : Char) : Bool := !isBlank c && c != '('

/-- The name of a method.  It need not be an identifier: it is enough that neither a blank nor
an opening bracket is in it, so that it ends where the gap or the argument list begins. -/
structure MethodName where
  name : String
  isNameChar_of_mem : name.toList.all isNameChar

/-- The kinds of calls that the languages look for. -/
inductive CallKind
  /-- A console method, one of those given or of the usual ones. -/
  | console (methods : List MethodName)
  /-- A console method in a page. -/
  | inlineConsole
  /-- Plain `print`. -/
  | print
  /-- A stream of Java. -/
  | javaStream
  /-- The console of C#. -/
  | csharpConsole
  /-- The `fmt` package of Go. -/
  | goPrint
  /-- A macro of Rust. -/
  | rustPrint
  /-- The `printf` family of C. -/
  | cPrint

namespace CallKind

/-- The pattern of a kind of calls. -/
def pattern : CallKind → Pattern
  | console methods => consoleCall (methods.map MethodName.name)
  | inlineConsole => inlineConsoleCall
  | print => printCall
  | javaStream => javaStreamCall
  | csharpConsole => csharpConsoleCall
  | goPrint => goPrintCall
  | rustPrint => rustPrintMacro
  | cPrint => cPrintCall

/-- The console methods of a list, or the usual ones if it is empty. -/
def methodNames (methods : List MethodName) : List String :=
  if methods.isEmpty then consoleMethods else methods.map MethodName.name

/-- The names that calls of a kind have. -/
def names : CallKind → List String
  | console methods => (methodNames methods).map ("console." ++ ·)
  | inlineConsole =>
    ["console.log", "console.debug", "console.info", "console.warn", "console.error"]
  | print => ["print"]
  | javaStream =>
    ["System.out.print", "System.out.println", "System.out.printf",
     "System.err.print", "System.err.println", "System.err.printf"]
  | csharpConsole => ["Console.Write", "Console.WriteLine", "Console.Error", "Console.Out"]
  | goPrint =>
    ["fmt.Print", "fmt.Printf", "fmt.Println", "fmt.Fprint", "fmt.Fprintf", "fmt.Fprintln",
     "fmt.Sprint", "fmt.Sprintf", "fmt.Sprintln"]
  | rustPrint => ["println!", "print!", "dbg!", "eprintln!", "eprint!"]
  | cPrint => ["printf", "fprintf", "sprintf", "snprintf"]

/-- Whether the semicolon behind a call belongs to its match. -/
def endsStatement : CallKind → Bool
  | console _ | inlineConsole | javaStream | csharpConsole | cPrint => true
  | print | goPrint | rustPrint => false

/-- What of the text behind a call belongs to its match. -/
def ending (kind : CallKind) (rest : Text) : Text :=
  if kind.endsStatement then rest.terminator else []

/-- Whether a text is a call: a name, blanks and an argument list with at most two brackets
open at a time. -/
def IsCall (kind : CallKind) (call : Text) : Prop :=
  ∃ name gap args, name ∈ kind.names ∧ call = name.toList ++ gap ++ args ∧
    (∀ x ∈ gap, isBlank x) ∧ args.IsBracketed 2

/-- The part of the pattern that stands for the name. -/
def head : CallKind → Regex
  | console methods => lit "console." ++ .group (oneOf (methodNames methods))
  | inlineConsole => lit "console." ++ .group (oneOf ["log", "debug", "info", "warn", "error"])
  | print => lit "print"
  | javaStream => lit "System." ++ .group (oneOf ["out", "err"]) ++ lit "."
      ++ .group (oneOf ["print", "println", "printf"])
  | csharpConsole => lit "Console." ++ .group (oneOf ["Write", "WriteLine", "Error", "Out"])
  | goPrint => lit "fmt." ++ .group (oneOf ["Print", "Printf", "Println", "Fprint", "Fprintf",
      "Fprintln", "Sprint", "Sprintf", "Sprintln"])
  | rustPrint => .group (oneOf ["println!", "print!", "dbg!", "eprintln!", "eprint!"])
  | cPrint => .group (oneOf ["printf", "fprintf", "sprintf", "snprintf"])

/-- The part of the pattern that stands for the call, without what ends the statement. -/
def call (kind : CallKind) : Regex := kind.head ++ spacedArguments

theorem body_pattern (kind : CallKind) : kind.pattern.body =
    if kind.endsStatement then kind.call ++ terminator else kind.call := by
  cases kind with
  | console methods =>
      simp only [pattern, consoleCall, List.isEmpty_map]
      rfl
  | _ => rfl

theorem ignoreCase_pattern (kind : CallKind) : kind.pattern.ignoreCase = false := by
  cases kind <;> rfl

theorem methodNames_ne_nil (methods : List MethodName) : methodNames methods ≠ [] := by
  unfold methodNames
  split
  · decide
  · simp_all

theorem spellsOnly_head (kind : CallKind) : kind.head.SpellsOnly kind.names := by
  cases kind with
  | console methods =>
      have h := (spellsOnly_lit "console.").seq
        (spellsOnly_oneOf (methodNames_ne_nil methods)).group
      rwa [List.flatMap_singleton] at h
  | inlineConsole => exact (spellsOnly_lit "console.").seq (spellsOnly_oneOf (by decide)).group
  | print => exact spellsOnly_lit "print"
  | javaStream =>
      exact (((spellsOnly_lit "System.").seq (spellsOnly_oneOf (by decide)).group).seq
        (spellsOnly_lit ".")).seq (spellsOnly_oneOf (by decide)).group
  | csharpConsole => exact (spellsOnly_lit "Console.").seq (spellsOnly_oneOf (by decide)).group
  | goPrint => exact (spellsOnly_lit "fmt.").seq (spellsOnly_oneOf (by decide)).group
  | rustPrint => exact (spellsOnly_oneOf (by decide)).group
  | cPrint => exact (spellsOnly_oneOf (by decide)).group

theorem looksAround_pattern (kind : CallKind) : kind.pattern.body.looksAround = false := by
  cases kind with
  | console methods =>
      show ((false || (oneOf _).looksAround) || spacedArguments.looksAround ||
        terminator.looksAround) = false
      rw [looksAround_oneOf]
      rfl
  | _ => rfl

/-- There is neither a blank nor an opening bracket in the name of a call. -/
theorem isNameChar_of_mem_names {kind : CallKind} {name : String} (h : name ∈ kind.names) :
    ∀ x ∈ name.toList, isNameChar x := by
  rw [← List.all_eq_true]
  cases kind with
  | console methods =>
      obtain ⟨m, hm, rfl⟩ := List.mem_map.1 h
      have hmethod : m.toList.all isNameChar := by
        rw [methodNames] at hm
        split at hm
        · have husual : ∀ m ∈ consoleMethods, m.toList.all isNameChar := by decide
          exact husual m hm
        · obtain ⟨method, -, rfl⟩ := List.mem_map.1 hm
          exact method.isNameChar_of_mem
      rw [String.toList_append, List.all_append, hmethod]
      rfl
  | _ =>
      revert name
      decide

theorem spells_call_iff {kind : CallKind} {t : Text} :
    kind.call.Spells false t ↔ kind.IsCall t := by
  constructor
  · rintro ⟨_, _, rfl, hname, gap, args, rfl, hgap, hargs⟩
    obtain ⟨name, hmem, rfl⟩ := List.mem_map.1 ((kind.spellsOnly_head _).1 hname)
    exact ⟨name, gap, args, hmem, by rw [List.append_assoc], hgap,
      Text.isArguments_iff_isBracketed.1 (spells_arguments_iff.1 hargs)⟩
  · rintro ⟨name, gap, args, hmem, rfl, hgap, hargs⟩
    refine ⟨name.toList, gap ++ args, List.append_assoc .., ?_, gap, args, rfl, hgap, ?_⟩
    · exact (kind.spellsOnly_head _).2 (List.mem_map_of_mem hmem)
    · exact spells_arguments_iff.2 (Text.isArguments_iff_isBracketed.2 hargs)

theorem IsCall.ne_nil {kind : CallKind} {call : Text} (h : kind.IsCall call) : call ≠ [] := by
  obtain ⟨name, gap, args, -, rfl, -, hargs⟩ := h
  simp [hargs.ne_nil]

/-- A text has one beginning at most that is a call. -/
theorem IsCall.eq_of_append {kind : CallKind} {s t a b : Text} (hs : kind.IsCall s)
    (ht : kind.IsCall t) (h : s ++ a = t ++ b) : s = t := by
  obtain ⟨name, gap, args, hname, rfl, hgap, hargs⟩ := hs
  obtain ⟨name', gap', args', hname', rfl, hgap', hargs'⟩ := ht
  simp only [List.append_assoc] at h
  have hbracket : ∀ {args a : Text}, args.IsBracketed 2 → ∃ u, args ++ a = '(' :: u := by
    intro args a hargs
    obtain ⟨u, rfl⟩ := List.head?_eq_some_iff.1 hargs.head_eq
    exact ⟨u ++ a, rfl⟩
  obtain ⟨u, hu⟩ := hbracket (a := a) hargs
  obtain ⟨v, hv⟩ := hbracket (a := b) hargs'
  -- the name reaches to the first character that may not stand in one, the gap to the bracket
  have hstop : ∀ {gap u : Text}, (∀ x ∈ gap, isBlank x) →
      (gap ++ '(' :: u).head?.all (!isNameChar ·) := by
    intro gap u hgap
    cases gap with
    | nil => rfl
    | cons x gap => simp [isNameChar, hgap x]
  rw [hu, hv] at h
  obtain ⟨hsame, hbehind⟩ := Text.eq_of_append_of_head (isNameChar_of_mem_names hname)
    (isNameChar_of_mem_names hname') (hstop hgap) (hstop hgap') h
  obtain ⟨hblanks, hlist⟩ := Text.eq_of_append_of_head hgap hgap' rfl rfl hbehind
  rw [← hu, ← hv] at hlist
  rw [hsame, hblanks, hargs.eq_of_append hargs' hlist]

/-- The match at a place is a call and its ending. -/
theorem exists_of_end? {kind : CallKind} {c d : Cursor} (h : kind.pattern.end? c = some d) :
    ∃ call rest, c.rest = call ++ rest ∧ kind.IsCall call ∧
      c.Leads (call ++ kind.ending rest) d := by
  rw [end?_eq_head?, body_pattern, ignoreCase_pattern] at h
  by_cases hstatement : kind.endsStatement
  · rw [if_pos hstatement] at h
    have hends : ((kind.call ++ terminator).ends false c).head? =
        (kind.call.ends false c).findSome? fun e => (terminator.ends false e).head? :=
      List.head?_flatMap
    rw [hends] at h
    obtain ⟨e, he, hd⟩ := List.exists_of_findSome?_eq_some h
    obtain ⟨call, hcall, hspell⟩ := spells_of_mem_ends he
    refine ⟨call, e.rest, hcall.1, spells_call_iff.1 hspell, ?_⟩
    rw [ending, if_pos hstatement]
    exact hcall.trans (leads_of_head?_terminator hd)
  · rw [if_neg hstatement] at h
    obtain ⟨call, hcall, hspell⟩ := spells_of_mem_ends (List.mem_of_mem_head? h)
    refine ⟨call, d.rest, hcall.1, spells_call_iff.1 hspell, ?_⟩
    rwa [ending, if_neg hstatement, List.append_nil]

/-- Every hit is a call and its ending. -/
theorem exists_of_mem_hits {kind : CallKind} {content : Text} {h : Hit}
    (hmem : h ∈ kind.pattern.hits content) :
    ∃ a call rest, content = a ++ call ++ rest ∧ kind.IsCall call ∧
      h = ⟨Text.size a, call ++ kind.ending rest⟩ := by
  obtain ⟨a, c, d, hcontent, hstart, hend, hlead⟩ := exists_leads_of_mem_hits hmem
  obtain ⟨call, rest, hrest, hcall, hlead'⟩ := exists_of_end? hend
  refine ⟨a, call, rest, ?_, hcall, ?_⟩
  · rw [List.append_assoc, ← hrest]
    exact hcontent
  · rw [← hlead.unique hlead']
    exact congrArg (Hit.mk · h.text) hstart

/-- What the pattern spells begins with a call. -/
theorem exists_of_spells {kind : CallKind} {t : Text} (h : kind.pattern.body.Spells false t) :
    ∃ call, kind.IsCall call ∧ call <+: t := by
  rw [body_pattern] at h
  split at h
  · obtain ⟨call, tail, rfl, hcall, -⟩ := h
    exact ⟨call, spells_call_iff.1 hcall, List.prefix_append ..⟩
  · exact ⟨t, spells_call_iff.1 h, List.prefix_refl t⟩

theorem IsCall.spells {kind : CallKind} {call : Text} (h : kind.IsCall call) :
    kind.pattern.body.Spells false call := by
  have hcall := spells_call_iff.2 h
  rw [body_pattern]
  split
  · exact ⟨call, [], (List.append_nil call).symm, hcall, [], [], rfl, by simp [Spells], .inl rfl⟩
  · exact hcall

/-- Where a call stands a hit starts, unless an earlier one reaches over the place. -/
theorem IsCall.exists_hit {kind : CallKind} {call : Text} (h : kind.IsCall call) (a rest : Text) :
    ∃ hit ∈ kind.pattern.hits (a ++ call ++ rest),
      hit.start ≤ Text.size a ∧ Text.size a < hit.stop := by
  rw [List.append_assoc]
  apply exists_hit_of_spells (looksAround_pattern kind)
  · rw [ignoreCase_pattern]
    intro hnil
    obtain ⟨call, hcall, hprefix⟩ := exists_of_spells hnil
    exact hcall.ne_nil (List.prefix_nil.1 hprefix)
  · rw [ignoreCase_pattern]
    exact h.spells

/-- The hits of the pattern for a kind of calls, in any text.  Every hit is a call and its
ending.  Every call is, with its ending, such a hit, unless it starts inside an earlier one. -/
theorem calls_matched (kind : CallKind) (content : Text) :
    (∀ h ∈ kind.pattern.hits content, ∃ a call rest, content = a ++ call ++ rest ∧
      kind.IsCall call ∧ h = ⟨Text.size a, call ++ kind.ending rest⟩) ∧
    ∀ a call rest, content = a ++ call ++ rest → kind.IsCall call →
      ⟨Text.size a, call ++ kind.ending rest⟩ ∈ kind.pattern.hits content ∨
      ∃ h ∈ kind.pattern.hits content, h.start < Text.size a ∧ Text.size a < h.stop := by
  refine ⟨fun h hmem => exists_of_mem_hits hmem, ?_⟩
  rintro a call rest hcontent hcall
  obtain ⟨h, hmem, hle, hlt⟩ := hcall.exists_hit a rest
  rw [← hcontent] at hmem
  rcases Nat.lt_or_eq_of_le hle with hbefore | hhere
  · exact .inr ⟨h, hmem, hbefore, hlt⟩
  · obtain ⟨a', call', rest', hcontent', hcall', rfl⟩ := exists_of_mem_hits hmem
    left
    rw [hcontent, List.append_assoc, List.append_assoc] at hcontent'
    obtain rfl : a = a' := Text.eq_of_size_eq hcontent' hhere.symm
    have hsame := List.append_cancel_left hcontent'
    obtain rfl := hcall.eq_of_append hcall' hsame
    obtain rfl := List.append_cancel_left hsame
    exact hmem

/-- The timers of the console. -/
def timers : CallKind := .console [⟨"time", by decide⟩, ⟨"timeEnd", by decide⟩]

/-- A call over two lines is matched up to its semicolon, with the longer one of two names; one
with three brackets open at a time is not matched. -/
theorem calls_matched_timers :
    timers.IsCall "console.timeEnd (f(1),\n2)".toList ∧
    timers.pattern.hits "console.timeEnd (f(1),\n2)  ;console.time(g(h(3)))".toList =
      [⟨0, "console.timeEnd (f(1),\n2)  ;".toList⟩] ∧
    ∃ a call rest,
      "console.timeEnd (f(1),\n2)  ;console.time(g(h(3)))".toList = a ++ call ++ rest ∧
      timers.IsCall call ∧
      (⟨0, "console.timeEnd (f(1),\n2)  ;".toList⟩ : Hit) =
        ⟨Text.size a, call ++ timers.ending rest⟩ := by
  have hargs : Text.IsBracketed 2 "(f(1),\n2)".toList :=
    Text.isArguments_iff_isBracketed.1 ⟨"f(1),\n2".toList, rfl, by decide⟩
  have hcall : timers.IsCall "console.timeEnd (f(1),\n2)".toList :=
    ⟨"console.timeEnd", [' '], "(f(1),\n2)".toList, by decide, rfl,
      List.forall_mem_singleton.2 rfl, hargs⟩
  have hhits : timers.pattern.hits "console.timeEnd (f(1),\n2)  ;console.time(g(h(3)))".toList =
      [⟨0, "console.timeEnd (f(1),\n2)  ;".toList⟩] := by cbv
  obtain ⟨hparts, hstarts⟩ :=
    calls_matched timers "console.timeEnd (f(1),\n2)  ;console.time(g(h(3)))".toList
  refine ⟨hcall, hhits, ?_⟩
  rcases hstarts [] _ "  ;console.time(g(h(3)))".toList rfl hcall with hhit | ⟨h, -, hlt, -⟩
  · exact hparts _ hhit
  · exact absurd hlt (Nat.not_lt_zero _)

end CallKind
end LogPrune
