import LogPrune.Glob.Reader

/-!
# LogPrune.Exclusion

Leaving paths out by globs.  A path is excluded when any of the globs
matches it as it is spelled; a directory also when one matches it with a
slash behind it, so that `**/dist/**` excludes `dist` itself.
-/

namespace LogPrune

/-- Globs of the paths to leave out. -/
structure Exclusion where
  globs : List Glob

namespace Exclusion

/-- Reads globs; the first one that is wrong is reported. -/
def parse : List String → Except (String × GlobError) Exclusion
  | [] => .ok ⟨[]⟩
  | text :: texts =>
    match Glob.parse text with
    | .error e => .error (text, e)
    | .ok g => (parse texts).map fun rest => ⟨g :: rest.globs⟩

/-- Whether any glob matches a text. -/
def matchesText (e : Exclusion) (text : String) : Bool := e.globs.any (·.matchesText text)

/-- Whether a file is excluded. -/
def excludes (e : Exclusion) (p : FilePath) : Bool := e.matchesText p.withSlashes

/-- Whether a directory is excluded. -/
def excludesDir (e : Exclusion) (p : FilePath) : Bool :=
  e.matchesText p.withSlashes || e.matchesText (p.withSlashes ++ "/")

theorem matchesText_eq_false_iff {e : Exclusion} {text : String} :
    e.matchesText text = false ↔ ∀ g ∈ e.globs, ¬ g.matchesText text := by
  rw [matchesText, List.any_eq_false]

theorem excludes_eq_false_iff {e : Exclusion} {p : FilePath} :
    e.excludes p = false ↔ ∀ g ∈ e.globs, ¬ g.matchesText p.withSlashes :=
  matchesText_eq_false_iff

/-- A directory is not excluded when no glob matches its path, with or without a slash
behind it. -/
theorem excludesDir_eq_false_iff {e : Exclusion} {p : FilePath} :
    e.excludesDir p = false ↔ ∀ g ∈ e.globs,
      ¬ g.matchesText p.withSlashes ∧ ¬ g.matchesText (p.withSlashes ++ "/") := by
  rw [excludesDir, Bool.or_eq_false_iff, matchesText_eq_false_iff, matchesText_eq_false_iff]
  simp only [imp_and, forall_and]

end Exclusion
end LogPrune
