import LogPrune.Text.Basic

/-!
# LogPrune.FilePath

File paths with `/` as separator.  A path keeps the spelling it was given,
for messages and reports, and is compared by its components:

1. the root of an absolute path, written first, is a component;
2. a leading `.` is a component, and so is every `..`;
3. empty segments and any other `.` are no components.

So `a//b` and `a/./b/` are the same path as `a/b`, and `./a` is another one
than `a`.  Sorting by components puts `a/b` before `a-b`.
-/

namespace LogPrune

/-- A file path as it was spelled. -/
structure FilePath where
  text : String
  deriving DecidableEq, Repr, Inhabited

/-- A component of a path. -/
inductive Component
  /-- The root of an absolute path. -/
  | root
  /-- A leading `.`. -/
  | here
  /-- A `..`. -/
  | up
  /-- A name. -/
  | name (n : String)
  deriving DecidableEq, Repr

/-- The order of components: the root, `.`, `..`, and then names in the
order of their characters. -/
def Component.lt : Component → Component → Bool
  | .root, .root => false
  | .root, _ => true
  | .here, .root | .here, .here => false
  | .here, _ => true
  | .up, .name _ => true
  | .up, _ => false
  | .name m, .name n => m < n
  | .name _, _ => false

namespace FilePath

/-! ## Segments and components -/

/-- The segments between separators, empty ones included. -/
def segments (p : FilePath) : List String :=
  (Text.pieces '/' p.text.toList).map String.ofList

/-- Whether a segment is a component wherever it stands. -/
def counts (s : String) : Bool := s != "" && s != "."

/-- Whether the path starts at the root. -/
def isAbsolute (p : FilePath) : Bool := p.text.toList.head? == some '/'

/-- The root or the `.` that a path starts with, and the segments after
that. -/
def headAndBody (p : FilePath) : Option Component × List String :=
  if p.isAbsolute then (some .root, p.segments.tail)
  else match p.segments with
    | "." :: rest => (some .here, rest)
    | segments => (none, segments)

/-- The component of a segment, if it is one. -/
def componentOf? (s : String) : Option Component :=
  if s = ".." then some .up else if counts s then some (.name s) else none

/-- The components of a path. -/
def components (p : FilePath) : List Component :=
  let (head, body) := p.headAndBody
  head.toList ++ body.filterMap componentOf?

/-! ## Comparison -/

/-- Whether a list of components comes before another or equals it. -/
def componentsLe : List Component → List Component → Bool
  | [], _ => true
  | _ :: _, [] => false
  | a :: as, b :: bs => if a = b then componentsLe as bs else a.lt b

/-- Whether a path comes before another or is the same path. -/
def le (p q : FilePath) : Bool := componentsLe p.components q.components

/-- Whether two spellings are the same path. -/
def same (p q : FilePath) : Bool := p.components = q.components

/-! ## Building and taking apart -/

/-- Segments joined by separators. -/
def joinSegments (segments : List String) : String := String.intercalate "/" segments

/-- A path below another one; an absolute path stays itself. -/
def join (p q : FilePath) : FilePath :=
  if q.isAbsolute then q
  else if p.text = "" || p.text.toList.getLast? = some '/' then ⟨p.text ++ q.text⟩
  else ⟨p.text ++ "/" ++ q.text⟩

/-- The entry of a directory with a given name. -/
def child (p : FilePath) (name : String) : FilePath := p.join ⟨name⟩

/-- Segments without those at the end that are no components. -/
def trimEnd (segments : List String) : List String :=
  (segments.reverse.dropWhile (!counts ·)).reverse

/-- The path with a given head and segments after it. -/
def compose : Option Component → List String → FilePath
  | some .root, body => ⟨"/" ++ joinSegments body⟩
  | some .here, body => ⟨joinSegments ("." :: body)⟩
  | _, body => ⟨joinSegments body⟩

/-- The path without its last component; the root and the empty path have
no parent. -/
def parent? (p : FilePath) : Option FilePath :=
  let (head, body) := p.headAndBody
  match (trimEnd body).reverse, head with
  | _ :: rest, head => some (compose head (trimEnd rest.reverse))
  | [], some .here => some ⟨""⟩
  | [], _ => none

/-- The last component, if it is a name. -/
def fileName? (p : FilePath) : Option String :=
  match p.components.getLast? with
  | some (.name n) => some n
  | _ => none

/-- What follows the last dot of the file name; none for a name without dots
or whose only dot stands first. -/
def extension? (p : FilePath) : Option String := do
  let name ← p.fileName?
  let afterDot := (name.toList.reverse.takeWhile (· != '.')).reverse
  if afterDot.length + 1 < name.toList.length then some (String.ofList afterDot) else none

/-- Segments from behind a given number of components. -/
def dropComponents : Nat → List String → List String
  | 0, segments => segments
  | _ + 1, [] => []
  | n + 1, s :: segments =>
    if counts s then dropComponents n segments else dropComponents (n + 1) segments

/-- The rest of a path below a base, if it starts with the components of the
base. -/
def below? (p base : FilePath) : Option FilePath :=
  if base.components.isPrefixOf p.components then
    let (head, body) := p.headAndBody
    match base.components.length, head with
    | 0, head => some (compose head (trimEnd body))
    | n + 1, none => some ⟨joinSegments (rest (n + 1) body)⟩
    | n + 1, some _ => some ⟨joinSegments (rest n body)⟩
  else none
where
  rest (n : Nat) (body : List String) : List String :=
    trimEnd ((dropComponents n body).dropWhile (!counts ·))

/-- A path with `\` written as `/`. -/
def withSlashes (p : FilePath) : String :=
  String.ofList (p.text.toList.map fun c => if c = '\\' then '/' else c)

/-- A path as reports show it: relative to a base where it lies below it. -/
def display (p base : FilePath) : String := ((p.below? base).getD p).withSlashes

end FilePath
end LogPrune
