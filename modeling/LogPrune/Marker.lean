import LogPrune.Pattern.Search

/-!
# LogPrune.Marker

Keep markers.  A line carries a marker when it holds one of the configured
tags or a comment that begins with the word `keep`, in any case.  A marker
protects its own line and the line below it.
-/

namespace LogPrune

/-- A comment that begins with `keep`. -/
def keepComment : Pattern where
  body := .group (.oneOf ["//", "/*", "#", "--"]) ++ .many .blank ++ .lit "keep"
  ignoreCase := true

/-- Whether a line carries a keep marker.  The empty tag marks nothing. -/
def carriesMarker (tags : List String) (line : Text) : Bool :=
  tags.any (fun tag => tag != "" && line.includes tag.toList) || keepComment.occursIn line

/-- Whether the line with an index exists and it or the line above it
carries a marker. -/
def isProtected (tags : List String) (lines : List Text) (i : Nat) : Bool :=
  match lines[i]? with
  | none => false
  | some line =>
    carriesMarker tags line
      || (0 < i && (lines[i - 1]?).any (carriesMarker tags))

/-- Whether any line from one index through another is protected. -/
def isProtectedRange (tags : List String) (lines : List Text) (first last : Nat) : Bool :=
  (List.range' first (min (last + 1) lines.length - first)).any (isProtected tags lines)

end LogPrune
