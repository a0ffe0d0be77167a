import UrlRouting.Expression.Search
import UrlRouting.Pattern.Expression

/-
  Patterns that segments make, and what a path says when it is held against one.
  A path matches a pattern with plain names when the pieces of the pattern divide it; the first
  division gives the texts of the variables. Otherwise the expression of the pattern is searched
  for; it says the same where both can be done (`read?_eq_search?`). When the slash at the end is
  optional, what stands before its place must not end in another.
-/

namespace UrlRouting

/-- What a path says: the text of every variable, and whether it ended in a slash. -/
structure PathReading where
  texts : List String
  trailingSlash : Bool
  deriving DecidableEq

namespace Pattern

/-- Whether the names make an expression and it is not too large. -/
def isMatchable (p : Pattern) : Bool := p.tree?.any Expression.isWithinLimit

/-- The pattern of some segments; the first segment at fault is reported. -/
def ofSegments (catalogue : Catalogue) (slashes : SlashPolicy) (segments : List Segment) :
    Except PatternError Pattern := do
  let parts ← segments.mapM (Segment.toPart catalogue)
  let p : Pattern := ⟨parts, slashes⟩
  if p.isMatchable then .ok p else .error .unmatchable

/-- The reading with these texts of a path whose last slash, if it is optional, is at `slash`. -/
def readingAt (p : Pattern) (texts : List String) (path : List Char) (slash : Nat × Nat) :
    Option PathReading :=
  match p.slashes with
  | .exact => some ⟨texts, path.getLast? = some '/'⟩
  | .optional =>
    if (path.take slash.1).getLast? = some '/' then none else some ⟨texts, slash.1 < slash.2⟩

/-- The texts that the captures among the pieces have in a division. -/
def captureTexts : List Piece → List (List Char) → List (List Char)
  | .capture _ :: ps, text :: texts => text :: captureTexts ps texts
  | _ :: ps, _ :: texts => captureTexts ps texts
  | _, _ => []

/-- Holds a path against the pieces. -/
def divide? (p : Pattern) (path : List Char) : Option PathReading :=
  (divide p.pieces path).bind fun division =>
    let texts := (captureTexts p.pieces division).map String.ofList
    let slash := division.getLast?.getD []
    p.readingAt texts path (path.length - slash.length, path.length)

/-- Searches a path for an expression. A variable has the text of the group of its name, or none
if there is no such group; without a group for the slash nothing is read. -/
def search? (p : Pattern) (e : Expression) (path : List Char) : Option PathReading :=
  (e.search? path).bind fun spans =>
    let texts := p.variables.map fun name =>
      String.ofList (Expression.spanText path spans name.toList)
    match p.slashes with
    | .exact => p.readingAt texts path (0, 0)
    | .optional => (spans.lookup slashLabel).bind (p.readingAt texts path)

/-- Holds a path against the pattern. -/
def read? (p : Pattern) (path : String) : Option PathReading :=
  if p.hasPlainNames then p.divide? path.toList
  else p.tree?.bind fun e => p.search? e path.toList

end Pattern

end UrlRouting
