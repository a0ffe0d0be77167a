import UrlRouting.Converter.Catalogue
import UrlRouting.Pattern.Piece
import UrlRouting.Template.Segment

/-
  Patterns: the segments of a template with their converters.
  When the slash at the end is optional, the slashes at the end of the pattern are taken off and
  one is allowed at the end of a path.
-/

namespace UrlRouting

/-- What a pattern asks of the slash at the end of a path. -/
inductive SlashPolicy where
  | exact | optional
  deriving DecidableEq, Repr

/-- A segment of a pattern. -/
inductive Part where
  | literal (text : String)
  | capture (name : String) (converter : Converter)
  deriving DecidableEq

structure Pattern where
  parts : List Part
  slashes : SlashPolicy
  deriving DecidableEq

/-- Why segments make no pattern. -/
inductive PatternError where
  | unknownConverter (name : String)
  | badArguments (name : String) (cause : ArgumentError)
  /-- The names make no expression, or the expression is too large. -/
  | unmatchable
  deriving DecidableEq

def PatternError.message (template : String) : PatternError → String
  | unknownConverter name => "unknown converter '" ++ name ++ "' in '" ++ template ++ "'"
  | badArguments name cause =>
    "converter for variable '" ++ name ++ "' in '" ++ template ++ "' is misconfigured: "
      ++ cause.message
  | unmatchable => "rule '" ++ template ++ "' compiles to an invalid matcher"

/-! ## Parts -/

namespace Part

/-- The variable and converter of a capture. -/
def capture? : Part → Option (String × Converter)
  | literal _ => none
  | capture name c => some (name, c)

def piece : Part → Piece
  | literal text => .literal text.toList
  | capture _ c => .capture c

end Part

/-- Takes the slashes off the end of a text. -/
def trimSlashes (text : List Char) : List Char := (text.reverse.dropWhile (· = '/')).reverse

/-- Takes the slashes off the end of the parts, through literal parts that hold nothing else. -/
def dropSlashes : List Part → List Part
  | [] => []
  | p :: ps =>
    match p, dropSlashes ps with
    | .literal text, [] =>
      let rest := trimSlashes text.toList
      if rest.isEmpty then [] else [.literal (String.ofList rest)]
    | p, ps => p :: ps

/-! ## Patterns -/

/-- Finds the converter of a segment and gives it its arguments. -/
def Segment.toPart (catalogue : Catalogue) : Segment → Except PatternError Part
  | .literal text => .ok (.literal text)
  | .placeholder v =>
    match catalogue.get? v.converter with
    | none => .error (.unknownConverter v.converter)
    | some declare =>
      match declare v.arguments with
      | .error cause => .error (.badArguments v.name cause)
      | .ok c => .ok (.capture v.name c)

/-- The names and converters of the variables, in order. -/
def Pattern.captures (p : Pattern) : List (String × Converter) := p.parts.filterMap Part.capture?

/-- The names of the variables, in order. -/
def Pattern.variables (p : Pattern) : List String := p.captures.map Prod.fst

namespace Pattern

/-- The parts that a path is held against before the optional slash. -/
def body (p : Pattern) : List Part :=
  match p.slashes with
  | .exact => p.parts
  | .optional => dropSlashes p.parts

def pieces (p : Pattern) : List Piece :=
  match p.slashes with
  | .exact => p.body.map Part.piece
  | .optional => p.body.map Part.piece ++ [.optionalSlash]

end Pattern

end UrlRouting
