import UrlRouting.Arguments.Basic

/-
  The segments of a template: literal text and variables.
-/

namespace UrlRouting

/-- A variable of a template, with the converter it asks for. -/
structure Placeholder where
  converter : String
  arguments : Arguments := {}
  name : String
  deriving DecidableEq

inductive Segment where
  | literal (text : String)
  | placeholder (p : Placeholder)
  deriving DecidableEq

namespace Segment

def placeholder? : Segment → Option Placeholder
  | literal _ => none
  | placeholder p => some p

end Segment

end UrlRouting
