import UrlRouting.Arguments.Basic

/-
  Converters: what a variable of a template accepts. There are six kinds, each with its bounds.
  `Kind.weight` ranks them, the more specific the lighter.
-/

namespace UrlRouting

/-- Bounds on the number of characters; `exact` overrides the other two. -/
structure LengthBounds where
  min : Nat := 1
  max : Option Nat := none
  exact : Option Nat := none
  deriving DecidableEq, Repr

/-- Bounds on a whole number, and the number of digits it is written with. -/
structure IntBounds where
  digits : Option Nat := none
  min : Option Int64 := none
  max : Option Int64 := none
  deriving DecidableEq

structure FloatBounds where
  min : Option Float := none
  max : Option Float := none
  deriving DecidableEq

/-- What a variable accepts. -/
inductive Converter where
  /-- Text without a slash. -/
  | string (bounds : LengthBounds)
  /-- One of some fixed texts. -/
  | any (items : List String)
  /-- Text that may hold slashes but does not begin with one. -/
  | path
  | int (bounds : IntBounds)
  | float (bounds : FloatBounds)
  | uuid
  deriving DecidableEq

namespace Converter

inductive Kind where
  | string | any | path | int | float | uuid
  deriving DecidableEq, Repr

/-- The name under which templates ask for a converter of this kind. -/
def Kind.name : Kind → String
  | string => "string"
  | any => "any"
  | path => "path"
  | int => "int"
  | float => "float"
  | uuid => "uuid"

/-- How specific a kind is; lower is more specific. -/
def Kind.weight : Kind → Nat
  | path => 200
  | int | float => 50
  | string | any | uuid => 100

def kind : Converter → Kind
  | string _ => .string
  | any _ => .any
  | path => .path
  | int _ => .int
  | float _ => .float
  | uuid => .uuid

def name (c : Converter) : String := c.kind.name

def weight (c : Converter) : Nat := c.kind.weight

end Converter

end UrlRouting
