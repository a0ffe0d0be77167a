import UrlRouting.NameMap
import UrlRouting.Uuid
import UrlRouting.Decimal.Notation

/-
  The values of variables: what a request path yields and what a URL is built from.
-/

namespace UrlRouting

/-- The value of a variable. -/
inductive Value where
  | str (text : String)
  | int (n : Int64)
  | float (x : Float)
  | uuid (u : Uuid)
  deriving DecidableEq

/-- Values by variable name. -/
abbrev Values := NameMap Value

namespace Value

def kind : Value → String
  | str _ => "string"
  | int _ => "integer"
  | float _ => "float"
  | uuid _ => "uuid"

/-- The text of a value as it stands in a path; whole floats keep their point. -/
def text : Value → String
  | str s => s
  | int n => Decimal.intText n.toInt
  | float x => Decimal.pointed x
  | uuid u => u.text

def str? : Value → Option String
  | str s => some s
  | _ => none

def int? : Value → Option Int64
  | int n => some n
  | _ => none

def float? : Value → Option Float
  | float x => some x
  | _ => none

def uuid? : Value → Option Uuid
  | uuid u => some u
  | _ => none

/-- A float of single precision widens without loss. -/
def ofFloat32 (x : Float32) : Value := .float x.toFloat

end Value

end UrlRouting
