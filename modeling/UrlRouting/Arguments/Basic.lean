import UrlRouting.Decimal.Notation

/-
  The arguments that a template gives to a converter, as in `int(4, min=1)`.
-/

namespace UrlRouting

/-- One argument. -/
inductive Argument where
  | bool (b : Bool)
  | int (n : Int64)
  | float (x : Float)
  | str (text : String)
  deriving DecidableEq

namespace Argument

def kind : Argument → String
  | bool _ => "a boolean"
  | int _ => "an integer"
  | float _ => "a float"
  | str _ => "a string"

/-- The text of an argument; whole floats have no point. -/
def text : Argument → String
  | bool true => "True"
  | bool false => "False"
  | int n => Decimal.intText n.toInt
  | float x => Decimal.plain x
  | str s => s

end Argument

/-- Arguments in the order given, those by position and those by keyword. -/
structure Arguments where
  positional : List Argument := []
  keyword : List (String × Argument) := []
  deriving DecidableEq

namespace Arguments

def isEmpty (args : Arguments) : Bool := args.positional.isEmpty && args.keyword.isEmpty

end Arguments

end UrlRouting
