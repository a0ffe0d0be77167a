/-
  JSON values, as far as options and methods are read from them.
  A whole number is kept apart from other numbers. A text with an unpaired surrogate escape is no
  text; such a value may still stand where it is not looked at.
-/

namespace UrlRouting

inductive Json where
  | null
  | bool (b : Bool)
  /-- A number without sign, fraction and exponent. -/
  | natural (n : Nat)
  /-- Any other number. -/
  | number
  | string (text : Option String)
  | array (items : List Json)
  | object (fields : List (Option String × Json))

end UrlRouting
