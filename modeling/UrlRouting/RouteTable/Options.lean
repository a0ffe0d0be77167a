import UrlRouting.Decimal.Integer

/-
  The options of a route table, and which of them are allowed.
-/

namespace UrlRouting

structure TableOptions where
  /-- Whether rules made by a router are strict about the slash at the end. -/
  strictSlashes : Bool := true
  /-- Whether a rule that answers GET answers HEAD too. -/
  automaticHead : Bool := true
  maxRules : Nat := 65535
  defaultScheme : String := "http"
  deriving DecidableEq, Repr

/-- Why options are refused. -/
inductive OptionsError where
  | badMaxRules (given : Nat)
  | badScheme (scheme : String)
  deriving DecidableEq, Repr

namespace TableOptions

/-- The most rules that a table may be allowed to hold: their numbers have 32 bits. -/
def mostRules : Nat := 4294967295

/-- A scheme is a letter followed by letters, digits, `+`, `-` and `.`. -/
def isScheme (text : String) : Bool :=
  match text.toList with
  | [] => false
  | c :: rest => c.isAlpha && rest.all fun c => c.isAlphanum || c ∈ ['+', '-', '.']

/-- The number of rules is looked at before the scheme. -/
def check (o : TableOptions) : Except OptionsError Unit :=
  if o.maxRules = 0 ∨ mostRules < o.maxRules then .error (.badMaxRules o.maxRules)
  else if isScheme o.defaultScheme then .ok ()
  else .error (.badScheme o.defaultScheme)

end TableOptions

def OptionsError.message : OptionsError → String
  | badMaxRules given =>
    "max_rules must be between 1 and " ++ Decimal.natText TableOptions.mostRules ++ " (got "
      ++ Decimal.natText given ++ ")"
  | badScheme scheme => "'" ++ scheme ++ "' is not a valid URL scheme"

end UrlRouting
