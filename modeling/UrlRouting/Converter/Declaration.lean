import UrlRouting.Converter.Basic

/-
  From arguments to a converter.
  `assign` gives arguments to parameters as in a call: those by position first, then those by
  keyword, none to a parameter twice. Each kind then reads its parameters in their order, and the
  first fault is reported.
-/

namespace UrlRouting

/-- The number that a parameter asks for. -/
inductive NumberKind where
  | integer | number
  deriving DecidableEq, Repr

def NumberKind.text : NumberKind → String
  | integer => "an integer"
  | number => "a number"

/-- Why an argument of the right type is refused. -/
inductive RangeFault where
  | notACount (n : Int64)
  | noDigits
  | lengthsCrossed (max min : Nat)
  | intsCrossed (max min : Int64)
  | floatsCrossed (max min : Float)
  deriving DecidableEq

def RangeFault.text : RangeFault → String
  | notACount n => Decimal.intText n.toInt ++ " is not a non-negative count"
  | noDigits => "fixed_digits must be at least 1"
  | lengthsCrossed max min =>
    Decimal.natText max ++ " is smaller than minlength " ++ Decimal.natText min
  | intsCrossed max min =>
    "max " ++ Decimal.intText max.toInt ++ " is smaller than min " ++ Decimal.intText min.toInt
  | floatsCrossed max min =>
    "max " ++ Decimal.plain max ++ " is smaller than min " ++ Decimal.plain min

/-- Why a converter does not take its arguments. -/
inductive ArgumentError where
  | tooMany (kind : Converter.Kind) (limit given : Nat)
  | unknown (kind : Converter.Kind) (name : String)
  | duplicate (kind : Converter.Kind) (name : String)
  | wrongType (kind : Converter.Kind) (name : String) (expected : NumberKind) (found : Argument)
  | outOfRange (kind : Converter.Kind) (name : String) (fault : RangeFault)
  | noItems
  deriving DecidableEq

def ArgumentError.message : ArgumentError → String
  | tooMany kind limit given =>
    "converter '" ++ kind.name ++ "' accepts at most " ++ Decimal.natText limit
      ++ " positional arguments (got " ++ Decimal.natText given ++ ")"
  | unknown kind name => "converter '" ++ kind.name ++ "' has no argument named '" ++ name ++ "'"
  | duplicate kind name =>
    "converter '" ++ kind.name ++ "' received argument '" ++ name ++ "' more than once"
  | wrongType kind name expected found =>
    "argument '" ++ name ++ "' of converter '" ++ kind.name ++ "' must be " ++ expected.text
      ++ " (got " ++ found.kind ++ " '" ++ found.text ++ "')"
  | outOfRange kind name fault =>
    "argument '" ++ name ++ "' of converter '" ++ kind.name ++ "' is out of range: " ++ fault.text
  | noItems => "converter 'any' requires at least one item"

namespace Arguments

/-- Gives keyword arguments to parameters that have no argument yet. -/
def assignKeywords (kind : Converter.Kind) (parameters : List String) :
    List (String × Argument) → List (String × Argument) →
      Except ArgumentError (List (String × Argument))
  | given, [] => .ok given
  | given, (name, value) :: rest =>
    if name ∉ parameters then .error (.unknown kind name)
    else if (given.lookup name).isSome then .error (.duplicate kind name)
    else assignKeywords kind parameters ((name, value) :: given) rest

/-- The argument of each parameter that has one. -/
def assign (kind : Converter.Kind) (parameters : List String) (args : Arguments) :
    Except ArgumentError (List (String × Argument)) :=
  if parameters.length < args.positional.length then
    .error (.tooMany kind parameters.length args.positional.length)
  else assignKeywords kind parameters (parameters.zip args.positional) args.keyword

end Arguments

namespace Converter

/-- The integer given to a parameter. -/
def intArgument (kind : Kind) (given : List (String × Argument)) (name : String) :
    Except ArgumentError (Option Int64) :=
  match given.lookup name with
  | none => .ok none
  | some (.int n) => .ok (some n)
  | some found => .error (.wrongType kind name .integer found)

/-- The count given to a parameter, an integer from 0 to `0xFFFFFFFF`. -/
def countArgument (kind : Kind) (given : List (String × Argument)) (name : String) :
    Except ArgumentError (Option Nat) := do
  match ← intArgument kind given name with
  | none => .ok none
  | some n =>
    if 0 ≤ n.toInt ∧ n.toInt < 0x100000000 then .ok (some n.toInt.toNat)
    else .error (.outOfRange kind name (.notACount n))

/-- The number given to a parameter; an integer counts as the nearest float. -/
def floatArgument (kind : Kind) (given : List (String × Argument)) (name : String) :
    Except ArgumentError (Option Float) :=
  match given.lookup name with
  | none => .ok none
  | some (.float x) => .ok (some x)
  | some (.int n) => .ok (some (Float.ofInt n.toInt))
  | some found => .error (.wrongType kind name .number found)

/-- A string converter, unless its lengths are crossed. -/
def ofLengths (bounds : LengthBounds) : Except ArgumentError Converter :=
  match bounds.max with
  | some max =>
    if max < bounds.min then
      .error (.outOfRange .string "maxlength" (.lengthsCrossed max bounds.min))
    else .ok (.string bounds)
  | none => .ok (.string bounds)

/-- A converter of fixed texts, of which there must be one. -/
def ofItems (items : List String) : Except ArgumentError Converter :=
  if items.isEmpty then .error .noItems else .ok (.any items)

def stringParameters : List String := ["minlength", "maxlength", "length"]

def intParameters : List String := ["fixed_digits", "min", "max"]

def floatParameters : List String := ["min", "max"]

def declareString (args : Arguments) : Except ArgumentError Converter := do
  let given ← args.assign .string stringParameters
  let min ← countArgument .string given "minlength"
  let max ← countArgument .string given "maxlength"
  let exact ← countArgument .string given "length"
  ofLengths { min := min.getD 1, max, exact }

/-- Every argument by position is an item; there are no keywords. -/
def declareAny (args : Arguments) : Except ArgumentError Converter :=
  match args.keyword with
  | (name, _) :: _ => .error (.unknown .any name)
  | [] => ofItems (args.positional.map Argument.text)

def declarePath (args : Arguments) : Except ArgumentError Converter := do
  let _ ← args.assign .path []
  .ok .path

def declareInt (args : Arguments) : Except ArgumentError Converter := do
  let given ← args.assign .int intParameters
  let digits ← countArgument .int given "fixed_digits"
  if digits = some 0 then
    .error (.outOfRange .int "fixed_digits" .noDigits)
  else do
    let min ← intArgument .int given "min"
    let max ← intArgument .int given "max"
    match min, max with
    | some lo, some hi =>
      if hi < lo then .error (.outOfRange .int "max" (.intsCrossed hi lo))
      else .ok (.int { digits, min, max })
    | _, _ => .ok (.int { digits, min, max })

def declareFloat (args : Arguments) : Except ArgumentError Converter := do
  let given ← args.assign .float floatParameters
  let min ← floatArgument .float given "min"
  let max ← floatArgument .float given "max"
  match min, max with
  | some lo, some hi =>
    if hi < lo then .error (.outOfRange .float "max" (.floatsCrossed hi lo))
    else .ok (.float { min, max })
  | _, _ => .ok (.float { min, max })

def declareUuid (args : Arguments) : Except ArgumentError Converter := do
  let _ ← args.assign .uuid []
  .ok .uuid

end Converter

end UrlRouting
