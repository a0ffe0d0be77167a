import UrlRouting.Converter.Conversion
import UrlRouting.Http.MethodSet
import UrlRouting.Pattern.Reading
import UrlRouting.Rule.Rank
import UrlRouting.Template.Parser

/-
  Rules: a template, the methods it answers and the endpoint it leads to.
  A rule is bound once to one table, which fixes its pattern; only then does it read paths
  (`read?`) and build them (`build`). A rule whose template ends in a slash is a branch; a strict
  branch also reads paths without that slash, and then asks for a redirect.
-/

namespace UrlRouting

/-- The identity of a route table. -/
structure TableId where
  number : Nat
  deriving DecidableEq, Repr

/-- What binding fixes. -/
structure Binding where
  table : TableId
  pattern : Pattern
  deriving DecidableEq

structure Rule where
  template : String
  endpoint : String
  methods : MethodSet
  /-- Whether a branch redirects to the path with the slash, instead of not matching without. -/
  strictSlashes : Bool := true
  binding : Option Binding := none
  deriving DecidableEq

/-- What is wrong with a rule, or with the values it is built from. -/
inductive RuleFault where
  | alreadyBound (table : TableId)
  | notBound
  | noMethods
  | tableFull (limit : Nat)
  | template (cause : TemplateError)
  | pattern (cause : PatternError)
  | missingValue (name : String)
  | unexpectedValue (name : String)
  | unwritable (name : String) (cause : ConversionError)
  deriving DecidableEq

/-- A fault of the rule with this template. -/
structure RuleError where
  template : String
  fault : RuleFault
  deriving DecidableEq

def RuleFault.message (subject : String) : RuleFault → String
  | alreadyBound table =>
    "rule '" ++ subject ++ "' is already bound to map#" ++ Decimal.natText table.number
  | notBound => "rule '" ++ subject ++ "' is not bound to a route map"
  | noMethods => "rule '" ++ subject ++ "' accepts no HTTP methods"
  | tableFull limit =>
    "route map is full (" ++ Decimal.natText limit ++ " rules); cannot add '" ++ subject ++ "'"
  | template cause => cause.message subject
  | pattern cause => cause.message subject
  | missingValue name =>
    "no value supplied for variable '" ++ name ++ "' of rule '" ++ subject ++ "'"
  | unexpectedValue name => "rule '" ++ subject ++ "' has no variable named '" ++ name ++ "'"
  | unwritable name cause =>
    "value for variable '" ++ name ++ "' of rule '" ++ subject ++ "' cannot be rendered: "
      ++ cause.message

def RuleError.message (e : RuleError) : String := e.fault.message e.template

/-- What a path says to a rule. -/
structure RuleReading where
  values : Values
  needsRedirect : Bool
  deriving DecidableEq

/-! ## Patterns and values -/

namespace Pattern

def weights (p : Pattern) : List SegmentRank := p.parts.map SegmentRank.ofPart

def matchRank (p : Pattern) : MatchRank := .ofWeights p.weights

def buildRank (p : Pattern) : BuildRank := .ofWeights p.weights

/-- Converts the texts of the variables in turn; nothing if one of them does not convert. -/
def convert? : List (String × Converter) → List String → Values → Option Values
  | (name, c) :: captures, text :: texts, values =>
    match c.read text with
    | .ok value => convert? captures texts (values.insert name value)
    | .error _ => none
  | _, _, values => some values

/-- The text of some parts with these values, or the first fault from the left. -/
def assemble (values : Values) : List Part → Except RuleFault (List Char)
  | [] => .ok []
  | .literal text :: parts => (assemble values parts).map (text.toList ++ ·)
  | .capture name c :: parts =>
    match values.get? name with
    | none => .error (.missingValue name)
    | some value =>
      match c.write value with
      | .error cause => .error (.unwritable name cause)
      | .ok text => (assemble values parts).map (text.toList ++ ·)

/-- Builds a path; a value for a name that is no variable is refused first. -/
def build (p : Pattern) (values : Values) : Except RuleFault String :=
  match values.names.find? (· ∉ p.variables) with
  | some name => .error (.unexpectedValue name)
  | none => (assemble values p.parts).map String.ofList

/-- Whether there are as many values as variables, and all of them are for variables. -/
def takes (p : Pattern) (values : Values) : Bool :=
  values.size = p.variables.length && values.names.all (· ∈ p.variables)

end Pattern

/-! ## Rules -/

namespace Rule

/-- Whether the template ends in a slash. -/
def isBranch (r : Rule) : Bool := r.template.toList.getLast? = some '/'

/-- A strict branch leaves the slash at the end of a path open. -/
def slashPolicy (r : Rule) : SlashPolicy :=
  if r.isBranch && r.strictSlashes then .optional else .exact

/-- The error that a fault of this rule is. -/
def fail (r : Rule) (fault : RuleFault) : RuleError := ⟨r.template, fault⟩

/-- The pattern that the rule has with these converters. -/
def patternWith (r : Rule) (catalogue : Catalogue) : Except RuleFault Pattern :=
  match Template.parse r.template with
  | .error cause => .error (.template cause)
  | .ok segments => (Pattern.ofSegments catalogue r.slashPolicy segments).mapError .pattern

/-- Binds a rule to a table that has these converters. -/
def bind (r : Rule) (table : TableId) (catalogue : Catalogue) : Except RuleError Rule :=
  match r.binding with
  | some b => .error (r.fail (.alreadyBound b.table))
  | none =>
    if r.methods.isEmpty then .error (r.fail .noMethods)
    else
      match r.patternWith catalogue with
      | .error fault => .error (r.fail fault)
      | .ok pattern => .ok { r with binding := some { table, pattern } }

/-- The pattern of a bound rule. -/
def pattern (r : Rule) : Except RuleError Pattern :=
  match r.binding with
  | some b => .ok b.pattern
  | none => .error (r.fail .notBound)

/-- What a path says to a bound rule; nothing if it does not match, or if the text of a variable
does not convert. -/
def read? (r : Rule) (path : String) : Except RuleError (Option RuleReading) := do
  let p ← r.pattern
  .ok <| do
    let reading ← p.read? path
    let values ← Pattern.convert? p.captures reading.texts .empty
    some ⟨values, r.strictSlashes && r.isBranch && !reading.trailingSlash⟩

/-- Builds a path of a bound rule from values for exactly its variables. -/
def build (r : Rule) (values : Values) : Except RuleError String := do
  let p ← r.pattern
  (p.build values).mapError r.fail

/-- Whether a bound rule answers the method, if one is asked for, and takes the values. -/
def fits (r : Rule) (values : Values) (method : Option Method) : Except RuleError Bool := do
  let p ← r.pattern
  .ok (method.all r.methods.contains && p.takes values)

end Rule

end UrlRouting
