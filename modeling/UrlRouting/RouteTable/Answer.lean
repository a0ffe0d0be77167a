import UrlRouting.RouteTable.Basic

/-
  Answering requests and building paths from a route table.
  A request goes through the rules that read its path, in matching order: the first that needs a
  redirect or answers the method decides. A path is built by the first rule of the endpoint, in
  building order, that takes exactly the given values.
-/

namespace UrlRouting

/-- A method and a path. -/
structure Request where
  method : Method
  path : String
  deriving DecidableEq, Repr

/-- Why a request has no rule, or an endpoint no URL. -/
inductive ResolutionError where
  | notFound (path : String)
  | methodNotAllowed (method : Method) (path : String) (allowed : MethodSet)
  | redirectRequired (target : String)
  | notBuilt (endpoint : String) (source : Option RuleError)
  | noRequest
  | schemeRequiresExternal
  deriving DecidableEq

def ResolutionError.message : ResolutionError → String
  | notFound path => "no rule matches path '" ++ path ++ "'"
  | methodNotAllowed method path allowed =>
    "method " ++ method.name ++ " is not allowed for '" ++ path ++ "' (allowed: " ++ allowed.text
      ++ ")"
  | redirectRequired target => "path needs a trailing slash; redirect to '" ++ target ++ "'"
  | notBuilt endpoint _ =>
    "no rule for endpoint '" ++ endpoint ++ "' can be built from the given values"
  | noRequest => "resolver is not bound to a request"
  | schemeRequiresExternal => "a scheme can only be applied to external URLs"

/-- A rule that reads a path. -/
structure Reader where
  number : RuleNumber
  rule : Rule
  reading : RuleReading
  deriving DecidableEq

/-- The rule that a request goes to, and the values in its path. -/
structure Answer where
  number : RuleNumber
  rule : Rule
  values : Values
  deriving DecidableEq

namespace RouteTable

/-- The rules that read a path, in matching order. -/
def readers (t : RouteTable) (path : String) : List Reader :=
  t.inMatchOrder.filterMap fun (number, rule) =>
    match rule.read? path with
    | .ok (some reading) => some { number, rule, reading }
    | _ => none

/-- Goes through the readers; `passed` are the methods of those that did not decide. -/
def decideRequest (request : Request) : List Reader → (passed : MethodSet) →
    Except ResolutionError Answer
  | [], passed =>
    if passed.isEmpty then .error (.notFound request.path)
    else .error (.methodNotAllowed request.method request.path passed)
  | r :: rest, passed =>
    if r.reading.needsRedirect then
      match r.rule.build r.reading.values with
      | .ok target => .error (.redirectRequired target)
      | .error e => .error (.notBuilt r.rule.endpoint (some e))
    else if r.rule.methods.contains request.method then
      .ok { number := r.number, rule := r.rule, values := r.reading.values }
    else decideRequest request rest (passed.union r.rule.methods)

/-- Answers a request. -/
def answer (t : RouteTable) (request : Request) : Except ResolutionError Answer :=
  decideRequest request (t.readers request.path) .empty

/-- The methods of all rules that read a path. -/
def allowed (t : RouteTable) (path : String) : MethodSet :=
  (t.readers path).foldl (fun set r => set.union r.rule.methods) .empty

/-- The first rule of an endpoint that answers the method and takes the values. -/
def fittingRule? (t : RouteTable) (endpoint : String) (values : Values) (method : Option Method) :
    Option (RuleNumber × Rule) :=
  (t.rulesOf endpoint).find? fun (_, rule) =>
    match rule.fits values method with
    | .ok fits => fits
    | .error _ => false

/-- Builds a path for an endpoint. -/
def build (t : RouteTable) (endpoint : String) (values : Values) (method : Option Method) :
    Except ResolutionError String :=
  match t.fittingRule? endpoint values method with
  | none => .error (.notBuilt endpoint none)
  | some (_, rule) => (rule.build values).mapError fun e => .notBuilt endpoint (some e)

end RouteTable

end UrlRouting
