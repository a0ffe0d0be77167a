import UrlRouting.Resolver

/-
  Routers: a route table that is first filled and then sealed.
  Rules and converters go in before sealing only; requests are answered and URLs built after it
  only. Sealing takes the table out of the place where it was filled and leaves an empty one there.
-/

namespace UrlRouting

/-- What a router hands over of an answer. -/
structure MatchedRoute where
  number : RuleNumber
  endpoint : String
  values : Values
  deriving DecidableEq

def Answer.matched (a : Answer) : MatchedRoute where
  number := a.number
  endpoint := a.rule.endpoint
  values := a.values

structure Router where
  /-- The table that rules go into. -/
  table : RouteTable
  /-- The table that is served, once there is one. -/
  served : Option RouteTable := none

/-- Why a router does not do what it is asked for. -/
inductive RouterError where
  | addWhileSealed (template : String)
  | declareWhileSealed (name : String)
  | notSealed
  | tableNotSealed
  | options (cause : OptionsError)
  | rule (cause : RuleError)
  | resolution (cause : ResolutionError)
  deriving DecidableEq

def RouterError.message : RouterError → String
  | addWhileSealed template => "router is sealed; cannot add rule '" ++ template ++ "'"
  | declareWhileSealed name => "router is sealed; cannot register converter '" ++ name ++ "'"
  | notSealed => "router is not sealed; cannot perform route lookup"
  | tableNotSealed => "router is not sealed; readonly route map is unavailable"
  | options cause => cause.message
  | rule cause => cause.message
  | resolution cause => cause.message

namespace Router

/-- A router over an empty table. -/
def create (id : TableId) (options : TableOptions) : Except RouterError Router :=
  match RouteTable.create id options with
  | .ok table => .ok { table }
  | .error cause => .error (.options cause)

def isSealed (r : Router) : Bool := r.served.isSome

def options (r : Router) : TableOptions := r.table.options

/-! ## Filling -/

/-- Adds a rule to a router that is not sealed. -/
def add (r : Router) (rule : Rule) : Except RouterError RuleNumber × Router :=
  if r.isSealed then (.error (.addWhileSealed rule.template), r)
  else
    let (added, table) := r.table.tryAdd rule
    (added.mapError .rule, { r with table })

/-- A new rule that is strict about slashes as the options say. -/
def newRule (options : TableOptions) (template : String) (methods : List Method)
    (endpoint : String) : Rule where
  template
  endpoint
  methods := .ofList methods
  strictSlashes := options.strictSlashes

/-- Makes a new rule and adds it. -/
def addNew (r : Router) (template : String) (methods : List Method) (endpoint : String) :
    Except RouterError RuleNumber × Router :=
  r.add (newRule r.options template methods endpoint)

/-- Puts a converter under a name in a router that is not sealed. -/
def declare (r : Router) (name : String) (declaration : Declaration) :
    Except RouterError Unit × Router :=
  if r.isSealed then (.error (.declareWhileSealed name), r)
  else (.ok (), { r with table := r.table.declare name declaration })

/-- The router after sealing; a second time changes nothing. The table that is left to be filled is
empty and has the same options; it is never seen, so that its identity does not matter. -/
def sealed (r : Router) (left : TableId) : Router :=
  match r.served with
  | some _ => r
  | none => { table := { id := left, options := r.options }, served := some r.table }

/-! ## Serving -/

/-- The table of a sealed router. -/
def sealedTable (r : Router) : Except RouterError RouteTable :=
  match r.served with
  | some table => .ok table
  | none => .error .tableNotSealed

/-- The table that requests are answered and URLs built from. -/
def servedTable (r : Router) : Except RouterError RouteTable :=
  match r.served with
  | some table => .ok table
  | none => .error .notSealed

/-- The rule that a request goes to, by number and endpoint, and the values in its path. -/
def find (r : Router) (request : Request) : Except RouterError MatchedRoute := do
  let table ← r.servedTable
  let resolver : Resolver := { table, host := "", scheme := "", request := some request }
  (resolver.answer.map Answer.matched).mapError .resolution

/-- The methods that a path allows. -/
def allowed (r : Router) (path : String) : Except RouterError MethodSet := do
  let table ← r.servedTable
  let resolver : Resolver := { table, host := "", scheme := "", request := some ⟨.get, path⟩ }
  resolver.allowed.mapError .resolution

/-- A path for an endpoint. -/
def path (r : Router) (endpoint : String) (values : Values) : Except RouterError String := do
  let table ← r.servedTable
  let resolver : Resolver := { table, host := "" }
  (resolver.path { endpoint, values }).mapError .resolution

/-- A URL for an endpoint on a host, with the default scheme. -/
def externalUrl (r : Router) (host endpoint : String) (values : Values) :
    Except RouterError String := do
  let table ← r.servedTable
  let resolver : Resolver := { table, host }
  (resolver.path { endpoint, values, isExternal := true }).mapError .resolution

end Router

end UrlRouting
