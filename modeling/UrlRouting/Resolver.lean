import UrlRouting.RouteTable.Answer
import UrlRouting.Text.Percent

/-
  Resolvers: a route table seen from a scheme and host, and perhaps from a request.
  `path` builds a path, behind scheme and host if it is to be external; `url` adds an anchor.
-/

namespace UrlRouting

structure Resolver where
  table : RouteTable
  host : String
  scheme : String := table.options.defaultScheme
  request : Option Request := none

/-- What a path is asked for. -/
structure PathQuery where
  endpoint : String
  values : Values := .empty
  /-- A method that the rule must answer. -/
  method : Option Method := none
  /-- A scheme in the place of the resolver's. -/
  scheme : Option String := none
  isExternal : Bool := false

namespace Resolver

/-- The request, which a resolver that only builds does not have. -/
def boundRequest (r : Resolver) : Except ResolutionError Request :=
  match r.request with
  | some request => .ok request
  | none => .error .noRequest

/-- Answers the request. -/
def answer (r : Resolver) : Except ResolutionError Answer := do
  r.table.answer (← r.boundRequest)

/-- The methods that the path of the request allows. -/
def allowed (r : Resolver) : Except ResolutionError MethodSet := do
  let request ← r.boundRequest
  .ok (r.table.allowed request.path)

/-- What stands before the path of an external URL. -/
def origin (r : Resolver) (scheme : Option String) : String :=
  scheme.getD r.scheme ++ "://" ++ r.host

/-- Builds a path, behind scheme and host when it is external. -/
def path (r : Resolver) (query : PathQuery) : Except ResolutionError String := do
  let path ← r.table.build query.endpoint query.values query.method
  .ok (if query.isExternal then r.origin query.scheme ++ path else path)

/-- Builds a URL with its anchor; a scheme goes with external URLs only. -/
def url (r : Resolver) (query : PathQuery) (anchor : Option String) :
    Except ResolutionError String :=
  if query.scheme.isSome && !query.isExternal then .error .schemeRequiresExternal
  else do
    let path ← r.path query
    match anchor with
    | some anchor => .ok (path ++ "#" ++ Text.encodeFragment anchor)
    | none => .ok path

end Resolver

end UrlRouting
