import UrlRouting.RouteTable.Options
import UrlRouting.RouteTable.StableIndex
import UrlRouting.Rule.Basic

/-
  Route tables: the rules in the order of adding, an index of all of them in matching order, and
  one index in building order for every endpoint.
  `add` is the only operation that stores a rule; it binds the rule to the table on the way, and a
  rule that is refused leaves no trace. `addInPlace` is the same, step by step on one table.
-/

namespace UrlRouting

structure RouteTable where
  id : TableId
  options : TableOptions := {}
  rules : Array Rule := #[]
  matchIndex : StableIndex MatchRank := .empty
  buildIndexes : NameMap (StableIndex BuildRank) := .empty
  converters : Catalogue := .standard

namespace RouteTable

/-- An empty table with the standard converters. -/
def create (id : TableId) (options : TableOptions) : Except OptionsError RouteTable := do
  options.check
  .ok { id, options }

def size (t : RouteTable) : Nat := t.rules.size

def isEmpty (t : RouteTable) : Bool := t.rules.isEmpty

def rule? (t : RouteTable) (number : RuleNumber) : Option Rule := t.rules[number.index]?

/-- Puts a converter under a name, in the place of one that had it. -/
def declare (t : RouteTable) (name : String) (declaration : Declaration) : RouteTable :=
  { t with converters := t.converters.insert name declaration }

/-- With automatic HEAD an unbound rule that answers GET answers HEAD too. -/
def completeMethods (t : RouteTable) (r : Rule) : Rule :=
  if t.options.automaticHead && r.binding.isNone && r.methods.contains .get then
    { r with methods := r.methods.insert .head }
  else r

/-- The index of an endpoint, empty when it has no rule. -/
def buildIndex (t : RouteTable) (endpoint : String) : StableIndex BuildRank :=
  (t.buildIndexes.get? endpoint).getD .empty

/-- Puts a rule with this pattern behind the others and into the indexes. -/
def store (t : RouteTable) (r : Rule) (p : Pattern) : RouteTable :=
  let number : RuleNumber := ⟨t.size⟩
  let building := (t.buildIndex r.endpoint).insert p.buildRank number
  { t with
    rules := t.rules.push r
    matchIndex := t.matchIndex.insert p.matchRank number
    buildIndexes := t.buildIndexes.insert r.endpoint building }

/-- Binds a rule and stores it under the next number. -/
def add (t : RouteTable) (r : Rule) : Except RuleError (RuleNumber × RouteTable) :=
  if t.options.maxRules ≤ t.size ∨ 0x100000000 ≤ t.size then
    .error (r.fail (.tableFull t.options.maxRules))
  else do
    let bound ← (t.completeMethods r).bind t.id t.converters
    let p ← bound.pattern
    .ok (⟨t.size⟩, t.store bound p)

/-- Adds a rule to a table that is changed in place, one structure after the other. Where a step
fails, what the steps before it made of the table is left. -/
def addInPlace (r : Rule) : ExceptT RuleError (StateM RouteTable) RuleNumber := do
  let t ← get
  if t.options.maxRules ≤ t.size ∨ 0x100000000 ≤ t.size then
    throw (r.fail (.tableFull t.options.maxRules))
  let number : RuleNumber := ⟨t.size⟩
  let bound ← MonadExcept.ofExcept ((t.completeMethods r).bind t.id t.converters)
  let p ← MonadExcept.ofExcept bound.pattern
  modify fun t => { t with matchIndex := t.matchIndex.insert p.matchRank number }
  modify fun t => { t with
    buildIndexes := t.buildIndexes.insert bound.endpoint
      ((t.buildIndex bound.endpoint).insert p.buildRank number) }
  modify fun t => { t with rules := t.rules.push bound }
  return number

/-- What adding a rule in place answers, and the table that it leaves. -/
def tryAdd (t : RouteTable) (r : Rule) : Except RuleError RuleNumber × RouteTable :=
  (addInPlace r).run.run t

/-- The rules that have these numbers. -/
def rulesAt (t : RouteTable) (numbers : List RuleNumber) : List (RuleNumber × Rule) :=
  numbers.filterMap fun number => (t.rule? number).map (number, ·)

/-- All rules in matching order. -/
def inMatchOrder (t : RouteTable) : List (RuleNumber × Rule) := t.rulesAt t.matchIndex.numbers

/-- The rules of an endpoint in building order. -/
def rulesOf (t : RouteTable) (endpoint : String) : List (RuleNumber × Rule) :=
  t.rulesAt (t.buildIndex endpoint).numbers

/-- The endpoints of the rules, in increasing order. -/
def endpoints (t : RouteTable) : List String := t.buildIndexes.names

end RouteTable

end UrlRouting
