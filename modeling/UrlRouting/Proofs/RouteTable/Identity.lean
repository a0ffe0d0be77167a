import UrlRouting.Proofs.RouteTable.Building
import UrlRouting.Proofs.RouteTable.Insertion
import UrlRouting.Proofs.RouteTable.Reordering

/-
  Tables that differ in their identity only.
  `withId` is a table as it would be under another identity: the identity is in the bindings of its
  rules and nowhere else. Every call commutes with it (`add_withId`, `after_withId`), and so does a
  run of calls; and since no rule reads or builds by its identity, the two tables answer and build
  alike (`answer_withId`, `allowed_withId`, `build_withId`).
-/

namespace UrlRouting

/-! ## Rules -/

namespace Rule

@[simp] theorem fits_boundTo (table : TableId) (r : Rule) (values : Values)
    (method : Option Method) : (r.boundTo table).fits values method = r.fits values method := by
  unfold fits
  rw [pattern_boundTo]
  rfl

/-- Binding looks at the identity only to put it down. -/
theorem bind_boundTo (r : Rule) (table other : TableId) (catalogue : Catalogue) :
    r.bind table catalogue = (r.bind other catalogue).map (boundTo table) := by
  unfold bind
  cases r.binding with
  | some b => rfl
  | none =>
    cases r.methods.isEmpty with
    | true => rfl
    | false => cases r.patternWith catalogue <;> rfl

end Rule

/-! ## Readers and answers -/

/-- The answer as the table of this identity would have given it. -/
def Answer.boundTo (table : TableId) (a : Answer) : Answer := { a with rule := a.rule.boundTo table }

/-- The reader as it would be in the table of this identity. -/
def Reader.boundTo (table : TableId) (r : Reader) : Reader := { r with rule := r.rule.boundTo table }

theorem Reader.verdict_boundTo (table : TableId) (r : Reader) :
    (r.boundTo table).verdict = r.verdict.map (Answer.boundTo table) := by
  unfold verdict boundTo
  rw [Rule.build_boundTo, Rule.endpoint_boundTo]
  cases r.reading.needsRedirect with
  | true => cases r.rule.build r.reading.values <;> rfl
  | false => rfl

namespace RouteTable

/-- The entry as it would be in the table of this identity. -/
def entryBoundTo (table : TableId) (e : RuleNumber × Rule) : RuleNumber × Rule :=
  (e.1, e.2.boundTo table)

/-- The table under another identity. -/
def withId (id : TableId) (t : RouteTable) : RouteTable :=
  { t with id, rules := t.rules.map (Rule.boundTo id) }

variable (id : TableId) (t : RouteTable)

/-! ## Calls -/

@[simp] theorem options_withId : (t.withId id).options = t.options := rfl

@[simp] theorem size_withId : (t.withId id).size = t.size := Array.size_map

@[simp] theorem completeMethods_withId (r : Rule) :
    (t.withId id).completeMethods r = t.completeMethods r := rfl

theorem store_withId (r : Rule) (p : Pattern) :
    (t.withId id).store (r.boundTo id) p = (t.store r p).withId id := by
  simp [store, withId, size, buildIndex, Array.map_push]

theorem add_withId (r : Rule) :
    (t.withId id).add r = (t.add r).map fun result => (result.1, result.2.withId id) := by
  unfold add
  rw [size_withId, options_withId, completeMethods_withId]
  show ite _ _ ((t.completeMethods r).bind id t.converters >>= _) = _
  rw [Rule.bind_boundTo _ id t.id]
  split
  · rfl
  · cases (t.completeMethods r).bind t.id t.converters with
    | error e => rfl
    | ok bound =>
      show (bound.boundTo id).pattern >>= _ = Except.map _ (bound.pattern >>= _)
      rw [Rule.pattern_boundTo]
      cases bound.pattern with
      | error e => rfl
      | ok p =>
        show Except.ok (_, (t.withId id).store (bound.boundTo id) p) = Except.ok (_, _)
        rw [store_withId]

/-- The number that a rule is given does not depend on the identity. -/
theorem fst_tryAdd_withId (r : Rule) : ((t.withId id).tryAdd r).1 = (t.tryAdd r).1 := by
  rw [tryAdd_eq, tryAdd_eq, add_withId]
  cases t.add r <;> rfl

theorem after_withId (call : TableCall) : (t.withId id).after call = (t.after call).withId id := by
  cases call with
  | declare name declaration => rfl
  | add r =>
    have hadd := add_withId id t r
    cases h : t.add r with
    | error e =>
      rw [h] at hadd
      rw [after_add_of_error h, after_add_of_error hadd]
    | ok result =>
      rw [h] at hadd
      rw [after_add_of_ok h, after_add_of_ok hadd]

theorem run_withId (calls : List TableCall) :
    (t.withId id).run calls = (t.run calls).withId id := by
  induction calls generalizing t with
  | nil => rfl
  | cons call calls ih => rw [run_cons, run_cons, after_withId, ih]

/-- Created tables are the same but for their identity. -/
theorem create_withId {other : TableId} {options : TableOptions} {start plain : RouteTable}
    (hstart : create id options = .ok start) (hplain : create other options = .ok plain) :
    start = plain.withId id := by
  obtain ⟨-, rfl⟩ := create_eq_ok_iff.1 hstart
  obtain ⟨-, rfl⟩ := create_eq_ok_iff.1 hplain
  simp [withId]

/-! ## Requests -/

theorem rule?_withId (number : RuleNumber) :
    (t.withId id).rule? number = (t.rule? number).map (Rule.boundTo id) :=
  Array.getElem?_map

theorem rulesAt_withId (numbers : List RuleNumber) :
    (t.withId id).rulesAt numbers = (t.rulesAt numbers).map (entryBoundTo id) := by
  unfold rulesAt
  rw [List.map_filterMap]
  refine List.filterMap_congr fun number _ => ?_
  rw [rule?_withId, Option.map_map, Option.map_map]
  rfl

theorem readers_withId (path : String) :
    (t.withId id).readers path = (t.readers path).map (Reader.boundTo id) := by
  have horder : (t.withId id).inMatchOrder = t.inMatchOrder.map (entryBoundTo id) :=
    rulesAt_withId id t t.matchIndex.numbers
  rw [readers_eq, readers_eq, horder, List.filterMap_map, List.map_filterMap]
  refine List.filterMap_congr fun e _ => ?_
  show Reader.ofEntry? path (entryBoundTo id e) = _
  unfold Reader.ofEntry? entryBoundTo
  rw [Rule.read?_boundTo]
  split <;> rfl

theorem methodsOf_boundTo (readers : List Reader) (passed : MethodSet) :
    methodsOf (readers.map (Reader.boundTo id)) passed = methodsOf readers passed := by
  unfold methodsOf
  rw [List.foldl_map]
  rfl

theorem answer_withId (request : Request) :
    (t.withId id).answer request = (t.answer request).map (Answer.boundTo id) := by
  -- a reader decides whatever the identity
  have hfind : ((t.readers request.path).map (Reader.boundTo id)).find?
        (·.decides request.method) =
      ((t.readers request.path).find? (·.decides request.method)).map (Reader.boundTo id) :=
    List.find?_map
  unfold answer
  rw [readers_withId, decideRequest_eq, decideRequest_eq request (t.readers request.path), hfind,
    methodsOf_boundTo]
  cases (t.readers request.path).find? (·.decides request.method) with
  | some r => exact r.verdict_boundTo id
  | none =>
    simp only [Option.map_none, decideRequest]
    split <;> rfl

theorem allowed_withId (path : String) : (t.withId id).allowed path = t.allowed path := by
  rw [allowed_eq, allowed_eq, readers_withId, methodsOf_boundTo]

/-! ## Building -/

theorem fittingRule?_withId (endpoint : String) (values : Values) (method : Option Method) :
    (t.withId id).fittingRule? endpoint values method =
      (t.fittingRule? endpoint values method).map (entryBoundTo id) := by
  have hrules : (t.withId id).rulesOf endpoint = (t.rulesOf endpoint).map (entryBoundTo id) :=
    rulesAt_withId id t (t.buildIndex endpoint).numbers
  unfold fittingRule?
  rw [hrules, List.find?_map]
  congr 2
  funext e
  simp [entryBoundTo]

theorem build_withId (endpoint : String) (values : Values) (method : Option Method) :
    (t.withId id).build endpoint values method = t.build endpoint values method := by
  unfold build
  rw [fittingRule?_withId]
  cases t.fittingRule? endpoint values method with
  | none => rfl
  | some e =>
    show ((e.2.boundTo id).build values).mapError _ = (e.2.build values).mapError _
    rw [Rule.build_boundTo]

end RouteTable

theorem Resolver.path_withId (id : TableId) (t : RouteTable) (host scheme : String)
    (query : PathQuery) :
    path { table := t.withId id, host, scheme } query = path { table := t, host, scheme } query := by
  rw [path_eq, path_eq, RouteTable.build_withId]
  rfl

end UrlRouting
