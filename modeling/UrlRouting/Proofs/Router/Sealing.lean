import UrlRouting.Proofs.RouteTable.Identity
import UrlRouting.Router

/-
  The life of a router.
  Until it is sealed, a router is the table that is filled (`after_of_open`); the first seal puts
  this table aside to be served, and from then on no operation changes the router
  (`after_of_sealed`). So the state after any operations is said by the calls before the first seal
  (`run_cases`), and a plain table that receives these calls and nothing else answers and builds what
  the router does (`serves_what_was_filled`). The two tables differ in their identity alone, and that
  is in no answer of a router.
-/

namespace UrlRouting

/-- An operation on a router. Sealing comes with an identity for the table that it leaves. -/
inductive RouterCall where
  | add (rule : Rule)
  | addNew (template : String) (methods : List Method) (endpoint : String)
  | declare (name : String) (declaration : Declaration)
  | sealing (left : TableId)
  | sealedTable
  | find (request : Request)
  | allowed (path : String)
  | path (endpoint : String) (values : Values)
  | externalUrl (host endpoint : String) (values : Values)
  | options
  | isSealed

namespace RouterCall

def isSeal : RouterCall → Bool
  | sealing _ => true
  | _ => false

/-- What the operation asks of the table that is filled. -/
def filling? (options : TableOptions) : RouterCall → Option TableCall
  | add rule => some (.add rule)
  | addNew template methods endpoint =>
    some (.add (Router.newRule options template methods endpoint))
  | declare name declaration => some (.declare name declaration)
  | _ => none

/-- What the operations before the first seal ask of the table that is filled. -/
def fillings (options : TableOptions) (calls : List RouterCall) : List TableCall :=
  (calls.takeWhile fun call => !call.isSeal).filterMap (filling? options)

end RouterCall

namespace Router

open RouteTable (run_append options_run fst_tryAdd_withId snd_tryAdd create_eq_ok_iff)
open RouterCall (fillings)

/-- The router after an operation. -/
def after (r : Router) : RouterCall → Router
  | .add rule => (r.add rule).2
  | .addNew template methods endpoint => (r.addNew template methods endpoint).2
  | .declare name declaration => (r.declare name declaration).2
  | .sealing left => r.sealed left
  | _ => r

/-- The router after some operations. -/
def run (r : Router) (calls : List RouterCall) : Router := calls.foldl after r

theorem run_cons (r : Router) (call : RouterCall) (calls : List RouterCall) :
    r.run (call :: calls) = (r.after call).run calls := rfl

theorem exists_table_of_create {id : TableId} {options : TableOptions} {start : Router}
    (h : create id options = .ok start) :
    ∃ table, RouteTable.create id options = .ok table ∧ start = { table } := by
  unfold create at h
  cases htable : RouteTable.create id options with
  | error e =>
    rw [htable] at h
    cases h
  | ok table =>
    rw [htable] at h
    exact ⟨table, rfl, (Except.ok.inj h).symm⟩

/-! ## Before the seal -/

theorem after_add_of_open (table : RouteTable) (rule : Rule) :
    after { table } (.add rule) = { table := table.after (.add rule) } :=
  congrArg (fun table => ({ table } : Router)) (snd_tryAdd table rule)

/-- An operation on a router that is not sealed goes to its table. -/
theorem after_of_open (table : RouteTable) {call : RouterCall} (h : call.isSeal = false) :
    after { table } call = { table := table.run (call.filling? table.options).toList } := by
  cases call with
  | add rule => exact after_add_of_open table rule
  | addNew template methods endpoint =>
    exact after_add_of_open table (newRule table.options template methods endpoint)
  | sealing left => cases h
  | _ => rfl

/-! ## After the seal -/

/-- No operation changes a sealed router. -/
theorem after_of_sealed {r : Router} (h : r.isSealed = true) (call : RouterCall) :
    r.after call = r := by
  obtain ⟨table, _ | served⟩ := r
  · cases h
  · cases call <;> rfl

theorem run_of_sealed {r : Router} (h : r.isSealed = true) (calls : List RouterCall) :
    r.run calls = r := by
  induction calls with
  | nil => rfl
  | cons call calls ih => rw [run_cons, after_of_sealed h, ih]

/-! ## Any operations -/

theorem run_fillings_cons (table : RouteTable) {call : RouterCall} (h : call.isSeal = false)
    (calls : List RouterCall) :
    table.run (fillings table.options (call :: calls)) =
      (table.run (call.filling? table.options).toList).run (fillings table.options calls) := by
  rw [← run_append]
  unfold fillings
  rw [List.takeWhile_cons_of_pos (by rw [h]; rfl)]
  cases hfilling : call.filling? table.options with
  | none =>
    rw [List.filterMap_cons_none hfilling]
    rfl
  | some filling =>
    rw [List.filterMap_cons_some hfilling]
    rfl

/-- The state that any operations make of a new router: the calls before the first seal fill the
table, and the seal moves it. -/
theorem run_cases (table : RouteTable) (calls : List RouterCall) :
    (calls.any RouterCall.isSeal = false ∧
      run { table } calls = { table := table.run (fillings table.options calls) }) ∨
    (calls.any RouterCall.isSeal = true ∧ ∃ left, run { table } calls =
      { table := { id := left, options := table.options }
        served := some (table.run (fillings table.options calls)) }) := by
  induction calls generalizing table with
  | nil => exact .inl ⟨rfl, rfl⟩
  | cons call calls ih =>
    rw [run_cons, List.any_cons]
    cases hcall : call.isSeal with
    | true =>
      refine .inr ⟨rfl, ?_⟩
      cases call with
      | sealing left => exact ⟨left, run_of_sealed rfl calls⟩
      | _ => cases hcall
    | false =>
      rw [after_of_open table hcall, run_fillings_cons table hcall, Bool.false_or]
      have hmore := ih (table.run (call.filling? table.options).toList)
      rwa [(options_run table _).2] at hmore

/-! ## What callers see -/

/-- What a router does before it is sealed, where a plain table has received the same calls: it adds
rules as the table does, and it serves nothing. -/
structure Filling (r : Router) (t : RouteTable) : Prop where
  add : ∀ rule, (r.add rule).1 = (t.tryAdd rule).1.mapError .rule
  addNew : ∀ template methods endpoint,
    (r.addNew template methods endpoint).1 =
      (t.tryAdd (newRule t.options template methods endpoint)).1.mapError .rule
  declare : ∀ name declaration, (r.declare name declaration).1 = .ok ()
  sealedTable : r.sealedTable = .error .tableNotSealed
  find : ∀ request, r.find request = .error .notSealed
  allowed : ∀ path, r.allowed path = .error .notSealed
  path : ∀ endpoint values, r.path endpoint values = .error .notSealed
  externalUrl : ∀ host endpoint values, r.externalUrl host endpoint values = .error .notSealed

/-- What a router of this identity does once it is sealed, where a plain table has received the
calls before the seal: it takes nothing more, and serves what the table does. -/
structure Serving (r : Router) (id : TableId) (t : RouteTable) : Prop where
  /-- No operation changes anything, further seals included. -/
  kept : ∀ call, r.after call = r
  add : ∀ rule, (r.add rule).1 = .error (.addWhileSealed rule.template)
  addNew : ∀ template methods endpoint,
    (r.addNew template methods endpoint).1 = .error (.addWhileSealed template)
  declare : ∀ name declaration,
    (r.declare name declaration).1 = .error (.declareWhileSealed name)
  sealedTable : r.sealedTable = .ok (t.withId id)
  find : ∀ host scheme request,
    let resolver : Resolver := { table := t, host, scheme, request := some request }
    r.find request = (resolver.answer.map Answer.matched).mapError .resolution
  allowed : ∀ host scheme method path,
    let resolver : Resolver := { table := t, host, scheme, request := some ⟨method, path⟩ }
    r.allowed path = resolver.allowed.mapError .resolution
  path : ∀ host scheme endpoint values,
    let resolver : Resolver := { table := t, host, scheme }
    r.path endpoint values = (resolver.path { endpoint, values }).mapError .resolution
  externalUrl : ∀ host endpoint values,
    let resolver : Resolver := { table := t, host }
    r.externalUrl host endpoint values =
      (resolver.path { endpoint, values, isExternal := true }).mapError .resolution

theorem filling_of_open (id : TableId) (t : RouteTable) : Filling { table := t.withId id } t where
  add rule := by
    show ((t.withId id).tryAdd rule).1.mapError RouterError.rule = _
    rw [fst_tryAdd_withId]
  addNew template methods endpoint := by
    show ((t.withId id).tryAdd (newRule t.options template methods endpoint)).1.mapError
      RouterError.rule = _
    rw [fst_tryAdd_withId]
  declare _ _ := rfl
  sealedTable := rfl
  find _ := rfl
  allowed _ := rfl
  path _ _ := rfl
  externalUrl _ _ _ := rfl

theorem serving_of_sealed (id : TableId) (t table : RouteTable) :
    Serving { table, served := some (t.withId id) } id t where
  kept := after_of_sealed rfl
  add _ := rfl
  addNew _ _ _ := rfl
  declare _ _ := rfl
  sealedTable := rfl
  find host scheme request := by
    show (((t.withId id).answer request).map Answer.matched).mapError _ =
      ((t.answer request).map Answer.matched).mapError _
    rw [RouteTable.answer_withId]
    cases t.answer request <;> rfl
  allowed host scheme method path := by
    show Except.ok ((t.withId id).allowed path) = Except.ok (t.allowed path)
    rw [RouteTable.allowed_withId]
  path host scheme endpoint values := by
    show ((Resolver.mk (t.withId id) _ _ _).path _).mapError _ = _
    rw [Resolver.path_withId, Resolver.path_eq, Resolver.path_eq]
    rfl
  externalUrl host endpoint values := by
    show ((Resolver.mk (t.withId id) host t.options.defaultScheme none).path _).mapError _ = _
    rw [Resolver.path_withId]

/-- A router does what a plain table with the same options does that receives the calls made before
the first seal and nothing else. Before the seal it returns the table's results for rules and serves
nothing; from the seal on it serves what the table does, takes no more rules or converters, and
stays as it is. Its options are the same all along. -/
theorem serves_what_was_filled {id other : TableId} {options : TableOptions} {start : Router}
    {plain : RouteTable} (hstart : create id options = .ok start)
    (hplain : RouteTable.create other options = .ok plain) (calls : List RouterCall) :
    (start.run calls).options = options ∧
    (start.run calls).isSealed = calls.any RouterCall.isSeal ∧
    (calls.any RouterCall.isSeal = false →
      (start.run calls).Filling (plain.run (fillings options calls))) ∧
    (calls.any RouterCall.isSeal = true →
      (start.run calls).Serving id (plain.run (fillings options calls))) := by
  obtain ⟨table, htable, rfl⟩ := exists_table_of_create hstart
  obtain rfl := RouteTable.create_withId id htable hplain
  obtain ⟨-, rfl⟩ := create_eq_ok_iff.1 hplain
  rcases run_cases (RouteTable.withId id { id := other, options }) calls with
    ⟨hopen, hrun⟩ | ⟨hsealed, left, hrun⟩
  · rw [RouteTable.run_withId] at hrun
    rw [hrun, hopen]
    refine ⟨?_, rfl, fun _ => filling_of_open id _, fun h => Bool.noConfusion h⟩
    exact (options_run _ _).2
  · rw [RouteTable.run_withId] at hrun
    rw [hrun, hsealed]
    exact ⟨rfl, rfl, fun h => Bool.noConfusion h, fun _ => serving_of_sealed id _ _⟩

/-- Two new rules, one of them with a template that is never closed, and a lookup that comes too
early; then a seal, a rule that comes too late, and one more seal. -/
def sampleLife : List RouterCall :=
  [.addNew "/docs/<int:page>/" [.get] "read", .addNew "/docs/<page" [.get] "lost",
    .find ⟨.get, "/docs/7/"⟩, .sealing ⟨7⟩, .addNew "/docs/<page>/" [.put] "late", .sealing ⟨8⟩]

theorem serves_what_was_filled_sampleLife :
    ∃ start plain, create ⟨1⟩ {} = .ok start ∧ RouteTable.create ⟨2⟩ {} = .ok plain ∧
      (start.run (sampleLife.take 3)).Filling (plain.run (fillings {} (sampleLife.take 3))) ∧
      (start.run sampleLife).Serving ⟨1⟩ (plain.run (fillings {} sampleLife)) ∧
      (start.run sampleLife).find ⟨.get, "/docs/7/"⟩ =
        .ok ⟨⟨0⟩, "read", .ofList [("page", .int 7)]⟩ := by
  let start : Router := { table := { id := ⟨1⟩ } }
  let plain : RouteTable := { id := ⟨2⟩ }
  have hstart : create ⟨1⟩ {} = .ok start := rfl
  have hplain : RouteTable.create ⟨2⟩ {} = .ok plain := rfl
  obtain ⟨-, -, hfilling, -⟩ := serves_what_was_filled hstart hplain (sampleLife.take 3)
  obtain ⟨-, -, -, hserving⟩ := serves_what_was_filled hstart hplain sampleLife
  exact ⟨start, plain, hstart, hplain, hfilling rfl, hserving rfl, by decide +kernel⟩

end Router

end UrlRouting
