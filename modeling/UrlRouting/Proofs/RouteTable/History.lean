import UrlRouting.Proofs.Rule.Binding
import UrlRouting.RouteTable.Basic

/-
  Tables and the calls that made them.
  `run` is a table after a list of calls, refused ones included, and `Reachable` says that a table
  comes from a created one in this way. `add_eq_ok_iff` is the one place that opens `add`: it says
  when a rule is taken and what the table is then. `after_cases` says what any call can do, and
  `run_preserves` carries over to a run what every call preserves. A rule that has a number keeps it
  through every later call (`rule?_run`), and every rule has a pattern that its template has
  (`Reachable.exists_compiled`).
-/

namespace UrlRouting

/-- A call that may change a table. -/
inductive TableCall where
  | add (r : Rule)
  | declare (name : String) (declaration : Declaration)

namespace RouteTable

/-- The table after a call; a rule that is refused leaves it as it was. -/
def after (t : RouteTable) : TableCall → RouteTable
  | .add r =>
    match t.add r with
    | .ok (_, t') => t'
    | .error _ => t
  | .declare name declaration => t.declare name declaration

/-- The table after some calls. -/
def run (t : RouteTable) (calls : List TableCall) : RouteTable := calls.foldl after t

/-- A table that some calls make of a created one. -/
def Reachable (t : RouteTable) : Prop :=
  ∃ id options start calls, create id options = .ok start ∧ t = start.run calls

/-- Two rules for one kind of path, with a template that is never closed and a converter of a new
name between them. -/
def sampleCalls : List TableCall :=
  [.add { template := "/docs/<int:page>/", endpoint := "read", methods := .ofList [.get] },
    .add { template := "/docs/<page", endpoint := "lost", methods := .ofList [.get] },
    .declare "word" Converter.declareString,
    .add { template := "/docs/<word:page>/", endpoint := "write", methods := .ofList [.post] }]

theorem run_append (t : RouteTable) (calls later : List TableCall) :
    t.run (calls ++ later) = (t.run calls).run later := by
  unfold run
  rw [List.foldl_append]

theorem run_cons (t : RouteTable) (call : TableCall) (calls : List TableCall) :
    t.run (call :: calls) = (t.after call).run calls := rfl

theorem after_add_of_ok {t t' : RouteTable} {r : Rule} {number : RuleNumber}
    (h : t.add r = .ok (number, t')) : t.after (.add r) = t' := by
  simp only [after, h]

theorem after_add_of_error {t : RouteTable} {r : Rule} {e : RuleError} (h : t.add r = .error e) :
    t.after (.add r) = t := by
  simp only [after, h]

theorem create_eq_ok_iff {id : TableId} {options : TableOptions} {t : RouteTable} :
    create id options = .ok t ↔ options.check = .ok () ∧ t = { id, options } := by
  unfold create
  cases h : options.check with
  | error e => simp [bind, Except.bind]
  | ok u => simp [bind, Except.bind, eq_comm]

/-! ## Adding a rule -/

@[simp] theorem completeMethods_binding (t : RouteTable) (r : Rule) :
    (t.completeMethods r).binding = r.binding := by
  unfold completeMethods
  split <;> rfl

@[simp] theorem completeMethods_template (t : RouteTable) (r : Rule) :
    (t.completeMethods r).template = r.template := by
  unfold completeMethods
  split <;> rfl

@[simp] theorem completeMethods_endpoint (t : RouteTable) (r : Rule) :
    (t.completeMethods r).endpoint = r.endpoint := by
  unfold completeMethods
  split <;> rfl

@[simp] theorem completeMethods_strictSlashes (t : RouteTable) (r : Rule) :
    (t.completeMethods r).strictSlashes = r.strictSlashes := by
  unfold completeMethods
  split <;> rfl

theorem completeMethods_patternWith (t : RouteTable) (r : Rule) (catalogue : Catalogue) :
    (t.completeMethods r).patternWith catalogue = r.patternWith catalogue := by
  simp [Rule.patternWith, Rule.slashPolicy, Rule.isBranch]

/-- The rule that a table keeps of an added one with this pattern. -/
def stored (t : RouteTable) (r : Rule) (p : Pattern) : Rule :=
  { t.completeMethods r with binding := some ⟨t.id, p⟩ }

/-- When a rule is added, and what the table is then. -/
theorem add_eq_ok_iff {t t' : RouteTable} {r : Rule} {number : RuleNumber} :
    t.add r = .ok (number, t') ↔
      t.size < t.options.maxRules ∧ t.size < 0x100000000 ∧ r.binding = none ∧
        (t.completeMethods r).methods.isEmpty = false ∧
          ∃ p, r.patternWith t.converters = .ok p ∧ number = ⟨t.size⟩ ∧
            t' = t.store (t.stored r p) p := by
  unfold add
  by_cases hfull : t.options.maxRules ≤ t.size ∨ 0x100000000 ≤ t.size
  · rw [if_pos hfull]
    constructor
    · intro h
      cases h
    · rintro ⟨h1, h2, -⟩
      omega
  · rw [if_neg hfull]
    obtain ⟨h1, h2⟩ := not_or.1 hfull
    rw [Nat.not_le] at h1 h2
    simp only [h1, h2, true_and]
    constructor
    · intro h
      obtain ⟨bound, hb, h⟩ := Template.exists_of_bind_eq_ok h
      obtain ⟨hbinding, hmethods, p, hp, rfl⟩ := Rule.bind_eq_ok_iff.1 hb
      rw [completeMethods_patternWith] at hp
      refine ⟨by simpa using hbinding, hmethods, p, hp, ?_⟩
      have hstore : Except.ok (⟨t.size⟩, t.store (t.stored r p) p)
          = (Except.ok (number, t') : Except RuleError _) := h
      obtain ⟨hnumber, ht⟩ := Prod.mk.inj (Except.ok.inj hstore)
      exact ⟨hnumber.symm, ht.symm⟩
    · rintro ⟨hbinding, hmethods, p, hp, rfl, rfl⟩
      have hb : (t.completeMethods r).bind t.id t.converters = .ok (t.stored r p) := by
        refine Rule.bind_eq_ok_iff.2 ⟨by simpa using hbinding, hmethods, p, ?_, rfl⟩
        rw [completeMethods_patternWith, hp]
      rw [hb]
      rfl

/-- What a table asks of a rule that it takes with this pattern. -/
structure Takes (t : RouteTable) (r : Rule) (p : Pattern) : Prop where
  room : t.size < t.options.maxRules
  numbered : t.size < 0x100000000
  unbound : r.binding = none
  answers : (t.completeMethods r).methods.isEmpty = false
  pattern : r.patternWith t.converters = .ok p

/-- What a call can make of a table: nothing, another catalogue, or a table with one more rule. -/
theorem after_cases (t : RouteTable) (call : TableCall) :
    t.after call = t ∨ (∃ name declaration, t.after call = t.declare name declaration) ∨
      ∃ r p, t.Takes r p ∧ t.after call = t.store (t.stored r p) p := by
  cases call with
  | declare name declaration => exact .inr (.inl ⟨name, declaration, rfl⟩)
  | add r =>
    cases hadd : t.add r with
    | error e => exact .inl (after_add_of_error hadd)
    | ok result =>
      obtain ⟨number, t'⟩ := result
      obtain ⟨hroom, hnumbered, hunbound, hanswers, p, hp, -, rfl⟩ := add_eq_ok_iff.1 hadd
      have htakes : t.Takes r p := ⟨hroom, hnumbered, hunbound, hanswers, hp⟩
      exact .inr (.inr ⟨r, p, htakes, after_add_of_ok hadd⟩)

/-- What every call preserves holds after a run. -/
theorem run_preserves {P : RouteTable → Prop} (hafter : ∀ u call, P u → P (u.after call))
    {t : RouteTable} (h : P t) (calls : List TableCall) : P (t.run calls) := by
  induction calls generalizing t with
  | nil => exact h
  | cons call calls ih =>
    rw [run_cons]
    exact ih (hafter t call h)

/-! ## Rules keep their numbers -/

theorem rule?_store (t : RouteTable) (r : Rule) (p : Pattern) :
    (t.store r p).rule? ⟨t.size⟩ = some r := by
  simp [rule?, store, size]

theorem rule?_after {t : RouteTable} {number : RuleNumber} {r : Rule}
    (h : t.rule? number = some r) (call : TableCall) : (t.after call).rule? number = some r := by
  rcases t.after_cases call with hsame | ⟨name, declaration, hdeclared⟩ | ⟨s, p, -, hstored⟩
  · rwa [hsame]
  · rwa [hdeclared]
  · have hlt : number.index < t.rules.size := (Array.getElem?_eq_some_iff.1 h).1
    rw [hstored]
    unfold rule? store at *
    rw [Array.getElem?_push_lt hlt, ← h, Array.getElem?_eq_getElem hlt]

theorem rule?_run {t : RouteTable} {number : RuleNumber} {r : Rule}
    (h : t.rule? number = some r) (calls : List TableCall) :
    (t.run calls).rule? number = some r :=
  run_preserves (P := fun u => u.rule? number = some r) (fun _ call hu => rule?_after hu call) h calls

/-! ## Rules are compiled -/

theorem compiled_stored {t : RouteTable} {r : Rule} {p : Pattern}
    (hp : r.patternWith t.converters = .ok p) : (t.stored r p).Compiled p := by
  refine ⟨t.id, t.converters, rfl, ?_⟩
  rw [← hp]
  exact completeMethods_patternWith t r t.converters

theorem exists_compiled_after {t : RouteTable} (h : ∀ r ∈ t.rules, ∃ p, r.Compiled p)
    (call : TableCall) : ∀ r ∈ (t.after call).rules, ∃ p, r.Compiled p := by
  rcases t.after_cases call with hsame | ⟨name, declaration, hdeclared⟩ | ⟨s, p, htakes, hstored⟩
  · rwa [hsame]
  · rwa [hdeclared]
  · rw [hstored]
    intro r hr
    rcases Array.mem_push.1 hr with hr | rfl
    · exact h r hr
    · exact ⟨p, compiled_stored htakes.pattern⟩

theorem exists_compiled_run {t : RouteTable} (h : ∀ r ∈ t.rules, ∃ p, r.Compiled p)
    (calls : List TableCall) : ∀ r ∈ (t.run calls).rules, ∃ p, r.Compiled p :=
  run_preserves (P := fun u => ∀ r ∈ u.rules, ∃ p, r.Compiled p)
    (fun _ call hu => exists_compiled_after hu call) h calls

theorem Reachable.exists_compiled {t : RouteTable} (h : t.Reachable) :
    ∀ r ∈ t.rules, ∃ p, r.Compiled p := by
  obtain ⟨id, options, start, calls, hstart, rfl⟩ := h
  refine exists_compiled_run ?_ calls
  obtain ⟨-, rfl⟩ := create_eq_ok_iff.1 hstart
  intro r hr
  cases Array.not_mem_empty r hr

/-! ## Identity and options -/

/-- A call preserves the identity and the options of a table. -/
theorem options_after (t : RouteTable) (call : TableCall) :
    (t.after call).id = t.id ∧ (t.after call).options = t.options := by
  rcases t.after_cases call with hsame | ⟨name, declaration, hdeclared⟩ | ⟨s, p, -, hstored⟩
  · rw [hsame]
    exact ⟨rfl, rfl⟩
  · rw [hdeclared]
    exact ⟨rfl, rfl⟩
  · rw [hstored]
    exact ⟨rfl, rfl⟩

theorem options_run (t : RouteTable) (calls : List TableCall) :
    (t.run calls).id = t.id ∧ (t.run calls).options = t.options := by
  refine run_preserves (P := fun u => u.id = t.id ∧ u.options = t.options) ?_ ⟨rfl, rfl⟩ calls
  intro u call hu
  obtain ⟨hid, hoptions⟩ := options_after u call
  exact ⟨hid.trans hu.1, hoptions.trans hu.2⟩

end RouteTable

end UrlRouting
