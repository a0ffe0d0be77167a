import UrlRouting.Rule.Basic

/-
  What binding a rule goes through and what it fixes.
  `bind_eq_ok_iff` and `patternWith_eq_ok_iff` say when a rule can be bound and what the bound rule
  is; a bound rule reads every path and answers every question about fitting without an error
  (`read?_of_binding`, `fits_of_binding`). The ranks of a bound rule are those of its pattern.
-/

namespace UrlRouting.Rule

/-! ## Binding -/

theorem patternWith_eq_ok_iff {r : Rule} {catalogue : Catalogue} {p : Pattern} :
    r.patternWith catalogue = .ok p ↔
      ∃ segments, Template.parse r.template = .ok segments ∧
        Pattern.ofSegments catalogue r.slashPolicy segments = .ok p := by
  unfold patternWith
  cases hs : Template.parse r.template with
  | error cause => simp
  | ok segments =>
    show Except.mapError RuleFault.pattern
      (Pattern.ofSegments catalogue r.slashPolicy segments) = .ok p ↔ _
    cases hp : Pattern.ofSegments catalogue r.slashPolicy segments with
    | error cause =>
      show Except.error (RuleFault.pattern cause) = .ok p ↔ _
      simp [hp]
    | ok q =>
      show Except.ok q = .ok p ↔ _
      simp [hp]

theorem bind_eq_ok_iff {r bound : Rule} {table : TableId} {catalogue : Catalogue} :
    r.bind table catalogue = .ok bound ↔
      r.binding = none ∧ r.methods.isEmpty = false ∧
        ∃ p, r.patternWith catalogue = .ok p ∧ bound = { r with binding := some ⟨table, p⟩ } := by
  unfold bind
  cases hb : r.binding with
  | some b => simp
  | none =>
    cases hm : r.methods.isEmpty with
    | true => simp
    | false =>
      cases hp : r.patternWith catalogue with
      | error fault => simp
      | ok p => simp [eq_comm]

theorem slashPolicy_eq_optional_iff {r : Rule} :
    r.slashPolicy = .optional ↔ r.isBranch = true ∧ r.strictSlashes = true := by
  unfold slashPolicy
  rw [← Bool.and_eq_true]
  split
  next h => simp [h]
  next h => simp [h]

theorem slashPolicy_eq_exact_iff {r : Rule} :
    r.slashPolicy = .exact ↔ (r.isBranch = true → r.strictSlashes = false) := by
  unfold slashPolicy
  cases r.isBranch <;> cases r.strictSlashes <;> decide

/-- Whether the rule is bound, with a pattern that its template has. -/
def Compiled (r : Rule) (p : Pattern) : Prop :=
  ∃ table catalogue, r.binding = some ⟨table, p⟩ ∧ r.patternWith catalogue = .ok p

/-! ## Bound rules -/

theorem pattern_of_binding {r : Rule} {b : Binding} (h : r.binding = some b) :
    r.pattern = .ok b.pattern := by
  unfold pattern
  rw [h]

theorem read?_of_binding {r : Rule} {b : Binding} (h : r.binding = some b) (path : String) :
    r.read? path = .ok ((b.pattern.read? path).bind fun reading =>
      (Pattern.convert? b.pattern.captures reading.texts .empty).map fun values =>
        ⟨values, r.strictSlashes && r.isBranch && !reading.trailingSlash⟩) := by
  unfold read?
  rw [pattern_of_binding h]
  refine congrArg Except.ok ?_
  cases b.pattern.read? path with
  | none => rfl
  | some reading =>
    simp only [Option.bind_eq_bind, Option.bind_some]
    cases Pattern.convert? b.pattern.captures reading.texts .empty with
    | none => rfl
    | some values => rfl

theorem build_of_binding {r : Rule} {b : Binding} (h : r.binding = some b) (values : Values) :
    r.build values = (b.pattern.build values).mapError r.fail := by
  unfold build
  rw [pattern_of_binding h]
  rfl

theorem fits_of_binding {r : Rule} {b : Binding} (h : r.binding = some b) (values : Values)
    (method : Option Method) :
    r.fits values method = .ok (method.all r.methods.contains && b.pattern.takes values) := by
  unfold fits
  rw [pattern_of_binding h]
  rfl

/-! ## Ranks -/

/-- The weights of the segments; a rule that is not bound has none. -/
def weights (r : Rule) : List SegmentRank := (r.binding.map (·.pattern.weights)).getD []

/-- The place of a rule in the order of matching. -/
def matchRank (r : Rule) : MatchRank := .ofWeights r.weights

/-- The place of a rule in the order of building. -/
def buildRank (r : Rule) : BuildRank := .ofWeights r.weights

theorem weights_of_binding {r : Rule} {b : Binding} (h : r.binding = some b) :
    r.weights = b.pattern.weights := by
  simp [weights, h]

theorem matchRank_of_binding {r : Rule} {b : Binding} (h : r.binding = some b) :
    r.matchRank = b.pattern.matchRank := by
  simp [matchRank, Pattern.matchRank, weights_of_binding h]

theorem buildRank_of_binding {r : Rule} {b : Binding} (h : r.binding = some b) :
    r.buildRank = b.pattern.buildRank := by
  simp [buildRank, Pattern.buildRank, weights_of_binding h]

end UrlRouting.Rule
