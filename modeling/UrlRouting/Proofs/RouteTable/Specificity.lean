import UrlRouting.Proofs.RouteTable.Outcome

/-
  The more specific of two rules.
  A pattern is more specific than another when it has no variable and the other has one, or when it
  is the other with lighter converters in some places (`Pattern.MoreSpecific`). Its rank is then the
  lesser (`compare_matchRank_of_moreSpecific`): the ranks of the parts are compared from the left,
  none is greater, and the first difference is a lighter converter. The rules of a table stand in
  order of rank, whenever they were added, so a request that the more specific rule settles is never
  left to the other (`answer_of_moreSpecific`).
-/

namespace UrlRouting

/-! ## Parts and patterns -/

namespace Part

/-- The same literal, or a capture whose converter is not heavier. -/
def NoHeavier : Part → Part → Prop
  | literal s, literal t => s = t
  | capture _ c, capture _ d => c.weight ≤ d.weight
  | _, _ => False

/-- A capture whose converter is lighter. -/
def Lighter : Part → Part → Prop
  | capture _ c, capture _ d => c.weight < d.weight
  | _, _ => False

end Part

/-- Whether the first pattern is for fewer paths: it has no variables and the second has some, or
both have the same literals in the same places, and in the others converters that are not heavier in
the first and lighter in one place. -/
inductive Pattern.MoreSpecific (p q : Pattern) : Prop where
  | fixed (hp : p.captures = []) (hq : q.captures ≠ [])
  | lighter (hp : p.captures ≠ []) (hq : q.captures ≠ [])
      (hparts : List.Forall₂ Part.NoHeavier p.parts q.parts)
      (hlighter : ∃ (i : Nat) (a b : Part), p.parts[i]? = some a ∧ q.parts[i]? = some b ∧ a.Lighter b)

/-! ## Ranks -/

namespace SegmentRank

theorem isLE_of_noHeavier {a b : Part} (h : a.NoHeavier b) :
    (compare (ofPart a) (ofPart b)).isLE = true := by
  cases a with
  | literal s =>
    cases b with
    | literal t =>
      obtain rfl : s = t := h
      exact Std.ReflCmp.isLE_rfl
    | capture name d => exact h.elim
  | capture name c =>
    cases b with
    | literal t => exact h.elim
    | capture name' d =>
      show (compare (c.weight : Int) d.weight).isLE = true
      have hweight : c.weight ≤ d.weight := h
      exact Int.isLE_compare.2 (Int.ofNat_le.2 hweight)

theorem lt_of_lighter {a b : Part} (h : a.Lighter b) : compare (ofPart a) (ofPart b) = .lt := by
  cases a with
  | literal s => cases b <;> exact h.elim
  | capture name c =>
    cases b with
    | literal t => exact h.elim
    | capture name' d =>
      show compare (c.weight : Int) d.weight = .lt
      have hweight : c.weight < d.weight := h
      exact Int.compare_eq_lt.2 (Int.ofNat_lt.2 hweight)

end SegmentRank

/-- Lists with no greater element in any place and a lesser one in some place. -/
theorem compare_lt_of_forall₂ {α : Type} [Ord α] {as bs : List α}
    (h : List.Forall₂ (fun a b => (compare a b).isLE = true) as bs)
    (hlt : ∃ (i : Nat) (a b : α), as[i]? = some a ∧ bs[i]? = some b ∧ compare a b = .lt) :
    compare as bs = .lt := by
  induction h with
  | nil =>
    obtain ⟨i, a, b, ha, -, -⟩ := hlt
    simp at ha
  | @cons a b as bs hab _ ih =>
    rw [List.compare_cons_cons]
    cases hhead : compare a b with
    | lt => rfl
    | gt =>
      rw [hhead] at hab
      cases hab
    | eq =>
      refine ih ?_
      -- the lesser element is no first one, for these compare as equal
      obtain ⟨i, x, y, hx, hy, hxy⟩ := hlt
      cases i with
      | zero =>
        obtain rfl : a = x := by simpa using hx
        obtain rfl : b = y := by simpa using hy
        rw [hhead] at hxy
        cases hxy
      | succ i => exact ⟨i, x, y, by simpa using hx, by simpa using hy, hxy⟩

namespace Pattern

theorem any_isVariable_weights (p : Pattern) :
    p.weights.any SegmentRank.isVariable = !p.captures.isEmpty := by
  unfold weights captures
  induction p.parts with
  | nil => rfl
  | cons part parts ih =>
    cases part with
    | literal text => exact ih
    | capture name c => rfl

theorem hasVariables_matchRank (p : Pattern) : p.matchRank.hasVariables = !p.captures.isEmpty :=
  any_isVariable_weights p

theorem compare_weights_of_noHeavier {p q : Pattern}
    (h : List.Forall₂ Part.NoHeavier p.parts q.parts)
    (hlighter : ∃ (i : Nat) (a b : Part), p.parts[i]? = some a ∧ q.parts[i]? = some b ∧ a.Lighter b) :
    compare p.weights q.weights = .lt := by
  refine compare_lt_of_forall₂ ?_ ?_
  · unfold weights
    rw [List.forall₂_map_left_iff, List.forall₂_map_right_iff]
    exact h.imp fun _ _ hab => SegmentRank.isLE_of_noHeavier hab
  · obtain ⟨i, a, b, ha, hb, hab⟩ := hlighter
    refine ⟨i, SegmentRank.ofPart a, SegmentRank.ofPart b, ?_, ?_, SegmentRank.lt_of_lighter hab⟩
    · simp [weights, ha]
    · simp [weights, hb]

/-- The more specific pattern comes first. -/
theorem compare_matchRank_of_moreSpecific {p q : Pattern} (h : p.MoreSpecific q) :
    compare p.matchRank q.matchRank = .lt := by
  show ((compare p.matchRank.hasVariables q.matchRank.hasVariables).then
    ((compare (-(p.weights.length : Int)) (-(q.weights.length : Int))).then
      (compare p.weights q.weights))) = .lt
  rw [hasVariables_matchRank, hasVariables_matchRank]
  cases h with
  | fixed hp hq =>
    have hsome : q.captures.isEmpty = false := by simpa using hq
    rw [hp, hsome]
    rfl
  | lighter hp hq hparts hlighter =>
    have hsome : p.captures.isEmpty = false := by simpa using hp
    have hsome' : q.captures.isEmpty = false := by simpa using hq
    have hlength : p.weights.length = q.weights.length := by
      simpa [weights] using hparts.length_eq
    rw [hsome, hsome', hlength, compare_weights_of_noHeavier hparts hlighter]
    simp

end Pattern

/-! ## Rules of a table -/

namespace RouteTable

variable {t : RouteTable}

theorem pairwise_inMatchOrder (h : Consistent t) :
    t.inMatchOrder.Pairwise fun a b => matchLE a b = true := by
  rw [inMatchOrder_eq h]
  let rank : RuleNumber × Rule → MatchRank := fun e => e.2.matchRank
  exact List.pairwise_mergeSort (KeyedSort.keyLE_trans rank) (KeyedSort.keyLE_total rank) _

/-- A rule of lesser rank stands before. -/
theorem mem_front_of_compare_lt (h : Consistent t) {e e' : RuleNumber × Rule}
    {front back : List (RuleNumber × Rule)} (horder : t.inMatchOrder = front ++ e' :: back)
    (he : e ∈ t.inMatchOrder) (hlt : compare e.2.matchRank e'.2.matchRank = .lt) : e ∈ front := by
  have hpairwise := pairwise_inMatchOrder h
  rw [horder] at he hpairwise
  rcases List.mem_append.1 he with he | he
  · exact he
  · have hle : matchLE e' e = true := by
      obtain ⟨-, hrest, -⟩ := List.pairwise_append.1 hpairwise
      rcases List.mem_cons.1 he with rfl | he
      · exact Std.ReflCmp.isLE_rfl
      · exact (List.pairwise_cons.1 hrest).1 e he
    unfold matchLE at hle
    have hgt : compare e'.2.matchRank e.2.matchRank = .gt := Std.OrientedCmp.gt_of_lt hlt
    rw [hgt] at hle
    cases hle

/-- Where the first rule could settle a request, it is not settled by a rule of greater rank. -/
theorem exists_settler_of_compare_lt (h : Consistent t) {number other : RuleNumber} {r s : Rule}
    (hr : t.rule? number = some r) (hs : t.rule? other = some s)
    (hlt : compare r.matchRank s.matchRank = .lt) {request : Request} {m : RuleReading}
    (hread : r.read? request.path = .ok (some m))
    (hsettles : m.needsRedirect = true ∨ r.methods.contains request.method = true) :
    ∃ settler, t.settler? request = some settler ∧ settler.number ≠ other := by
  have hmem : (⟨number, r, m⟩ : Reader) ∈ t.readers request.path :=
    mem_readers.2 ⟨(mem_inMatchOrder h).2 hr, hread⟩
  have hdecides : (⟨number, r, m⟩ : Reader).decides request.method = true := by
    unfold Reader.decides
    rw [Bool.or_eq_true]
    exact hsettles
  cases hsettler : t.settler? request with
  | none => exact absurd hdecides (List.find?_eq_none.1 hsettler _ hmem)
  | some settler =>
    refine ⟨settler, rfl, ?_⟩
    rintro rfl
    obtain ⟨-, before, later, hreaders, hbefore⟩ := List.find?_eq_some_iff_append.1 hsettler
    obtain ⟨front, back, horder, -, rfl⟩ := exists_front_of_readers hreaders
    have hentry : (settler.number, settler.rule) ∈ t.inMatchOrder :=
      horder ▸ List.mem_append_right front List.mem_cons_self
    obtain rfl : settler.rule = s :=
      Option.some.inj (((mem_inMatchOrder h).1 hentry).symm.trans hs)
    -- the first rule stands before the settler, and would have settled the request
    have hfront : (number, r) ∈ front :=
      mem_front_of_compare_lt h horder ((mem_inMatchOrder h).2 hr) hlt
    have hpassed := hbefore ⟨number, r, m⟩
      (List.mem_filterMap.2 ⟨_, hfront, Reader.ofEntry?_eq_some_iff.2 ⟨rfl, hread⟩⟩)
    rw [hdecides] at hpassed
    cases hpassed

/-- A request that a rule could settle, by a redirect or because it answers the method, is never
answered by a less specific rule, nor is it redirected by one. -/
theorem answer_of_moreSpecific (h : t.Reachable) {number other : RuleNumber} {r s : Rule}
    {p q : Pattern} (hr : t.rule? number = some r) (hs : t.rule? other = some s)
    (hp : r.pattern = .ok p) (hq : s.pattern = .ok q) (hspecific : p.MoreSpecific q)
    {request : Request} {m : RuleReading} (hread : r.read? request.path = .ok (some m))
    (hsettles : m.needsRedirect = true ∨ r.methods.contains request.method = true) :
    (∀ a, t.answer request = .ok a → a.number ≠ other) ∧
      ∃ settler, t.settler? request = some settler ∧ t.answer request = settler.verdict ∧
        settler.number ≠ other := by
  have hc := h.consistent
  have hlt : compare r.matchRank s.matchRank = .lt := by
    obtain ⟨p', hp'⟩ := hc.bound r (mem_rules_iff.2 ⟨number, mem_numbered.2 hr⟩)
    obtain ⟨q', hq'⟩ := hc.bound s (mem_rules_iff.2 ⟨other, mem_numbered.2 hs⟩)
    rw [Rule.pattern_of_binding hp', Except.ok.injEq] at hp
    rw [Rule.pattern_of_binding hq', Except.ok.injEq] at hq
    rw [Rule.matchRank_of_binding hp', Rule.matchRank_of_binding hq', hp, hq]
    exact Pattern.compare_matchRank_of_moreSpecific hspecific
  obtain ⟨settler, hsettler, hne⟩ := exists_settler_of_compare_lt hc hr hs hlt hread hsettles
  refine ⟨fun a ha => ?_, settler, hsettler, answer_of_settler? hsettler, hne⟩
  rw [answer_of_settler? hsettler] at ha
  obtain ⟨-, rfl⟩ := Reader.verdict_eq_ok_iff.1 ha
  exact hne

/-- A rule of two variables, as its table keeps it. -/
def shelfRule : Rule where
  template := "/<text>/<path:rest>"
  endpoint := "shelf"
  methods := .ofList [.get, .head]
  binding := some ⟨⟨1⟩, {
    parts := [.literal "/", .capture "text" (.string {}), .literal "/", .capture "rest" .path,
      .literal ""]
    slashes := .exact }⟩

/-- A rule with lighter converters in both places. -/
def yearRule : Rule where
  template := "/<int:year>/<name>"
  endpoint := "year"
  methods := .ofList [.get, .head]
  binding := some ⟨⟨1⟩, {
    parts := [.literal "/", .capture "year" (.int {}), .literal "/", .capture "name" (.string {}),
      .literal ""]
    slashes := .exact }⟩

/-- The less specific rule is added first, and reads the path too. -/
theorem answer_of_moreSpecific_year :
    ∃ t : RouteTable, t.Reachable ∧ t.rule? ⟨0⟩ = some shelfRule ∧ t.rule? ⟨1⟩ = some yearRule ∧
      (shelfRule.read? "/2024/notes").map Option.isSome = .ok true ∧
      ∃ a, t.answer ⟨.get, "/2024/notes"⟩ = .ok a ∧ a.number ≠ ⟨0⟩ := by
  let t : RouteTable := run { id := ⟨1⟩ }
    [.add { shelfRule with methods := .ofList [.get], binding := none },
      .add { yearRule with methods := .ofList [.get], binding := none }]
  let request : Request := ⟨.get, "/2024/notes"⟩
  have hreach : t.Reachable := ⟨⟨1⟩, {}, { id := ⟨1⟩ }, _, rfl, rfl⟩
  have hyear : t.rule? ⟨1⟩ = some yearRule := by decide +kernel
  have hshelf : t.rule? ⟨0⟩ = some shelfRule := by decide +kernel
  have hread : yearRule.read? request.path =
      .ok (some ⟨.ofList [("year", .int 2024), ("name", .str "notes")], false⟩) := by
    decide +kernel
  have hspecific : Pattern.MoreSpecific
      ⟨[.literal "/", .capture "year" (.int {}), .literal "/", .capture "name" (.string {}),
        .literal ""], .exact⟩
      ⟨[.literal "/", .capture "text" (.string {}), .literal "/", .capture "rest" .path,
        .literal ""], .exact⟩ := by
    have hfirst : (Converter.int {}).weight < (Converter.string {}).weight := by decide
    have hsecond : (Converter.string {}).weight ≤ Converter.path.weight := by decide
    refine .lighter (by decide) (by decide) ?_ ⟨1, _, _, rfl, rfl, hfirst⟩
    exact .cons rfl (.cons (Nat.le_of_lt hfirst) (.cons rfl (.cons hsecond (.cons rfl .nil))))
  have hmethod : yearRule.methods.contains request.method = true := by decide
  obtain ⟨hnever, -⟩ :=
    answer_of_moreSpecific hreach hyear hshelf rfl rfl hspecific hread (.inr hmethod)
  have hok : (t.answer request).isOk = true := by decide +kernel
  refine ⟨t, hreach, hshelf, hyear, by decide +kernel, ?_⟩
  cases hanswer : t.answer request with
  | error e =>
    rw [hanswer] at hok
    cases hok
  | ok a => exact ⟨a, rfl, hnever a hanswer⟩

end RouteTable

end UrlRouting
