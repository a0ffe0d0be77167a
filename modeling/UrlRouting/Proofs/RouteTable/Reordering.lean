import UrlRouting.Proofs.RouteTable.Outcome

/-
  The order in which rules are added.
  A table answers by its rules in matching order, and they stand there by rank and, within a rank,
  as they were added. So two tables to which the same rules were added, in orders that agree on
  rules of the same rank, have the same rules in matching order but for the identity to which they
  are bound (`rulesInMatchOrder_eq`), and they answer alike (`answer_of_keepsTies`). What a path
  allows does not depend on any order at all.
-/

namespace UrlRouting

open KeyedSort (keyLE sameKey KeepsTies)

/-! ## Ranks -/

instance : Std.LawfulEqOrd SegmentRank where
  eq_of_compare {a b} h := by
    obtain ⟨h1, h2⟩ := compareLex_eq_eq.1 h
    obtain ⟨_, _⟩ := a
    obtain ⟨_, _⟩ := b
    congr
    · exact Std.LawfulEqOrd.eq_of_compare h1
    · exact Std.LawfulEqOrd.eq_of_compare h2

instance : Std.LawfulEqOrd MatchRank where
  eq_of_compare {a b} h := by
    obtain ⟨h1, h2⟩ := compareLex_eq_eq.1 h
    obtain ⟨h2, h3⟩ := compareLex_eq_eq.1 h2
    obtain ⟨_, _, _⟩ := a
    obtain ⟨_, _, _⟩ := b
    congr
    · exact Std.LawfulEqOrd.eq_of_compare h1
    · exact Int.ofNat_inj.1 (Int.neg_inj.1 (Std.LawfulEqOrd.eq_of_compare h2))
    · exact Std.LawfulEqOrd.eq_of_compare h3

/-! ## Rules of another table -/

namespace Rule

/-- The rule as the table of this identity would have bound it. -/
def boundTo (table : TableId) (r : Rule) : Rule :=
  { r with binding := r.binding.map fun b => { b with table } }

/-- The rule as it was before it was bound. -/
def unbound (r : Rule) : Rule := { r with binding := none }

/-- The place in the order of matching that the rule has where these are the converters. -/
def rankIn (catalogue : Catalogue) (r : Rule) : Option MatchRank :=
  (r.patternWith catalogue).toOption.map Pattern.matchRank

@[simp] theorem methods_boundTo (table : TableId) (r : Rule) :
    (r.boundTo table).methods = r.methods := rfl

@[simp] theorem endpoint_boundTo (table : TableId) (r : Rule) :
    (r.boundTo table).endpoint = r.endpoint := rfl

@[simp] theorem matchRank_boundTo (table : TableId) (r : Rule) :
    (r.boundTo table).matchRank = r.matchRank := by
  obtain ⟨template, endpoint, methods, strict, binding⟩ := r
  cases binding <;> rfl

@[simp] theorem pattern_boundTo (table : TableId) (r : Rule) :
    (r.boundTo table).pattern = r.pattern := by
  obtain ⟨template, endpoint, methods, strict, binding⟩ := r
  cases binding <;> rfl

@[simp] theorem read?_boundTo (table : TableId) (r : Rule) (path : String) :
    (r.boundTo table).read? path = r.read? path := by
  unfold read?
  rw [pattern_boundTo]
  rfl

@[simp] theorem build_boundTo (table : TableId) (r : Rule) (values : Values) :
    (r.boundTo table).build values = r.build values := by
  unfold build
  rw [pattern_boundTo]
  rfl

end Rule

/-! ## Answers of another table -/

/-- What an answer hands over: the rule, wherever it is bound, and the values. -/
def Answer.content (a : Answer) : Rule × Values := (a.rule.unbound, a.values)

/-- Whether two readers are the same rule, bound to different tables, and read the same. -/
def Reader.Alike (table : TableId) (r r' : Reader) : Prop :=
  r.rule = r'.rule.boundTo table ∧ r.reading = r'.reading

theorem Reader.alike_of_boundTo {table : TableId} {e e' : RuleNumber × Rule}
    (h : e.2 = e'.2.boundTo table) (path : String) :
    Option.Rel (Alike table) (Reader.ofEntry? path e) (Reader.ofEntry? path e') := by
  unfold ofEntry?
  rw [h, Rule.read?_boundTo]
  split
  · exact .some ⟨rfl, rfl⟩
  · exact .none

namespace RouteTable

variable {t t' s s' : RouteTable} {rs rs' : List Rule}

/-! ## Adding a list of rules -/

/-- Adds rules in turn, if all of them are taken. -/
def addAll (t : RouteTable) : List Rule → Except RuleError RouteTable
  | [] => .ok t
  | r :: rs => do
    let (_, t) ← t.add r
    t.addAll rs

/-- The rule that a table would keep of one that is added. -/
def kept? (t : RouteTable) (r : Rule) : Option Rule :=
  (r.patternWith t.converters).toOption.map (t.stored r)

theorem kept?_eq_some_iff {r k : Rule} :
    t.kept? r = some k ↔ ∃ p, r.patternWith t.converters = .ok p ∧ k = t.stored r p := by
  unfold kept?
  cases r.patternWith t.converters <;> simp [Except.toOption, eq_comm]

/-- The rules are behind those that were there, each as it is kept. -/
theorem addAll_eq_ok (h : t.addAll rs = .ok t') :
    t' = t.run (rs.map .add) ∧ t'.rules.toList = t.rules.toList ++ rs.filterMap t.kept? := by
  induction rs generalizing t with
  | nil =>
    obtain rfl := Except.ok.inj h
    exact ⟨rfl, (List.append_nil _).symm⟩
  | cons r rs ih =>
    obtain ⟨⟨number, u⟩, hadd, hmore⟩ := Template.exists_of_bind_eq_ok h
    obtain ⟨hrun, hrules⟩ := ih hmore
    obtain ⟨-, -, -, -, p, hp, -, rfl⟩ := add_eq_ok_iff.1 hadd
    refine ⟨?_, ?_⟩
    · rw [List.map_cons, run_cons, after_add_of_ok hadd, hrun]
    · have hkept : t.kept? r = some (t.stored r p) := kept?_eq_some_iff.2 ⟨p, hp, rfl⟩
      -- the table that keeps the next rules has the converters and options of this one
      have hsame : (t.store (t.stored r p) p).kept? = t.kept? := rfl
      have hpush : (t.store (t.stored r p) p).rules.toList =
          t.rules.toList ++ [t.stored r p] := Array.toList_push
      rw [hrules, hsame, hpush, List.filterMap_cons_some hkept, List.append_assoc]
      rfl

theorem kept?_boundTo (hoptions : s.options = s'.options)
    (hconverters : s.converters = s'.converters) (r : Rule) :
    (s'.kept? r).map (Rule.boundTo s.id) = s.kept? r := by
  unfold kept?
  rw [hconverters, Option.map_map]
  refine congrArg (Option.map · _) (funext fun p => ?_)
  simp [stored, completeMethods, hoptions, Rule.boundTo]

theorem matchRank_of_kept? {r k : Rule} (h : t.kept? r = some k) :
    r.rankIn t.converters = some k.matchRank := by
  obtain ⟨p, hp, rfl⟩ := kept?_eq_some_iff.1 h
  unfold Rule.rankIn
  rw [hp, Rule.matchRank_of_binding (b := ⟨t.id, p⟩) rfl]
  rfl

/-! ## The rules in matching order -/

theorem map_snd_numbered (t : RouteTable) : t.numbered.map Prod.snd = t.rules.toList := by
  rw [numbered, List.map_map]
  exact List.zipIdx_map_fst _ _

/-- They are the rules sorted by rank. -/
theorem map_snd_inMatchOrder (h : Consistent t) :
    t.inMatchOrder.map Prod.snd = t.rules.toList.mergeSort (keyLE Rule.matchRank) := by
  rw [inMatchOrder_eq h, ← map_snd_numbered]
  apply List.map_mergeSort
  intro a _ b _
  rfl

/-- Of the rules that are kept, those of a rank are kept of the rules of that rank. -/
theorem filter_sameKey_kept? (t : RouteTable) (rs : List Rule) (a : Rule) :
    (rs.filterMap t.kept?).filter (sameKey Rule.matchRank a) =
      (rs.filter fun r => r.rankIn t.converters = some a.matchRank).filterMap t.kept? := by
  rw [List.filter_filterMap, List.filterMap_filter]
  refine List.filterMap_congr fun r _ => ?_
  cases hkept : t.kept? r with
  | none => simp
  | some k =>
    have hsame : sameKey Rule.matchRank a k =
        decide (r.rankIn t.converters = some a.matchRank) := by
      rw [Bool.eq_iff_iff, KeyedSort.sameKey_iff, matchRank_of_kept? hkept]
      simp [eq_comm]
    rw [Option.filter_some, hsame]

theorem map_boundTo_kept? (hoptions : s.options = s'.options)
    (hconverters : s.converters = s'.converters) (rs : List Rule) :
    (rs.filterMap s'.kept?).map (Rule.boundTo s.id) = rs.filterMap s.kept? := by
  rw [List.map_filterMap]
  exact List.filterMap_congr fun r _ => kept?_boundTo hoptions hconverters r

/-- Where rules are added in orders that agree on rules of the same rank, they stand in the same
matching order. -/
theorem rulesInMatchOrder_eq (h : Consistent t) (h' : Consistent t')
    (hrules : t.rules.toList = rs.filterMap s.kept?)
    (hrules' : t'.rules.toList = rs'.filterMap s'.kept?) (hoptions : s.options = s'.options)
    (hconverters : s.converters = s'.converters)
    (hties : KeepsTies (Rule.rankIn s.converters) rs rs') :
    t.inMatchOrder.map Prod.snd = t'.inMatchOrder.map fun e => e.2.boundTo s.id := by
  have hsorted : (t'.rules.toList.mergeSort (keyLE Rule.matchRank)).map (Rule.boundTo s.id) =
      (t'.rules.toList.map (Rule.boundTo s.id)).mergeSort (keyLE Rule.matchRank) := by
    apply List.map_mergeSort
    intro a _ b _
    unfold keyLE
    rw [Rule.matchRank_boundTo, Rule.matchRank_boundTo]
  have hback : (t'.inMatchOrder.map fun e => e.2.boundTo s.id) =
      (t'.inMatchOrder.map Prod.snd).map (Rule.boundTo s.id) := by
    rw [List.map_map]
    rfl
  rw [hback, map_snd_inMatchOrder h, map_snd_inMatchOrder h', hsorted, hrules, hrules',
    map_boundTo_kept? hoptions hconverters]
  refine KeyedSort.mergeSort_eq_of_filter_sameKey fun a => ?_
  rw [filter_sameKey_kept?, filter_sameKey_kept?, hties.filter_eq]

/-! ## Requests -/

theorem decideRequest_of_alike {table : TableId} {readers readers' : List Reader}
    (h : List.Forall₂ (Reader.Alike table) readers readers') (request : Request)
    (passed : MethodSet) :
    (decideRequest request readers passed).map Answer.content =
      (decideRequest request readers' passed).map Answer.content := by
  induction h generalizing passed with
  | nil => rfl
  | @cons r r' _ _ halike _ ih =>
    obtain ⟨hrule, hreading⟩ := halike
    unfold decideRequest
    rw [hrule, hreading, Rule.build_boundTo, Rule.methods_boundTo, Rule.endpoint_boundTo]
    cases r'.reading.needsRedirect with
    | true => cases r'.rule.build r'.reading.values <;> rfl
    | false =>
      cases r'.rule.methods.contains request.method with
      | true => rfl
      | false => exact ih _

theorem answer_of_rulesInMatchOrder {table : TableId}
    (h : t.inMatchOrder.map Prod.snd = t'.inMatchOrder.map fun e => e.2.boundTo table)
    (request : Request) :
    (t.answer request).map Answer.content = (t'.answer request).map Answer.content := by
  have hrules : List.Forall₂ (fun e e' => e.2 = e'.2.boundTo table) t.inMatchOrder
      t'.inMatchOrder := by
    rw [← List.forall₂_eq_eq_eq] at h
    exact List.forall₂_map_right_iff.1 (List.forall₂_map_left_iff.1 h)
  have hreaders : List.Forall₂ (Reader.Alike table) (t.readers request.path)
      (t'.readers request.path) := by
    rw [readers_eq, readers_eq]
    have hentries : ∀ ⦃e e' : RuleNumber × Rule⦄, e.2 = e'.2.boundTo table →
        Option.Rel (Reader.Alike table) (Reader.ofEntry? request.path e)
          (Reader.ofEntry? request.path e') :=
      fun _ _ he => Reader.alike_of_boundTo he request.path
    exact List.rel_filterMap hentries hrules
  exact decideRequest_of_alike hreaders request .empty

/-! ## Allowed methods -/

theorem contains_allowed_iff (h : Consistent t) {path : String} {m : Method} :
    (t.allowed path).contains m = true ↔ ∃ r ∈ t.rules.toList,
      (∃ reading, r.read? path = .ok (some reading)) ∧ r.methods.contains m = true := by
  rw [allowed_eq, contains_methodsOf, MethodSet.contains_empty]
  constructor
  · rintro (hnone | ⟨reader, hreader, hm⟩)
    · cases hnone
    · obtain ⟨hentry, hread⟩ := mem_readers.1 hreader
      have hrule := mem_numbered.2 ((mem_inMatchOrder h).1 hentry)
      exact ⟨reader.rule, Array.mem_toList_iff.2 (mem_rules_iff.2 ⟨_, hrule⟩), ⟨_, hread⟩, hm⟩
  · rintro ⟨r, hr, ⟨reading, hread⟩, hm⟩
    obtain ⟨number, hnumber⟩ := mem_rules_iff.1 (Array.mem_toList_iff.1 hr)
    have hentry := (mem_inMatchOrder h).2 (mem_numbered.1 hnumber)
    exact .inr ⟨⟨number, r, reading⟩, mem_readers.2 ⟨hentry, hread⟩, hm⟩

/-- What a path allows is the same where the rules are, in whatever order. -/
theorem allowed_of_perm {table : TableId} (h : Consistent t) (h' : Consistent t')
    (hperm : t.rules.toList.Perm (t'.rules.toList.map (Rule.boundTo table))) (path : String) :
    t.allowed path = t'.allowed path := by
  refine MethodSet.ext fun m => ?_
  rw [Bool.eq_iff_iff, contains_allowed_iff h, contains_allowed_iff h']
  constructor
  · rintro ⟨r, hr, hread, hm⟩
    obtain ⟨r', hr', rfl⟩ := List.mem_map.1 (hperm.mem_iff.1 hr)
    rw [Rule.read?_boundTo] at hread
    exact ⟨r', hr', hread, hm⟩
  · rintro ⟨r', hr', hread, hm⟩
    refine ⟨r'.boundTo table, hperm.mem_iff.2 (List.mem_map_of_mem hr'), ?_, hm⟩
    rwa [Rule.read?_boundTo]

/-! ## Two orders of adding -/

/-- Two tables with the same options and converters, to which the same rules are added in different
orders, answer every request with the same error or the same content if the orders agree on rules of
the same rank. In whatever orders they are added, they allow the same methods on every path. -/
theorem answer_of_keepsTies (h : s.Reachable) (h' : s'.Reachable) (hempty : s.isEmpty = true)
    (hempty' : s'.isEmpty = true) (hoptions : s.options = s'.options)
    (hconverters : s.converters = s'.converters) (hadd : s.addAll rs = .ok t)
    (hadd' : s'.addAll rs' = .ok t') :
    (KeepsTies (Rule.rankIn s.converters) rs rs' → ∀ request,
      (t.answer request).map Answer.content = (t'.answer request).map Answer.content) ∧
    (rs.Perm rs' → ∀ path, t.allowed path = t'.allowed path) := by
  obtain ⟨hrun, hrules⟩ := addAll_eq_ok hadd
  obtain ⟨hrun', hrules'⟩ := addAll_eq_ok hadd'
  have ht : Consistent t := hrun ▸ consistent_run h.consistent _
  have ht' : Consistent t' := hrun' ▸ consistent_run h'.consistent _
  have hnone : ∀ u : RouteTable, u.isEmpty = true → u.rules.toList = [] := fun u hu =>
    Array.toList_eq_nil_iff.2 (Array.isEmpty_iff.1 hu)
  rw [hnone s hempty, List.nil_append] at hrules
  rw [hnone s' hempty', List.nil_append] at hrules'
  refine ⟨?_, ?_⟩
  · intro hties request
    exact answer_of_rulesInMatchOrder
      (rulesInMatchOrder_eq ht ht' hrules hrules' hoptions hconverters hties) request
  · intro hperm path
    have hrulesPerm : t.rules.toList.Perm (t'.rules.toList.map (Rule.boundTo s.id)) := by
      rw [hrules, hrules', map_boundTo_kept? hoptions hconverters]
      exact hperm.filterMap _
    exact allowed_of_perm ht ht' hrulesPerm path

/-- A page, and two rules of the same rank that read the same paths. -/
def tiedRules : List Rule :=
  [{ template := "/docs", endpoint := "docs", methods := .ofList [.get] },
    { template := "/<first>", endpoint := "first", methods := .ofList [.get, .post] },
    { template := "/<second>", endpoint := "second", methods := .ofList [.get, .put] }]

/-- The page is added last instead of first, and the two others keep their order. -/
theorem answer_of_keepsTies_tiedRules :
    ∃ t t', addAll { id := ⟨1⟩ } tiedRules = .ok t ∧
      addAll { id := ⟨2⟩ } (tiedRules.drop 1 ++ tiedRules.take 1) = .ok t' ∧
      (∀ request, (t.answer request).map Answer.content = (t'.answer request).map Answer.content) ∧
      ∀ path, t.allowed path = t'.allowed path := by
  have hreach : ∀ id : TableId, Reachable { id } := fun id => ⟨id, {}, { id }, [], rfl, rfl⟩
  have htaken : ∀ {start : RouteTable} {rs : List Rule}, (start.addAll rs).isOk = true →
      ∃ t, start.addAll rs = .ok t := by
    intro start rs hok
    cases hadd : start.addAll rs with
    | ok t => exact ⟨t, rfl⟩
    | error e =>
      rw [hadd] at hok
      cases hok
  obtain ⟨t, ht⟩ : ∃ t, addAll { id := ⟨1⟩ } tiedRules = .ok t := htaken (by decide +kernel)
  obtain ⟨t', ht'⟩ : ∃ t', addAll { id := ⟨2⟩ } (tiedRules.drop 1 ++ tiedRules.take 1) = .ok t' :=
    htaken (by decide +kernel)
  obtain ⟨hanswer, hallowed⟩ :=
    answer_of_keepsTies (hreach ⟨1⟩) (hreach ⟨2⟩) rfl rfl rfl rfl ht ht'
  have hties : KeepsTies (Rule.rankIn .standard) tiedRules (tiedRules.drop 1 ++ tiedRules.take 1) :=
    ⟨tiedRules.zipIdx.drop 1 ++ tiedRules.zipIdx.take 1, by decide +kernel, rfl, by decide +kernel⟩
  exact ⟨t, t', ht, ht', hanswer hties, hallowed hties.perm⟩

end RouteTable

end UrlRouting
