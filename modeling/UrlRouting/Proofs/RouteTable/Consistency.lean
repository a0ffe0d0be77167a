import Mathlib.Data.List.Nodup
import UrlRouting.Proofs.RouteTable.History
import UrlRouting.Proofs.RouteTable.StableSort

/-
  The rules of a table and its indexes stay in step.
  `Consistent` is the invariant that every call preserves (`consistent_after`): the rules are bound
  to the table, and each index is what inserting the rules in the order of adding would make.
  `Represented` is what a caller sees of it: the rules in matching order and those of an endpoint
  in building order are stable sorts of the rules in the order of adding.
-/

namespace UrlRouting.RouteTable

/-! ## The rules in the order of adding -/

/-- The rules with their numbers, in the order of adding. -/
def numbered (t : RouteTable) : List (RuleNumber × Rule) :=
  t.rules.toList.zipIdx.map fun e => (⟨e.2⟩, e.1)

theorem numbered_store (t : RouteTable) (r : Rule) (p : Pattern) :
    (t.store r p).numbered = t.numbered ++ [(⟨t.size⟩, r)] := by
  simp [numbered, store, size, List.zipIdx_append]

theorem mem_numbered {t : RouteTable} {number : RuleNumber} {r : Rule} :
    (number, r) ∈ t.numbered ↔ t.rule? number = some r := by
  unfold numbered rule?
  rw [List.mem_map, ← Array.getElem?_toList]
  constructor
  · rintro ⟨⟨r', i⟩, hmem, he⟩
    obtain ⟨rfl, rfl⟩ : RuleNumber.mk i = number ∧ r' = r := Prod.mk.inj he
    exact List.mem_zipIdx_iff_getElem?.1 hmem
  · intro h
    exact ⟨(r, number.index), List.mem_zipIdx_iff_getElem?.2 h, rfl⟩

theorem map_fst_numbered (t : RouteTable) :
    t.numbered.map Prod.fst = (List.range t.size).map RuleNumber.mk := by
  have h : t.rules.toList.zipIdx.map Prod.snd = List.range t.size := by
    rw [List.zipIdx_map_snd, List.range_eq_range']
    rfl
  rw [← h, numbered, List.map_map, List.map_map]
  rfl

theorem nodup_numbers (t : RouteTable) : (t.numbered.map Prod.fst).Nodup := by
  rw [map_fst_numbered]
  refine List.Nodup.map (fun i j h => ?_) List.nodup_range
  exact congrArg RuleNumber.index h

theorem mem_rules_iff {t : RouteTable} {r : Rule} :
    r ∈ t.rules ↔ ∃ number, (number, r) ∈ t.numbered := by
  simp only [mem_numbered, rule?, Array.mem_iff_getElem?]
  constructor
  · rintro ⟨i, h⟩
    exact ⟨⟨i⟩, h⟩
  · rintro ⟨number, h⟩
    exact ⟨number.index, h⟩

theorem rulesAt_map_fst {t : RouteTable} {rules : List (RuleNumber × Rule)}
    (h : ∀ e ∈ rules, e ∈ t.numbered) : t.rulesAt (rules.map Prod.fst) = rules := by
  unfold rulesAt
  rw [List.filterMap_map]
  have hself : ∀ e ∈ rules,
      ((fun number => (t.rule? number).map (number, ·)) ∘ Prod.fst) e = some e := by
    intro e he
    simp [mem_numbered.1 (h e he)]
  rw [List.filterMap_congr hself, List.filterMap_some]

/-! ## The indexes -/

/-- Whether the first rule may be tried before the second in matching. -/
def matchLE (a b : RuleNumber × Rule) : Bool := (compare a.2.matchRank b.2.matchRank).isLE

/-- Whether the first rule may be tried before the second in building. -/
def buildLE (a b : RuleNumber × Rule) : Bool := (compare a.2.buildRank b.2.buildRank).isLE

/-- The entries of the index of all rules, in the order of adding. -/
def matchPairs (rules : List (RuleNumber × Rule)) : List (MatchRank × RuleNumber) :=
  rules.map fun e => (e.2.matchRank, e.1)

/-- The entries of the index of an endpoint, in the order of adding. -/
def buildPairs (endpoint : String) (rules : List (RuleNumber × Rule)) :
    List (BuildRank × RuleNumber) :=
  (rules.filter fun e => e.2.endpoint = endpoint).map fun e => (e.2.buildRank, e.1)

/-- What holds of a table before and after every call. -/
structure Consistent (t : RouteTable) : Prop where
  size_le : t.size ≤ t.options.maxRules
  bound : ∀ r ∈ t.rules, ∃ p, r.binding = some ⟨t.id, p⟩
  methods : ∀ r ∈ t.rules, r.methods.isEmpty = false
  matchIndex_eq : t.matchIndex = .ofPairs (matchPairs t.numbered)
  buildIndex_eq : ∀ endpoint, t.buildIndex endpoint = .ofPairs (buildPairs endpoint t.numbered)
  indexed : ∀ endpoint, t.buildIndexes.contains endpoint ↔ ∃ r ∈ t.rules, r.endpoint = endpoint

theorem buildIndex_store (t : RouteTable) (r : Rule) (p : Pattern) (endpoint : String) :
    (t.store r p).buildIndex endpoint =
      if r.endpoint = endpoint then (t.buildIndex endpoint).insert p.buildRank ⟨t.size⟩
      else t.buildIndex endpoint := by
  unfold buildIndex store
  simp only [NameMap.get?_insert]
  split
  next h =>
    subst h
    rfl
  · rfl

theorem contains_store (t : RouteTable) (r : Rule) (p : Pattern) (endpoint : String) :
    (t.store r p).buildIndexes.contains endpoint ↔
      r.endpoint = endpoint ∨ t.buildIndexes.contains endpoint := by
  unfold store NameMap.contains
  simp only [NameMap.get?_insert]
  by_cases h : r.endpoint = endpoint <;> simp [h]

theorem mem_store {t : RouteTable} {r s : Rule} {p : Pattern} :
    s ∈ (t.store r p).rules ↔ s ∈ t.rules ∨ s = r := by
  simp [store]

theorem size_store (t : RouteTable) (r : Rule) (p : Pattern) :
    (t.store r p).size = t.size + 1 := by
  simp [store, size]

/-! ## What a call preserves -/

theorem consistent_start (id : TableId) (options : TableOptions) :
    Consistent { id, options } where
  size_le := Nat.zero_le _
  bound := by simp
  methods := by simp
  matchIndex_eq := rfl
  buildIndex_eq := fun _ => rfl
  indexed := by simp [NameMap.contains]

/-- Storing a rule that is bound to the table, while there is room. -/
theorem consistent_store {t : RouteTable} (h : Consistent t) {r : Rule} {p : Pattern}
    (hroom : t.size < t.options.maxRules) (hbound : r.binding = some ⟨t.id, p⟩)
    (hmethods : r.methods.isEmpty = false) : Consistent (t.store r p) where
  size_le := by
    rw [size_store]
    exact hroom
  bound := by
    intro s hs
    rcases mem_store.1 hs with hs | rfl
    · exact h.bound s hs
    · exact ⟨p, hbound⟩
  methods := by
    intro s hs
    rcases mem_store.1 hs with hs | rfl
    · exact h.methods s hs
    · exact hmethods
  matchIndex_eq := by
    rw [numbered_store, matchPairs, List.map_append]
    show t.matchIndex.insert p.matchRank ⟨t.size⟩ = .ofPairs (matchPairs t.numbered ++ [_])
    rw [StableIndex.ofPairs_append_singleton, ← h.matchIndex_eq]
    exact congrArg (t.matchIndex.insert · _) (Rule.matchRank_of_binding hbound).symm
  buildIndex_eq := by
    intro endpoint
    rw [buildIndex_store, numbered_store, buildPairs, List.filter_append, List.map_append]
    by_cases he : r.endpoint = endpoint
    · rw [if_pos he, List.filter_cons_of_pos (by simpa using he)]
      show _ = StableIndex.ofPairs (buildPairs endpoint t.numbered ++ [_])
      rw [StableIndex.ofPairs_append_singleton, ← h.buildIndex_eq]
      exact congrArg ((t.buildIndex endpoint).insert · _) (Rule.buildRank_of_binding hbound).symm
    · rw [if_neg he, List.filter_cons_of_neg (by simpa using he), List.filter_nil, List.map_nil,
        List.append_nil, h.buildIndex_eq]
      rfl
  indexed := by
    intro endpoint
    rw [contains_store, h.indexed]
    constructor
    · rintro (he | ⟨s, hs, he⟩)
      · exact ⟨r, mem_store.2 (.inr rfl), he⟩
      · exact ⟨s, mem_store.2 (.inl hs), he⟩
    · rintro ⟨s, hs, he⟩
      rcases mem_store.1 hs with hs | rfl
      · exact .inr ⟨s, hs, he⟩
      · exact .inl he

theorem consistent_after {t : RouteTable} (h : Consistent t) (call : TableCall) :
    Consistent (t.after call) := by
  rcases t.after_cases call with hsame | ⟨name, declaration, hdeclared⟩ | ⟨r, p, htakes, hstored⟩
  · rwa [hsame]
  · rw [hdeclared]
    obtain ⟨h1, h2, h3, h4, h5, h6⟩ := h
    exact ⟨h1, h2, h3, h4, h5, h6⟩
  · rw [hstored]
    exact consistent_store h htakes.room rfl htakes.answers

theorem consistent_run {t : RouteTable} (h : Consistent t) (calls : List TableCall) :
    Consistent (t.run calls) :=
  run_preserves (P := Consistent) (fun _ call hu => consistent_after hu call) h calls

theorem consistent_of_create {id : TableId} {options : TableOptions} {start : RouteTable}
    (h : create id options = .ok start) : Consistent start := by
  obtain ⟨_, rfl⟩ := create_eq_ok_iff.1 h
  exact consistent_start id options

theorem Reachable.consistent {t : RouteTable} (h : t.Reachable) : Consistent t := by
  obtain ⟨id, options, start, calls, hstart, rfl⟩ := h
  exact consistent_run (consistent_of_create hstart) calls

/-! ## What a caller sees -/

theorem mergeSort_map_pairs {κ : Type} [Ord κ] (rank : Rule → κ)
    (rules : List (RuleNumber × Rule)) :
    (rules.map fun e => (rank e.2, e.1)).mergeSort StableIndex.rankLE =
      (rules.mergeSort fun a b => (compare (rank a.2) (rank b.2)).isLE).map
        fun e => (rank e.2, e.1) := by
  symm
  apply List.map_mergeSort
  intro a _ b _
  rfl

/-- The index of all rules has their numbers in matching order. -/
theorem numbers_matchIndex {t : RouteTable} (h : Consistent t) :
    t.matchIndex.numbers = (t.numbered.mergeSort matchLE).map Prod.fst := by
  unfold StableIndex.numbers
  rw [h.matchIndex_eq, StableIndex.entries_ofPairs, matchPairs, mergeSort_map_pairs, List.map_map]
  rfl

/-- The index of an endpoint has the numbers of its rules in building order. -/
theorem numbers_buildIndex {t : RouteTable} (h : Consistent t) (endpoint : String) :
    (t.buildIndex endpoint).numbers =
      ((t.numbered.filter fun e => e.2.endpoint = endpoint).mergeSort buildLE).map Prod.fst := by
  unfold StableIndex.numbers
  rw [h.buildIndex_eq, StableIndex.entries_ofPairs, buildPairs, mergeSort_map_pairs, List.map_map]
  rfl

theorem inMatchOrder_eq {t : RouteTable} (h : Consistent t) :
    t.inMatchOrder = t.numbered.mergeSort matchLE := by
  unfold inMatchOrder
  rw [numbers_matchIndex h]
  exact rulesAt_map_fst fun e he => List.mem_mergeSort.1 he

theorem rulesOf_eq {t : RouteTable} (h : Consistent t) (endpoint : String) :
    t.rulesOf endpoint =
      (t.numbered.filter fun e => e.2.endpoint = endpoint).mergeSort buildLE := by
  unfold rulesOf
  rw [numbers_buildIndex h]
  exact rulesAt_map_fst fun e he => (List.mem_filter.1 (List.mem_mergeSort.1 he)).1

theorem mem_inMatchOrder {t : RouteTable} (h : Consistent t) {number : RuleNumber} {r : Rule} :
    (number, r) ∈ t.inMatchOrder ↔ t.rule? number = some r := by
  rw [inMatchOrder_eq h, List.mem_mergeSort, mem_numbered]

theorem mem_rulesOf {t : RouteTable} (h : Consistent t) {endpoint : String}
    {number : RuleNumber} {r : Rule} :
    (number, r) ∈ t.rulesOf endpoint ↔ t.rule? number = some r ∧ r.endpoint = endpoint := by
  rw [rulesOf_eq h, List.mem_mergeSort, List.mem_filter, mem_numbered, decide_eq_true_iff]

theorem nodup_rulesOf {t : RouteTable} (h : Consistent t) (endpoint : String) :
    ((t.rulesOf endpoint).map Prod.fst).Nodup := by
  rw [rulesOf_eq h]
  refine ((List.mergeSort_perm _ _).map Prod.fst).nodup_iff.2 ?_
  exact (List.filter_sublist.map Prod.fst).nodup t.nodup_numbers

theorem numbers_inMatchOrder {t : RouteTable} (h : Consistent t) :
    (t.inMatchOrder.map Prod.fst).Perm ((List.range t.size).map RuleNumber.mk) := by
  rw [inMatchOrder_eq h, ← map_fst_numbered]
  exact (List.mergeSort_perm _ _).map Prod.fst

/-- What the rules and the indexes of a table say to a caller. -/
structure Represented (t : RouteTable) : Prop where
  size_le : t.size ≤ t.options.maxRules
  /-- Every rule is bound to the table and answers some method. -/
  bound : ∀ r ∈ t.rules, (∃ p, r.binding = some ⟨t.id, p⟩) ∧ r.methods.isEmpty = false
  /-- No rule refuses to be held against a path, or to be asked whether it fits. -/
  answering : ∀ r ∈ t.rules, (∀ path, ∃ reading, r.read? path = .ok reading) ∧
    ∀ values method, ∃ fits, r.fits values method = .ok fits
  /-- Every number once. -/
  numbers : (t.inMatchOrder.map Prod.fst).Perm ((List.range t.size).map RuleNumber.mk)
  matchOrder : t.inMatchOrder = t.numbered.mergeSort matchLE
  /-- Every rule of the endpoint once, and no other. -/
  ofEndpoint : ∀ endpoint, ((t.rulesOf endpoint).map Prod.fst).Nodup ∧ ∀ number r,
    (number, r) ∈ t.rulesOf endpoint ↔ t.rule? number = some r ∧ r.endpoint = endpoint
  buildOrder : ∀ endpoint, t.rulesOf endpoint =
    (t.numbered.filter fun e => e.2.endpoint = endpoint).mergeSort buildLE
  endpoints : ∀ endpoint, endpoint ∈ t.endpoints ↔ ∃ r ∈ t.rules, r.endpoint = endpoint

theorem Consistent.represented {t : RouteTable} (h : Consistent t) : Represented t where
  size_le := h.size_le
  bound := fun r hr => ⟨h.bound r hr, h.methods r hr⟩
  answering := by
    intro r hr
    obtain ⟨p, hp⟩ := h.bound r hr
    exact ⟨fun path => ⟨_, Rule.read?_of_binding hp path⟩,
      fun values method => ⟨_, Rule.fits_of_binding hp values method⟩⟩
  numbers := numbers_inMatchOrder h
  matchOrder := inMatchOrder_eq h
  ofEndpoint := fun endpoint => ⟨nodup_rulesOf h endpoint, fun _ _ => mem_rulesOf h⟩
  buildOrder := rulesOf_eq h
  endpoints := by
    intro endpoint
    rw [← h.indexed, RouteTable.endpoints, NameMap.mem_names]

/-- The number of a rule is its place among the rules, in this table and in every later one. -/
theorem rule?_of_add {t t' : RouteTable} {r : Rule} {number : RuleNumber}
    (h : t.add r = .ok (number, t')) (later : List TableCall) :
    number.index = t.size ∧ ∃ p, ((t.after (.add r)).run later).rule? number =
      some (t.stored r p) := by
  have hadd := after_add_of_ok h
  obtain ⟨_, _, _, _, p, _, rfl, rfl⟩ := add_eq_ok_iff.1 h
  refine ⟨rfl, p, rule?_run ?_ later⟩
  rw [hadd]
  exact rule?_store t (t.stored r p) p

/-- After every run of calls on a created table, its rules and indexes are in step, there are no
more rules than the options allow, and every rule that was added stands under the number that it
was given. -/
theorem represented_run {id : TableId} {options : TableOptions} {start : RouteTable}
    (h : create id options = .ok start) (calls : List TableCall) :
    Represented (start.run calls) ∧ (start.run calls).id = id ∧
      (start.run calls).options = options ∧
        ∀ before r later number t', calls = before ++ .add r :: later →
          (start.run before).add r = .ok (number, t') →
            number.index = (start.run before).size ∧
              ∃ p, (start.run calls).rule? number = some ((start.run before).stored r p) := by
  refine ⟨(consistent_run (consistent_of_create h) calls).represented, ?_, ?_, ?_⟩
  · rw [(options_run start calls).1, (create_eq_ok_iff.1 h).2]
  · rw [(options_run start calls).2, (create_eq_ok_iff.1 h).2]
  · rintro before r later number t' rfl hadd
    rw [run_append, run_cons]
    exact rule?_of_add hadd later

theorem represented_run_sampleCalls :
    create ⟨1⟩ {} = .ok { id := ⟨1⟩ } ∧ Represented (run { id := ⟨1⟩ } sampleCalls) ∧
      (run { id := ⟨1⟩ } sampleCalls).size = 2 := by
  have hcreate : create ⟨1⟩ {} = .ok { id := ⟨1⟩ } := rfl
  refine ⟨hcreate, (represented_run hcreate sampleCalls).1, ?_⟩
  decide +kernel

end UrlRouting.RouteTable
