import UrlRouting.Proofs.RouteTable.Outcome

/-
  What adding a rule makes of a table that is changed in place.
  A rule that is refused is refused before the first structure is touched, whatever the reason
  (`tryAdd_eq`). A rule that is taken comes into one place of each order in which it stands and
  leaves the others as they were (`inMatchOrder_store`, `rulesOf_store`), so a path that it does not
  read has the same readers as before, and with them the same answers (`tryAdd_only_inserts`).
-/

namespace UrlRouting

/-! ## Lists with one more entry -/

/-- Whether the second list is the first with one more entry in some place. -/
def OneMore {α : Type} (a : α) (old new : List α) : Prop :=
  ∃ front back, old = front ++ back ∧ new = front ++ a :: back

namespace OneMore

variable {α β : Type} {a : α} {old new : List α}

theorem filter_eq (h : OneMore a old new) {p : α → Bool} (ha : p a = false)
    (hold : ∀ b ∈ old, p b = true) : new.filter p = old := by
  obtain ⟨front, back, rfl, rfl⟩ := h
  rw [List.filter_append, List.filter_cons_of_neg (by simp [ha]), ← List.filter_append]
  exact List.filter_eq_self.2 hold

theorem filterMap_eq (h : OneMore a old new) {f : α → Option β} (ha : f a = none) :
    new.filterMap f = old.filterMap f := by
  obtain ⟨front, back, rfl, rfl⟩ := h
  rw [List.filterMap_append, List.filterMap_cons_none ha, ← List.filterMap_append]

theorem filterMap (h : OneMore a old new) {f g : α → Option β} {b : β} (ha : g a = some b)
    (hold : ∀ c ∈ old, g c = f c) : OneMore b (old.filterMap f) (new.filterMap g) := by
  obtain ⟨front, back, rfl, rfl⟩ := h
  refine ⟨front.filterMap f, back.filterMap f, List.filterMap_append, ?_⟩
  rw [List.filterMap_append, List.filterMap_cons_some ha]
  have hfront : front.filterMap g = front.filterMap f :=
    List.filterMap_congr fun c hc => hold c (List.mem_append_left back hc)
  have hback : back.filterMap g = back.filterMap f :=
    List.filterMap_congr fun c hc => hold c (List.mem_append_right front hc)
  rw [hfront, hback]

end OneMore

theorem StableIndex.oneMore_insert {κ : Type} [Ord κ] (index : StableIndex κ) (rank : κ)
    (number : RuleNumber) : OneMore number index.numbers (index.insert rank number).numbers := by
  refine ⟨(index.entries.take (index.place rank)).map Prod.snd,
    (index.entries.drop (index.place rank)).map Prod.snd, ?_, ?_⟩
  · rw [← List.map_append, List.take_append_drop]
    rfl
  · exact List.map_append

namespace RouteTable

variable {t : RouteTable}

/-! ## Steps on one table -/

/-- A step that may fail and does not touch the table. -/
theorem run_ofExcept_bind {α β : Type} (x : Except RuleError α)
    (next : α → ExceptT RuleError (StateM RouteTable) β) (t : RouteTable) :
    (MonadExcept.ofExcept x >>= next).run.run t =
      match x with
      | .ok a => (next a).run.run t
      | .error e => (.error e, t) := by
  cases x <;> rfl

/-- Everything that can fail comes before the first change. -/
theorem tryAdd_eq (t : RouteTable) (r : Rule) :
    t.tryAdd r =
      match t.add r with
      | .ok (number, t') => (.ok number, t')
      | .error e => (.error e, t) := by
  unfold tryAdd addInPlace add
  show StateT.run (ExceptT.run
    (ite (t.options.maxRules ≤ t.size ∨ 0x100000000 ≤ t.size) _ _)) t = _
  split
  · rfl
  · show StateT.run (ExceptT.run (MonadExcept.ofExcept _ >>= _)) t = _
    rw [run_ofExcept_bind]
    cases (t.completeMethods r).bind t.id t.converters with
    | error e => rfl
    | ok bound =>
      show StateT.run (ExceptT.run (MonadExcept.ofExcept bound.pattern >>= _)) t = _
      rw [run_ofExcept_bind]
      cases hp : bound.pattern with
      | error e => simp [bind, Except.bind, hp]
      | ok p =>
        simp only [bind, Except.bind, hp]
        rfl

theorem snd_tryAdd (t : RouteTable) (r : Rule) : (t.tryAdd r).2 = t.after (.add r) := by
  rw [tryAdd_eq]
  cases hadd : t.add r with
  | error e => rw [after_add_of_error hadd]
  | ok result => rw [after_add_of_ok hadd]

/-! ## Rules and numbers -/

theorem index_lt_of_mem_numbered {e : RuleNumber × Rule} (h : e ∈ t.numbered) :
    e.1.index < t.size := by
  have hrule : t.rule? e.1 = some e.2 := mem_numbered.1 h
  exact (Array.getElem?_eq_some_iff.1 hrule).1

theorem index_lt_of_mem_matchIndex (h : Consistent t) {number : RuleNumber}
    (hnumber : number ∈ t.matchIndex.numbers) : number.index < t.size := by
  rw [numbers_matchIndex h] at hnumber
  obtain ⟨e, he, rfl⟩ := List.mem_map.1 hnumber
  exact index_lt_of_mem_numbered (List.mem_mergeSort.1 he)

theorem index_lt_of_mem_buildIndex (h : Consistent t) {endpoint : String} {number : RuleNumber}
    (hnumber : number ∈ (t.buildIndex endpoint).numbers) : number.index < t.size := by
  rw [numbers_buildIndex h] at hnumber
  obtain ⟨e, he, rfl⟩ := List.mem_map.1 hnumber
  exact index_lt_of_mem_numbered (List.mem_filter.1 (List.mem_mergeSort.1 he)).1

theorem index_lt_of_mem_rulesAt {numbers : List RuleNumber} {e : RuleNumber × Rule}
    (h : e ∈ t.rulesAt numbers) : e.1.index < t.size := by
  obtain ⟨number, -, hrule⟩ := List.mem_filterMap.1 h
  obtain ⟨r, hr, rfl⟩ := Option.map_eq_some_iff.1 hrule
  exact (Array.getElem?_eq_some_iff.1 hr).1

theorem rule?_store_of_ne (t : RouteTable) (r : Rule) (p : Pattern) {number : RuleNumber}
    (h : number ≠ ⟨t.size⟩) : (t.store r p).rule? number = t.rule? number := by
  have hindex : number.index ≠ t.rules.size := fun heq => h (congrArg RuleNumber.mk heq)
  simp [rule?, store, Array.getElem?_push, hindex]

/-! ## The orders with one more rule -/

theorem rulesAt_store (t : RouteTable) (r : Rule) (p : Pattern) {numbers : List RuleNumber}
    (h : ∀ number ∈ numbers, number.index < t.size) :
    (t.store r p).rulesAt numbers = t.rulesAt numbers := by
  refine List.filterMap_congr fun number hnumber => ?_
  have hne : number ≠ ⟨t.size⟩ := fun heq => Nat.lt_irrefl _ (heq ▸ h number hnumber)
  rw [rule?_store_of_ne t r p hne]

/-- A new number in an index is a new rule in its order. -/
theorem oneMore_rulesAt (t : RouteTable) (r : Rule) (p : Pattern) {numbers more : List RuleNumber}
    (hmore : OneMore ⟨t.size⟩ numbers more) (h : ∀ number ∈ numbers, number.index < t.size) :
    OneMore (⟨t.size⟩, r) (t.rulesAt numbers) ((t.store r p).rulesAt more) := by
  refine hmore.filterMap ?_ fun number hnumber => ?_
  · rw [rule?_store]
    rfl
  · have hne : number ≠ ⟨t.size⟩ := fun heq => Nat.lt_irrefl _ (heq ▸ h number hnumber)
    rw [rule?_store_of_ne t r p hne]

theorem inMatchOrder_store (h : Consistent t) (r : Rule) (p : Pattern) :
    OneMore (⟨t.size⟩, r) t.inMatchOrder (t.store r p).inMatchOrder :=
  oneMore_rulesAt t r p (t.matchIndex.oneMore_insert p.matchRank ⟨t.size⟩)
    fun _ hnumber => index_lt_of_mem_matchIndex h hnumber

theorem rulesOf_store (h : Consistent t) (r : Rule) (p : Pattern) :
    OneMore (⟨t.size⟩, r) (t.rulesOf r.endpoint) ((t.store r p).rulesOf r.endpoint) := by
  have hindexed : ∀ number ∈ (t.buildIndex r.endpoint).numbers, number.index < t.size :=
    fun _ hnumber => index_lt_of_mem_buildIndex h hnumber
  unfold rulesOf
  rw [buildIndex_store, if_pos rfl]
  exact oneMore_rulesAt t r p ((t.buildIndex r.endpoint).oneMore_insert p.buildRank ⟨t.size⟩)
    hindexed

theorem rulesOf_store_of_ne (h : Consistent t) {r : Rule} (p : Pattern) {endpoint : String}
    (hne : endpoint ≠ r.endpoint) : (t.store r p).rulesOf endpoint = t.rulesOf endpoint := by
  unfold rulesOf
  rw [buildIndex_store, if_neg (Ne.symm hne)]
  exact rulesAt_store t r p fun _ hnumber => index_lt_of_mem_buildIndex h hnumber

/-- Without the new rule, the order is the old one. -/
theorem filter_of_oneMore {r : Rule} {numbers : List RuleNumber}
    {new : List (RuleNumber × Rule)} (h : OneMore (⟨t.size⟩, r) (t.rulesAt numbers) new) :
    new.filter (fun e => e.1 ≠ ⟨t.size⟩) = t.rulesAt numbers := by
  refine h.filter_eq (by simp) fun e he => ?_
  have hlt := index_lt_of_mem_rulesAt he
  simp only [ne_eq, decide_not, Bool.not_eq_true', decide_eq_false_iff_not]
  intro heq
  rw [heq] at hlt
  exact Nat.lt_irrefl _ hlt

/-! ## Requests for paths that the new rule does not read -/

theorem readers_store (h : Consistent t) {r : Rule} (p : Pattern) {path : String}
    (hread : r.read? path = .ok none) : (t.store r p).readers path = t.readers path := by
  rw [readers_eq, readers_eq]
  refine (inMatchOrder_store h r p).filterMap_eq ?_
  unfold Reader.ofEntry?
  rw [hread]

theorem answer_of_readers {t t' : RouteTable} {path : String}
    (h : t'.readers path = t.readers path) (method : Method) :
    t'.answer ⟨method, path⟩ = t.answer ⟨method, path⟩ := by
  unfold answer
  rw [h]

theorem allowed_of_readers {t t' : RouteTable} {path : String}
    (h : t'.readers path = t.readers path) : t'.allowed path = t.allowed path := by
  unfold allowed
  rw [h]

/-! ## Adding -/

/-- What a table has gained with a rule: the rule under the next number, in its place in every order
to which it belongs. -/
structure Gained (t : RouteTable) (r : Rule) (number : RuleNumber) (t' : RouteTable) : Prop where
  number_eq : number.index = t.size
  size_eq : t'.size = t.size + 1
  /-- The other rules are the same, under the same numbers. -/
  others : ∀ other, other ≠ number → t'.rule? other = t.rule? other
  matchOrder : t'.inMatchOrder.filter (fun e => e.1 ≠ number) = t.inMatchOrder
  ofEndpoint : (t'.rulesOf r.endpoint).filter (fun e => e.1 ≠ number) = t.rulesOf r.endpoint
  ofOthers : ∀ endpoint, endpoint ≠ r.endpoint → t'.rulesOf endpoint = t.rulesOf endpoint
  /-- Where the new rule does not read the path, requests are answered as before. -/
  unread : ∃ new, t'.rule? number = some new ∧ ∀ path, new.read? path = .ok none →
    (∀ method, t'.answer ⟨method, path⟩ = t.answer ⟨method, path⟩) ∧
      t'.allowed path = t.allowed path

theorem gained_of_add (h : Consistent t) {r : Rule} {number : RuleNumber} {t' : RouteTable}
    (hadd : t.add r = .ok (number, t')) : t.Gained r number t' := by
  obtain ⟨-, -, -, -, p, -, rfl, rfl⟩ := add_eq_ok_iff.1 hadd
  have hendpoint : (t.stored r p).endpoint = r.endpoint := completeMethods_endpoint t r
  have hof := rulesOf_store h (t.stored r p) p
  rw [hendpoint] at hof
  refine {
    number_eq := rfl
    size_eq := size_store t _ p
    others := fun other hne => rule?_store_of_ne t _ p hne
    matchOrder := filter_of_oneMore (inMatchOrder_store h (t.stored r p) p)
    ofEndpoint := filter_of_oneMore hof
    ofOthers := fun endpoint hne => rulesOf_store_of_ne h p (hendpoint ▸ hne)
    unread := ⟨t.stored r p, rule?_store t _ p, fun path hread => ?_⟩ }
  have hreaders := readers_store h p hread
  exact ⟨answer_of_readers hreaders, allowed_of_readers hreaders⟩

/-- Adding a rule in place leaves the table as it was when the rule is refused, and otherwise adds
the rule and nothing else. -/
theorem tryAdd_only_inserts (h : t.Reachable) (r : Rule) :
    (∀ e t', t.tryAdd r = (.error e, t') → t' = t) ∧
      ∀ number t', t.tryAdd r = (.ok number, t') → t.Gained r number t' := by
  rw [tryAdd_eq]
  cases hadd : t.add r with
  | error e =>
    refine ⟨fun e' t' heq => ?_, fun number t' heq => ?_⟩
    · exact (Prod.mk.inj heq).2.symm
    · cases (Prod.mk.inj heq).1
  | ok result =>
    obtain ⟨number, t''⟩ := result
    refine ⟨fun e' t' heq => ?_, fun number' t' heq => ?_⟩
    · cases (Prod.mk.inj heq).1
    · obtain ⟨hnumber, rfl⟩ := Prod.mk.inj heq
      obtain rfl := Except.ok.inj hnumber
      exact gained_of_add h.consistent hadd

/-- A rule of an endpoint that the sample table has, for paths that its rules do not read. -/
def newsRule : Rule where
  template := "/news/<year>"
  endpoint := "read"
  methods := .ofList [.get]

/-- A placeholder that is never closed is refused; the other rule is the third of the table. -/
theorem tryAdd_only_inserts_sampleCalls :
    ∃ t : RouteTable, t.Reachable ∧
      (∃ e, t.tryAdd { newsRule with template := "/news/<year" } = (.error e, t)) ∧
      ∃ t', t.tryAdd newsRule = (.ok ⟨2⟩, t') ∧ t.Gained newsRule ⟨2⟩ t' := by
  let t : RouteTable := run { id := ⟨1⟩ } sampleCalls
  have hreach : t.Reachable := ⟨⟨1⟩, {}, { id := ⟨1⟩ }, sampleCalls, rfl, rfl⟩
  refine ⟨t, hreach, ?_, ?_⟩
  · have hrefused : (t.tryAdd { newsRule with template := "/news/<year" }).1.isOk = false := by
      decide +kernel
    cases hadd : t.tryAdd { newsRule with template := "/news/<year" } with
    | mk result t' =>
      rw [hadd] at hrefused
      cases result with
      | ok number => cases hrefused
      | error e =>
        obtain rfl := (tryAdd_only_inserts hreach _).1 e t' hadd
        exact ⟨e, rfl⟩
  · have hnumber : (t.tryAdd newsRule).1 = .ok ⟨2⟩ := by decide +kernel
    have hadd : t.tryAdd newsRule = (.ok ⟨2⟩, (t.tryAdd newsRule).2) := Prod.ext hnumber rfl
    exact ⟨_, hadd, (tryAdd_only_inserts hreach newsRule).2 _ _ hadd⟩

end RouteTable

end UrlRouting
