import UrlRouting.Proofs.RouteTable.Consistency
import UrlRouting.RouteTable.Answer

/-
  The outcome of a request, and what it has to do with the methods that the path allows.
  A request is settled by the first rule in matching order that reads the path and either needs a
  redirect or answers the method (`decideRequest_eq`). Where none does, the methods of all rules
  that read the path have been passed over; since no rule of a table is without a method, there are
  none of them exactly when no rule reads the path.
-/

namespace UrlRouting

/-! ## The reader that settles a request -/

namespace Reader

/-- Whether a rule that reads the path settles a request with this method. -/
def decides (method : Method) (r : Reader) : Bool :=
  r.reading.needsRedirect || r.rule.methods.contains method

/-- What a rule makes of a request that it settles. -/
def verdict (r : Reader) : Except ResolutionError Answer :=
  if r.reading.needsRedirect then
    match r.rule.build r.reading.values with
    | .ok target => .error (.redirectRequired target)
    | .error e => .error (.notBuilt r.rule.endpoint (some e))
  else .ok { number := r.number, rule := r.rule, values := r.reading.values }

theorem verdict_eq_ok_iff {r : Reader} {a : Answer} :
    r.verdict = .ok a ↔
      r.reading.needsRedirect = false ∧ a = ⟨r.number, r.rule, r.reading.values⟩ := by
  unfold verdict
  cases r.reading.needsRedirect with
  | true => cases r.rule.build r.reading.values <;> simp
  | false => simp [eq_comm]

theorem verdict_eq_redirectRequired_iff {r : Reader} {target : String} :
    r.verdict = .error (.redirectRequired target) ↔
      r.reading.needsRedirect = true ∧ r.rule.build r.reading.values = .ok target := by
  unfold verdict
  cases r.reading.needsRedirect with
  | true => cases r.rule.build r.reading.values <;> simp
  | false => simp

theorem verdict_eq_notBuilt_iff {r : Reader} :
    (∃ endpoint source, r.verdict = .error (.notBuilt endpoint source)) ↔
      r.reading.needsRedirect = true ∧ ¬ ∃ built, r.rule.build r.reading.values = .ok built := by
  unfold verdict
  cases r.reading.needsRedirect with
  | true => cases r.rule.build r.reading.values <;> simp
  | false => simp

theorem verdict_ne_methodNotAllowed (r : Reader) (method : Method) (path : String)
    (allowed : MethodSet) : r.verdict ≠ .error (.methodNotAllowed method path allowed) := by
  unfold verdict
  cases r.reading.needsRedirect with
  | true => cases r.rule.build r.reading.values <;> simp
  | false => simp

theorem verdict_cases (r : Reader) :
    (∃ a, r.verdict = .ok a) ∨ (∃ target, r.verdict = .error (.redirectRequired target)) ∨
      ∃ endpoint source, r.verdict = .error (.notBuilt endpoint source) := by
  unfold verdict
  split
  · split
    next target _ => exact .inr (.inl ⟨target, rfl⟩)
    next e _ => exact .inr (.inr ⟨_, some e, rfl⟩)
  · exact .inl ⟨_, rfl⟩

/-- What one entry of a table says to a path. -/
def ofEntry? (path : String) (e : RuleNumber × Rule) : Option Reader :=
  match e.2.read? path with
  | .ok (some reading) => some { number := e.1, rule := e.2, reading }
  | _ => none

theorem ofEntry?_eq_some_iff {path : String} {e : RuleNumber × Rule} {r : Reader} :
    ofEntry? path e = some r ↔
      e = (r.number, r.rule) ∧ r.rule.read? path = .ok (some r.reading) := by
  obtain ⟨number, rule⟩ := e
  unfold ofEntry?
  constructor
  · intro h
    split at h
    next reading hread =>
      obtain rfl := Option.some.inj h
      exact ⟨rfl, hread⟩
    · cases h
  · rintro ⟨he, hread⟩
    obtain ⟨rfl, rfl⟩ := Prod.mk.inj he
    simp only [hread]

end Reader

namespace RouteTable

/-- The methods of some readers, added to a set. -/
def methodsOf (readers : List Reader) (passed : MethodSet) : MethodSet :=
  readers.foldl (fun set r => set.union r.rule.methods) passed

theorem contains_methodsOf {readers : List Reader} {passed : MethodSet} {m : Method} :
    (methodsOf readers passed).contains m ↔
      passed.contains m ∨ ∃ r ∈ readers, r.rule.methods.contains m := by
  induction readers generalizing passed with
  | nil => simp [methodsOf]
  | cons r readers ih =>
    show (methodsOf readers (passed.union r.rule.methods)).contains m ↔ _
    rw [ih, MethodSet.contains_union, Bool.or_eq_true, or_assoc, List.exists_mem_cons_iff]

theorem allowed_eq (t : RouteTable) (path : String) :
    t.allowed path = methodsOf (t.readers path) .empty := rfl

theorem decideRequest_eq (request : Request) (readers : List Reader) (passed : MethodSet) :
    decideRequest request readers passed =
      match readers.find? (·.decides request.method) with
      | some r => r.verdict
      | none => decideRequest request [] (methodsOf readers passed) := by
  induction readers generalizing passed with
  | nil => rfl
  | cons r readers ih =>
    unfold decideRequest
    cases hredirect : r.reading.needsRedirect with
    | true =>
      rw [List.find?_cons_of_pos (by simp [Reader.decides, hredirect])]
      simp only [Reader.verdict, hredirect]
      cases r.rule.build r.reading.values <;> rfl
    | false =>
      cases hmethod : r.rule.methods.contains request.method with
      | true =>
        rw [List.find?_cons_of_pos (by simp [Reader.decides, hmethod])]
        simp [Reader.verdict, hredirect]
      | false =>
        rw [List.find?_cons_of_neg (by simp [Reader.decides, hredirect, hmethod])]
        exact ih _

/-! ## Readers and rules -/

theorem readers_eq (t : RouteTable) (path : String) :
    t.readers path = t.inMatchOrder.filterMap (Reader.ofEntry? path) := rfl

theorem mem_readers {t : RouteTable} {path : String} {r : Reader} :
    r ∈ t.readers path ↔
      (r.number, r.rule) ∈ t.inMatchOrder ∧ r.rule.read? path = .ok (some r.reading) := by
  rw [readers_eq, List.mem_filterMap]
  constructor
  · rintro ⟨e, he, hr⟩
    obtain ⟨rfl, hread⟩ := Reader.ofEntry?_eq_some_iff.1 hr
    exact ⟨he, hread⟩
  · rintro ⟨he, hread⟩
    exact ⟨_, he, Reader.ofEntry?_eq_some_iff.2 ⟨rfl, hread⟩⟩

/-- The readers before one come from the rules before it in matching order. -/
theorem exists_front_of_readers {t : RouteTable} {path : String} {r : Reader}
    {before later : List Reader} (h : t.readers path = before ++ r :: later) :
    ∃ front back, t.inMatchOrder = front ++ (r.number, r.rule) :: back ∧
      r.rule.read? path = .ok (some r.reading) ∧
        front.filterMap (Reader.ofEntry? path) = before := by
  rw [readers_eq] at h
  obtain ⟨front, rest, horder, hfront, hrest⟩ := List.filterMap_eq_append_iff.1 h
  obtain ⟨silent, e, back, hsplit, hsilent, he, _⟩ := List.filterMap_eq_cons_iff.1 hrest
  obtain ⟨rfl, hread⟩ := Reader.ofEntry?_eq_some_iff.1 he
  refine ⟨front ++ silent, back, ?_, hread, ?_⟩
  · rw [horder, hsplit, List.append_assoc]
  · rw [List.filterMap_append, hfront, List.filterMap_eq_nil_iff.2 hsilent, List.append_nil]

/-- The rules before one in matching order that read the path come before it among the readers. -/
theorem inMatchOrder_of_readers {t : RouteTable} {path : String} {r : Reader}
    {before later : List Reader} (h : t.readers path = before ++ r :: later) :
    ∃ front back, t.inMatchOrder = front ++ (r.number, r.rule) :: back ∧
      r.rule.read? path = .ok (some r.reading) ∧
        ∀ e ∈ front, ∀ reading, e.2.read? path = .ok (some reading) →
          { number := e.1, rule := e.2, reading } ∈ before := by
  obtain ⟨front, back, horder, hread, rfl⟩ := exists_front_of_readers h
  refine ⟨front, back, horder, hread, fun e he reading hreading => ?_⟩
  exact List.mem_filterMap.2 ⟨e, he, Reader.ofEntry?_eq_some_iff.2 ⟨rfl, hreading⟩⟩

/-- No rule of the table reads the path. -/
def Unread (t : RouteTable) (path : String) : Prop :=
  ∀ r ∈ t.rules, ∀ reading, r.read? path ≠ .ok (some reading)

theorem readers_eq_nil_iff {t : RouteTable} (h : Consistent t) {path : String} :
    t.readers path = [] ↔ t.Unread path := by
  rw [List.eq_nil_iff_forall_not_mem]
  constructor
  · intro hnone r hr reading hread
    obtain ⟨number, hnumber⟩ := mem_rules_iff.1 hr
    refine hnone { number, rule := r, reading } (mem_readers.2 ⟨?_, hread⟩)
    exact (mem_inMatchOrder h).2 (mem_numbered.1 hnumber)
  · intro hnone r hr
    obtain ⟨hentry, hread⟩ := mem_readers.1 hr
    have hrule := (mem_inMatchOrder h).1 hentry
    exact hnone r.rule (mem_rules_iff.2 ⟨r.number, mem_numbered.2 hrule⟩) r.reading hread

theorem exists_method_of_mem_readers {t : RouteTable} (h : Consistent t) {path : String}
    {r : Reader} (hr : r ∈ t.readers path) : ∃ m, r.rule.methods.contains m := by
  have hrule := (mem_inMatchOrder h).1 (mem_readers.1 hr).1
  have hmethods := h.methods r.rule (mem_rules_iff.2 ⟨r.number, mem_numbered.2 hrule⟩)
  by_contra hnone
  have hempty : r.rule.methods.isEmpty = true :=
    MethodSet.isEmpty_iff.2 fun m => by simpa using not_exists.1 hnone m
  rw [hmethods] at hempty
  cases hempty

/-- Because no rule is without a method, a path allows none only where no rule reads it. -/
theorem allowed_isEmpty_iff {t : RouteTable} (h : Consistent t) {path : String} :
    (t.allowed path).isEmpty ↔ t.readers path = [] := by
  constructor
  · intro hempty
    rw [List.eq_nil_iff_forall_not_mem]
    intro r hr
    obtain ⟨m, hm⟩ := exists_method_of_mem_readers h hr
    have hallowed : (t.allowed path).contains m := by
      rw [allowed_eq]
      exact contains_methodsOf.2 (.inr ⟨r, hr, hm⟩)
    rw [MethodSet.isEmpty_iff.1 hempty m] at hallowed
    cases hallowed
  · intro hnone
    rw [allowed_eq, hnone]
    rfl

/-! ## Outcomes -/

/-- Whether a request has no rule at all. -/
def isNotFound : Except ResolutionError Answer → Bool
  | .error (.notFound _) => true
  | _ => false

theorem isNotFound_verdict (r : Reader) : isNotFound r.verdict = false := by
  unfold Reader.verdict
  split
  · split <;> rfl
  · rfl

theorem isNotFound_answer {t : RouteTable} (h : Consistent t) (request : Request) :
    isNotFound (t.answer request) ↔ t.readers request.path = [] := by
  unfold answer
  rw [decideRequest_eq]
  cases hfind : (t.readers request.path).find? (·.decides request.method) with
  | some r =>
    simp only [isNotFound_verdict, Bool.false_eq_true, false_iff]
    intro hnone
    rw [hnone] at hfind
    cases hfind
  | none =>
    rw [← allowed_isEmpty_iff h, allowed_eq]
    unfold decideRequest
    dsimp only
    cases (methodsOf (t.readers request.path) .empty).isEmpty <;> simp [isNotFound]

/-- The rules that stand before the one that settles a request do not settle it. -/
def PassedOver (request : Request) (front : List (RuleNumber × Rule)) : Prop :=
  ∀ e ∈ front, ∀ reading, e.2.read? request.path = .ok (some reading) →
    reading.needsRedirect = false ∧ e.2.methods.contains request.method = false

/-- A request that is settled is settled by the first reader that decides. -/
theorem exists_settling {t : RouteTable} {request : Request} {r : Reader}
    (h : (t.readers request.path).find? (·.decides request.method) = some r) :
    r.decides request.method ∧ ∃ front back,
      t.inMatchOrder = front ++ (r.number, r.rule) :: back ∧
        r.rule.read? request.path = .ok (some r.reading) ∧ PassedOver request front := by
  obtain ⟨hdecides, before, later, hreaders, hbefore⟩ := List.find?_eq_some_iff_append.1 h
  obtain ⟨front, back, horder, hread, hfront⟩ := inMatchOrder_of_readers hreaders
  refine ⟨hdecides, front, back, horder, hread, ?_⟩
  intro e he reading hreading
  have hpassed := hbefore _ (hfront e he reading hreading)
  simpa [Reader.decides] using hpassed

/-- The reader that settles a request, if there is one. -/
def settler? (t : RouteTable) (request : Request) : Option Reader :=
  (t.readers request.path).find? (·.decides request.method)

theorem answer_of_settler? {t : RouteTable} {request : Request} {r : Reader}
    (h : t.settler? request = some r) : t.answer request = r.verdict := by
  unfold answer
  rw [decideRequest_eq]
  unfold settler? at h
  rw [h]

/-- Without a reader that settles it, a request has no answer and no redirect. -/
theorem answer_of_settler?_eq_none {t : RouteTable} {request : Request}
    (h : t.settler? request = none) :
    t.answer request = .error (.notFound request.path) ∨
      t.answer request =
        .error (.methodNotAllowed request.method request.path (t.allowed request.path)) := by
  unfold answer
  rw [decideRequest_eq]
  unfold settler? at h
  rw [h, allowed_eq]
  unfold decideRequest
  dsimp only
  split
  · exact .inl rfl
  · exact .inr rfl

theorem answer_eq_ok {t : RouteTable} {request : Request} {a : Answer}
    (h : t.answer request = .ok a) :
    ∃ front back, t.inMatchOrder = front ++ (a.number, a.rule) :: back ∧
      a.rule.read? request.path = .ok (some ⟨a.values, false⟩) ∧
        a.rule.methods.contains request.method ∧ PassedOver request front ∧
          (t.allowed request.path).contains request.method := by
  unfold answer at h
  rw [decideRequest_eq] at h
  split at h
  next r hfind =>
    obtain ⟨hdecides, front, back, horder, hread, hpassed⟩ := exists_settling hfind
    obtain ⟨hredirect, rfl⟩ := Reader.verdict_eq_ok_iff.1 h
    have hmethod : r.rule.methods.contains request.method := by
      simpa [Reader.decides, hredirect] using hdecides
    refine ⟨front, back, horder, ?_, hmethod, hpassed, ?_⟩
    · rw [hread, ← hredirect]
    · rw [allowed_eq]
      exact contains_methodsOf.2 (.inr ⟨r, List.mem_of_find?_eq_some hfind, hmethod⟩)
  · unfold decideRequest at h
    split at h <;> cases h

theorem answer_eq_redirectRequired {t : RouteTable} {request : Request} {target : String}
    (h : t.answer request = .error (.redirectRequired target)) :
    ∃ front e back values, t.inMatchOrder = front ++ e :: back ∧
      e.2.read? request.path = .ok (some ⟨values, true⟩) ∧ e.2.build values = .ok target ∧
        PassedOver request front := by
  unfold answer at h
  rw [decideRequest_eq] at h
  split at h
  next r hfind =>
    obtain ⟨_, front, back, horder, hread, hpassed⟩ := exists_settling hfind
    obtain ⟨hredirect, hbuild⟩ := Reader.verdict_eq_redirectRequired_iff.1 h
    refine ⟨front, _, back, r.reading.values, horder, ?_, hbuild, hpassed⟩
    rw [hread, ← hredirect]
  · unfold decideRequest at h
    split at h <;> simp at h

theorem answer_eq_methodNotAllowed {t : RouteTable} {request : Request} {method : Method}
    {path : String} {allowed : MethodSet}
    (h : t.answer request = .error (.methodNotAllowed method path allowed)) :
    method = request.method ∧ path = request.path ∧ allowed = t.allowed request.path ∧
      allowed.contains request.method = false := by
  unfold answer at h
  rw [decideRequest_eq] at h
  split at h
  · exact absurd h (Reader.verdict_ne_methodNotAllowed _ _ _ _)
  next hfind =>
    unfold decideRequest at h
    split at h
    · simp at h
    · obtain ⟨rfl, rfl, rfl⟩ : request.method = method ∧ request.path = path ∧
          methodsOf (t.readers request.path) .empty = allowed := by simpa using h
      refine ⟨rfl, rfl, rfl, ?_⟩
      rw [Bool.eq_false_iff]
      intro hcontains
      rcases contains_methodsOf.1 hcontains with hempty | ⟨r, hr, hmethod⟩
      · simp at hempty
      · have hundecided := List.find?_eq_none.1 hfind r hr
        simp [Reader.decides, hmethod] at hundecided

/-- How the outcome of a request agrees with what the rules read and with the methods that its path
allows. -/
structure Agrees (t : RouteTable) (request : Request) : Prop where
  unread_iff : isNotFound (t.answer request) ↔ t.Unread request.path
  isEmpty_iff : isNotFound (t.answer request) ↔ (t.allowed request.path).isEmpty
  /-- Where nothing is found, nothing is with any method. -/
  everyMethod_iff : isNotFound (t.answer request) ↔
    ∀ method, isNotFound (t.answer { request with method })
  refused : ∀ method path allowed,
    t.answer request = .error (.methodNotAllowed method path allowed) →
      allowed = t.allowed request.path ∧ allowed.contains request.method = false
  answered : ∀ a, t.answer request = .ok a →
    ∃ front back, t.inMatchOrder = front ++ (a.number, a.rule) :: back ∧
      a.rule.read? request.path = .ok (some ⟨a.values, false⟩) ∧
        a.rule.methods.contains request.method ∧ PassedOver request front ∧
          (t.allowed request.path).contains request.method
  redirected : ∀ target, t.answer request = .error (.redirectRequired target) →
    ∃ front e back values, t.inMatchOrder = front ++ e :: back ∧
      e.2.read? request.path = .ok (some ⟨values, true⟩) ∧ e.2.build values = .ok target ∧
        PassedOver request front

/-- Nothing is found exactly where no rule reads the path, and then with every method; a method is
refused with all that the path allows; and a rule or a redirect comes from the first rule in matching
order that has one to give. -/
theorem answer_agrees_with_allowed {t : RouteTable} (h : t.Reachable) (request : Request) :
    t.Agrees request where
  unread_iff := by rw [isNotFound_answer h.consistent, readers_eq_nil_iff h.consistent]
  isEmpty_iff := by rw [isNotFound_answer h.consistent, allowed_isEmpty_iff h.consistent]
  everyMethod_iff := by
    constructor
    · intro hnone method
      exact (isNotFound_answer h.consistent _).2 ((isNotFound_answer h.consistent request).1 hnone)
    · intro hnone
      exact hnone request.method
  refused := fun _ _ _ hrefused => (answer_eq_methodNotAllowed hrefused).2.2
  answered := fun _ ha => answer_eq_ok ha
  redirected := fun _ ht => answer_eq_redirectRequired ht

/-- A method that neither of two rules answers is refused with the methods of both. -/
theorem answer_agrees_with_allowed_sampleCalls :
    (run { id := ⟨1⟩ } sampleCalls).Reachable ∧
      (run { id := ⟨1⟩ } sampleCalls).answer ⟨.delete, "/docs/7/"⟩ =
        .error (.methodNotAllowed .delete "/docs/7/" (.ofList [.get, .head, .post])) ∧
      (run { id := ⟨1⟩ } sampleCalls).allowed "/docs/7/" = .ofList [.get, .head, .post] := by
  have hreach : (run { id := ⟨1⟩ } sampleCalls).Reachable :=
    ⟨⟨1⟩, {}, { id := ⟨1⟩ }, sampleCalls, rfl, rfl⟩
  have hrefused : (run { id := ⟨1⟩ } sampleCalls).answer ⟨.delete, "/docs/7/"⟩ =
      .error (.methodNotAllowed .delete "/docs/7/" (.ofList [.get, .head, .post])) := by
    decide +kernel
  have hagrees := answer_agrees_with_allowed hreach ⟨.delete, "/docs/7/"⟩
  exact ⟨hreach, hrefused, (hagrees.refused _ _ _ hrefused).1.symm⟩

end RouteTable

end UrlRouting
