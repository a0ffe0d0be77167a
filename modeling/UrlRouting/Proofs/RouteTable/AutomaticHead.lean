import UrlRouting.Proofs.RouteTable.Outcome

/-
  Automatic HEAD: where GET is answered, HEAD is answered too.
  Only `add` stores rules, and it gives HEAD to an unbound rule that answers GET and refuses a bound
  one; so every call preserves that the rules of a table answer HEAD where they answer GET
  (`answersHead_after`). A rule that settles a GET request then settles the HEAD request for the
  path, unless a rule before it that does not answer GET has done so (`exists_settler_of_head`).
-/

namespace UrlRouting

/-- Where every element with the first property has the second, the first element with the second
stands no later than the first with the first. -/
theorem exists_find?_of_imp {α : Type} {p q : α → Bool} {xs : List α} {a : α}
    (himp : ∀ b ∈ xs, p b = true → q b = true) (h : xs.find? p = some a) :
    ∃ b before later, xs = before ++ a :: later ∧ xs.find? q = some b ∧
      (b = a ∨ b ∈ before ∧ p b = false) := by
  obtain ⟨ha, before, later, rfl, hbefore⟩ := List.find?_eq_some_iff_append.1 h
  have hqa : q a = true := himp a (List.mem_append_right before List.mem_cons_self) ha
  cases hfind : before.find? q with
  | none =>
    refine ⟨a, before, later, rfl, ?_, .inl rfl⟩
    rw [List.find?_append, hfind, Option.none_or, List.find?_cons_of_pos hqa]
  | some b =>
    have hb := List.mem_of_find?_eq_some hfind
    refine ⟨b, before, later, rfl, ?_, .inr ⟨hb, by simpa using hbefore b hb⟩⟩
    rw [List.find?_append, hfind, Option.some_or]

/-! ## Rules -/

/-- Whether the rule answers HEAD if it answers GET. -/
def Rule.AnswersHead (r : Rule) : Prop :=
  r.methods.contains .get = true → r.methods.contains .head = true

theorem Reader.decides_head {r : Reader} (h : r.rule.AnswersHead) (hget : r.decides .get = true) :
    r.decides .head = true := by
  unfold decides at *
  rw [Bool.or_eq_true] at *
  exact hget.imp_right h

namespace RouteTable

variable {t : RouteTable}

theorem answersHead_completeMethods (hauto : t.options.automaticHead = true) {r : Rule}
    (hbinding : r.binding = none) : (t.completeMethods r).AnswersHead := by
  intro hget
  have hkept : r.methods.contains .get = true := by
    unfold completeMethods at hget
    split at hget
    · simpa using hget
    · exact hget
  unfold completeMethods
  rw [if_pos (by simp [hauto, hbinding, hkept])]
  simp

/-- A rule that is bound, to this table or to another, is refused. -/
theorem add_of_bound {r : Rule} (hbinding : r.binding ≠ none) : ∃ e, t.add r = .error e := by
  cases hadd : t.add r with
  | error e => exact ⟨e, rfl⟩
  | ok result =>
    obtain ⟨number, t'⟩ := result
    obtain ⟨-, -, hnone, -⟩ := add_eq_ok_iff.1 hadd
    exact absurd hnone hbinding

/-! ## What a call preserves -/

theorem answersHead_after (hauto : t.options.automaticHead = true)
    (h : ∀ r ∈ t.rules, r.AnswersHead) (call : TableCall) :
    ∀ r ∈ (t.after call).rules, r.AnswersHead := by
  rcases t.after_cases call with hsame | ⟨name, declaration, hdeclared⟩ | ⟨s, p, htakes, hstored⟩
  · rwa [hsame]
  · rwa [hdeclared]
  · rw [hstored]
    intro r hr
    rcases mem_store.1 hr with hr | rfl
    · exact h r hr
    · exact answersHead_completeMethods hauto htakes.unbound

theorem answersHead_run (hauto : t.options.automaticHead = true)
    (h : ∀ r ∈ t.rules, r.AnswersHead) (calls : List TableCall) :
    ∀ r ∈ (t.run calls).rules, r.AnswersHead := by
  have hboth : (t.run calls).options.automaticHead = true ∧
      ∀ r ∈ (t.run calls).rules, r.AnswersHead := by
    refine run_preserves
      (P := fun u => u.options.automaticHead = true ∧ ∀ r ∈ u.rules, r.AnswersHead)
      ?_ ⟨hauto, h⟩ calls
    intro u call hu
    refine ⟨?_, answersHead_after hu.1 hu.2 call⟩
    rw [(options_after u call).2, hu.1]
  exact hboth.2

theorem Reachable.answersHead (h : t.Reachable) (hauto : t.options.automaticHead = true) :
    ∀ r ∈ t.rules, r.AnswersHead := by
  obtain ⟨id, options, start, calls, hstart, rfl⟩ := h
  rw [(options_run start calls).2] at hauto
  refine answersHead_run hauto ?_ calls
  obtain ⟨-, rfl⟩ := create_eq_ok_iff.1 hstart
  intro r hr
  cases Array.not_mem_empty r hr

/-! ## Two requests for a path -/

theorem answersHead_of_mem_readers (h : t.Reachable) (hauto : t.options.automaticHead = true)
    {path : String} {r : Reader} (hr : r ∈ t.readers path) : r.rule.AnswersHead := by
  have hrule := (mem_inMatchOrder h.consistent).1 (mem_readers.1 hr).1
  exact h.answersHead hauto r.rule (mem_rules_iff.2 ⟨r.number, mem_numbered.2 hrule⟩)

/-- Whether the first rule stands in matching order where the second does, or before it. -/
def NoLater (t : RouteTable) (e e' : RuleNumber × Rule) : Prop :=
  ∃ front back, t.inMatchOrder = front ++ e' :: back ∧ (e = e' ∨ e ∈ front)

/-- What settles a HEAD request is what settles the GET request for the path, or a rule before it
that asks for no redirect. -/
theorem exists_settler_of_head (h : t.Reachable) (hauto : t.options.automaticHead = true)
    {path : String} {r : Reader} (hget : t.settler? ⟨.get, path⟩ = some r) :
    ∃ s, t.settler? ⟨.head, path⟩ = some s ∧
      t.NoLater (s.number, s.rule) (r.number, r.rule) ∧
        (s = r ∨ s.reading.needsRedirect = false) := by
  have himp : ∀ s ∈ t.readers path, s.decides .get = true → s.decides .head = true :=
    fun s hs hdecides => Reader.decides_head (answersHead_of_mem_readers h hauto hs) hdecides
  obtain ⟨s, before, later, hreaders, hhead, hs⟩ := exists_find?_of_imp himp hget
  obtain ⟨front, back, horder, -, hfront⟩ := exists_front_of_readers hreaders
  rcases hs with rfl | ⟨hs, hpassed⟩
  · exact ⟨s, hhead, ⟨front, back, horder, .inl rfl⟩, .inl rfl⟩
  · refine ⟨s, hhead, ⟨front, back, horder, .inr ?_⟩, .inr ?_⟩
    · rw [← hfront] at hs
      obtain ⟨e, he, hread⟩ := List.mem_filterMap.1 hs
      obtain ⟨rfl, -⟩ := Reader.ofEntry?_eq_some_iff.1 hread
      exact he
    · exact (Bool.or_eq_false_iff.1 hpassed).1

theorem answer_head_of_ok (h : t.Reachable) (hauto : t.options.automaticHead = true)
    {path : String} {a : Answer} (hget : t.answer ⟨.get, path⟩ = .ok a) :
    ∃ b, t.answer ⟨.head, path⟩ = .ok b ∧ t.NoLater (b.number, b.rule) (a.number, a.rule) := by
  cases hsettler : t.settler? ⟨.get, path⟩ with
  | none => rcases answer_of_settler?_eq_none hsettler with hnone | hnone <;> simp [hget] at hnone
  | some r =>
    rw [answer_of_settler? hsettler] at hget
    obtain ⟨hredirect, rfl⟩ := Reader.verdict_eq_ok_iff.1 hget
    obtain ⟨s, hhead, hplace, hs⟩ := exists_settler_of_head h hauto hsettler
    have hsredirect : s.reading.needsRedirect = false := by
      rcases hs with rfl | hs
      · exact hredirect
      · exact hs
    refine ⟨⟨s.number, s.rule, s.reading.values⟩, ?_, hplace⟩
    rw [answer_of_settler? hhead]
    exact Reader.verdict_eq_ok_iff.2 ⟨hsredirect, rfl⟩

theorem answer_head_of_redirect (h : t.Reachable) (hauto : t.options.automaticHead = true)
    {path target : String} (hget : t.answer ⟨.get, path⟩ = .error (.redirectRequired target)) :
    (∃ b, t.answer ⟨.head, path⟩ = .ok b) ∨
      t.answer ⟨.head, path⟩ = .error (.redirectRequired target) := by
  cases hsettler : t.settler? ⟨.get, path⟩ with
  | none => rcases answer_of_settler?_eq_none hsettler with hnone | hnone <;> simp [hget] at hnone
  | some r =>
    rw [answer_of_settler? hsettler] at hget
    obtain ⟨s, hhead, -, rfl | hs⟩ := exists_settler_of_head h hauto hsettler
    · exact .inr ((answer_of_settler? hhead).trans hget)
    · refine .inl ⟨⟨s.number, s.rule, s.reading.values⟩, ?_⟩
      rw [answer_of_settler? hhead]
      exact Reader.verdict_eq_ok_iff.2 ⟨hs, rfl⟩

theorem contains_head_allowed (h : t.Reachable) (hauto : t.options.automaticHead = true)
    {path : String} (hget : (t.allowed path).contains .get = true) :
    (t.allowed path).contains .head = true := by
  rw [allowed_eq] at *
  rcases contains_methodsOf.1 hget with hnone | ⟨r, hr, hmethod⟩
  · simp at hnone
  · exact contains_methodsOf.2 (.inr ⟨r, hr, answersHead_of_mem_readers h hauto hr hmethod⟩)

/-- How HEAD follows GET in a table and on one of its paths. -/
structure HeadFollowsGet (t : RouteTable) (path : String) : Prop where
  methods : ∀ r ∈ t.rules, r.methods.contains .get = true → r.methods.contains .head = true
  /-- No rule that is bound already, whatever its methods, gets into the table. -/
  boundRefused : ∀ r : Rule, r.binding ≠ none → ∃ e, t.add r = .error e
  answered : ∀ a, t.answer ⟨.get, path⟩ = .ok a → ∃ b, t.answer ⟨.head, path⟩ = .ok b ∧
    t.NoLater (b.number, b.rule) (a.number, a.rule)
  redirected : ∀ target, t.answer ⟨.get, path⟩ = .error (.redirectRequired target) →
    (∃ b, t.answer ⟨.head, path⟩ = .ok b) ∨
      t.answer ⟨.head, path⟩ = .error (.redirectRequired target)
  allowed : (t.allowed path).contains .get = true → (t.allowed path).contains .head = true

/-- With automatic HEAD every rule that answers GET answers HEAD, and no bound rule is let in
without it. A path that has an answer to GET has one to HEAD, by the same rule or one before it; one
that is redirected for GET has an answer to HEAD or the same redirect; and no path allows GET
without HEAD. -/
theorem head_answered_where_get_is (h : t.Reachable) (hauto : t.options.automaticHead = true)
    (path : String) : t.HeadFollowsGet path where
  methods := h.answersHead hauto
  boundRefused := fun _ hbinding => add_of_bound hbinding
  answered := fun _ hget => answer_head_of_ok h hauto hget
  redirected := fun _ hget => answer_head_of_redirect h hauto hget
  allowed := contains_head_allowed h hauto

/-- A rule for GET, a lighter one for HEAD alone, and one that is bound to another table. -/
def headCalls : List TableCall :=
  [.add { template := "/<name>", endpoint := "page", methods := .ofList [.get] },
    .add { template := "/<int:number>", endpoint := "probe", methods := .ofList [.head] },
    .add {
      template := "/about", endpoint := "about", methods := .ofList [.get]
      binding := some ⟨⟨9⟩, { parts := [.literal "/about"], slashes := .exact }⟩ }]

/-- The two requests are answered by different rules, the one for HEAD before the other. -/
theorem head_answered_where_get_is_headCalls :
    ∃ t : RouteTable, t.Reachable ∧ t.options.automaticHead = true ∧ t.size = 2 ∧
      ∃ a b, t.answer ⟨.get, "/7"⟩ = .ok a ∧ t.answer ⟨.head, "/7"⟩ = .ok b ∧
        t.NoLater (b.number, b.rule) (a.number, a.rule) ∧ a.number ≠ b.number := by
  let t : RouteTable := run { id := ⟨1⟩ } headCalls
  have hreach : t.Reachable := ⟨⟨1⟩, {}, { id := ⟨1⟩ }, headCalls, rfl, rfl⟩
  have hauto : t.options.automaticHead = true := by decide +kernel
  have hget : (t.answer ⟨.get, "/7"⟩).map Answer.number = .ok ⟨0⟩ := by decide +kernel
  have hhead : (t.answer ⟨.head, "/7"⟩).map Answer.number = .ok ⟨1⟩ := by decide +kernel
  refine ⟨t, hreach, hauto, by decide +kernel, ?_⟩
  cases ha : t.answer ⟨.get, "/7"⟩ with
  | error e =>
    rw [ha] at hget
    cases hget
  | ok a =>
    obtain ⟨b, hb, hplace⟩ := (head_answered_where_get_is hreach hauto "/7").answered a ha
    rw [ha] at hget
    rw [hb] at hhead
    refine ⟨a, b, rfl, hb, hplace, ?_⟩
    rw [Except.ok.inj hget, Except.ok.inj hhead]
    decide

end RouteTable

end UrlRouting
