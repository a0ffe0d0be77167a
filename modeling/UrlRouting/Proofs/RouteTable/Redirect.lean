import UrlRouting.Proofs.RouteTable.Outcome
import UrlRouting.Proofs.Rule.Reading

/-
  Redirects to the path with the slash.
  Whatever the rules of a table are, none of them asks for a redirect from a path that ends in a
  slash (`needsRedirect_of_endsInSlash`), and a redirect leads to such a path, because only branches
  ask for one and a branch builds nothing else. So a redirect is never followed by another
  (`answer_of_redirect`), whichever rule answers then.
-/

namespace UrlRouting.RouteTable

variable {t : RouteTable}

theorem exists_compiled_of_inMatchOrder (h : t.Reachable) {e : RuleNumber × Rule}
    (he : e ∈ t.inMatchOrder) : ∃ p, e.2.Compiled p := by
  have hrule := (mem_inMatchOrder h.consistent).1 he
  exact h.exists_compiled e.2 (mem_rules_iff.2 ⟨e.1, mem_numbered.2 hrule⟩)

/-- No rule asks for a redirect from a path that ends in a slash. -/
theorem needsRedirect_of_endsInSlash (h : t.Reachable) {e : RuleNumber × Rule}
    (he : e ∈ t.inMatchOrder) {path : String} (hpath : path.toList.getLast? = some '/')
    {m : RuleReading} (hread : e.2.read? path = .ok (some m)) : m.needsRedirect = false := by
  obtain ⟨p, hp⟩ := exists_compiled_of_inMatchOrder h he
  obtain ⟨texts, -, -, -, -, hredirect⟩ := Rule.exists_texts_of_read? hp hread
  rw [← Bool.not_eq_true, hredirect]
  exact fun hopen => hopen.2 hpath

/-- A rule that asks for a redirect is a branch, and the path does not end in a slash. -/
theorem isBranch_of_needsRedirect {r : Rule} {p : Pattern} (hp : r.Compiled p) {path : String}
    {values : Values} (hread : r.read? path = .ok (some ⟨values, true⟩)) :
    r.isBranch = true ∧ path.toList.getLast? ≠ some '/' := by
  obtain ⟨texts, -, -, -, -, hredirect⟩ := Rule.exists_texts_of_read? hp hread
  obtain ⟨hopen, hpath⟩ := hredirect.1 rfl
  exact ⟨(Rule.slashPolicy_eq_optional_iff.1 hopen).1, hpath⟩

/-- A request is redirected from a path without a slash at its end to one with a slash there, and
for that path no method is redirected again. -/
theorem answer_of_redirect (h : t.Reachable) {request : Request} {target : String}
    (hredirect : t.answer request = .error (.redirectRequired target)) :
    request.path.toList.getLast? ≠ some '/' ∧ target.toList.getLast? = some '/' ∧
      ∀ method other, t.answer ⟨method, target⟩ ≠ .error (.redirectRequired other) := by
  obtain ⟨front, e, back, values, horder, hread, hbuild, -⟩ :=
    answer_eq_redirectRequired hredirect
  have he : e ∈ t.inMatchOrder := horder ▸ List.mem_append_right front List.mem_cons_self
  obtain ⟨p, hp⟩ := exists_compiled_of_inMatchOrder h he
  obtain ⟨hbranch, hpath⟩ := isBranch_of_needsRedirect hp hread
  have htarget := Rule.endsInSlash_of_build hp hbranch hbuild
  refine ⟨hpath, htarget, ?_⟩
  intro method other hagain
  obtain ⟨front', e', back', values', horder', hread', -, -⟩ := answer_eq_redirectRequired hagain
  have he' : e' ∈ t.inMatchOrder := horder' ▸ List.mem_append_right front' List.mem_cons_self
  cases needsRedirect_of_endsInSlash h he' htarget hread'

/-- A page without its slash is redirected, and the page with it is found or refused. -/
theorem answer_of_redirect_sampleCalls :
    (run { id := ⟨1⟩ } sampleCalls).answer ⟨.get, "/docs/007"⟩ =
        .error (.redirectRequired "/docs/7/") ∧
      ∀ method other, (run { id := ⟨1⟩ } sampleCalls).answer ⟨method, "/docs/7/"⟩ ≠
        .error (.redirectRequired other) := by
  have hreach : (run { id := ⟨1⟩ } sampleCalls).Reachable :=
    ⟨⟨1⟩, {}, { id := ⟨1⟩ }, sampleCalls, rfl, rfl⟩
  have hredirect : (run { id := ⟨1⟩ } sampleCalls).answer ⟨.get, "/docs/007"⟩ =
      .error (.redirectRequired "/docs/7/") := by
    decide +kernel
  exact ⟨hredirect, (answer_of_redirect hreach hredirect).2.2⟩

end UrlRouting.RouteTable
