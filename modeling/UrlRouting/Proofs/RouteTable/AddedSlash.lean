import UrlRouting.Proofs.RouteTable.Following

/-
  Redirects of rules whose variables are texts.
  Such a rule builds from what it has read the path in which it stood, so it redirects to the path
  with a slash behind it and changes nothing else (`target_of_answer_redirect`), however its
  variables touch and whichever of their texts was preferred.
-/

namespace UrlRouting.RouteTable

open Template (EndsInOneSlash)

variable {t : RouteTable}

/-- A redirect comes from the first rule that asks for one. If its template ends in one slash and
all its variables are texts, the redirect leads to the path of the request with a slash behind. -/
theorem target_of_answer_redirect (h : t.Reachable) {request : Request} {target : String}
    (hredirect : t.answer request = .error (.redirectRequired target)) :
    ∃ front e back p values, t.inMatchOrder = front ++ e :: back ∧ PassedOver request front ∧
      e.2.pattern = .ok p ∧ e.2.read? request.path = .ok (some ⟨values, true⟩) ∧
      e.2.build values = .ok target ∧
      (EndsInOneSlash e.2.template.toList → (∀ c ∈ Part.converters p.parts, c.IsText) →
        target = request.path ++ "/") := by
  obtain ⟨front, e, back, values, horder, hread, hbuild, hpassed⟩ :=
    answer_eq_redirectRequired hredirect
  have he : e ∈ t.inMatchOrder := horder ▸ List.mem_append_right front List.mem_cons_self
  obtain ⟨p, hp⟩ := exists_compiled_of_inMatchOrder h he
  refine ⟨front, e, back, p, values, horder, hpassed, hp.pattern_eq, hread, hbuild, ?_⟩
  intro hend htext
  have hpath := Rule.build_of_isText hp (fun _ => hend) htext hread
  exact Except.ok.inj (hbuild.symm.trans hpath)

/-- The pattern of `/<any(b,ba):word><path:rest><tail>/`, where one variable follows another. -/
def wordsPattern : Pattern where
  parts := [.literal "/", .capture "word" (.any ["b", "ba"]), .literal "", .capture "rest" .path,
    .literal "", .capture "tail" (.string {}), .literal "/"]
  slashes := .optional

/-- The rule of that pattern as its table keeps it. -/
def wordsRule : Rule where
  template := "/<any(b,ba):word><path:rest><tail>/"
  endpoint := "page"
  methods := .ofList [.get, .head]
  binding := some ⟨⟨1⟩, wordsPattern⟩

theorem target_of_answer_redirect_words :
    (sole wordsRule.template).answer ⟨.get, "/bab/cd"⟩ = .error (.redirectRequired "/bab/cd/") ∧
      (sole wordsRule.template).inMatchOrder = [(⟨0⟩, wordsRule)] ∧
      "/bab/cd/" = "/bab/cd" ++ "/" := by
  have hredirect : (sole wordsRule.template).answer ⟨.get, "/bab/cd"⟩ =
      .error (.redirectRequired "/bab/cd/") := by
    decide +kernel
  have hwords : (sole wordsRule.template).inMatchOrder = [(⟨0⟩, wordsRule)] := by decide +kernel
  obtain ⟨front, e, back, p, values, horder, -, hp, -, -, htarget⟩ :=
    target_of_answer_redirect (reachable_sole _) hredirect
  have he : e ∈ [(⟨0⟩, wordsRule)] := by
    rw [← hwords, horder]
    exact List.mem_append_right front List.mem_cons_self
  obtain rfl := List.mem_singleton.1 he
  obtain rfl : wordsPattern = p := Except.ok.inj hp
  have hconverters : Part.converters wordsPattern.parts =
      [.any ["b", "ba"], .path, .string {}] := rfl
  refine ⟨hredirect, hwords, htarget ?_ ?_⟩
  · exact ⟨"/<any(b,ba):word><path:rest><tail>".toList, rfl, by decide⟩
  · rw [hconverters]
    simp only [List.forall_mem_cons]
    exact ⟨trivial, trivial, trivial, fun c hc => by cases hc⟩

end UrlRouting.RouteTable
