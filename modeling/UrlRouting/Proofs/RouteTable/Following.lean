import UrlRouting.Proofs.RouteTable.Redirect
import UrlRouting.Proofs.Rule.Following

/-
  Where a redirect leads.
  A redirect comes from the first rule in matching order that asks for one, and this rule reads the
  path to which it leads with the same values, as long as it leaves the slash at the end alone and
  every variable that is written anew has one place there (`read?_of_answer_redirect`).
  Neither condition can be spared. A word of a choice may end in the slash, and digits that are put
  in front of a number, or taken away, may let the texts be cut off elsewhere (`misleads`).
-/

namespace UrlRouting.RouteTable

open Template (EndsInOneSlash)

variable {t : RouteTable}

/-- A redirect comes from a rule that reads the path to which it leads with the values of the path
from which it came, where the template ends in one slash, which the target leaves to its place, and
each variable keeps its text or has one place there. -/
theorem read?_of_answer_redirect (h : t.Reachable) {request : Request} {target : String}
    (hredirect : t.answer request = .error (.redirectRequired target)) :
    ∃ front e back values p reading, t.inMatchOrder = front ++ e :: back ∧
      PassedOver request front ∧ e.2.pattern = .ok p ∧ p.read? request.path = some reading ∧
      e.2.read? request.path = .ok (some ⟨values, true⟩) ∧ e.2.build values = .ok target ∧
      (EndsInOneSlash e.2.template.toList →
        LeaveSlash (p.body.map Part.piece) target.toList →
        p.MayRewrite values target.toList.dropLast (reading.texts.map String.toList) →
        e.2.read? target = .ok (some ⟨values, false⟩)) := by
  obtain ⟨front, e, back, values, horder, hread, hbuild, hpassed⟩ :=
    answer_eq_redirectRequired hredirect
  have he : e ∈ t.inMatchOrder := horder ▸ List.mem_append_right front List.mem_cons_self
  obtain ⟨p, hp⟩ := exists_compiled_of_inMatchOrder h he
  obtain ⟨texts, hreading, -⟩ := Rule.exists_texts_of_read? hp hread
  refine ⟨front, e, back, values, p, _, horder, hpassed, hp.pattern_eq, hreading, hread, hbuild, ?_⟩
  intro hend hleave hmay
  refine Rule.read?_of_redirect hp hend hread hbuild hleave fun reading hreading' => ?_
  obtain rfl := Option.some.inj (hreading.symm.trans hreading')
  exact hmay

/-! ## Tables of one rule -/

/-- A table with one rule, which has this template. -/
def sole (template : String) : RouteTable :=
  run { id := ⟨1⟩ } [.add { template, endpoint := "page", methods := .ofList [.get] }]

theorem reachable_sole (template : String) : (sole template).Reachable :=
  ⟨⟨1⟩, {}, { id := ⟨1⟩ }, _, rfl, rfl⟩

/-- The pattern of `/docs/<int:page>/` where the slash at the end is open. -/
def pagePattern : Pattern where
  parts := [.literal "/docs/", .capture "page" (.int {}), .literal "/"]
  slashes := .optional

/-- Between slashes a number has one place in every text. -/
theorem hasOnePlace_pagePattern (text : List Char) : pagePattern.HasOnePlace text "page" := by
  have hparts : pagePattern.parts =
      [] ++ .literal "/docs/" :: .capture "page" (.int {}) :: .literal "/" :: [] := rfl
  refine Pattern.hasOnePlace_of_marks (a := '/') (b := '/') rfl (by decide) hparts (by decide)
    (by decide) ?_ (.inl rfl) (.inl ?_) text
  · intro digits hdigits
    have hslash := Converter.not_mem_of_isPlain (c := .int {}) trivial hdigits
    exact ⟨hslash, hslash⟩
  · intro c hc
    cases hc

/-- The rule of that pattern as its table keeps it. -/
def pageRule : Rule where
  template := "/docs/<int:page>/"
  endpoint := "page"
  methods := .ofList [.get, .head]
  binding := some ⟨⟨1⟩, pagePattern⟩

/-- The page is found again when its zeros are gone. -/
theorem read?_of_answer_redirect_page :
    (sole "/docs/<int:page>/").answer ⟨.get, "/docs/007"⟩ =
        .error (.redirectRequired "/docs/7/") ∧
      ∃ e, (sole "/docs/<int:page>/").inMatchOrder = [e] ∧
        e.2.read? "/docs/7/" = .ok (some ⟨.ofList [("page", .int 7)], false⟩) := by
  have hredirect : (sole "/docs/<int:page>/").answer ⟨.get, "/docs/007"⟩ =
      .error (.redirectRequired "/docs/7/") := by
    decide +kernel
  obtain ⟨front, e, back, values, p, reading, horder, -, hp, hreading, hread, -, hfollow⟩ :=
    read?_of_answer_redirect (reachable_sole _) hredirect
  have hpage : (sole "/docs/<int:page>/").inMatchOrder = [(⟨0⟩, pageRule)] := by decide +kernel
  obtain rfl : e = (⟨0⟩, pageRule) := by
    rw [hpage] at horder
    rcases List.append_eq_singleton_iff.1 horder.symm with ⟨-, hmore⟩ | ⟨-, hnone⟩
    · exact List.head_eq_of_cons_eq hmore
    · cases hnone
  obtain rfl : pagePattern = p := Except.ok.inj hp
  have hvalues : pageRule.read? "/docs/007" =
      .ok (some ⟨.ofList [("page", .int 7)], true⟩) := by
    decide +kernel
  obtain rfl : .ofList [("page", .int 7)] = values :=
    congrArg RuleReading.values (Option.some.inj (Except.ok.inj (hvalues.symm.trans hread)))
  obtain rfl : ⟨["007"], false⟩ = reading := by
    have htexts : pagePattern.read? "/docs/007" = some ⟨["007"], false⟩ := by decide +kernel
    exact Option.some.inj (htexts.symm.trans hreading)
  refine ⟨hredirect, _, hpage, hfollow ⟨"/docs/<int:page>".toList, rfl, by decide⟩ ?_ ?_⟩
  · refine .inr ⟨[.literal "/docs/".toList], .int {}, rfl, ?_⟩
    exact Converter.leavesSlash_of_ne_any (by simp) fun hnone => by cases hnone
  · exact .cons (.inr (hasOnePlace_pagePattern _)) .nil

/-! ## Paths that are read as something else -/

/-- Whether the only rule of a table, with a template that ends in one slash, redirects a path that
it reads as some values to a path that it does not read as these. -/
def Misleads (template path target : String) (values : Values) : Prop :=
  EndsInOneSlash template.toList ∧ (sole template).Reachable ∧
    (sole template).answer ⟨.get, path⟩ = .error (.redirectRequired target) ∧
    ∀ e ∈ (sole template).inMatchOrder, e.2.template = template ∧
      e.2.read? path = .ok (some ⟨values, true⟩) ∧
      e.2.read? target ≠ .ok (some ⟨values, false⟩)

/-- A word takes the slash at the end; digits are put in front of two numbers side by side; and
zeros are taken away between paths, where another number then comes first. -/
theorem misleads :
    Misleads "/<any('x/', 'x'):s>/" "/x" "/x/" (.ofList [("s", .str "x")]) ∧
      Misleads "/<int(fixed_digits=3):a><int(fixed_digits=3):b>/" "/12" "/001002/"
        (.ofList [("a", .int 1), ("b", .int 2)]) ∧
      Misleads "/<path:p>/<int:x>/<string(length=1):s>/<path:q>/" "/a/5/007/z/q" "/a/5/7/z/q/"
        (.ofList [("p", .str "a/5"), ("x", .int 7), ("s", .str "z"), ("q", .str "q")]) := by
  refine ⟨⟨⟨"/<any('x/', 'x'):s>".toList, rfl, by decide⟩, reachable_sole _, ?_, ?_⟩,
    ⟨⟨"/<int(fixed_digits=3):a><int(fixed_digits=3):b>".toList, rfl, by decide⟩,
      reachable_sole _, ?_, ?_⟩,
    ⟨⟨"/<path:p>/<int:x>/<string(length=1):s>/<path:q>".toList, rfl, by decide⟩,
      reachable_sole _, ?_, ?_⟩⟩ <;>
    decide +kernel

end UrlRouting.RouteTable
