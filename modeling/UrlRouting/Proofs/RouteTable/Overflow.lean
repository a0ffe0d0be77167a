import UrlRouting.Proofs.RouteTable.Redirect
import UrlRouting.Proofs.Rule.Rebuilding

/-
  Requests that end in a path that is not built.
  Building what was read fails on floats beyond the finite ones only, so a request fails in this way
  just when the rule that settles it asks for a redirect and has read such a float
  (`answer_notBuilt_iff`). Digits enough make one: reading takes a number that is too large for
  infinity, and infinity is not written (`answer_notBuilt_of_overflow`).
-/

namespace UrlRouting.RouteTable

variable {t : RouteTable}

theorem exists_compiled_of_mem_readers (h : t.Reachable) {path : String} {r : Reader}
    (hr : r ∈ t.readers path) :
    r.rule.read? path = .ok (some r.reading) ∧ ∃ p, r.rule.Compiled p := by
  obtain ⟨he, hread⟩ := mem_readers.1 hr
  exact ⟨hread, exists_compiled_of_inMatchOrder h he⟩

/-- The rule that comes first settles a request that it redirects to a path that is not built. -/
theorem answer_of_build_error {e : RuleNumber × Rule} {back : List (RuleNumber × Rule)}
    {request : Request} {values : Values} {cause : RuleError} (horder : t.inMatchOrder = e :: back)
    (hread : e.2.read? request.path = .ok (some ⟨values, true⟩))
    (hbuild : e.2.build values = .error cause) :
    t.answer request = .error (.notBuilt e.2.endpoint (some cause)) := by
  have hreaders : t.readers request.path =
      ⟨e.1, e.2, ⟨values, true⟩⟩ :: back.filterMap (Reader.ofEntry? request.path) := by
    rw [readers_eq, horder]
    exact List.filterMap_cons_some (Reader.ofEntry?_eq_some_iff.2 ⟨rfl, hread⟩)
  unfold answer
  rw [hreaders]
  simp only [decideRequest, ↓reduceIte, hbuild]

/-! ## A table with a float -/

/-- The pattern of `/f/<float:x>/` where the slash at the end is open. -/
def floatPattern : Pattern where
  parts := [.literal "/f/", .capture "x" (.float {}), .literal "/"]
  slashes := .optional

def floatRule : Rule where
  template := "/f/<float:x>/"
  endpoint := "f"
  methods := .ofList [.get]

def floatTable : RouteTable := run { id := ⟨1⟩ } [.add floatRule]

/-- The rule as the table keeps it. -/
def storedFloatRule : Rule :=
  { floatRule with methods := .ofList [.get, .head], binding := some ⟨⟨1⟩, floatPattern⟩ }

theorem compiled_storedFloatRule : storedFloatRule.Compiled floatPattern :=
  ⟨⟨1⟩, .standard, rfl, by decide +kernel⟩

/-- The rule reads every float without bounds, and asks for the slash behind it. -/
theorem read?_storedFloatRule {text : List Char} {x : Float}
    (htext : (Converter.float {}).Accepts text) (hlast : text.getLast? ≠ some '/')
    (hx : Decimal.float? text = some x) :
    storedFloatRule.read? (String.ofList ("/f/".toList ++ text)) =
      .ok (some ⟨.ofList [("x", .float x)], true⟩) := by
  have hne : text ≠ [] := by
    rintro rfl
    obtain ⟨whole, part, hnil, -⟩ := htext
    cases whole <;> cases hnil
  have hend : ("/f/".toList ++ text).getLast? ≠ some '/' := by
    rw [List.getLast?_append_of_ne_nil _ hne]
    exact hlast
  have hp : floatPattern.read? (String.ofList ("/f/".toList ++ text)) =
      some ⟨[text].map String.ofList, false⟩ := by
    refine (Pattern.read?_optional_eq_some_iff (by decide) rfl).2
      ⟨[text], [], .cons htext .nil, ?_, ?_, ?_⟩
    · rw [String.toList_ofList]
      exact firstSplit_literal_capture htext hlast
    · show ("/f/".toList ++ (text ++ [])).getLast? ≠ some '/'
      rw [List.append_nil]
      exact hend
    · rw [String.toList_ofList, decide_eq_false hend]
  have hread : (Converter.float {}).read (String.ofList text) = .ok (.float x) := by
    show FloatBounds.read {} (String.ofList text) = _
    unfold FloatBounds.read
    rw [String.toList_ofList, hx]
    rfl
  have hcovers : floatPattern.Covers (.ofList [("x", .float x)]) := by
    intro name
    rw [← NameMap.mem_names]
    rfl
  exact Rule.read?_of_texts compiled_storedFloatRule hp (.cons ⟨.float x, rfl, hread⟩ .nil) hcovers

/-- A one with 309 zeros, which is beyond the floats. -/
def hugeNumber : List Char := '1' :: List.replicate 309 '0' ++ ".0".toList

/-! ## Failed builds -/

/-- A rule that has read a path builds one from its values just when these are finite; and a request
ends in a path that is not built just when the rule that settles it asks for a redirect with values
that are not finite. Otherwise it ends in a rule, in a redirect, or in that there is no rule, or
none for the method. -/
theorem answer_notBuilt_iff (h : t.Reachable) :
    (∀ r ∈ t.rules, ∀ path m, r.read? path = .ok (some m) →
      ((∃ built, r.build m.values = .ok built) ↔ m.values.AreFinite)) ∧
    ∀ request,
      ((∃ endpoint source, t.answer request = .error (.notBuilt endpoint source)) ↔
        ∃ r, (t.readers request.path).find? (·.decides request.method) = some r ∧
          r.reading.needsRedirect = true ∧ ¬ r.reading.values.AreFinite) ∧
      ((∃ a, t.answer request = .ok a) ∨ t.answer request = .error (.notFound request.path) ∨
        (∃ allowed, t.answer request =
          .error (.methodNotAllowed request.method request.path allowed)) ∨
        (∃ target, t.answer request = .error (.redirectRequired target)) ∨
        ∃ endpoint source, t.answer request = .error (.notBuilt endpoint source)) := by
  refine ⟨?_, fun request => ?_⟩
  · intro r hr path m hread
    obtain ⟨p, hp⟩ := h.exists_compiled r hr
    exact Rule.exists_build_iff_of_read? hp hread
  unfold answer
  rw [decideRequest_eq]
  cases hfind : (t.readers request.path).find? (·.decides request.method) with
  | none =>
    simp only [decideRequest]
    split <;> simp
  | some r =>
    obtain ⟨hread, p, hp⟩ := exists_compiled_of_mem_readers h (List.mem_of_find?_eq_some hfind)
    simp only [Reader.verdict_eq_notBuilt_iff, Rule.exists_build_iff_of_read? hp hread]
    refine ⟨by simp, ?_⟩
    rcases Reader.verdict_cases r with hok | hredirect | hfailed
    · exact .inl hok
    · exact .inr (.inr (.inr (.inl hredirect)))
    · refine .inr (.inr (.inr (.inr ?_)))
      rw [Reader.verdict_eq_notBuilt_iff, Rule.exists_build_iff_of_read? hp hread] at hfailed
      exact hfailed

/-- Half of a number is finite, so the path with it is built. -/
theorem answer_notBuilt_iff_half :
    floatTable.Reachable ∧ storedFloatRule ∈ floatTable.rules ∧
      storedFloatRule.read? "/f/0.50" = .ok (some ⟨.ofList [("x", .float 0.5)], true⟩) ∧
      ∃ built, storedFloatRule.build (.ofList [("x", .float 0.5)]) = .ok built := by
  have hreach : floatTable.Reachable := ⟨⟨1⟩, {}, { id := ⟨1⟩ }, [.add floatRule], rfl, rfl⟩
  have hrule : storedFloatRule ∈ floatTable.rules := by decide +kernel
  have hread : storedFloatRule.read? "/f/0.50" =
      .ok (some ⟨.ofList [("x", .float 0.5)], true⟩) := by
    decide +kernel
  refine ⟨hreach, hrule, hread, ((answer_notBuilt_iff hreach).1 _ hrule _ _ hread).2 ?_⟩
  intro name v hv
  rw [NameMap.get?_eq_some_iff] at hv
  obtain ⟨-, rfl⟩ := Prod.mk.inj (List.mem_singleton.1 hv)
  show Float.isFinite 0.5 = true
  decide +kernel

/-- A request with a number that is too large ends in a path that is not built. -/
theorem answer_notBuilt_of_overflow :
    floatTable.Reachable ∧
      storedFloatRule ∈ floatTable.rules ∧
      (∃ m, storedFloatRule.read? (String.ofList ("/f/".toList ++ hugeNumber)) = .ok (some m) ∧
        ¬ ∃ built, storedFloatRule.build m.values = .ok built) ∧
      floatTable.answer ⟨.get, String.ofList ("/f/".toList ++ hugeNumber)⟩ =
        .error (.notBuilt "f" (some ⟨"/f/<float:x>/",
          .unwritable "x" (.unwritable .float (.float Decimal.infinity))⟩)) := by
  have hreach : floatTable.Reachable := ⟨⟨1⟩, {}, { id := ⟨1⟩ }, [.add floatRule], rfl, rfl⟩
  have horder : floatTable.inMatchOrder = [(⟨0⟩, storedFloatRule)] := by decide +kernel
  have hx : Decimal.float? hugeNumber = some Decimal.infinity := by decide +kernel
  have htext : (Converter.float {}).Accepts hugeNumber :=
    ⟨'1' :: List.replicate 309 '0', ['0'], rfl, by decide +kernel, by decide⟩
  have hread := read?_storedFloatRule htext (by decide +kernel) hx
  have hbuild : storedFloatRule.build (.ofList [("x", .float Decimal.infinity)]) =
      .error ⟨"/f/<float:x>/", .unwritable "x" (.unwritable .float (.float Decimal.infinity))⟩ := by
    decide +kernel
  exact ⟨hreach, by decide +kernel, ⟨_, hread, by simp [hbuild]⟩,
    @answer_of_build_error _ _ _ ⟨.get, _⟩ _ _ horder hread hbuild⟩

end UrlRouting.RouteTable
