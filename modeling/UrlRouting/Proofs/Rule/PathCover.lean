import UrlRouting.Proofs.Rule.OneVariable

/-
  Paths and strings in the place of one variable.
  The texts of a string are texts of a path, but for those with a line feed behind their first
  character. So where a rule whose one variable is a string reads a path, the rule with a path in its
  place says the same, or nothing if there is such a line feed (`read?_path_of_read?_string`).
-/

namespace UrlRouting

open Template (IsVariableName)

theorem Converter.accepts_path_iff_of_accepts_string {b : LengthBounds} {text : List Char}
    (hne : text ≠ []) (h : (string b).Accepts text) : path.Accepts text ↔ '\n' ∉ text.tail := by
  cases text with
  | nil => exact absurd rfl hne
  | cons c rest =>
    have hc : c ≠ '/' := by
      rintro rfl
      exact h.1 List.mem_cons_self
    constructor
    · rintro ⟨d, more, heq, -, hline⟩
      obtain ⟨rfl, rfl⟩ := List.cons.inj heq
      exact hline
    · exact fun hline => ⟨c, rest, rfl, hc, hline⟩

theorem Converter.ne_nil_of_accepts_string {text : List Char} (h : (string {}).Accepts text) :
    text ≠ [] := by
  rintro rfl
  obtain ⟨hleast, -⟩ : 1 ≤ 0 ∧ _ := h.2
  cases hleast

namespace Rule

/-- What one rule with a variable reads, another rule with the same literal text reads too, just
where the converter of its variable accepts the same text. -/
theorem read?_of_read?_one {r r' : Rule} {p p' : Pattern} {front back name : String}
    {c c' : Converter} (h : r.Compiled p) (h' : r'.Compiled p')
    (hparts : p.parts = [.literal front, .capture name c, .literal back])
    (hparts' : p'.parts = [.literal front, .capture name c', .literal back])
    (htextual : c.IsTextual) (htextual' : c'.IsTextual) (hleaves : c.LeavesSlash)
    (hleaves' : c'.LeavesSlash) (hpolicy : r.slashPolicy = r'.slashPolicy) {path : String}
    {m : RuleReading} (hread : r.read? path = .ok (some m)) :
    ∃ text, c.Accepts text ∧ m.values = NameMap.empty.insert name (.str (String.ofList text)) ∧
      (c'.Accepts text → r'.read? path = .ok (some m)) ∧
      (¬ c'.Accepts text → r'.read? path = .ok none) := by
  obtain ⟨text, slash, htext, hsurrounds, rfl⟩ :=
    (read?_one_iff h hparts htextual fun _ => hleaves).1 hread
  rw [hpolicy] at hsurrounds ⊢
  refine ⟨text, htext, rfl, fun htext' => ?_, fun hrefuses => ?_⟩
  · exact (read?_one_iff h' hparts' htextual' fun _ => hleaves').2
      ⟨text, slash, htext', hsurrounds, rfl⟩
  · obtain ⟨table, catalogue, hbinding, -⟩ := id h'
    cases hnone : r'.read? path with
    | error e =>
      rw [read?_of_binding hbinding] at hnone
      cases hnone
    | ok reading =>
      cases reading with
      | none => rfl
      | some m' =>
        -- it could only have read the same text
        obtain ⟨text', slash', htext', hsurrounds', -⟩ :=
          (read?_one_iff h' hparts' htextual' fun _ => hleaves').1 hnone
        obtain rfl := hsurrounds.inj hsurrounds'
        exact absurd htext' hrefuses

/-- A rule with a path for its one variable reads all that the rule with a string there reads, with
the same value and the same redirect, as long as the value has no line feed behind its first
character; with such a line feed it does not read the path at all. -/
theorem read?_path_of_read?_string {r bound bound' : Rule} {table table' : TableId}
    {catalogue : Catalogue} {front name back : String} (hslash : front.toList.head? = some '/')
    (hfront : '<' ∉ front.toList) (hback : '<' ∉ back.toList) (hname : IsVariableName name)
    (hstring : catalogue.get? Catalogue.defaultName = some Converter.declareString)
    (hpath : catalogue.get? "path" = some Converter.declarePath)
    (hbind : Rule.bind { r with template := front ++ ("<" ++ name ++ ">") ++ back } table
      catalogue = .ok bound)
    (hbind' : Rule.bind { r with template := front ++ ("<path:" ++ name ++ ">") ++ back } table'
      catalogue = .ok bound')
    {path : String} {m : RuleReading} (hread : bound.read? path = .ok (some m)) :
    ∃ text, m.values = NameMap.empty.insert name (.str text) ∧
      bound'.read? path = .ok (if '\n' ∈ text.toList.tail then none else some m) := by
  have hbare := (Template.around_bare front back name).symm
  have htyped : front ++ ("<path:" ++ name ++ ">") ++ back =
      Template.around front (.typed "path" name) back := by
    rw [Template.around_typed]
    rfl
  have htag : Template.Tag.IsProper (.bare name) := hname
  have htag' : Template.Tag.IsProper (.typed "path" name) := ⟨by decide, hname⟩
  obtain ⟨p, hp, hparts, hpolicy⟩ :=
    exists_compiled_around hbare hslash hfront hback htag hstring rfl hbind
  obtain ⟨p', hp', hparts', hpolicy'⟩ :=
    exists_compiled_around htyped hslash hfront hback htag' hpath rfl hbind'
  have hleaves : (Converter.string {}).LeavesSlash := by
    refine Converter.leavesSlash_of_ne_any (fun items h => by cases h) fun h => ?_
    exact Converter.ne_nil_of_accepts_string h rfl
  have hleaves' : Converter.path.LeavesSlash := by
    refine Converter.leavesSlash_of_ne_any (fun items h => by cases h) fun h => ?_
    obtain ⟨_, _, hcons, -⟩ := h
    cases hcons
  obtain ⟨text, htext, hvalues, htaken, hrefused⟩ :=
    read?_of_read?_one hp hp' hparts hparts' (fun _ => rfl) (fun _ => rfl) hleaves hleaves'
      (hpolicy.trans hpolicy'.symm) hread
  have haccepts := Converter.accepts_path_iff_of_accepts_string
    (Converter.ne_nil_of_accepts_string htext) htext
  refine ⟨String.ofList text, hvalues, ?_⟩
  rw [String.toList_ofList]
  split
  next hline => exact hrefused fun h => haccepts.1 h hline
  next hline => exact htaken (haccepts.2 hline)

/-- The rule of `/<v>/`, bound. -/
def boundTextRule : Rule :=
  { pageRule "/<v>/" with
    binding := some ⟨⟨0⟩, .around "/" "v" "/" (.string {}) .optional⟩ }

/-- The rule of `/<path:v>/`, bound. -/
def boundTreeRule : Rule :=
  { pageRule "/<path:v>/" with binding := some ⟨⟨0⟩, .around "/" "v" "/" .path .optional⟩ }

theorem bind_boundTextRule : (pageRule "/<v>/").bind ⟨0⟩ .standard = .ok boundTextRule := by
  have htemplate : (pageRule "/<v>/").template = Template.around "/" (.bare "v") "/" := by decide
  have hname : IsVariableName "v" := by decide
  have htag : Template.Tag.IsProper (.bare "v") := hname
  exact bind_around rfl rfl htemplate (by decide) (by decide) (by decide) htag rfl rfl (by decide)

theorem bind_boundTreeRule : (pageRule "/<path:v>/").bind ⟨0⟩ .standard = .ok boundTreeRule := by
  have htemplate : (pageRule "/<path:v>/").template =
      Template.around "/" (.typed "path" "v") "/" := by decide
  have htag : Template.Tag.IsProper (.typed "path" "v") := ⟨by decide, by decide⟩
  exact bind_around rfl rfl htemplate (by decide) (by decide) (by decide) htag rfl rfl (by decide)

theorem read?_path_of_read?_string_slug :
    (pageRule "/<v>/").bind ⟨0⟩ .standard = .ok boundTextRule ∧
      (pageRule "/<path:v>/").bind ⟨0⟩ .standard = .ok boundTreeRule ∧
      boundTextRule.read? "/a-é" =
        .ok (some ⟨NameMap.empty.insert "v" (.str "a-é"), true⟩) ∧
      boundTreeRule.read? "/a-é" =
        .ok (some ⟨NameMap.empty.insert "v" (.str "a-é"), true⟩) := by
  have hread : boundTextRule.read? "/a-é" =
      .ok (some ⟨NameMap.empty.insert "v" (.str "a-é"), true⟩) := by decide
  have hbind : Rule.bind { pageRule "" with template := "/" ++ ("<" ++ "v" ++ ">") ++ "/" } ⟨0⟩
      .standard = .ok boundTextRule := bind_boundTextRule
  have hbind' : Rule.bind
      { pageRule "" with template := "/" ++ ("<path:" ++ "v" ++ ">") ++ "/" } ⟨0⟩ .standard =
        .ok boundTreeRule := bind_boundTreeRule
  obtain ⟨text, htext, hcovered⟩ := read?_path_of_read?_string (by decide) (by decide)
    (by decide) (by decide) rfl rfl hbind hbind' hread
  have hvalue := congrArg (NameMap.get? · "v") htext
  simp only [NameMap.get?_insert, if_true, Option.some.injEq, Value.str.injEq] at hvalue
  rw [← hvalue] at hcovered
  exact ⟨bind_boundTextRule, bind_boundTreeRule, hread, hcovered⟩

/-- A string may go on behind a line feed, a path may not. -/
theorem read?_string_of_two_lines :
    (pageRule "/<v>/").bind ⟨0⟩ .standard = .ok boundTextRule ∧
      (pageRule "/<path:v>/").bind ⟨0⟩ .standard = .ok boundTreeRule ∧
      boundTextRule.read? "/a\nb" =
        .ok (some ⟨NameMap.empty.insert "v" (.str "a\nb"), true⟩) ∧
      boundTreeRule.read? "/a\nb" = .ok none :=
  ⟨bind_boundTextRule, bind_boundTreeRule, by decide, by decide⟩

end Rule

end UrlRouting
