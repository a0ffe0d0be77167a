import UrlRouting.Proofs.Pattern.Segmented
import UrlRouting.Proofs.Rule.Binding
import UrlRouting.Proofs.Rule.Values

/-
  What a rule builds it reads back.
  Values of the domains of the converters have texts that read as these values
  (`exists_texts_of_fits`). `build` puts the texts between the literal text, reading finds the same
  texts again because the variables are whole segments of the path (`read?_of_patternWith`), and
  the texts convert to the same values.
-/

namespace UrlRouting

open Template (EndsInOneSlash)

namespace Pattern

/-- Whether the values are for exactly the variables, each in the domain of its converter. -/
def Fits (p : Pattern) (values : Values) : Prop :=
  (∀ name, values.contains name = true ↔ name ∈ p.variables) ∧
    ∀ name c v, (name, c) ∈ p.captures → values.get? name = some v → c.Domain v

/-- Whether a text is what the converter of a capture makes of the value under its name. -/
def RendersCapture (values : Values) (capture : String × Converter) (text : List Char) : Prop :=
  ∃ v, values.get? capture.1 = some v ∧ capture.2.Renders v text

theorem exists_texts_of_fits {p : Pattern} {values : Values}
    (hone : OnePath (Part.converters p.parts)) (h : p.Fits values) :
    ∃ texts, List.Forall₂ (RendersCapture values) p.captures texts := by
  obtain ⟨hnames, hdomain⟩ := h
  have hrenders : ∀ capture ∈ p.captures, ∃ text, RendersCapture values capture text := by
    rintro ⟨name, c⟩ hmem
    have hname : name ∈ p.variables := List.mem_map.2 ⟨(name, c), hmem, rfl⟩
    obtain ⟨v, hv⟩ := Option.isSome_iff_exists.1 ((hnames name).2 hname)
    have hc : c = .path ∨ c.IsPlain := hone.2 c (List.mem_map.2 ⟨(name, c), hmem, rfl⟩)
    obtain ⟨text, htext⟩ := Converter.exists_text_of_domain hc (hdomain name c v hmem hv)
    exact ⟨text, v, hv, htext⟩
  exact exists_texts_of_forall hrenders

theorem reads_and_writes_of_renders {values : Values} {captures : List (String × Converter)}
    {texts : List (List Char)} (h : List.Forall₂ (RendersCapture values) captures texts) :
    List.Forall₂ (ReadsCapture values) captures texts ∧
      List.Forall₂ (WritesCapture values) captures texts := by
  constructor
  · refine h.imp ?_
    rintro capture text ⟨v, hv, -, hread, -⟩
    exact ⟨v, hv, hread⟩
  · refine h.imp ?_
    rintro capture text ⟨v, hv, hwrite, -⟩
    exact ⟨v, hv, hwrite⟩

/-! ## The texts of a pattern -/

theorem accepts_of_renders {values : Values} {captures : List (String × Converter)}
    {texts : List (List Char)} (h : List.Forall₂ (RendersCapture values) captures texts) :
    List.Forall₂ Converter.Accepts (captures.map Prod.snd) texts ∧
      ∀ t ∈ texts, t ≠ [] ∧ t.getLast? ≠ some '/' := by
  induction h with
  | nil => exact ⟨.nil, by simp⟩
  | cons hfirst _ ih =>
    obtain ⟨v, -, -, -, haccepts, hne, hlast⟩ := hfirst
    exact ⟨.cons haccepts ih.1, List.forall_mem_cons.2 ⟨⟨hne, hlast⟩, ih.2⟩⟩

/-- The parts of a template that ends in one slash end so too. -/
theorem endInOneSlash_of_parse {template : String} {catalogue : Catalogue}
    {slashes : SlashPolicy} {segments : List Segment} {p : Pattern}
    (hparse : Template.parse template = .ok segments)
    (h : ofSegments catalogue slashes segments = .ok p) (hend : EndsInOneSlash template.toList) :
    Part.EndInOneSlash p.parts := by
  obtain ⟨before, last, rfl, -, hlast⟩ :=
    Template.last_endsInOneSlash (Template.parse_eq_ok_iff.1 hparse).2 hend
  have hparts := List.rel_reverse (ofSegments_eq_ok_iff.1 h).1
  rw [List.reverse_append, List.reverse_singleton, List.singleton_append] at hparts
  obtain ⟨q, parts, hq, -, hrev⟩ := List.forall₂_cons_left_iff.1 hparts
  obtain rfl := Except.ok.inj hq
  refine ⟨String.ofList last, ?_, ?_⟩
  · rw [← List.head?_reverse, hrev]
    rfl
  · rw [String.toList_ofList]
    exact hlast

end Pattern

/-! ## Rules -/

namespace Rule

/-- A strict branch sees the slash at the end of the path, and the other rules ask for none. -/
theorem read?_of_patternWith {r : Rule} {catalogue : Catalogue} {p : Pattern}
    {texts : List (List Char)} (hp : r.patternWith catalogue = .ok p)
    (hend : r.isBranch = true → r.strictSlashes = true → EndsInOneSlash r.template.toList)
    (hparts : Part.Segmented p.parts) (hone : OnePath (Part.converters p.parts))
    (haccepts : List.Forall₂ Converter.Accepts (Part.converters p.parts) texts)
    (hplain : ∀ t ∈ texts, t ≠ [] ∧ t.getLast? ≠ some '/') :
    ∃ slash, p.read? (String.ofList (Part.interleave p.parts texts).flatten) =
        some ⟨texts.map String.ofList, slash⟩ ∧
      (r.strictSlashes && r.isBranch && !slash) = false := by
  obtain ⟨segments, hparse, hsegments⟩ := patternWith_eq_ok_iff.1 hp
  have hnames := Pattern.hasPlainNames_of_parse hparse hsegments
  have hslashes := (Pattern.ofSegments_eq_ok_iff.1 hsegments).2.1
  cases hpolicy : r.slashPolicy with
  | exact =>
    rw [hpolicy] at hslashes
    obtain ⟨slash, hread⟩ := Pattern.read?_interleave_exact hnames hslashes hparts hone haccepts
    refine ⟨slash, hread, ?_⟩
    have hnot : ¬ (r.isBranch = true ∧ r.strictSlashes = true) := by
      rw [← slashPolicy_eq_optional_iff, hpolicy]
      decide
    rw [← Bool.and_eq_true, Bool.not_eq_true, Bool.and_comm] at hnot
    rw [hnot, Bool.false_and]
  | optional =>
    rw [hpolicy] at hslashes
    obtain ⟨hbranch, hstrict⟩ := slashPolicy_eq_optional_iff.1 hpolicy
    have hlast := Pattern.endInOneSlash_of_parse hparse hsegments (hend hbranch hstrict)
    refine ⟨true, ?_, by simp⟩
    exact Pattern.read?_interleave_optional hnames hslashes hparts hlast hone haccepts hplain

/-- A bound rule of which every variable is a whole segment of the path, and at most one of them a
path, builds a path from values of the domains of its variables, and reads that path as the same
values without asking for a redirect. -/
theorem read?_of_build {r bound : Rule} {table : TableId} {catalogue : Catalogue} {p : Pattern}
    {values : Values} (hbind : r.bind table catalogue = .ok bound)
    (hp : bound.pattern = .ok p)
    (hend : bound.isBranch = true → bound.strictSlashes = true →
      EndsInOneSlash bound.template.toList)
    (hparts : Part.Segmented p.parts) (hone : OnePath (Part.converters p.parts))
    (hvalues : p.Fits values) :
    ∃ path, bound.build values = .ok path ∧ bound.read? path = .ok (some ⟨values, false⟩) := by
  obtain ⟨-, -, q, hq, rfl⟩ := bind_eq_ok_iff.1 hbind
  obtain rfl : q = p := Except.ok.inj hp
  obtain ⟨texts, htexts⟩ := Pattern.exists_texts_of_fits hone hvalues
  obtain ⟨haccepts, hplain⟩ := Pattern.accepts_of_renders htexts
  obtain ⟨hreads, hwrites⟩ := Pattern.reads_and_writes_of_renders htexts
  obtain ⟨slash, hread, hredirect⟩ :=
    read?_of_patternWith hq hend hparts hone haccepts hplain
  obtain ⟨segments, hparse, hsegments⟩ := patternWith_eq_ok_iff.1 hq
  refine ⟨String.ofList (Part.interleave q.parts texts).flatten, ?_, ?_⟩
  · have hnames : ∀ name ∈ values.names, name ∈ q.variables :=
      fun name hname => (hvalues.1 name).1 (NameMap.mem_names.1 hname)
    rw [build_of_binding rfl, Pattern.build_eq_ok_iff.2 ⟨hnames, texts, hwrites, rfl⟩]
    rfl
  · have hconvert := (Pattern.convert?_eq_some_iff (Pattern.nodup_variables hparse hsegments)
      hreads.length_eq).2 ⟨hreads, hvalues.1⟩
    rw [read?_of_binding rfl, hread, Option.bind_some, hconvert, Option.map_some]
    exact congrArg (fun redirect => Except.ok (some (RuleReading.mk values redirect))) hredirect

/-- The pattern of `/files/<path:name>/<int(4):year>/` where the slash at the end is open. -/
def filesPattern : Pattern where
  parts := [.literal "/files/", .capture "name" .path, .literal "/",
    .capture "year" (.int { digits := some 4 }), .literal "/"]
  slashes := .optional

def filesRule : Rule where
  template := "/files/<path:name>/<int(4):year>/"
  endpoint := "files"
  methods := .ofList [.get]

def boundFilesRule : Rule := { filesRule with binding := some ⟨⟨0⟩, filesPattern⟩ }

def filesValues : Values := .ofList [("name", .str "a/b"), ("year", .int 7)]

theorem fits_filesValues : filesPattern.Fits filesValues := by
  have hvalues : filesValues.names = ["name", "year"] := by decide +kernel
  have hcaptures : filesPattern.captures =
      [("name", .path), ("year", .int { digits := some 4 })] := rfl
  refine ⟨?_, ?_⟩
  · intro name
    rw [← NameMap.mem_names, hvalues]
    rfl
  · intro name c v hmem hv
    rw [hcaptures] at hmem
    rcases List.mem_cons.1 hmem with heq | hmem
    · obtain ⟨rfl, rfl⟩ := Prod.mk.inj heq
      have hname : filesValues.get? "name" = some (.str "a/b") := by decide +kernel
      obtain rfl := Option.some.inj (hname.symm.trans hv)
      exact ⟨by simp, by simp, by simp, by simp⟩
    · obtain ⟨rfl, rfl⟩ := Prod.mk.inj (List.mem_singleton.1 hmem)
      have hyear : filesValues.get? "year" = some (.int 7) := by decide +kernel
      obtain rfl := Option.some.inj (hyear.symm.trans hv)
      refine ⟨by decide, ?_, ?_, ?_⟩
      · intro min hmin
        cases hmin
      · intro max hmax
        cases hmax
      · intro width hwidth
        obtain rfl := Option.some.inj hwidth
        exact ⟨by decide, by decide⟩

theorem read?_of_build_files :
    ∃ path, boundFilesRule.build filesValues = .ok path ∧
      boundFilesRule.read? path = .ok (some ⟨filesValues, false⟩) := by
  have hbind : filesRule.bind ⟨0⟩ .standard = .ok boundFilesRule := by decide +kernel
  have hparts : Part.Segmented filesPattern.parts :=
    .capture (by cbv) (.inl (by cbv)) (.capture (by cbv) (.inl (by cbv)) (.last _))
  have hone : OnePath (Part.converters filesPattern.parts) := by
    refine ⟨by decide, ?_⟩
    intro c hc
    rcases List.mem_cons.1 hc with rfl | hc
    · exact .inl rfl
    · obtain rfl := List.mem_singleton.1 hc
      exact .inr trivial
  refine read?_of_build hbind rfl ?_ hparts hone fits_filesValues
  intro _ _
  exact ⟨"/files/<path:name>/<int(4):year>".toList, by cbv, by simp⟩

end Rule

end UrlRouting
