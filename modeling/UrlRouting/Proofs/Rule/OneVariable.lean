import UrlRouting.Proofs.Rule.FixedText
import UrlRouting.Proofs.Template.Grammar

/-
  Rules with one variable.
  The template of such a rule is a placeholder with literal text before and behind it. A path that
  the rule reads is that text about a text of the variable (`Surrounds`), which is then cut out in
  one way only, whatever the converter prefers (`Surrounds.inj`). Where the variable has its text
  as its value, the rule reads every such path (`read?_one_iff`).
-/

namespace UrlRouting

/-! ## Templates with one placeholder -/

/-- The template with one placeholder between two literal texts. -/
def Template.around (front : String) (tag : Template.Tag) (back : String) : String :=
  String.ofList (Template.Layout.text ⟨front, [(tag, back)]⟩)

theorem Template.toList_around (front : String) (tag : Template.Tag) (back : String) :
    (Template.around front tag back).toList = front.toList ++ (tag.text ++ back.toList) := by
  simp [Template.around, Template.Layout.text]

theorem Template.parse_around {front back : String} {tag : Template.Tag}
    (hslash : front.toList.head? = some '/') (hfront : '<' ∉ front.toList)
    (hback : '<' ∉ back.toList) (htag : tag.IsProper) :
    Template.parse (Template.around front tag back) =
      .ok [.literal front, .placeholder tag.placeholder, .literal back] := by
  have hproper : Template.Layout.IsProper ⟨front, [(tag, back)]⟩ := by
    simp [Template.Layout.IsProper, Template.Layout.literals, Template.Layout.tags, hfront, hback,
      htag]
  refine Template.parse_eq_ok_iff.2 ⟨?_, ?_⟩
  · rwa [Template.around, String.toList_ofList, Template.Layout.head?_text]
  · rw [Template.around, String.toList_ofList]
    have hnodup : ([tag].map Template.Tag.name).Nodup :=
      List.nodup_cons.2 ⟨List.not_mem_nil, List.nodup_nil⟩
    exact Template.split_of_layout hproper hnodup fun _ _ => List.not_mem_nil

section

variable (front back converter clause name : String)

theorem Template.around_bare :
    Template.around front (.bare name) back = front ++ ("<" ++ name ++ ">") ++ back := by
  apply String.toList_injective
  simp [Template.toList_around, Template.Tag.text, Template.Tag.inner]

theorem Template.around_typed : Template.around front (.typed converter name) back =
    front ++ ("<" ++ converter ++ ":" ++ name ++ ">") ++ back := by
  apply String.toList_injective
  simp [Template.toList_around, Template.Tag.text, Template.Tag.inner]

theorem Template.around_called : Template.around front (.called converter clause name) back =
    front ++ ("<" ++ converter ++ "(" ++ clause ++ "):" ++ name ++ ">") ++ back := by
  apply String.toList_injective
  simp [Template.toList_around, Template.Tag.text, Template.Tag.inner]

end

/-! ## Texts about one variable -/

/-- Whether the path is the literal text with this text in its middle, the slash at the end being
as it is said. Where it is open, all slashes at the end of the literal text stand for one. -/
def SlashPolicy.Surrounds (slashes : SlashPolicy) (front back text path : List Char)
    (slash : Bool) : Prop :=
  match slashes with
  | .exact => path = front ++ (text ++ back) ∧ slash = decide (path.getLast? = some '/')
  | .optional => (front ++ (text ++ trimSlashes back)).getLast? ≠ some '/' ∧
      path = front ++ (text ++ trimSlashes back) ++ if slash then ['/'] else []

namespace SlashPolicy

variable {front back text text' path : List Char} {slash slash' : Bool}

/-- The slash that is said is the one at the end of the path. -/
theorem Surrounds.slash_eq {slashes : SlashPolicy}
    (h : slashes.Surrounds front back text path slash) :
    slash = decide (path.getLast? = some '/') := by
  cases slashes with
  | exact => exact h.2
  | optional =>
    obtain ⟨hend, rfl⟩ := h
    cases slash with
    | true => simp
    | false =>
      rw [if_neg Bool.false_ne_true, List.append_nil]
      exact (decide_eq_false hend).symm

/-- A path has one text in its middle. -/
theorem Surrounds.inj {slashes : SlashPolicy}
    (h : slashes.Surrounds front back text path slash)
    (h' : slashes.Surrounds front back text' path slash') : text = text' := by
  obtain rfl : slash = slash' := h.slash_eq.trans h'.slash_eq.symm
  cases slashes with
  | exact =>
    have heq := h.1.symm.trans h'.1
    exact List.append_cancel_right (List.append_cancel_left heq)
  | optional =>
    have heq := List.append_cancel_right (h.2.symm.trans h'.2)
    exact List.append_cancel_right (List.append_cancel_left heq)

end SlashPolicy

/-- Parts with one variable are found where the text between the literal ones is accepted. -/
theorem Part.firstTexts?_one_iff {parts : List Part} {c : Converter} {front back : List Char}
    (hconverters : converters parts = [c])
    (hflatten : ∀ text, (interleave parts [text]).flatten = front ++ (text ++ back))
    {path : List Char} {texts : List (List Char)} :
    firstTexts? parts path = some texts ↔
      ∃ text, texts = [text] ∧ c.Accepts text ∧ path = front ++ (text ++ back) := by
  rw [firstTexts?_eq_some_iff, hconverters]
  constructor
  · rintro ⟨⟨haccepts, hpath⟩, -⟩
    obtain ⟨text, rest, htext, hrest, rfl⟩ := List.forall₂_cons_left_iff.1 haccepts
    obtain rfl := List.forall₂_nil_left_iff.1 hrest
    exact ⟨text, rfl, htext, hpath.trans (hflatten text)⟩
  · rintro ⟨text, rfl, htext, hpath⟩
    refine ⟨⟨.cons htext .nil, hpath.trans (hflatten text).symm⟩, ?_⟩
    intro others hothers hpath'
    obtain ⟨text', rest, -, hrest, rfl⟩ := List.forall₂_cons_left_iff.1 hothers
    obtain rfl := List.forall₂_nil_left_iff.1 hrest
    rw [hflatten, hpath] at hpath'
    have hsame := List.append_cancel_right (List.append_cancel_left hpath')
    rw [hsame]
    exact .inl rfl

namespace Pattern

variable {p : Pattern} {front back name : String} {c : Converter}

section

variable (hparts : p.parts = [.literal front, .capture name c, .literal back])

include hparts

theorem converters_body_of_one : Part.converters p.body = [c] := by
  rw [p.converters_body, hparts]
  rfl

theorem body_of_one (h : p.slashes = .optional) :
    p.body = .literal front :: .capture name c :: dropSlashes [.literal back] := by
  rw [body_of_optional h, hparts]
  exact dropSlashes_literal_capture front name c _

theorem flatten_interleave_of_one (h : p.slashes = .optional) (text : List Char) :
    (Part.interleave p.body [text]).flatten =
      front.toList ++ (text ++ trimSlashes back.toList) := by
  obtain ⟨rest, slashes, hback, hrest⟩ := exists_append_slashes back.toList
  rw [body_of_one hparts h, Part.flatten_interleave_literal, Part.flatten_interleave_capture,
    flatten_dropSlashes_literal hback hrest, hback, trimSlashes_append_replicate hrest]

/-- The slash is left open behind literal text that does not end in one, or behind the variable. -/
theorem leaveSlash_of_one (h : p.slashes = .optional) (hleaves : c.LeavesSlash)
    (before : List Char) : LeaveSlash (p.body.map Part.piece) (before ++ ['/']) := by
  obtain ⟨rest, slashes, hback, hrest⟩ := exists_append_slashes back.toList
  have htrim : trimSlashes back.toList = rest := by
    rw [hback, trimSlashes_append_replicate hrest]
  by_cases hnil : rest = []
  · refine .inr ⟨[.literal front.toList], c, ?_, hleaves⟩
    have hlast : dropSlashes [.literal back] = [] := by
      show (if (trimSlashes back.toList).isEmpty then [] else _) = _
      rw [htrim, hnil]
      rfl
    rw [body_of_one hparts h, hlast]
    rfl
  · refine .inl fun division hdivision => ?_
    obtain ⟨texts, haccepts, -, heq⟩ := divides_pieces_iff.1 hdivision
    rw [converters_body_of_one hparts] at haccepts
    obtain ⟨text, others, -, hothers, rfl⟩ := List.forall₂_cons_left_iff.1 haccepts
    obtain rfl := List.forall₂_nil_left_iff.1 hothers
    rw [flatten_interleave_of_one hparts h, htrim, ← List.append_assoc] at heq
    have hlast := congrArg List.getLast? heq
    rw [List.getLast?_concat, List.getLast?_append_of_ne_nil _ hnil] at hlast
    exact hrest hlast.symm

theorem read?_one_exact_iff (hnames : p.hasPlainNames = true) (h : p.slashes = .exact)
    {path : String} {texts : List String} {slash : Bool} :
    p.read? path = some ⟨texts, slash⟩ ↔ ∃ text, texts = [String.ofList text] ∧ c.Accepts text ∧
      SlashPolicy.exact.Surrounds front.toList back.toList text path.toList slash := by
  have hflatten : ∀ text, (Part.interleave p.parts [text]).flatten =
      front.toList ++ (text ++ back.toList) := by
    intro text
    rw [hparts]
    simp [Part.interleave]
  have hconverters : Part.converters p.parts = [c] := by rw [hparts]; rfl
  rw [read?_exact_eq_firstTexts? hnames h, Option.map_eq_some_iff]
  simp only [Part.firstTexts?_one_iff hconverters hflatten, PathReading.mk.injEq]
  constructor
  · rintro ⟨_, ⟨text, rfl, htext, hpath⟩, rfl, rfl⟩
    exact ⟨text, rfl, htext, hpath, rfl⟩
  · rintro ⟨text, rfl, htext, hpath, rfl⟩
    exact ⟨[text], ⟨text, rfl, htext, hpath⟩, rfl, rfl⟩

theorem read?_one_optional_iff (hnames : p.hasPlainNames = true) (h : p.slashes = .optional)
    (hleaves : c.LeavesSlash) {path : String} {texts : List String} {slash : Bool} :
    p.read? path = some ⟨texts, slash⟩ ↔ ∃ text, texts = [String.ofList text] ∧ c.Accepts text ∧
      SlashPolicy.optional.Surrounds front.toList back.toList text path.toList slash := by
  have hfirst : ∀ before found, Part.firstTexts? p.body before = some found ↔
      ∃ text, found = [text] ∧ c.Accepts text ∧
        before = front.toList ++ (text ++ trimSlashes back.toList) := fun _ _ =>
    Part.firstTexts?_one_iff (converters_body_of_one hparts) (flatten_interleave_of_one hparts h)
  by_cases hend : path.toList.getLast? = some '/'
  · obtain ⟨before, hpath⟩ := List.getLast?_eq_some_iff.1 hend
    rw [read?_optional_of_append hnames h hpath (leaveSlash_of_one hparts h hleaves before)]
    constructor
    · intro hread
      split at hread
      · cases hread
      next hbefore =>
        obtain ⟨_, hfound, heq⟩ := Option.map_eq_some_iff.1 hread
        obtain ⟨text, rfl, htext, rfl⟩ := (hfirst _ _).1 hfound
        obtain ⟨rfl, rfl⟩ := PathReading.mk.inj heq
        exact ⟨text, rfl, htext, hbefore, hpath⟩
    · rintro ⟨text, rfl, htext, hsurrounds⟩
      have hslash := hsurrounds.slash_eq
      rw [decide_eq_true hend] at hslash
      obtain ⟨hbefore, hwhole⟩ := hsurrounds
      rw [hslash, if_pos rfl, hpath] at hwhole
      obtain rfl := List.append_cancel_right hwhole
      rw [if_neg hbefore, (hfirst _ _).2 ⟨text, rfl, htext, rfl⟩, hslash]
      rfl
  · rw [read?_optional_of_ne hnames h hend]
    constructor
    · intro hread
      obtain ⟨_, hfound, heq⟩ := Option.map_eq_some_iff.1 hread
      obtain ⟨text, rfl, htext, hpath⟩ := (hfirst _ _).1 hfound
      obtain ⟨rfl, rfl⟩ := PathReading.mk.inj heq
      refine ⟨text, rfl, htext, by rwa [← hpath], ?_⟩
      rw [hpath, if_neg Bool.false_ne_true, List.append_nil]
    · rintro ⟨text, rfl, htext, hsurrounds⟩
      have hslash := hsurrounds.slash_eq
      rw [decide_eq_false hend] at hslash
      obtain ⟨-, hwhole⟩ := hsurrounds
      rw [hslash, if_neg Bool.false_ne_true, List.append_nil] at hwhole
      rw [(hfirst _ _).2 ⟨text, rfl, htext, hwhole⟩, hslash]
      rfl

end

end Pattern

/-! ## Rules -/

/-- The pattern of one variable between two literal texts. -/
def Pattern.around (front name back : String) (c : Converter) (slashes : SlashPolicy) : Pattern :=
  ⟨[.literal front, .capture name c, .literal back], slashes⟩

theorem Pattern.ofSegments_around {front back : String} {v : Placeholder} {catalogue : Catalogue}
    {slashes : SlashPolicy} {declare : Declaration} {c : Converter}
    (hget : catalogue.get? v.converter = some declare) (hdeclare : declare v.arguments = .ok c) :
    ofSegments catalogue slashes [.literal front, .placeholder v, .literal back] =
      if (around front v.name back c slashes).isMatchable then
        .ok (around front v.name back c slashes)
      else .error .unmatchable := by
  have hparts : [Segment.literal front, .placeholder v, .literal back].mapM
      (Segment.toPart catalogue) = .ok (around front v.name back c slashes).parts := by
    refine Segment.mapM_toPart_eq_ok_iff.2 (.cons rfl (.cons ?_ (.cons rfl .nil)))
    exact Segment.toPart_eq_ok_iff.2 (.inr ⟨v, declare, c, rfl, hget, hdeclare, rfl⟩)
  unfold ofSegments
  rw [hparts]
  rfl

/-- Whether every text is its own value. -/
def Converter.IsTextual (c : Converter) : Prop := ∀ text, c.read text = .ok (.str text)

namespace Rule

variable {r : Rule} {p : Pattern} {front back name : String} {c : Converter}

theorem getLast?_around (front : String) (tag : Template.Tag) (back : String) :
    (Template.around front tag back).toList.getLast? = some '/' ↔
      back.toList.getLast? = some '/' := by
  have hclosing : tag.text.getLast? = some '>' :=
    List.getLast?_concat (l := '<' :: tag.inner)
  rw [Template.toList_around, List.getLast?_append, List.getLast?_append, hclosing]
  cases back.toList.getLast? <;> simp

/-- The pattern of a rule with one placeholder, unless its expression is not usable. -/
theorem patternWith_around {tag : Template.Tag} {catalogue : Catalogue}
    {declare : Declaration} (htemplate : r.template = Template.around front tag back)
    (hslash : front.toList.head? = some '/') (hfront : '<' ∉ front.toList)
    (hback : '<' ∉ back.toList) (htag : tag.IsProper)
    (hget : catalogue.get? tag.placeholder.converter = some declare)
    (hdeclare : declare tag.placeholder.arguments = .ok c) :
    r.patternWith catalogue =
      if (Pattern.around front tag.name back c r.slashPolicy).isMatchable then
        .ok (.around front tag.name back c r.slashPolicy)
      else .error (.pattern .unmatchable) := by
  have hparse := Template.parse_around hslash hfront hback htag
  rw [← htemplate] at hparse
  unfold patternWith
  rw [hparse, ← tag.name_placeholder]
  show (Pattern.ofSegments catalogue r.slashPolicy _).mapError RuleFault.pattern = _
  rw [Pattern.ofSegments_around hget hdeclare]
  split <;> rfl

/-- When a rule with one placeholder has a pattern, and which one. -/
theorem patternWith_around_eq_ok_iff {tag : Template.Tag} {catalogue : Catalogue}
    {declare : Declaration} (htemplate : r.template = Template.around front tag back)
    (hslash : front.toList.head? = some '/') (hfront : '<' ∉ front.toList)
    (hback : '<' ∉ back.toList) (htag : tag.IsProper)
    (hget : catalogue.get? tag.placeholder.converter = some declare)
    (hdeclare : declare tag.placeholder.arguments = .ok c) :
    r.patternWith catalogue = .ok p ↔
      p = .around front tag.name back c r.slashPolicy ∧ p.isMatchable = true := by
  rw [patternWith_around htemplate hslash hfront hback htag hget hdeclare]
  constructor
  · intro h
    split at h
    next hmatchable =>
      obtain rfl := Except.ok.inj h
      exact ⟨rfl, hmatchable⟩
    · cases h
  · rintro ⟨rfl, hmatchable⟩
    rw [if_pos hmatchable]

/-- A rule with one placeholder is bound to its pattern. -/
theorem bind_around {table : TableId} {tag : Template.Tag} {catalogue : Catalogue}
    {declare : Declaration} (hunbound : r.binding = none) (hmethods : r.methods.isEmpty = false)
    (htemplate : r.template = Template.around front tag back)
    (hslash : front.toList.head? = some '/') (hfront : '<' ∉ front.toList)
    (hback : '<' ∉ back.toList) (htag : tag.IsProper)
    (hget : catalogue.get? tag.placeholder.converter = some declare)
    (hdeclare : declare tag.placeholder.arguments = .ok c)
    (hmatchable : (Pattern.around front tag.name back c r.slashPolicy).isMatchable = true) :
    r.bind table catalogue =
      .ok { r with binding := some ⟨table, .around front tag.name back c r.slashPolicy⟩ } := by
  have hpattern := (patternWith_around_eq_ok_iff htemplate hslash hfront hback htag hget hdeclare).2
    ⟨rfl, hmatchable⟩
  exact bind_eq_ok_iff.2 ⟨hunbound, hmethods, _, hpattern, rfl⟩

/-- A bound rule of such a template has the pattern of its one placeholder, with the slash open
where the template ends in one and the rule is strict. -/
theorem exists_compiled_around {bound : Rule} {table : TableId} {tag : Template.Tag}
    {catalogue : Catalogue} {declare : Declaration}
    (htemplate : r.template = Template.around front tag back)
    (hslash : front.toList.head? = some '/') (hfront : '<' ∉ front.toList)
    (hback : '<' ∉ back.toList) (htag : tag.IsProper)
    (hget : catalogue.get? tag.placeholder.converter = some declare)
    (hdeclare : declare tag.placeholder.arguments = .ok c)
    (hbind : r.bind table catalogue = .ok bound) :
    ∃ p, bound.Compiled p ∧ p.parts = [.literal front, .capture tag.name c, .literal back] ∧
      bound.slashPolicy =
        if back.toList.getLast? = some '/' ∧ r.strictSlashes = true then .optional else .exact := by
  obtain ⟨-, -, p, hp, rfl⟩ := bind_eq_ok_iff.1 hbind
  obtain ⟨rfl, -⟩ :=
    (patternWith_around_eq_ok_iff htemplate hslash hfront hback htag hget hdeclare).1 hp
  refine ⟨_, ⟨table, catalogue, rfl, hp⟩, rfl, ?_⟩
  simp only [slashPolicy, isBranch, htemplate, getLast?_around, Bool.and_eq_true,
    decide_eq_true_eq]

/-- A rule with one variable that has its text as its value reads the paths that are the literal
text about a text of this variable, and asks for a redirect where the slash is open and missing. -/
theorem read?_one_iff (h : r.Compiled p)
    (hparts : p.parts = [.literal front, .capture name c, .literal back]) (htextual : c.IsTextual)
    (hleaves : r.slashPolicy = .optional → c.LeavesSlash) {path : String} {m : RuleReading} :
    r.read? path = .ok (some m) ↔ ∃ text slash, c.Accepts text ∧
      r.slashPolicy.Surrounds front.toList back.toList text path.toList slash ∧
        m = ⟨NameMap.empty.insert name (.str (String.ofList text)),
          r.slashPolicy = .optional && !slash⟩ := by
  obtain ⟨table, catalogue, hbinding, -⟩ := id h
  have hcaptures : p.captures = [(name, c)] := by rw [Pattern.captures, hparts]; rfl
  have hread : ∀ {texts : List String} {slash : Bool}, p.read? path = some ⟨texts, slash⟩ ↔
      ∃ text, texts = [String.ofList text] ∧ c.Accepts text ∧
        r.slashPolicy.Surrounds front.toList back.toList text path.toList slash := by
    intro texts slash
    have hslashes := h.slashes_eq
    cases hpolicy : r.slashPolicy with
    | exact =>
      exact Pattern.read?_one_exact_iff hparts h.hasPlainNames (hslashes.trans hpolicy)
    | optional =>
      exact Pattern.read?_one_optional_iff hparts h.hasPlainNames (hslashes.trans hpolicy)
        (hleaves hpolicy)
  have hconvert : ∀ text, Pattern.convert? p.captures [text] .empty =
      some (NameMap.empty.insert name (.str text)) := by
    intro text
    rw [hcaptures]
    simp only [Pattern.convert?, htextual text]
  rw [read?_of_binding hbinding, Except.ok.injEq, Option.bind_eq_some_iff]
  simp only [needsRedirect_eq, Option.map_eq_some_iff]
  constructor
  · rintro ⟨⟨texts, slash⟩, hreading, values, hvalues, rfl⟩
    obtain ⟨text, rfl, htext, hsurrounds⟩ := hread.1 hreading
    obtain rfl := Option.some.inj ((hconvert _).symm.trans hvalues)
    exact ⟨text, slash, htext, hsurrounds, rfl⟩
  · rintro ⟨text, slash, htext, hsurrounds, rfl⟩
    exact ⟨⟨[String.ofList text], slash⟩, hread.2 ⟨text, rfl, htext, hsurrounds⟩, _,
      hconvert _, rfl⟩

end Rule

end UrlRouting
