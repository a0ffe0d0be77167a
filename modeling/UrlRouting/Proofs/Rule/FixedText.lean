import Mathlib.Data.List.Induction
import UrlRouting.Proofs.Pattern.SlashPolicies
import UrlRouting.Proofs.Rule.Reading

/-
  Rules without variables.
  The pattern of such a rule is its template, so it reads the paths that are this text, with the
  slash at the end where it is asked for. Where it is left open all slashes at the end of the
  template stand for one: the rule reads the rest of the template with one slash behind it, and asks
  for a redirect where that is missing (`read?_of_no_variables`). So of a template that ends in more
  slashes it does not read the path that it builds (`read?_of_two_slashes`).
-/

namespace UrlRouting

open Template (EndsInOneSlash)

/-! ## Slashes at the end -/

/-- Every text is another that does not end in a slash, with slashes behind it. -/
theorem exists_append_slashes (text : List Char) :
    ∃ front slashes, text = front ++ List.replicate slashes '/' ∧ front.getLast? ≠ some '/' := by
  induction text using List.reverseRecOn with
  | nil => exact ⟨[], 0, rfl, by simp⟩
  | append_singleton text c ih =>
    by_cases hc : c = '/'
    · obtain ⟨front, slashes, rfl, hfront⟩ := ih
      refine ⟨front, slashes + 1, ?_, hfront⟩
      rw [hc, List.append_assoc, ← List.replicate_succ']
    · exact ⟨text ++ [c], 0, by simp, by simpa using hc⟩

theorem endsInOneSlash_append_replicate_iff {front : List Char} (h : front.getLast? ≠ some '/')
    (slashes : Nat) : EndsInOneSlash (front ++ List.replicate slashes '/') ↔ slashes = 1 := by
  constructor
  · rintro ⟨front', heq, hfront'⟩
    have hrest := trimSlashes_append_replicate hfront' 1
    rw [List.replicate_one, ← heq, trimSlashes_append_replicate h] at hrest
    have hlen := congrArg List.length heq
    simp only [hrest, List.length_append, List.length_replicate, List.length_singleton] at hlen
    omega
  · rintro rfl
    exact ⟨front, rfl, h⟩

/-! ## Patterns without variables -/

/-- Parts without variables are found in the text that they make up. -/
theorem Part.firstTexts?_of_converters_eq_nil {parts : List Part} (h : converters parts = [])
    (path : List Char) :
    firstTexts? parts path =
      if path = (interleave parts []).flatten then some [] else none := by
  apply Option.ext
  intro texts
  rw [firstTexts?_eq_some_iff, h]
  split
  next hpath =>
    constructor
    · rintro ⟨⟨htexts, -⟩, -⟩
      rw [List.forall₂_nil_left_iff.1 htexts]
    · intro heq
      obtain rfl := Option.some.inj heq
      exact ⟨⟨.nil, hpath⟩, fun others hothers _ => .inl (List.forall₂_nil_left_iff.1 hothers)⟩
  next hpath =>
    constructor
    · rintro ⟨⟨htexts, heq⟩, -⟩
      obtain rfl := List.forall₂_nil_left_iff.1 htexts
      exact absurd heq hpath
    · intro heq
      cases heq

/-- Without its slashes a literal text makes up what stands before them. -/
theorem flatten_dropSlashes_literal {text : String} {front : List Char} {slashes : Nat}
    (h : text.toList = front ++ List.replicate slashes '/') (hfront : front.getLast? ≠ some '/')
    (texts : List (List Char)) :
    (Part.interleave (dropSlashes [.literal text]) texts).flatten = front := by
  show (Part.interleave (if (trimSlashes text.toList).isEmpty then [] else
    [.literal (String.ofList (trimSlashes text.toList))]) texts).flatten = front
  rw [h, trimSlashes_append_replicate hfront]
  cases front <;> simp [Part.interleave]

namespace Pattern

variable {p : Pattern} {text : String}

theorem read?_literal_exact (hnames : p.hasPlainNames = true) (h : p.slashes = .exact)
    (hparts : p.parts = [.literal text]) (path : String) :
    p.read? path =
      if path = text then some ⟨[], decide (path.toList.getLast? = some '/')⟩ else none := by
  have htext : (Part.interleave [.literal text] []).flatten = text.toList := by
    simp [Part.interleave]
  rw [read?_exact_eq_firstTexts? hnames h, hparts, Part.firstTexts?_of_converters_eq_nil rfl,
    htext]
  simp only [String.toList_inj]
  split <;> rfl

theorem read?_literal_optional (hnames : p.hasPlainNames = true) (h : p.slashes = .optional)
    (hparts : p.parts = [.literal text]) {front : List Char} {slashes : Nat}
    (htext : text.toList = front ++ List.replicate slashes '/')
    (hfront : front.getLast? ≠ some '/') (path : String) :
    p.read? path =
      if path.toList = front ++ ['/'] then some ⟨[], true⟩
      else if path.toList = front then some ⟨[], false⟩ else none := by
  have hbody : p.body = dropSlashes [.literal text] := by rw [body_of_optional h, hparts]
  have hflatten := flatten_dropSlashes_literal htext hfront
  have hconverters : Part.converters p.body = [] := by rw [p.converters_body, hparts]; rfl
  -- a slash at the end of the path is the one left open, for the text before it has none
  by_cases hend : path.toList.getLast? = some '/'
  · obtain ⟨before, hpath⟩ := List.getLast?_eq_some_iff.1 hend
    have hleave : LeaveSlash (p.body.map Part.piece) (before ++ ['/']) := by
      refine .inl fun d hd => ?_
      obtain ⟨texts, -, -, heq⟩ := divides_pieces_iff.1 hd
      rw [hbody, hflatten] at heq
      rw [← heq, List.getLast?_concat] at hfront
      exact hfront rfl
    rw [read?_optional_of_append hnames h hpath hleave,
      Part.firstTexts?_of_converters_eq_nil hconverters, hbody, hflatten, hpath]
    by_cases hbefore : before = front
    · subst hbefore
      rw [if_neg hfront, if_pos rfl, if_pos rfl]
      rfl
    · have hwhole : before ++ ['/'] ≠ front ++ ['/'] :=
        fun heq => hbefore (List.append_left_injective ['/'] heq)
      have hbare : before ++ ['/'] ≠ front := by
        rintro rfl
        exact hfront List.getLast?_concat
      rw [if_neg hbefore, if_neg hwhole, if_neg hbare]
      split <;> rfl
  · have hne : path.toList ≠ front ++ ['/'] := by
      intro heq
      rw [heq] at hend
      exact hend List.getLast?_concat
    rw [read?_optional_of_ne hnames h hend, Part.firstTexts?_of_converters_eq_nil hconverters,
      hbody, hflatten, if_neg hne]
    split <;> rfl

end Pattern

/-! ## Rules without variables -/

namespace Rule

variable {r : Rule} {p : Pattern}

theorem Compiled.parts_of_no_variables (h : r.Compiled p) (hfree : '<' ∉ r.template.toList) :
    p.parts = [.literal r.template] := by
  obtain ⟨catalogue, segments, hparse, hsegments⟩ := h.exists_segments
  have hslash := (Template.parse_eq_ok_iff.1 hparse).1
  have hsplit : Template.Split [] r.template.toList [.literal (String.ofList r.template.toList)] :=
    .last hfree
  rw [String.ofList_toList] at hsplit
  obtain rfl := Except.ok.inj (hparse.symm.trans (Template.parse_eq_ok_iff.2 ⟨hslash, hsplit⟩))
  obtain ⟨q, rest, hq, hrest, hparts⟩ :=
    List.forall₂_cons_left_iff.1 (Pattern.ofSegments_eq_ok_iff.1 hsegments).1
  obtain rfl := List.forall₂_nil_left_iff.1 hrest
  obtain rfl := Except.ok.inj hq
  exact hparts

/-- Without variables a path is read as no values, with a redirect where the slash is open and
missing. -/
theorem read?_of_parts_literal (h : r.Compiled p) {text : String}
    (hparts : p.parts = [.literal text]) (path : String) :
    r.read? path = .ok ((p.read? path).map fun reading =>
      ⟨.empty, r.slashPolicy = .optional && !reading.trailingSlash⟩) := by
  obtain ⟨table, catalogue, hbinding, -⟩ := id h
  have hcaptures : p.captures = [] := by rw [Pattern.captures, hparts]; rfl
  rw [read?_of_binding hbinding]
  simp only [hcaptures, Pattern.convert?, needsRedirect_eq, Option.map_eq_bind]
  rfl

/-- Where the slash at the end is asked for, the rule reads its template. -/
theorem read?_template (h : r.Compiled p) (hfree : '<' ∉ r.template.toList)
    (hexact : r.slashPolicy = .exact) (path : String) :
    r.read? path = .ok (if path = r.template then some ⟨.empty, false⟩ else none) := by
  have hparts := h.parts_of_no_variables hfree
  rw [read?_of_parts_literal h hparts,
    Pattern.read?_literal_exact h.hasPlainNames (h.slashes_eq.trans hexact) hparts, hexact]
  split <;> rfl

/-- Where the slash at the end is open, all those of the template stand for one. -/
theorem read?_template_open (h : r.Compiled p) (hfree : '<' ∉ r.template.toList)
    (hopen : r.slashPolicy = .optional) {front : List Char} {slashes : Nat}
    (htext : r.template.toList = front ++ List.replicate slashes '/')
    (hfront : front.getLast? ≠ some '/') (path : String) :
    r.read? path = .ok (if path.toList = front ++ ['/'] then some ⟨.empty, false⟩
      else if path.toList = front then some ⟨.empty, true⟩ else none) := by
  have hparts := h.parts_of_no_variables hfree
  rw [read?_of_parts_literal h hparts, Pattern.read?_literal_optional h.hasPlainNames
    (h.slashes_eq.trans hopen) hparts htext hfront, hopen]
  split
  · rfl
  · split <;> rfl

theorem build_of_parts_literal (h : r.Compiled p) {text : String}
    (hparts : p.parts = [.literal text]) : r.build .empty = .ok text := by
  obtain ⟨table, catalogue, hbinding, -⟩ := id h
  have hcaptures : p.captures = [] := by rw [Pattern.captures, hparts]; rfl
  have hbuild : p.build .empty = .ok text := by
    refine Pattern.build_eq_ok_iff.2 ⟨?_, [], ?_, ?_⟩
    · intro name hname
      cases hname
    · rw [hcaptures]
      exact .nil
    · rw [hparts]
      simp [Part.interleave]
  rw [build_of_binding hbinding, hbuild]
  rfl

/-- A rule without variables reads its own template, except with slashes left open at its end. -/
theorem read?_self_iff (h : r.Compiled p) (hfree : '<' ∉ r.template.toList) :
    r.read? r.template = .ok (some ⟨.empty, false⟩) ↔
      (r.isBranch = true → r.strictSlashes = true → EndsInOneSlash r.template.toList) := by
  cases hpolicy : r.slashPolicy with
  | exact =>
    rw [read?_template h hfree hpolicy, if_pos rfl]
    refine iff_of_true rfl fun hbranch hstrict => ?_
    exact absurd (hstrict.symm.trans (slashPolicy_eq_exact_iff.1 hpolicy hbranch)) (by decide)
  | optional =>
    obtain ⟨hbranch, hstrict⟩ := slashPolicy_eq_optional_iff.1 hpolicy
    obtain ⟨front, slashes, htext, hfront⟩ := exists_append_slashes r.template.toList
    have hself : r.read? r.template = .ok (some ⟨.empty, false⟩) ↔ slashes = 1 := by
      rw [read?_template_open h hfree hpolicy htext hfront, htext]
      constructor
      · intro hread
        by_contra hslashes
        rw [if_neg fun heq => hslashes ?_] at hread
        · split at hread <;> cases hread
        · simpa using congrArg List.length heq
      · rintro rfl
        rw [List.replicate_one, if_pos rfl]
    rw [hself, htext, endsInOneSlash_append_replicate_iff hfront]
    exact ⟨fun hone _ _ => hone, fun hone => hone hbranch hstrict⟩

/-- What a rule reads and builds, once bound, that has no variables in its template. -/
structure IsFixedText (r bound : Rule) : Prop where
  /-- Unless it is a strict branch, it reads its template and asks for no redirect. -/
  slashKept : r.isBranch = false ∨ r.strictSlashes = false → ∀ path,
    bound.read? path = .ok (if path = r.template then some ⟨.empty, false⟩ else none)
  /-- A strict branch reads the template with one slash in the place of all at its end, and asks for
  a redirect where that one is missing. -/
  slashOpen : r.isBranch = true → r.strictSlashes = true → ∃ front slashes,
    r.template.toList = front ++ List.replicate slashes '/' ∧ front.getLast? ≠ some '/' ∧
    ∀ path, bound.read? path = .ok (
      if path.toList = front ++ ['/'] then some ⟨.empty, false⟩
      else if path.toList = front then some ⟨.empty, true⟩ else none)
  build_eq : bound.build .empty = .ok r.template
  readsBack_iff : bound.read? r.template = .ok (some ⟨.empty, false⟩) ↔
    (r.isBranch = true → r.strictSlashes = true → EndsInOneSlash r.template.toList)

/-- A bound rule without variables reads its template and no other path, but for the slashes at the
end of a strict branch. What it builds is its template, which it reads in turn, except as a strict
branch that ends in more slashes than one. -/
theorem read?_of_no_variables {r bound : Rule} {table : TableId} {catalogue : Catalogue}
    (hbind : r.bind table catalogue = .ok bound) (hfree : '<' ∉ r.template.toList) :
    r.IsFixedText bound := by
  obtain ⟨-, -, p, hp, rfl⟩ := bind_eq_ok_iff.1 hbind
  have hcompiled : Compiled { r with binding := some ⟨table, p⟩ } p := ⟨table, catalogue, rfl, hp⟩
  refine {
    slashKept := ?slashKept
    slashOpen := ?slashOpen
    build_eq := build_of_parts_literal hcompiled (hcompiled.parts_of_no_variables hfree)
    readsBack_iff := read?_self_iff hcompiled hfree }
  case slashKept =>
    intro hexact
    refine read?_template hcompiled hfree (slashPolicy_eq_exact_iff.2 fun hbranch => ?_)
    rcases hexact with hleaf | hstrict
    · exact absurd (hleaf.symm.trans hbranch) Bool.false_ne_true
    · exact hstrict
  case slashOpen =>
    intro hbranch hstrict
    obtain ⟨front, slashes, htext, hfront⟩ := exists_append_slashes r.template.toList
    have hopen := slashPolicy_eq_optional_iff.2 ⟨hbranch, hstrict⟩
    exact ⟨front, slashes, htext, hfront, read?_template_open hcompiled hfree hopen htext hfront⟩

/-- The rule of one template, for one method. -/
def pageRule (template : String) : Rule where
  template := template
  endpoint := "page"
  methods := .ofList [.get]

/-- The same as bound, with the template as its pattern. -/
def boundPageRule (template : String) : Rule :=
  { pageRule template with binding := some ⟨⟨0⟩, [.literal template], .optional⟩ }

theorem read?_of_no_variables_menu :
    (pageRule "/[a-z]+.(b)|c/\n/é/").bind ⟨0⟩ .standard =
        .ok (boundPageRule "/[a-z]+.(b)|c/\n/é/") ∧
      '<' ∉ "/[a-z]+.(b)|c/\n/é/".toList ∧
      (boundPageRule "/[a-z]+.(b)|c/\n/é/").build .empty = .ok "/[a-z]+.(b)|c/\n/é/" ∧
      (boundPageRule "/[a-z]+.(b)|c/\n/é/").read? "/[a-z]+.(b)|c/\n/é/" =
        .ok (some ⟨.empty, false⟩) := by
  have hbind : (pageRule "/[a-z]+.(b)|c/\n/é/").bind ⟨0⟩ .standard =
      .ok (boundPageRule "/[a-z]+.(b)|c/\n/é/") := by decide +kernel
  have hfree : '<' ∉ "/[a-z]+.(b)|c/\n/é/".toList := by decide
  have hfixed := read?_of_no_variables hbind hfree
  refine ⟨hbind, hfree, hfixed.build_eq, hfixed.readsBack_iff.2 fun _ _ => ?_⟩
  exact ⟨"/[a-z]+.(b)|c/\n/é".toList, by decide, by decide⟩

/-- A strict branch with two slashes at its end does not read the path that it builds. -/
theorem read?_of_two_slashes :
    (pageRule "/a//").bind ⟨0⟩ .standard = .ok (boundPageRule "/a//") ∧
      '<' ∉ "/a//".toList ∧ (pageRule "/a//").isBranch = true ∧
      (pageRule "/a//").strictSlashes = true ∧
      (boundPageRule "/a//").build .empty = .ok "/a//" ∧
      (boundPageRule "/a//").read? "/a//" = .ok none ∧
      (boundPageRule "/a//").read? "/a/" = .ok (some ⟨.empty, false⟩) := by
  decide +kernel

end Rule

end UrlRouting
