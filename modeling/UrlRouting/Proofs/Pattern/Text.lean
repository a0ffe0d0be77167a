import UrlRouting.Proofs.Converter.Text
import UrlRouting.Proofs.Pattern.Search

/-
  The text of a pattern's expression reads as its tree.
  The reader goes through the parts in turn: literal text gives its characters, a capture its
  group, as long as its name is a label. Characters that touch become the text they make up
  (`concat_append_chars`), so that what has been read is the tree. With `read?_eq_search?` a path
  is matched as the expression that is written down says.
-/

namespace UrlRouting

open Expression

/-! ## What has been read -/

namespace Expression

theorem append_literal_append (cs ds : List Char) (e : Expression) :
    append (.literal (cs ++ ds)) e = append (.literal cs) (append (.literal ds) e) := by
  cases cs with
  | nil => rfl
  | cons c cs =>
    cases ds with
    | nil => rw [List.append_nil]; rfl
    | cons d ds =>
      cases e with
      | literal text =>
        cases text with
        | nil => rfl
        | cons t text => exact congrArg Expression.literal (List.append_assoc _ _ _)
      | seq first second =>
        cases first with
        | literal text =>
          show Expression.seq (.literal (c :: cs ++ d :: ds ++ text)) second =
            .seq (.literal (c :: cs ++ (d :: ds ++ text))) second
          rw [List.append_assoc]
        | _ => rfl
      | _ => rfl

theorem concat_append_chars (text : List Char) (es : List Expression) :
    concat (chars text ++ es) = append (.literal text) (concat es) := by
  induction text with
  | nil => rfl
  | cons c text ih =>
    show append (.literal [c]) (concat (chars text ++ es)) = _
    rw [ih, ← append_literal_append]
    rfl

theorem labels_append (a b : Expression) : (append a b).labels = a.labels ++ b.labels := by
  unfold append
  split
  · rfl
  · exact (List.append_nil _).symm
  · rfl
  · rfl
  · rfl

theorem labels_concat (es : List Expression) : (concat es).labels = es.flatMap labels := by
  induction es with
  | nil => rfl
  | cons e es ih =>
    show (append e (concat es)).labels = _
    rw [labels_append, ih]
    rfl

theorem labels_anyOf (texts : List (List Char)) : (anyOf texts).labels = [] := by
  induction texts with
  | nil => rfl
  | cons text texts ih =>
    cases texts with
    | nil => rfl
    | cons other texts => exact ih

end Expression

theorem Converter.labels_tree (c : Converter) : c.tree.labels = [] := by
  cases c with
  | string b =>
    rw [tree_string]
    rfl
  | any items => exact labels_anyOf _
  | path => rfl
  | int b => rfl
  | float b => rfl
  | uuid => rfl

/-! ## Parts -/

namespace Part

/-- The items that a part is read as. -/
def items : Part → List Expression
  | literal text => chars text.toList
  | capture name c => [.group (some name.toList) c.tree]

theorem length_items_le (parts : List Part) :
    (parts.flatMap items).length ≤ (parts.flatMap expressionText).length := by
  induction parts with
  | nil => exact Nat.le_refl 0
  | cons q parts ih =>
    have hq : q.items.length ≤ q.expressionText.length := by
      cases q with
      | literal text =>
        show (chars text.toList).length ≤ (escape text.toList).length
        rw [chars, List.length_map]
        exact length_le_length_escape _
      | capture name c =>
        show 1 ≤ (labelled name.toList c.expressionText).length
        unfold labelled
        rw [List.length_append, List.length_singleton]
        exact Nat.le_add_left 1 _
    rw [List.flatMap_cons, List.flatMap_cons, List.length_append, List.length_append]
    exact Nat.add_le_add hq ih

theorem concat_items (parts : List Part) (es : List Expression) :
    concat (parts.flatMap items ++ es) = concat (parts.map tree ++ es) := by
  induction parts with
  | nil => rfl
  | cons q parts ih =>
    rw [List.flatMap_cons, List.append_assoc]
    cases q with
    | literal text =>
      rw [items, concat_append_chars, ih]
      rfl
    | capture name c =>
      show append _ (concat (parts.flatMap items ++ es)) = _
      rw [ih]
      rfl

variable {parts : List Part} {fuel : Nat} {before : List (Option Expression)} {rest : List Char}

/-- The parts give their items, unless the name of a capture is no label. -/
theorem items?_expressionText (hproper : ∀ c ∈ converters parts, c.IsProper)
    (hplain : ∀ label ∈ parts.filterMap (fun q => q.field.label), '>' ∉ label)
    (hfuel : 3 * (parts.flatMap expressionText).length + 2 ≤ fuel) :
    items? (fuel + (parts.flatMap items).length) {} before (parts.flatMap expressionText ++ rest) =
      if (parts.filterMap fun q => q.field.label).all isLabel then
        items? fuel {} (((parts.flatMap items).map some).reverse ++ before) rest
      else none := by
  induction parts generalizing before with
  | nil => rfl
  | cons q parts ih =>
    rw [List.flatMap_cons, List.length_append] at hfuel
    cases q with
    | literal text =>
      have hmore := @ih (((chars text.toList).map some).reverse ++ before) hproper hplain (by omega)
      have htext : (literal text :: parts).flatMap expressionText ++ rest =
          escape text.toList ++ (parts.flatMap expressionText ++ rest) := by
        rw [List.flatMap_cons, List.append_assoc]
        rfl
      have hitems : (literal text :: parts).flatMap items =
          chars text.toList ++ parts.flatMap items := rfl
      have hlength : (chars text.toList).length = text.toList.length := List.length_map _
      rw [hitems, List.length_append, hlength, Nat.add_comm text.toList.length, ← Nat.add_assoc,
        htext, items?_escape, hmore, List.map_append, List.reverse_append, List.append_assoc]
      rfl
    | capture name c =>
      obtain ⟨hname, hplain⟩ := List.forall_mem_cons.1 hplain
      obtain ⟨hc, hproper⟩ := List.forall_mem_cons.1 hproper
      have hmore := @ih (some (.group (some name.toList) c.tree) :: before) hproper hplain
        (by omega)
      have htext : (capture name c :: parts).flatMap expressionText ++ rest =
          labelled name.toList c.expressionText ++ (parts.flatMap expressionText ++ rest) := by
        rw [List.flatMap_cons, List.append_assoc]
        rfl
      have hitems : (capture name c :: parts).flatMap items =
          .group (some name.toList) c.tree :: parts.flatMap items := rfl
      have hlabels : (capture name c :: parts).filterMap (fun q => q.field.label) =
          name.toList :: parts.filterMap (fun q => q.field.label) := rfl
      have hlength : c.expressionText.length + 6 ≤ (capture name c).expressionText.length := by
        show _ ≤ (labelled name.toList c.expressionText).length
        have hopening : "(?P<".toList.length = 4 := rfl
        simp only [labelled, List.length_append, List.length_cons, hopening]
        omega
      have hbody := @Converter.alternatives?_expressionText c hc
        (fuel + (parts.flatMap items).length) (by omega) (parts.flatMap expressionText ++ rest)
      rw [hitems, hlabels, htext, List.length_cons, ← Nat.add_assoc, items?_labelled hname hbody,
        List.all_cons]
      cases isLabel name.toList with
      | true =>
        rw [if_pos rfl, hmore, List.map_cons, List.reverse_cons, List.append_assoc]
        rfl
      | false => rfl

end Part

/-! ## Patterns -/

theorem Expression.ofItems_reverse (es : List Expression) :
    ofItems ((es.map some).reverse) = concat es := by
  unfold ofItems
  rw [List.reverse_reverse, List.filterMap_map]
  exact congrArg concat List.filterMap_some

namespace Pattern

/-- What is written behind the parts. -/
def endText (p : Pattern) : List Char :=
  match p.slashes with
  | .exact => ['$']
  | .optional => labelled slashLabel "/?".toList ++ ['$']

def endItems (p : Pattern) : List Expression :=
  match p.slashes with
  | .exact => [.look .textEnd]
  | .optional =>
    [.group (some slashLabel) (.times 0 (some 1) true (.literal ['/'])), .look .textEnd]

variable {p : Pattern}

theorem expressionText_eq (p : Pattern) :
    p.expressionText = '^' :: (p.body.flatMap Part.expressionText ++ p.endText) := by
  unfold expressionText endText
  cases p.slashes with
  | exact => rfl
  | optional => exact List.append_assoc _ _ _

theorem tree_eq_concat_items (p : Pattern) :
    p.tree = concat (.look .textStart :: (p.body.flatMap Part.items ++ p.endItems)) := by
  have htree : p.tree = concat (.look .textStart :: (p.body.map Part.tree ++ p.endItems)) := by
    unfold tree endItems
    cases p.slashes <;> rfl
  rw [htree]
  exact congrArg (append (.look .textStart)) (Part.concat_items p.body p.endItems).symm

theorem items?_endText (fuel : Nat) (before : List (Option Expression)) :
    items? (fuel + 6) {} before p.endText =
      some (ofItems ((p.endItems.map some).reverse ++ before), {}, []) := by
  unfold endText endItems
  cases p.slashes with
  | exact =>
    show items? (fuel + 6) {} before ['$'] = _
    rw [items?_textEnd, items?_nil]
    rfl
  | optional =>
    have hbody : alternatives? (fuel + 5) {} ("/?".toList ++ ')' :: ['$']) =
        some (.times 0 (some 1) true (.literal ['/']), ')' :: ['$']) := by
      apply alternatives?_of_items?
      show items? (fuel + 4) {} [] ('/' :: '?' :: ')' :: ['$']) = _
      rw [items?_char (by decide), items?_optional (by simp), items?_close]
      rfl
    show items? (fuel + 6) {} before (labelled slashLabel "/?".toList ++ ['$']) = _
    rw [items?_labelled (by decide) hbody, if_pos (by decide), items?_textEnd, items?_nil]
    rfl

theorem labels_fields (p : Pattern) : p.fields.filterMap Field.label = p.labels := by
  have hbody : (p.body.map Part.field).filterMap Field.label = p.variables.map String.toList := by
    rw [List.filterMap_map, ← labels_body]
    rfl
  unfold fields labels
  cases p.slashes with
  | exact => exact hbody
  | optional => rw [List.filterMap_append, hbody]; rfl

theorem labels_tree (p : Pattern) : p.tree.labels = p.labels := by
  have hfield : ∀ f : Field, f.tree.labels = f.label.toList := by
    rintro ⟨label, piece⟩
    have hpiece : piece.tree.labels = [] := by
      cases piece with
      | literal text => rfl
      | capture c => exact c.labels_tree
      | optionalSlash => rfl
    cases label with
    | none => exact hpiece
    | some label => exact congrArg (label :: ·) hpiece
  have hfields : (p.fields.map Field.tree).flatMap Expression.labels = p.labels := by
    rw [← labels_fields, List.filterMap_eq_flatMap_toList, List.flatMap_map]
    exact congrArg (List.flatMap · p.fields) (funext hfield)
  rw [tree_eq, labels_concat]
  show (p.fields.map Field.tree ++ [Expression.look .textEnd]).flatMap Expression.labels = _
  rw [List.flatMap_append, hfields]
  exact List.append_nil _

theorem all_isLabel_labels (p : Pattern) :
    p.labels.all isLabel = (p.body.filterMap fun q => q.field.label).all isLabel := by
  rw [labels_body]
  unfold labels
  cases p.slashes with
  | exact => rfl
  | optional =>
    have hslash : [slashLabel].all isLabel = true := by decide
    show (p.variables.map String.toList ++ [slashLabel]).all isLabel = _
    rw [List.all_append, hslash, Bool.and_true]

theorem items?_expressionText (hproper : ∀ c ∈ Part.converters p.parts, c.IsProper)
    (hnames : p.hasPlainNames = true) :
    items? (4 * p.expressionText.length + 7) {} [] p.expressionText =
      if p.labels.all isLabel then some (p.tree, {}, []) else none := by
  have hconverters : ∀ c ∈ Part.converters p.body, c.IsProper := by
    rwa [p.converters_body]
  have hplain : ∀ label ∈ p.body.filterMap (fun q => q.field.label), '>' ∉ label := by
    intro label hlabel
    rw [labels_body] at hlabel
    obtain ⟨name, hname, rfl⟩ := List.mem_map.1 hlabel
    exact of_decide_eq_true (List.all_eq_true.1 hnames name hname)
  have hitems := Part.length_items_le p.body
  have hlength : (p.body.flatMap Part.expressionText).length + 1 ≤ p.expressionText.length := by
    rw [expressionText_eq, List.length_cons, List.length_append]
    omega
  obtain ⟨fuel, hfuel⟩ : ∃ f, 4 * p.expressionText.length + 6 =
      f + 6 + (p.body.flatMap Part.items).length :=
    ⟨4 * p.expressionText.length - (p.body.flatMap Part.items).length, by omega⟩
  have hbody := @Part.items?_expressionText p.body (fuel + 6) [some (.look .textStart)] p.endText
    hconverters hplain (by omega)
  have hread : items? (4 * p.expressionText.length + 7) {} [] p.expressionText =
      items? (4 * p.expressionText.length + 6) {} [some (.look .textStart)]
        (p.body.flatMap Part.expressionText ++ p.endText) := by
    rw [expressionText_eq]
    exact items?_textStart
  rw [hread, hfuel, hbody, all_isLabel_labels, items?_endText, tree_eq_concat_items,
    ← ofItems_reverse]
  simp

/-- The text of a pattern's expression reads as its tree, if its names are labels and differ. -/
theorem read?_expressionText (hproper : ∀ c ∈ Part.converters p.parts, c.IsProper)
    (hnames : p.hasPlainNames = true) :
    Expression.read? p.expressionText =
      if p.labels.all isLabel && decide p.labels.Nodup then some p.tree else none := by
  have hread : alternatives? (4 * p.expressionText.length + 8) {} p.expressionText =
      if p.labels.all isLabel then some (p.tree, []) else none := by
    rw [alternatives?, items?_expressionText hproper hnames]
    cases p.labels.all isLabel <;> rfl
  unfold Expression.read?
  rw [hread]
  cases p.labels.all isLabel with
  | true =>
    show (if decide p.tree.labels.Nodup = true then some p.tree else none) = _
    rw [labels_tree]
    rfl
  | false => rfl

/-- The tree of a pattern is what its text reads as. -/
theorem tree?_eq_read? (hproper : ∀ c ∈ Part.converters p.parts, c.IsProper) :
    p.tree? = Expression.read? p.expressionText := by
  unfold tree?
  split
  next hnames => rw [read?_expressionText hproper hnames]
  · rfl

/-- A path is matched as the expression that is written for the pattern says. -/
theorem read?_eq_search?_expressionText {catalogue : Catalogue} (hcatalogue : catalogue.IsProper)
    {slashes : SlashPolicy} {segments : List Segment}
    (h : ofSegments catalogue slashes segments = .ok p) (path : String) :
    p.read? path =
      (Expression.read? p.expressionText).bind fun e => p.search? e path.toList := by
  rw [read?_eq_search? hcatalogue h, tree?_eq_read? (isProper_of_ofSegments hcatalogue h)]

end Pattern

end UrlRouting
