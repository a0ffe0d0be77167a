import UrlRouting.Proofs.Template.Segments

/-
  The grammar of templates.
  A `Layout` is a template as it is written: literal text, then placeholders with literal text
  behind each. `text` writes it down and `segments` says what it means. Reading accepts the texts of
  the layouts that keep the rules (`IsTemplate`) and gives their segments, and no text is that of
  two such layouts (`parse_eq_ok_iff_layout`).
-/

namespace UrlRouting.Template

open Text

/-! ## Layouts -/

/-- A template as it is written: literal text, then placeholders, each with the literal text behind
it. -/
structure Layout where
  opening : String
  rest : List (Tag × String)
  deriving DecidableEq

namespace Layout

def literals (l : Layout) : List String := l.opening :: l.rest.map Prod.snd

def tags (l : Layout) : List Tag := l.rest.map Prod.fst

def text (l : Layout) : List Char :=
  l.opening.toList ++ l.rest.flatMap fun e => e.1.text ++ e.2.toList

/-- The segments that the layout stands for. -/
def segments (l : Layout) : List Segment :=
  .literal l.opening :: l.rest.flatMap fun e => [.placeholder e.1.placeholder, .literal e.2]

/-- Whether no literal text opens a placeholder, and the placeholders are written properly. -/
def IsProper (l : Layout) : Prop :=
  (∀ literal ∈ l.literals, '<' ∉ literal.toList) ∧ ∀ tag ∈ l.tags, tag.IsProper

/-- Whether the layout is that of a template. -/
structure IsTemplate (l : Layout) : Prop where
  slash : l.opening.toList.head? = some '/'
  proper : l.IsProper
  names : (l.tags.map Tag.name).Nodup

theorem length_segments (l : Layout) : l.segments.length = 2 * l.rest.length + 1 := by
  simp [segments, Nat.mul_comm]

/-- The layout with one more literal and one more placeholder in front. -/
def cons (literal : String) (tag : Tag) (l : Layout) : Layout :=
  ⟨literal, (tag, l.opening) :: l.rest⟩

@[simp] theorem tags_cons (literal : String) (tag : Tag) (l : Layout) :
    (cons literal tag l).tags = tag :: l.tags := rfl

@[simp] theorem segments_cons (literal : String) (tag : Tag) (l : Layout) :
    (cons literal tag l).segments =
      .literal literal :: .placeholder tag.placeholder :: l.segments := rfl

@[simp] theorem text_literal (literal : String) : text ⟨literal, []⟩ = literal.toList :=
  List.append_nil _

@[simp] theorem text_cons (literal : String) (tag : Tag) (l : Layout) :
    (cons literal tag l).text = literal.toList ++ '<' :: (tag.inner ++ '>' :: l.text) := by
  simp [cons, text, Tag.text]

@[simp] theorem isProper_literal_iff {literal : String} :
    IsProper ⟨literal, []⟩ ↔ '<' ∉ literal.toList := by
  simp [IsProper, literals, tags]

@[simp] theorem isProper_cons_iff {literal : String} {tag : Tag} {l : Layout} :
    (cons literal tag l).IsProper ↔ '<' ∉ literal.toList ∧ tag.IsProper ∧ l.IsProper := by
  show (∀ t ∈ literal :: l.literals, _) ∧ (∀ t ∈ tag :: l.tags, _) ↔ _
  rw [List.forall_mem_cons, List.forall_mem_cons, IsProper]
  tauto

/-- A layout is literal text alone, or another with one more literal and placeholder in front. -/
theorem induct' {motive : Layout → Prop} (l : Layout) (literal : ∀ text, motive ⟨text, []⟩)
    (more : ∀ text tag l, motive l → motive (cons text tag l)) : motive l := by
  obtain ⟨opening, rest⟩ := l
  induction rest generalizing opening with
  | nil => exact literal opening
  | cons e rest ih => exact more opening e.1 ⟨e.2, rest⟩ (ih e.2)

theorem names_segments (l : Layout) : names l.segments = l.tags.map Tag.name := by
  induction l using induct' with
  | literal text => rfl
  | more text tag l ih =>
    rw [segments_cons, names_literal, names_placeholder, ih, Tag.name_placeholder, tags_cons,
      List.map_cons]

/-- A placeholder opens with no slash. -/
theorem head?_text {l : Layout} :
    l.text.head? = some '/' ↔ l.opening.toList.head? = some '/' := by
  cases l using induct' with
  | literal text => rw [text_literal]
  | more text tag l =>
    show (cons text tag l).text.head? = some '/' ↔ text.toList.head? = some '/'
    rw [text_cons]
    cases text.toList <;> simp

end Layout

/-! ## Reading layouts -/

theorem exists_layout_of_split {seen : List String} {text : List Char} {segs : List Segment}
    (h : Split seen text segs) : ∃ l : Layout, l.IsProper ∧ l.text = text ∧ l.segments = segs := by
  induction h with
  | @last seen text hlit =>
    refine ⟨⟨String.ofList text, []⟩, ?_, ?_, rfl⟩
    · rwa [Layout.isProper_literal_iff, String.toList_ofList]
    · rw [Layout.text_literal, String.toList_ofList]
  | @more seen literal inner rest p segs hlit hp hfresh hrest ih =>
    obtain ⟨tag, htag, rfl, rfl⟩ := placeholder_eq_ok_iff.1 hp
    obtain ⟨l, hl, rfl, rfl⟩ := ih
    refine ⟨.cons (String.ofList literal) tag l, ?_, ?_, rfl⟩
    · exact Layout.isProper_cons_iff.2 ⟨by rwa [String.toList_ofList], htag, hl⟩
    · rw [Layout.text_cons, String.toList_ofList]

theorem split_of_layout {l : Layout} {seen : List String} (h : l.IsProper)
    (hnames : (l.tags.map Tag.name).Nodup) (hseen : ∀ name ∈ l.tags.map Tag.name, name ∉ seen) :
    Split seen l.text l.segments := by
  induction l using Layout.induct' generalizing seen with
  | literal text =>
    have hlast : Split seen text.toList [.literal (String.ofList text.toList)] :=
      .last (Layout.isProper_literal_iff.1 h)
    rw [String.ofList_toList] at hlast
    rwa [Layout.text_literal]
  | more text tag l ih =>
    obtain ⟨htext, htag, hl⟩ := Layout.isProper_cons_iff.1 h
    rw [Layout.tags_cons, List.map_cons] at hnames hseen
    obtain ⟨hfirst, hnames⟩ := List.nodup_cons.1 hnames
    obtain ⟨hnew, hseen⟩ := List.forall_mem_cons.1 hseen
    rw [← Tag.name_placeholder] at hfirst hnew
    -- the name just read may not stand again either
    have hseen' : ∀ name ∈ l.tags.map Tag.name, name ∉ tag.placeholder.name :: seen := by
      intro name hname hagain
      rcases List.mem_cons.1 hagain with rfl | hagain
      · exact hfirst hname
      · exact hseen name hname hagain
    have hp : placeholder (tag.inner ++ '>' :: l.text) = .ok (tag.placeholder, l.text) :=
      placeholder_eq_ok_iff.2 ⟨tag, htag, rfl, rfl⟩
    have hmore := Split.more htext hp hnew (ih hl hnames hseen')
    rw [String.ofList_toList] at hmore
    rwa [Layout.text_cons, Layout.segments_cons]

/-- Literal text ends where a placeholder opens. -/
theorem literal_append_inj {literal literal' : String} (h : '<' ∉ literal.toList)
    (h' : '<' ∉ literal'.toList) {rest rest' : List Char}
    (heq : literal.toList ++ '<' :: rest = literal'.toList ++ '<' :: rest') :
    literal = literal' ∧ rest = rest' := by
  have hfront := congrArg (List.takeWhile (· ≠ '<')) heq
  rw [takeWhile_ne_append h, takeWhile_ne_append h'] at hfront
  obtain rfl := String.toList_inj.1 hfront
  exact ⟨rfl, (List.cons.inj (List.append_cancel_left heq)).2⟩

/-- A text is the text of one proper layout at most: what stands before the first `<` is told from
it, and the first placeholder, and so, by induction, all that follows. -/
theorem layout_text_inj {l l' : Layout} (h : l.IsProper) (h' : l'.IsProper)
    (htext : l.text = l'.text) : l = l' := by
  -- where a placeholder is left in one of them only, the texts differ
  have hopens : ∀ {literal front : String} {tag : Tag} {more : Layout},
      Layout.IsProper ⟨literal, []⟩ →
        Layout.text ⟨literal, []⟩ ≠ (Layout.cons front tag more).text := by
    intro literal front tag more hproper heq
    have hnone := Layout.isProper_literal_iff.1 hproper
    rw [← Layout.text_literal, heq, Layout.text_cons] at hnone
    exact hnone (List.mem_append_right _ List.mem_cons_self)
  induction l using Layout.induct' generalizing l' with
  | literal text =>
    cases l' using Layout.induct' with
    | literal text' =>
      rw [Layout.text_literal, Layout.text_literal] at htext
      rw [String.toList_inj.1 htext]
    | more text' tag' l' => exact absurd htext (hopens h)
  | more text tag l ih =>
    obtain ⟨hlit, htag, hl⟩ := Layout.isProper_cons_iff.1 h
    cases l' using Layout.induct' with
    | literal text' => exact absurd htext.symm (hopens h')
    | more text' tag' l' =>
      obtain ⟨hlit', htag', hl'⟩ := Layout.isProper_cons_iff.1 h'
      rw [Layout.text_cons, Layout.text_cons] at htext
      obtain ⟨rfl, hinner⟩ := literal_append_inj hlit hlit' htext
      obtain ⟨rfl, hmore⟩ := inner_append_inj htag htag' hinner
      rw [ih hl hl' hmore]

/-- A text is read as a template just where it is the text of the layout of one, and what is read
are the segments of that layout, two for each placeholder and one. No other layout of a template
has that text. -/
theorem parse_eq_ok_iff_layout (template : String) :
    (∀ segs, parse template = .ok segs ↔
      ∃ l : Layout, l.IsTemplate ∧ l.text = template.toList ∧ l.segments = segs) ∧
    (∀ l l' : Layout, l.IsTemplate → l'.IsTemplate → l.text = template.toList →
      l'.text = template.toList → l = l') ∧
    ∀ l : Layout, l.segments.length = 2 * l.rest.length + 1 := by
  refine ⟨fun segs => ?_, ?_, Layout.length_segments⟩
  · rw [parse_eq_ok_iff]
    constructor
    · rintro ⟨hslash, hsplit⟩
      obtain ⟨hnodup, -⟩ := nodup_names_of_split hsplit
      obtain ⟨l, hl, htext, rfl⟩ := exists_layout_of_split hsplit
      rw [← htext, Layout.head?_text] at hslash
      rw [Layout.names_segments] at hnodup
      exact ⟨l, ⟨hslash, hl, hnodup⟩, htext, rfl⟩
    · rintro ⟨l, hl, htext, rfl⟩
      rw [← htext, Layout.head?_text]
      exact ⟨hl.slash, split_of_layout hl.proper hl.names fun _ _ => List.not_mem_nil⟩
  · intro l l' hl hl' htext htext'
    exact layout_text_inj hl.proper hl'.proper (htext.trans htext'.symm)

/-- The quotation of the clause holds what would open, close and end it outside quotations. -/
def quotedLayout : Layout :=
  ⟨"/a", [(.called "any" "'x<y>)', z" "v", "b"), (.bare "w", "")]⟩

theorem isTemplate_quotedLayout : quotedLayout.IsTemplate where
  slash := rfl
  proper := by
    refine ⟨by decide, ?_⟩
    show ∀ tag ∈ [Tag.called "any" "'x<y>)', z" "v", .bare "w"], tag.IsProper
    simp only [List.forall_mem_cons, List.not_mem_nil, false_imp_iff, implies_true, and_true]
    have hclause : IsClause "'x<y>)', z" := by
      refine ⟨by decide, ?_⟩
      simp [onlyQuoted_cons_iff, onlyQuoted_nil, quoteAfter, isQuote]
    refine ⟨⟨?_, hclause, ?_⟩, ?_⟩ <;> exact ⟨by decide, by simp [isNameChar]⟩
  names := by decide

theorem parse_eq_ok_iff_layout_quotedLayout :
    parse "/a<any('x<y>)', z):v>b<w>" = .ok quotedLayout.segments ∧
      quotedLayout.segments.length = 5 ∧
      ∀ l : Layout, l.IsTemplate → l.text = "/a<any('x<y>)', z):v>b<w>".toList →
        l = quotedLayout := by
  have htext : quotedLayout.text = "/a<any('x<y>)', z):v>b<w>".toList := by decide
  obtain ⟨hread, hunique, hcount⟩ := parse_eq_ok_iff_layout "/a<any('x<y>)', z):v>b<w>"
  refine ⟨(hread _).2 ⟨quotedLayout, isTemplate_quotedLayout, htext, rfl⟩, hcount _, ?_⟩
  exact fun l hl hlayout => hunique l quotedLayout hl isTemplate_quotedLayout hlayout htext

end UrlRouting.Template
