import UrlRouting.Proofs.Arguments.Spelling
import UrlRouting.Proofs.Template.Grammar

/-
  Argument clauses as they are written.
  A clause is a list of slots joined by commas. A `Slot` holds an item with blanks around it, or
  blanks alone, and an `Item` is a value, with or without a name before it. `parse_clause` says that
  reading gives the values of the items in order, those with a name apart from those without, and
  that a placeholder with this clause is given the same arguments. The clause is scanned for its
  end, for its commas and for the equals sign of an item. Only the first two scans skip quotations;
  the third may find a sign inside one, but what it takes for a name then holds the quote.
-/

namespace UrlRouting.Arguments

open Text

/-! ## Items -/

/-- An argument as it is written: a value, or a value behind a name and an equals sign that may have
blanks around it. -/
inductive Item where
  | positional (spelling : Spelling)
  | keyword (name before after : List Char) (spelling : Spelling)
  deriving DecidableEq

namespace Item

def spelling : Item → Spelling
  | positional s | keyword _ _ _ s => s

def text : Item → List Char
  | positional s => s.text
  | keyword name before after s => name ++ (before ++ '=' :: (after ++ s.text))

/-- The value, if it has no name. -/
def argument? : Item → Option Argument
  | positional s => some s.value
  | keyword .. => none

/-- The name and the value, if it has a name. -/
def pair? : Item → Option (String × Argument)
  | positional _ => none
  | keyword name _ _ s => some (String.ofList name, s.value)

def IsProper : Item → Prop
  | positional s => s.IsProper
  | keyword name before after s =>
    (name ≠ [] ∧ ∀ c ∈ name, isWord c = true) ∧ (∀ c ∈ before, isBlank c = true) ∧
      (∀ c ∈ after, isBlank c = true) ∧ s.IsProper

instance : DecidablePred IsProper
  | positional s => inferInstanceAs (Decidable s.IsProper)
  | keyword name before after s =>
    decidable_of_iff
      ((name ≠ [] ∧ name.all isWord = true) ∧ before.all isBlank = true ∧
        after.all isBlank = true ∧ s.IsProper)
      (by simp [IsProper])

end Item

/-- The arguments that some items stand for. -/
def ofItems (items : List Item) : Arguments :=
  ⟨items.filterMap Item.argument?, items.filterMap Item.pair?⟩

/-! ## Names before the equals sign -/

theorem keyword?_of_not_mem {text : List Char} (h : '=' ∉ text) : keyword? text = none := by
  have hdrop : text.dropWhile (· ≠ '=') = [] := List.dropWhile_eq_nil_iff.2 (decide_ne_of_not_mem h)
  unfold keyword?
  rw [hdrop]

/-- Before the sign of a keyword there is a name and nothing else but blanks behind it. -/
theorem keyword?_eq_none {text : List Char} {c : Char} (hmem : c ∈ text.takeWhile (· ≠ '='))
    (hblank : isBlank c = false) (hword : isWord c = false) : keyword? text = none := by
  have hname : (trimEnd (text.takeWhile (· ≠ '='))).all isWord = false := by
    rw [← Bool.not_eq_true, List.all_eq_true]
    intro hall
    rw [hall c (mem_trimEnd hmem hblank)] at hword
    cases hword
  unfold keyword?
  split
  · rfl
  · simp only [hname, Bool.and_false, Bool.false_eq_true, if_false]

theorem Spelling.keyword?_text {s : Spelling} (h : s.IsProper) : keyword? s.text = none := by
  cases s with
  | truth b => cases b <;> decide
  | number negative ds =>
    refine keyword?_of_not_mem fun hmem => ?_
    cases mem_number h.1 negative '=' hmem
  | quotation mark quote inner =>
    obtain ⟨hmark, hquote, -⟩ := h
    have hne : quote ≠ '=' := by
      rintro rfl
      cases hquote
    -- a sign may stand in the quotation, but the quote stands before it
    refine keyword?_eq_none (c := quote) ?_ (isBlank_eq_false_of_isQuote hquote)
      (isWord_eq_false_of_isQuote hquote)
    cases mark with
    | none => simp [Spelling.text, hne]
    | some m =>
      have hm : m ≠ '=' := by
        rintro rfl
        exact absurd (hmark '=' rfl) (by decide)
      simp [Spelling.text, hne, hm]
  | word text => exact keyword?_of_not_mem fun hmem => (h.2.1 '=' hmem).2.2 rfl

theorem keyword?_append {name before after : List Char} {s : Spelling}
    (hname : name ≠ [] ∧ ∀ c ∈ name, isWord c = true) (hbefore : ∀ c ∈ before, isBlank c = true)
    (hafter : ∀ c ∈ after, isBlank c = true) (h : s.IsProper) :
    keyword? (name ++ (before ++ '=' :: (after ++ s.text))) = some (name, s.text) := by
  obtain ⟨hne, hall⟩ := hname
  have hfront : '=' ∉ name ++ before := by
    intro hmem
    rcases List.mem_append.1 hmem with hmem | hmem
    · cases hall '=' hmem
    · cases hbefore '=' hmem
  have hend : trimEnd (name ++ before) = name := by
    rw [trimEnd_append hbefore]
    exact trimEnd_eq_self fun c hc => isBlank_eq_false_of_isWord (hall c (List.mem_of_getLast? hc))
  have hstart : trimStart (after ++ s.text) = s.text := by
    rw [trimStart_append hafter]
    exact trimStart_eq_self (isTrimmed_iff.1 (Spelling.isTrimmed_text h)).2.1
  unfold keyword?
  rw [← List.append_assoc, dropWhile_ne_append hfront, takeWhile_ne_append hfront]
  simp [hend, hstart, hne, List.all_eq_true.2 hall]

/-! ## Reading items -/

theorem EndsItems.encloses_blanks {stop : Char} (h : EndsItems stop) {blanks : List Char}
    (hblanks : ∀ c ∈ blanks, isBlank c = true) : Encloses stop blanks :=
  encloses_of_all rfl rfl h.blank hblanks

namespace Item

theorem isProper_spelling {item : Item} (h : item.IsProper) : item.spelling.IsProper := by
  cases item with
  | positional s => exact h
  | keyword name before after s => exact h.2.2.2

theorem isTrimmed_text {item : Item} (h : item.IsProper) : IsTrimmed item.text := by
  cases item with
  | positional s => exact Spelling.isTrimmed_text h
  | keyword name before after s =>
    obtain ⟨⟨hne, hall⟩, -, -, hs⟩ := h
    have hfront : IsTrimmed name :=
      isTrimmed_of_all hne fun c hc => isBlank_eq_false_of_isWord (hall c hc)
    have hjoin := isTrimmed_append hfront (before ++ '=' :: after)
      (Spelling.isTrimmed_text hs)
    rwa [List.append_assoc, List.cons_append] at hjoin

theorem encloses_text {stop : Char} (hstop : EndsItems stop) {item : Item} (h : item.IsProper)
    (hword : ∀ word, item.spelling = .word word → stop ∉ word) : Encloses stop item.text := by
  cases item with
  | positional s => exact Spelling.encloses_text hstop h hword
  | keyword name before after s =>
    obtain ⟨⟨-, hall⟩, hbefore, hafter, hs⟩ := h
    have hname : Encloses stop name := encloses_of_all rfl rfl hstop.word hall
    have hvalue := Spelling.encloses_text hstop hs hword
    have hsign : Encloses stop ('=' :: (after ++ s.text)) :=
      (encloses_cons_iff rfl).2 ⟨hstop.equals.symm, encloses_append (hstop.encloses_blanks hafter) hvalue⟩
    exact encloses_append hname (encloses_append (hstop.encloses_blanks hbefore) hsign)

end Item

/-- Reading the text of an item adds what it stands for. -/
theorem addItem_text {item : Item} (h : item.IsProper) (args : Arguments) :
    addItem args item.text =
      ⟨args.positional ++ item.argument?.toList, args.keyword ++ item.pair?.toList⟩ := by
  unfold addItem
  cases item with
  | positional s =>
    simp [Item.text, Spelling.keyword?_text h, Spelling.literal_text h, Item.argument?, Item.pair?]
  | keyword name before after s =>
    obtain ⟨hname, hbefore, hafter, hs⟩ := h
    simp [Item.text, keyword?_append hname hbefore hafter hs, Spelling.literal_text hs,
      Item.argument?, Item.pair?]

theorem foldl_addItem {items : List Item} (h : ∀ item ∈ items, item.IsProper) (args : Arguments) :
    (items.map Item.text).foldl addItem args =
      ⟨args.positional ++ items.filterMap Item.argument?,
        args.keyword ++ items.filterMap Item.pair?⟩ := by
  induction items generalizing args with
  | nil => simp
  | cons item items ih =>
    obtain ⟨hitem, hmore⟩ := List.forall_mem_cons.1 h
    rw [List.map_cons, List.foldl_cons, addItem_text hitem, ih hmore]
    cases item <;> simp [List.filterMap_cons, Item.argument?, Item.pair?]

/-! ## Clauses -/

/-- What stands between two commas: an item with blanks around it, or blanks alone. -/
structure Slot where
  before : List Char
  item : Option Item
  after : List Char
  deriving DecidableEq

namespace Slot

/-- The text of the item, if there is one. -/
def inner (slot : Slot) : List Char := (slot.item.map Item.text).getD []

def text (slot : Slot) : List Char := slot.before ++ (slot.inner ++ slot.after)

def IsProper (slot : Slot) : Prop :=
  (∀ c ∈ slot.before, isBlank c = true) ∧ (∀ c ∈ slot.after, isBlank c = true) ∧
    ∀ item ∈ slot.item, item.IsProper

instance : DecidablePred IsProper := fun ⟨before, item, after⟩ =>
  decidable_of_iff
    (before.all isBlank = true ∧ after.all isBlank = true ∧ item.all (·.IsProper) = true)
    (by cases item <;> simp [IsProper])

theorem trim_text {slot : Slot} (h : slot.IsProper) : trim slot.text = slot.inner := by
  obtain ⟨before, item, after⟩ := slot
  obtain ⟨hbefore, hafter, hitem⟩ := h
  cases item with
  | none =>
    refine trim_of_isBlank fun c hc => ?_
    rcases List.mem_append.1 hc with hc | hc
    · exact hbefore c hc
    · exact hafter c hc
  | some item => exact trim_padding hbefore hafter (Item.isTrimmed_text (hitem item rfl))

theorem encloses_text {stop : Char} (hstop : EndsItems stop) {slot : Slot} (h : slot.IsProper)
    (hword : ∀ item ∈ slot.item, ∀ word, item.spelling = .word word → stop ∉ word) :
    Encloses stop slot.text := by
  obtain ⟨before, item, after⟩ := slot
  obtain ⟨hbefore, hafter, hitem⟩ := h
  refine encloses_append (hstop.encloses_blanks hbefore)
    (encloses_append ?_ (hstop.encloses_blanks hafter))
  cases item with
  | none => exact encloses_nil stop
  | some item => exact Item.encloses_text hstop (hitem item rfl) (hword item rfl)

end Slot

/-- The text of a clause. -/
def clause (slots : List Slot) : List Char := [','].intercalate (slots.map Slot.text)

/-- Whether no bare word in the clause holds the character. -/
def WordsLack (stop : Char) (slots : List Slot) : Prop :=
  ∀ slot ∈ slots, ∀ item ∈ slot.item, ∀ word, item.spelling = .word word → stop ∉ word

variable {slots : List Slot}

theorem wordsLack_comma (h : ∀ slot ∈ slots, slot.IsProper) : WordsLack ',' slots := by
  intro slot hslot item hitem word hword hmem
  have hproper := Item.isProper_spelling ((h slot hslot).2.2 item hitem)
  rw [hword] at hproper
  exact (hproper.2.1 ',' hmem).2.1 rfl

theorem encloses_of_mem {stop : Char} (hstop : EndsItems stop)
    (h : ∀ slot ∈ slots, slot.IsProper) (hwords : WordsLack stop slots) :
    ∀ part ∈ slots.map Slot.text, Encloses stop part := by
  intro part hpart
  obtain ⟨slot, hslot, rfl⟩ := List.mem_map.1 hpart
  exact Slot.encloses_text hstop (h slot hslot) (hwords slot hslot)

theorem filter_inner (h : ∀ slot ∈ slots, slot.IsProper) :
    (slots.map Slot.inner).filter (!·.isEmpty) = (slots.filterMap Slot.item).map Item.text := by
  induction slots with
  | nil => rfl
  | cons slot slots ih =>
    obtain ⟨⟨-, -, hitem⟩, hmore⟩ := List.forall_mem_cons.1 h
    obtain ⟨before, item, after⟩ := slot
    cases item with
    | none => simpa [Slot.inner] using ih hmore
    | some item =>
      have hne := (isTrimmed_iff.1 (Item.isTrimmed_text (hitem item rfl))).1
      simpa [Slot.inner, hne] using ih hmore

/-- A clause falls into the texts of its items. -/
theorem items_clause (h : ∀ slot ∈ slots, slot.IsProper) :
    items (clause slots) = (slots.filterMap Slot.item).map Item.text := by
  have hcomma := encloses_of_mem endsItems_comma h (wordsLack_comma h)
  cases hslots : slots with
  | nil => rfl
  | cons slot more =>
    rw [← hslots]
    have hne : slots.map Slot.text ≠ [] := by simp [hslots]
    have htrim : (slots.map Slot.text).map trim = slots.map Slot.inner := by
      rw [List.map_map]
      exact List.map_congr_left fun slot hslot => Slot.trim_text (h slot hslot)
    unfold items clause
    rw [splitOutside_intercalate hne hcomma, htrim, filter_inner h]

theorem ofClause_clause (h : ∀ slot ∈ slots, slot.IsProper) :
    ofClause (clause slots) = ofItems (slots.filterMap Slot.item) := by
  have hitems : ∀ item ∈ slots.filterMap Slot.item, item.IsProper := by
    intro item hmem
    obtain ⟨slot, hslot, hitem⟩ := List.mem_filterMap.1 hmem
    exact (h slot hslot).2.2 item hitem
  unfold ofClause
  rw [items_clause h, foldl_addItem hitems]
  rfl

/-- A clause whose words have no parenthesis is closed by the first one behind it. -/
theorem isClause_clause (h : ∀ slot ∈ slots, slot.IsProper) (hwords : WordsLack ')' slots) :
    Template.IsClause (String.ofList (clause slots)) := by
  have hcomma : Encloses ')' [','] :=
    (encloses_cons_iff rfl).2 ⟨by decide, encloses_nil ')'⟩
  unfold Template.IsClause
  rw [String.toList_ofList]
  exact encloses_intercalate hcomma (encloses_of_mem endsItems_parenthesis h hwords)

/-- A clause that is written from items is read as these items: the values without a name in order,
and the names with their values in order. Where no bare word has a parenthesis, a template that is
written with a placeholder of this clause is read with these arguments in the placeholder. -/
theorem parse_clause (h : ∀ slot ∈ slots, slot.IsProper) :
    parse (String.ofList (clause slots)) = ofItems (slots.filterMap Slot.item) ∧
    (WordsLack ')' slots →
      ∀ (l : Template.Layout) (converter name : String),
        Template.IsConverterName converter → Template.IsVariableName name →
        .called converter (String.ofList (clause slots)) name ∈ l.tags →
        (∀ tag ∈ l.tags, tag ≠ .called converter (String.ofList (clause slots)) name →
          tag.IsProper) →
        l.opening.toList.head? = some '/' → (∀ literal ∈ l.literals, '<' ∉ literal.toList) →
        (l.tags.map Template.Tag.name).Nodup →
        Template.parse (String.ofList l.text) = .ok l.segments ∧
          .placeholder ⟨converter, ofItems (slots.filterMap Slot.item), name⟩ ∈ l.segments) := by
  have hparse : parse (String.ofList (clause slots)) = ofItems (slots.filterMap Slot.item) := by
    unfold parse
    rw [String.toList_ofList, ofClause_clause h]
  refine ⟨hparse, ?_⟩
  intro hwords l converter name hconverter hname htag hothers hslash hliterals hnames
  have hproper : l.IsProper := by
    refine ⟨hliterals, fun tag hmem => ?_⟩
    by_cases heq : tag = .called converter (String.ofList (clause slots)) name
    · rw [heq]
      exact ⟨hconverter, isClause_clause h hwords, hname⟩
    · exact hothers tag hmem heq
  constructor
  · refine Template.parse_eq_ok_iff.2 ⟨?_, ?_⟩
    · rwa [String.toList_ofList, Template.Layout.head?_text]
    · rw [String.toList_ofList]
      exact Template.split_of_layout hproper hnames fun _ _ => List.not_mem_nil
  · rw [← hparse]
    obtain ⟨⟨tag, literal⟩, hrest, rfl⟩ := List.mem_map.1 htag
    refine List.mem_cons_of_mem _ (List.mem_flatMap.2 ⟨_, hrest, ?_⟩)
    exact List.mem_cons_self

/-- The slots of ` x ,key = u'a,b)=<', ,-07,True`. -/
def sampleSlots : List Slot :=
  [⟨[' '], some (.positional (.word "x".toList)), [' ']⟩,
    ⟨[], some (.keyword "key".toList [' '] [' ']
      (.quotation (some 'u') '\'' "a,b)=<".toList)), []⟩,
    ⟨[' '], none, []⟩, ⟨[], some (.positional (.number true "07".toList)), []⟩,
    ⟨[], some (.positional (.truth true)), []⟩]

def sampleArguments : Arguments :=
  ⟨[.str "x", .int (-7), .bool true], [("key", .str "a,b)=<")]⟩

/-- A template with that clause. -/
def sampleLayout : Template.Layout :=
  ⟨"/a", [(.called "any" " x ,key = u'a,b)=<', ,-07,True" "v", "")]⟩

theorem parse_clause_sampleSlots :
    (∀ slot ∈ sampleSlots, slot.IsProper) ∧
      parse " x ,key = u'a,b)=<', ,-07,True" = sampleArguments ∧
      Template.parse "/a<any( x ,key = u'a,b)=<', ,-07,True):v>" =
        .ok [.literal "/a", .placeholder ⟨"any", sampleArguments, "v"⟩, .literal ""] := by
  have hproper : ∀ slot ∈ sampleSlots, slot.IsProper := by decide +kernel
  have hclause : String.ofList (clause sampleSlots) = " x ,key = u'a,b)=<', ,-07,True" := by
    decide +kernel
  have hitems : ofItems (sampleSlots.filterMap Slot.item) = sampleArguments := by decide +kernel
  obtain ⟨hparse, htemplate⟩ := parse_clause hproper
  rw [hclause, hitems] at hparse htemplate
  have hwords : WordsLack ')' sampleSlots := by
    simp [WordsLack, sampleSlots, Item.spelling]
  have hname : ∀ name ∈ ["any", "v"], Template.IsVariableName name := by
    simp [Template.IsVariableName, Template.startsWithLetter, Template.isNameChar]
  have hread := (htemplate hwords sampleLayout "any" "v"
    (Template.isConverterName_of_isVariableName (hname "any" (by simp))) (hname "v" (by simp))
    List.mem_cons_self (by simp [sampleLayout, Template.Layout.tags]) rfl (by decide)
    (by decide)).1
  have htext : String.ofList sampleLayout.text =
      "/a<any( x ,key = u'a,b)=<', ,-07,True):v>" := by
    decide +kernel
  have hsegments : sampleLayout.segments = [.literal "/a",
      .placeholder ⟨"any", parse " x ,key = u'a,b)=<', ,-07,True", "v"⟩, .literal ""] := rfl
  rw [htext, hsegments, hparse] at hread
  exact ⟨hproper, hparse, hread⟩

end UrlRouting.Arguments
