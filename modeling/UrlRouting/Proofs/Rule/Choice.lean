import UrlRouting.Proofs.Arguments.BareItems
import UrlRouting.Proofs.Rule.OneVariable

/-
  Rules that end in one of some fixed items.
  The items of a template are read as values and these written as texts again, so the rule, once it
  is bound, reads its literal text before the texts of the items and nothing else
  (`read?_bareChoice`). A text is the item itself unless this is a number in another spelling. Only
  the engine that searches for expressions can refuse to bind the rule; it does so when the literal
  text is too long (`bind_longText`).
-/

namespace UrlRouting

open Template (IsVariableName)
open Arguments (IsBareItem IsPrinted)

/-! ## Expressions -/

/-- The name of a variable is a label of a group. -/
theorem Expression.isLabel_of_isVariableName {name : String} (h : IsVariableName name) :
    isLabel name.toList = true := by
  obtain ⟨hfirst, hall⟩ := h
  unfold Template.startsWithLetter at hfirst
  generalize name.toList = text at hfirst hall
  cases text with
  | nil => cases hfirst
  | cons c rest =>
    obtain ⟨hc, hmore⟩ := List.forall_mem_cons.1 hall
    have hstart : Text.isAlphabetic c = true := by
      rw [Text.isAlphabetic, if_pos (Template.toNat_lt_of_isNameChar hc)]
      exact hfirst
    unfold isLabel
    simp only [hstart, Bool.or_true, Bool.true_and, List.all_eq_true]
    intro d hd
    have hchar := hmore d hd
    rw [Text.isAlphanumeric, if_pos (Template.toNat_lt_of_isNameChar hchar)]
    rcases Bool.or_eq_true_iff.1 hchar with halphanum | hunderscore
    · rw [halphanum, Bool.true_or]
    · obtain rfl := of_decide_eq_true hunderscore
      decide

namespace Pattern

variable {front name : String}

theorem tree?_around {back : String} {c : Converter} (hname : IsVariableName name) :
    (around front name back c .exact).tree? = some (around front name back c .exact).tree := by
  have hclosing := not_mem_of_isVariableName hname
  have hlabel := Expression.isLabel_of_isVariableName hname
  have hplain : (around front name back c .exact).hasPlainNames = true := by
    show (decide ('>' ∉ name.toList) && true) = true
    rw [decide_eq_true hclosing, Bool.and_true]
  unfold tree?
  rw [if_pos hplain, if_pos]
  show ((Expression.isLabel name.toList && true) && decide [name.toList].Nodup) = true
  rw [hlabel]
  rfl

/-- Literal text that is longer than an automaton may be makes the expression unusable. -/
theorem isMatchable_of_long {c : Converter} (hname : IsVariableName name)
    (hlong : Expression.sizeLimit < Expression.stateSize * Text.byteLength front.toList) :
    (around front name "" c .exact).isMatchable = false := by
  have hfront : front.toList ≠ [] := by
    intro hnil
    rw [hnil] at hlong
    cases hlong
  have htree : (around front name "" c .exact).tree =
      .seq (.look .textStart) (.seq (.literal front.toList) (.seq
        (.group (some name.toList) c.tree) (.look .textEnd))) := by
    cases hchars : front.toList with
    | nil => exact absurd hchars hfront
    | cons first rest =>
      show Expression.concat [.look .textStart, .literal front.toList, _, .literal [], _] = _
      rw [hchars]
      rfl
  have hsize : Expression.sizeLimit <
      (around front name "" c .exact).tree.totalSize .forward := by
    unfold Expression.totalSize
    rw [htree, Expression.size_group_forward, Expression.size_seq, Expression.size_seq,
      Expression.size_literal _ hfront]
    omega
  unfold isMatchable
  rw [tree?_around hname, Option.any_some]
  unfold Expression.isWithinLimit
  rw [decide_eq_false (Nat.not_le_of_lt hsize), Bool.false_and]

end Pattern

/-! ## Reading -/

/-- The text of an item in a path. -/
def Arguments.printed (word : String) : String := (Arguments.literal word.toList).text

/-- The items of the template are the texts of the converter. -/
theorem Converter.declareAny_of_words {words : List String} (hne : words ≠ [])
    (hitems : ∀ word ∈ words, IsBareItem word.toList) :
    declareAny (Arguments.parse (",".intercalate words)) =
      .ok (.any (words.map Arguments.printed)) := by
  have hbare : ∀ word ∈ words.map String.toList, IsBareItem word :=
    List.forall_mem_map.2 hitems
  have hsome : words.map String.toList ≠ [] := by simpa using hne
  unfold Arguments.parse
  rw [String.toList_intercalate]
  show declareAny (Arguments.ofClause ([','].intercalate (words.map String.toList))) = _
  rw [Arguments.ofClause_intercalate hsome hbare]
  show ofItems (((words.map String.toList).map Arguments.literal).map Argument.text) = _
  rw [List.map_map, List.map_map, ofItems, if_neg (by simpa using hne)]
  rfl

theorem Arguments.isClause_words {words : List String}
    (hitems : ∀ word ∈ words, IsBareItem word.toList) :
    Template.IsClause (",".intercalate words) := by
  have hclause := isClause_intercalate (List.forall_mem_map.2 hitems)
  have hjoined : (",".intercalate words).toList = [','].intercalate (words.map String.toList) :=
    String.toList_intercalate
  rwa [← hjoined, String.ofList_toList] at hclause

/-- The pattern of literal text before a choice of items. -/
def Pattern.beforeChoice (front name : String) (words : List String) : Pattern :=
  .around front name "" (.any (words.map Arguments.printed)) .exact

namespace Rule

variable {r : Rule} {front name : String}

/-- A rule of literal text before a choice reads the texts of the choice behind this text. -/
theorem read?_choice_iff {items : List String}
    (h : r.Compiled (.around front name "" (.any items) .exact)) {path : String}
    {m : RuleReading} :
    r.read? path = .ok (some m) ↔ ∃ item ∈ items, path = front ++ item ∧
      m = ⟨NameMap.empty.insert name (.str item), false⟩ := by
  have hexact : r.slashPolicy = .exact := h.slashes_eq.symm
  have hclosed : r.slashPolicy ≠ .optional := by
    rw [hexact]
    decide
  rw [read?_one_iff h rfl (fun _ => rfl) fun hopen => absurd hopen hclosed]
  rw [hexact]
  constructor
  · rintro ⟨text, slash, htext, ⟨hpath, -⟩, rfl⟩
    refine ⟨String.ofList text, htext, ?_, rfl⟩
    apply String.toList_injective
    simp [hpath]
  · rintro ⟨item, hitem, rfl, rfl⟩
    refine ⟨item.toList, _, ?_, ⟨?_, rfl⟩, ?_⟩
    · show String.ofList _ ∈ _
      rwa [String.ofList_toList]
    · rw [String.toList_append]
      exact congrArg _ (List.append_nil _).symm
    · rw [String.ofList_toList]
      rfl

variable {words : List String} {catalogue : Catalogue}

section

variable (hslash : front.toList.head? = some '/') (hfront : '<' ∉ front.toList)
  (hname : IsVariableName name) (hne : words ≠ [])
  (hitems : ∀ word ∈ words, IsBareItem word.toList)
  (hany : catalogue.get? "any" = some Converter.declareAny)
  (htemplate : r.template = front ++ ("<any(" ++ ",".intercalate words ++ "):" ++ name ++ ">"))

include hslash hfront hname hne hitems hany htemplate

/-- The pattern of such a rule has the texts of its items to choose from. -/
theorem patternWith_bareChoice :
    r.patternWith catalogue =
      if (Pattern.beforeChoice front name words).isMatchable then
        .ok (.beforeChoice front name words)
      else .error (.pattern .unmatchable) := by
  have htag : Template.Tag.IsProper (.called "any" (",".intercalate words) name) :=
    ⟨by decide, Arguments.isClause_words hitems, hname⟩
  have haround : r.template =
      Template.around front (.called "any" (",".intercalate words) name) "" := by
    rw [htemplate, Template.around_called, String.append_empty]
    rfl
  have hexact : r.slashPolicy = .exact := by
    refine slashPolicy_eq_exact_iff.2 fun hbranch => ?_
    unfold isBranch at hbranch
    rw [haround] at hbranch
    cases (getLast?_around _ _ _).1 (of_decide_eq_true hbranch)
  rw [patternWith_around haround hslash hfront List.not_mem_nil htag hany
    (Converter.declareAny_of_words hne hitems), hexact]
  rfl

/-- A rule that is ready to be bound gets this pattern, or the engine refuses its expression. -/
theorem bind_bareChoice (hunbound : r.binding = none) (hmethods : r.methods.isEmpty = false)
    (table : TableId) :
    r.bind table catalogue =
      if (Pattern.beforeChoice front name words).isMatchable then
        .ok { r with binding := some ⟨table, .beforeChoice front name words⟩ }
      else .error (r.fail (.pattern .unmatchable)) := by
  unfold bind
  rw [hunbound, hmethods, patternWith_bareChoice hslash hfront hname hne hitems hany htemplate]
  cases (Pattern.beforeChoice front name words).isMatchable <;> rfl

/-- Binding a rule of literal text before a choice of bare items goes wrong in one way only: its
expression is refused. Once bound, the rule reads the literal text before the text of any of the
items, which is the value. The texts are the items, but for the numbers that are not written as they
are printed. -/
theorem read?_bareChoice (hunbound : r.binding = none) (hmethods : r.methods.isEmpty = false)
    (table : TableId) :
    (∀ e, r.bind table catalogue = .error e → e = ⟨r.template, .pattern .unmatchable⟩) ∧
    (∀ bound, r.bind table catalogue = .ok bound → ∀ path m,
      bound.read? path = .ok (some m) ↔ ∃ word ∈ words, path = front ++ Arguments.printed word ∧
        m = ⟨NameMap.empty.insert name (.str (Arguments.printed word)), false⟩) ∧
    ∀ word ∈ words, Arguments.printed word = word ↔ IsPrinted word.toList := by
  refine ⟨?_, ?_, ?_⟩
  · intro e hbind
    rw [bind_bareChoice hslash hfront hname hne hitems hany htemplate hunbound hmethods] at hbind
    split at hbind
    · cases hbind
    · exact (Except.error.inj hbind).symm
  · intro bound hbind path m
    obtain ⟨-, -, p, hp, rfl⟩ := bind_eq_ok_iff.1 hbind
    have hcompiled : Compiled { r with binding := some ⟨table, p⟩ } p := ⟨table, catalogue, rfl, hp⟩
    rw [patternWith_bareChoice hslash hfront hname hne hitems hany htemplate] at hp
    split at hp
    · obtain rfl := Except.ok.inj hp
      rw [read?_choice_iff hcompiled]
      simp only [List.mem_map, exists_exists_and_eq_and]
    · cases hp
  · intro word hword
    have hplain : ∀ c ∈ word.toList, Text.isQuote c = false :=
      fun c hc => ((hitems word hword).2 c hc).1
    have hsame := Arguments.text_literal_eq_iff hplain
    rwa [String.ofList_toList] at hsame

end

/-- Items of all kinds: two numbers as they are printed, one that is not, a truth value and text. -/
def mixedWords : List String := ["7", "-1.5", "2.50", "True", "a b"]

theorem read?_bareChoice_mixedWords :
    mixedWords.map Arguments.printed = ["7", "-1.5", "2.5", "True", "a b"] ∧
      ∃ bound, (pageRule "/é/<any(7,-1.5,2.50,True,a b):v>").bind ⟨0⟩ .standard = .ok bound ∧
        ∀ path m, bound.read? path = .ok (some m) ↔ ∃ word ∈ mixedWords,
          path = "/é/" ++ Arguments.printed word ∧
            m = ⟨NameMap.empty.insert "v" (.str (Arguments.printed word)), false⟩ := by
  have hprinted : mixedWords.map Arguments.printed = ["7", "-1.5", "2.5", "True", "a b"] := by
    decide +kernel
  have hname : IsVariableName "v" := by decide
  have hitems : ∀ word ∈ mixedWords, IsBareItem word.toList := by decide
  have hany : Catalogue.standard.get? "any" = some Converter.declareAny := rfl
  have htemplate : (pageRule "/é/<any(7,-1.5,2.50,True,a b):v>").template =
      "/é/" ++ ("<any(" ++ ",".intercalate mixedWords ++ "):" ++ "v" ++ ">") := by decide
  have hne : mixedWords ≠ [] := List.cons_ne_nil _ _
  have hbind := bind_bareChoice (by decide) (by decide) hname hne hitems hany htemplate rfl rfl ⟨0⟩
  rw [if_pos (by decide +kernel)] at hbind
  obtain ⟨-, hread, -⟩ := read?_bareChoice (by decide) (by decide) hname hne hitems hany
    htemplate rfl rfl ⟨0⟩
  exact ⟨hprinted, _, hbind, hread _ hbind⟩

/-- The rule of `/<any(007):v>`, bound. -/
def boundZerosRule : Rule :=
  { pageRule "/<any(007):v>" with
    binding := some ⟨⟨0⟩, .around "/" "v" "" (.any ["7"]) .exact⟩ }

theorem bind_boundZerosRule :
    (pageRule "/<any(007):v>").bind ⟨0⟩ .standard = .ok boundZerosRule := by
  have htemplate : (pageRule "/<any(007):v>").template =
      "/" ++ ("<any(" ++ ",".intercalate ["007"] ++ "):" ++ "v" ++ ">") := by decide
  rw [bind_bareChoice (by decide) (by decide) (by decide) (List.cons_ne_nil _ _) (by decide) rfl
    htemplate rfl rfl ⟨0⟩, if_pos (by decide)]
  rfl

/-- Zeros in front of a number are not looked for. -/
theorem read?_bareChoice_zeros :
    (pageRule "/<any(007):v>").bind ⟨0⟩ .standard = .ok boundZerosRule ∧
      boundZerosRule.read? "/007" = .ok none ∧
      boundZerosRule.read? "/7" = .ok (some ⟨NameMap.empty.insert "v" (.str "7"), false⟩) :=
  ⟨bind_boundZerosRule, by decide, by decide⟩

/-- Literal text that is too long for an automaton. -/
def longText : String := String.ofList ('/' :: List.replicate 400000 'a')

theorem toList_longText : longText.toList = '/' :: List.replicate 400000 'a' := String.toList_ofList

theorem le_byteLength_longText : 400000 + 1 ≤ Text.byteLength longText.toList := by
  have hlength : longText.toList.length = 400000 + 1 := by
    rw [toList_longText, List.length_cons, List.length_replicate]
  exact hlength ▸ Text.length_le_byteLength _

/-- The rule of long text before `<any(x):v>`. -/
def longRule : Rule :=
  pageRule (longText ++ ("<any(" ++ ",".intercalate ["x"] ++ "):" ++ "v" ++ ">"))

/-- A rule with such text before a choice cannot be bound. -/
theorem bind_longText :
    longRule.bind ⟨0⟩ .standard = .error ⟨longRule.template, .pattern .unmatchable⟩ := by
  have hname : IsVariableName "v" := by decide
  have hitems : ∀ word ∈ ["x"], IsBareItem word.toList := by decide
  have hslash : longText.toList.head? = some '/' := by
    rw [toList_longText]
    rfl
  have hfront : '<' ∉ longText.toList := by
    rw [toList_longText]
    intro hmem
    rcases List.mem_cons.1 hmem with hslash | hletter
    · cases hslash
    · cases List.eq_of_mem_replicate hletter
  have hlong : Expression.sizeLimit < Expression.stateSize * Text.byteLength longText.toList :=
    Nat.lt_of_lt_of_le (by decide) (Nat.mul_le_mul_left _ le_byteLength_longText)
  have hunusable : (Pattern.beforeChoice longText "v" ["x"]).isMatchable = false :=
    Pattern.isMatchable_of_long hname hlong
  have hany : Catalogue.standard.get? "any" = some Converter.declareAny := rfl
  rw [bind_bareChoice (r := longRule) hslash hfront hname (List.cons_ne_nil _ _) hitems hany rfl
    rfl rfl, hunusable]
  rfl

end Rule

end UrlRouting
