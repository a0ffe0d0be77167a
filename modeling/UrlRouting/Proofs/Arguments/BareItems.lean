import UrlRouting.Proofs.Arguments.Clause
import UrlRouting.Proofs.Decimal.Plain

/-
  Items without quotations and names.
  A clause of bare items is read as these items and nothing else (`ofClause_intercalate`). Each is a
  value, which has a text again. This is the text of the item, unless the item is a number that is
  written in another way than numbers are printed (`text_literal_eq_iff`): with zeros in front,
  behind the point or nothing at all behind it, with a minus sign before zero, or with digits that
  its float does not hold.
-/

namespace UrlRouting.Arguments

open Text Decimal

/-- Whether the item is a value for itself, whatever stands beside it in a clause. -/
def IsBareItem (item : List Char) : Prop :=
  IsTrimmed item ∧ ∀ c ∈ item, isQuote c = false ∧ c ≠ ',' ∧ c ≠ '=' ∧ c ≠ ')'

instance : DecidablePred IsBareItem := fun item =>
  decidable_of_iff
    (IsTrimmed item ∧ item.all (fun c => !isQuote c && c ≠ ',' && c ≠ '=' && c ≠ ')') = true)
    (by simp [IsBareItem, and_assoc])

/-! ## Clauses of bare items -/

section

variable {words : List (List Char)}

theorem IsBareItem.encloses {stop : Char} {item : List Char} (h : IsBareItem item)
    (hstop : stop = ',' ∨ stop = ')') : Encloses stop item := by
  refine encloses_of_all (p := fun c => !isQuote c && c ≠ stop) rfl rfl (by simp) fun c hc => ?_
  obtain ⟨hquote, hcomma, -, hclosing⟩ := h.2 c hc
  rcases hstop with rfl | rfl
  · simp [hquote, hcomma]
  · simp [hquote, hclosing]

theorem IsBareItem.keyword?_eq_none {item : List Char} (h : IsBareItem item) :
    keyword? item = none :=
  keyword?_of_not_mem fun hmem => (h.2 '=' hmem).2.2.1 rfl

theorem IsBareItem.trim_eq {item : List Char} (h : IsBareItem item) : trim item = item := by
  have htrim : trim ([] ++ (item ++ [])) = item := trim_padding nofun nofun h.1
  rwa [List.append_nil] at htrim

theorem items_intercalate (hne : words ≠ []) (h : ∀ word ∈ words, IsBareItem word) :
    items ([','].intercalate words) = words := by
  have htrim : words.map trim = words :=
    (List.map_congr_left fun word hword => (h word hword).trim_eq).trans (List.map_id words)
  have hfilter : words.filter (!·.isEmpty) = words := by
    refine List.filter_eq_self.2 fun word hword => ?_
    simpa using (isTrimmed_iff.1 (h word hword).1).1
  unfold items
  rw [splitOutside_intercalate hne fun word hword => (h word hword).encloses (.inl rfl), htrim,
    hfilter]

theorem foldl_addItem_bare (h : ∀ word ∈ words, IsBareItem word) (args : Arguments) :
    words.foldl addItem args = ⟨args.positional ++ words.map literal, args.keyword⟩ := by
  induction words generalizing args with
  | nil => simp
  | cons word words ih =>
    obtain ⟨hword, hmore⟩ := List.forall_mem_cons.1 h
    have hadd : addItem args word = ⟨args.positional ++ [literal word], args.keyword⟩ := by
      unfold addItem
      rw [hword.keyword?_eq_none]
    rw [List.foldl_cons, hadd, ih hmore]
    simp

/-- A clause of bare items has these values by position and no others. -/
theorem ofClause_intercalate (hne : words ≠ []) (h : ∀ word ∈ words, IsBareItem word) :
    ofClause ([','].intercalate words) = ⟨words.map literal, []⟩ := by
  unfold ofClause
  rw [items_intercalate hne h, foldl_addItem_bare h]
  rfl

theorem isClause_intercalate (h : ∀ word ∈ words, IsBareItem word) :
    Template.IsClause (String.ofList ([','].intercalate words)) := by
  have hcomma : Encloses ')' [','] :=
    (encloses_cons_iff rfl).2 ⟨by decide, encloses_nil ')'⟩
  unfold Template.IsClause
  rw [String.toList_ofList]
  exact encloses_intercalate hcomma fun word hword => (h word hword).encloses (.inr rfl)

end

/-! ## From the text of an item to a value and back -/

/-- Whether an item that is a number is written as numbers are printed. -/
def IsPrinted (item : List Char) : Prop :=
  ((integer? item).isSome → ∃ n : Int64, item = ofInt n.toInt) ∧
    ((decimal? item).isSome → ∃ x : Float, item = (plain x).toList)

section

variable {item : List Char}

theorem literal_ofInt (n : Int64) : literal (ofInt n.toInt) = .int n := by
  obtain ⟨s, hproper, htext, hvalue⟩ := Spelling.exists_spelling_ofInt n
  rw [← htext, Spelling.literal_text hproper, hvalue]

theorem isFloatShape_of_decimal? {x : Float} (h : decimal? item = some x) : IsFloatShape item := by
  unfold decimal? at h
  split at h
  next hshape => exact hasFloatShape_iff.1 hshape
  next => cases h

theorem mem_of_isFloatShape (h : IsFloatShape item) : '.' ∈ item := by
  obtain ⟨negative, whole, part, -, -, rfl⟩ := h
  exact List.mem_append_right _ (List.mem_append_right _ List.mem_cons_self)

theorem isIntegerShape_of_integer? {n : Int64} (h : integer? item = some n) :
    IsIntegerShape item := by
  unfold integer? at h
  split at h
  next hshape => exact hasIntegerShape_iff.1 hshape
  next => cases h

theorem decimal?_eq_none_of_integer? {n : Int64} (h : integer? item = some n) :
    decimal? item = none := by
  obtain ⟨negative, ds, hds, rfl⟩ := isIntegerShape_of_integer? h
  cases hdecimal : decimal? (signOf negative ++ ds) with
  | none => rfl
  | some x =>
    have hpoint := mem_of_isFloatShape (isFloatShape_of_decimal? hdecimal)
    cases Spelling.mem_number hds negative '.' hpoint

/-- A text without quotes is the text of the value that it is read as, unless it is a number that is
printed differently. -/
theorem text_literal_eq_iff (hplain : ∀ c ∈ item, isQuote c = false) :
    (literal item).text = String.ofList item ↔ IsPrinted item := by
  unfold IsPrinted
  by_cases htrue : item = "True".toList
  · subst htrue
    exact ⟨fun _ => ⟨fun h => absurd h (by decide), fun h => absurd h (by decide)⟩, fun _ => rfl⟩
  by_cases hfalse : item = "False".toList
  · subst hfalse
    exact ⟨fun _ => ⟨fun h => absurd h (by decide), fun h => absurd h (by decide)⟩, fun _ => rfl⟩
  cases hinteger : integer? item with
  | some n =>
    rw [literal_of_integer? htrue hfalse hplain hinteger, decimal?_eq_none_of_integer? hinteger]
    show String.ofList (ofInt n.toInt) = String.ofList item ↔ _
    rw [String.ofList_inj]
    constructor
    · intro htext
      exact ⟨fun _ => ⟨n, htext.symm⟩, fun h => absurd h (by decide)⟩
    · rintro ⟨hprinted, -⟩
      obtain ⟨n', rfl⟩ := hprinted rfl
      -- what is printed reads as the number that was printed
      have hsame := literal_of_integer? htrue hfalse hplain hinteger
      rw [literal_ofInt] at hsame
      rw [Argument.int.inj hsame]
  | none =>
    cases hdecimal : decimal? item with
    | some x =>
      have hvalue : literal item = .float x := by
        simp only [literal, if_neg htrue, if_neg hfalse, quoted?_eq_none hplain, hinteger, hdecimal]
      rw [hvalue]
      show plain x = String.ofList item ↔ _
      rw [← String.toList_inj, String.toList_ofList]
      constructor
      · intro htext
        exact ⟨fun h => absurd h (by decide), fun _ => ⟨x, htext.symm⟩⟩
      · rintro ⟨-, hprinted⟩
        obtain ⟨x', rfl⟩ := hprinted rfl
        obtain ⟨y, hread, htext⟩ :=
          plain_float?_plain (mem_of_isFloatShape (isFloatShape_of_decimal? hdecimal))
        unfold decimal? at hdecimal
        split at hdecimal
        next => rw [← htext, Option.some.inj (hread.symm.trans hdecimal)]
        next => cases hdecimal
    | none =>
      rw [literal_of_none htrue hfalse hplain hinteger hdecimal]
      exact ⟨fun _ => ⟨fun h => absurd h (by decide), fun h => absurd h (by decide)⟩, fun _ => rfl⟩

end

end UrlRouting.Arguments
