import UrlRouting.Arguments.Scanner
import UrlRouting.Proofs.Arguments.Clause
import UrlRouting.Proofs.Text.Slice

/-
  Reading a clause by places never cuts a character in two.
  The place at hand is the number of bytes before the text that is left, and the one where an item
  begins the number of bytes before this item: so all cuts succeed, and what they give are the
  items, names and values that the clause falls into (`scan?_eq`).
-/

namespace UrlRouting.Text

variable {text : List Char}

theorem splitOutside_cons {stop c : Char} {quote : Option Char} {rest : List Char}
    (h : ¬ (quote = none ∧ c = stop)) : splitOutside stop quote (c :: rest) =
      (splitOutside stop (quoteAfter quote c) rest).modifyHead (c :: ·) := by
  rw [splitOutside, if_neg h]
  cases hparts : splitOutside stop (quoteAfter quote c) rest with
  | nil => exact absurd hparts (splitOutside_ne_nil _ _ _)
  | cons part parts => rfl

/-- The place of a character is behind the text in which there is none. -/
theorem placeOf?_append {c : Char} {front rest : List Char} (h : c ∉ front) :
    placeOf? c (front ++ c :: rest) = some (byteLength front) := by
  induction front with
  | nil => exact if_pos rfl
  | cons d front ih =>
    obtain ⟨hd, hmore⟩ := List.ne_and_not_mem_of_not_mem_cons h
    rw [List.cons_append, placeOf?, if_neg (Ne.symm hd), ih hmore]
    rfl

theorem placeOf?_eq_none {c : Char} (h : c ∉ text) : placeOf? c text = none := by
  induction text with
  | nil => rfl
  | cons d text ih =>
    obtain ⟨hd, hmore⟩ := List.ne_and_not_mem_of_not_mem_cons h
    rw [placeOf?, if_neg (Ne.symm hd), ih hmore]
    rfl

end UrlRouting.Text

namespace UrlRouting.Arguments

open Text

theorem modifyHead_nil_append (parts : List (List Char)) : parts.modifyHead ([] ++ ·) = parts := by
  cases parts <;> rfl

section

variable {clause rest : List Char} {quote : Option Char} {start place : Nat}

/-- A character that ends no item is passed over. -/
theorem cutItems?_cons {c : Char} (h : ¬ (quote = none ∧ c = ',')) :
    cutItems? clause quote start place (c :: rest) =
      cutItems? clause (quoteAfter quote c) start (place + c.utf8Size) rest := by
  cases quote with
  | some q => rfl
  | none =>
    have hcomma : c ≠ ',' := fun heq => h ⟨rfl, heq⟩
    rw [cutItems?.eq_def]
    dsimp only
    rw [if_neg hcomma, quoteAfter]
    split <;> rfl

/-- At a comma the item at hand is cut out, and the next one begins behind the comma. -/
theorem cutItems?_comma : cutItems? clause none start place (',' :: rest) =
    (slice? clause start place).bind fun item =>
      (cutItems? clause none (place + 1) (place + 1) rest).map (item :: ·) := rfl

end

/-- The items that are cut out are the parts between the commas, the first of which goes on with the
item at hand; by induction on the text that is left. -/
theorem cutItems?_append (before item rest : List Char) (quote : Option Char) :
    cutItems? (before ++ (item ++ rest)) quote (byteLength before) (byteLength (before ++ item))
      rest = some ((splitOutside ',' quote rest).modifyHead (item ++ ·)) := by
  induction rest generalizing before item quote with
  | nil =>
    rw [cutItems?, sliceFrom?, dropBytes?_append]
    rfl
  | cons c rest ih =>
    have hplace :
        byteLength (before ++ (item ++ [c])) = byteLength (before ++ item) + c.utf8Size := by
      rw [← List.append_assoc, byteLength_append]
      rfl
    by_cases hcomma : quote = none ∧ c = ','
    · obtain ⟨rfl, rfl⟩ := hcomma
      have hmore := ih (before ++ (item ++ [','])) [] none
      have hwhole :
          before ++ (item ++ [',']) ++ ([] ++ rest) = before ++ (item ++ ',' :: rest) := by simp
      have hcount : Char.utf8Size ',' = 1 := rfl
      rw [hwhole, List.append_nil, hplace, hcount] at hmore
      rw [cutItems?_comma, slice?_append, Option.bind_some, hmore, modifyHead_nil_append,
        splitOutside, if_pos ⟨rfl, rfl⟩, List.modifyHead_cons, List.append_nil]
      rfl
    · have hmore := ih before (item ++ [c]) (quoteAfter quote c)
      rw [hplace, List.append_assoc, List.singleton_append] at hmore
      rw [cutItems?_cons hcomma, hmore, splitOutside_cons hcomma, List.modifyHead_modifyHead]
      simp only [Function.comp_def, List.append_assoc, List.singleton_append]

/-- The name and the value are cut out on both sides of the first equals sign. -/
theorem cutKeyword?_eq (item : List Char) : cutKeyword? item = some (keyword? item) := by
  by_cases hmem : '=' ∈ item
  · obtain ⟨front, value, rfl, hfront⟩ := List.eq_append_cons_of_mem hmem
    have hname : slice? (front ++ '=' :: value) 0 (byteLength front) = some front :=
      slice?_append [] front ('=' :: value)
    have hvalue : sliceFrom? (front ++ '=' :: value) (byteLength front + 1) = some value := by
      have hdrop := dropBytes?_append (front ++ ['=']) value
      rwa [List.append_assoc, byteLength_append] at hdrop
    unfold cutKeyword? keyword?
    rw [placeOf?_append hfront, dropWhile_ne_append hfront, takeWhile_ne_append hfront]
    dsimp only
    rw [hname, hvalue, Option.bind_some]
    cases trimEnd front with
    | nil => rfl
    | cons c name => cases (c :: name).all isWord <;> rfl
  · unfold cutKeyword?
    rw [placeOf?_eq_none hmem, keyword?_of_not_mem hmem]

theorem scanItem?_eq (args : Arguments) (item : List Char) :
    scanItem? args item = some (addItem args item) := by
  unfold scanItem? addItem
  rw [cutKeyword?_eq]
  cases keyword? item <;> rfl

theorem foldlM_scanItem? (args : Arguments) (items : List (List Char)) :
    items.foldlM scanItem? args = some (items.foldl addItem args) := by
  induction items generalizing args with
  | nil => rfl
  | cons item items ih =>
    rw [List.foldlM_cons, List.foldl_cons, scanItem?_eq]
    exact ih _

/-- Reading by places gives the arguments of the clause, whatever characters it has. -/
theorem scan?_eq (clause : List Char) : scan? clause = some (ofClause clause) := by
  have hitems := cutItems?_append [] [] clause none
  rw [modifyHead_nil_append] at hitems
  unfold scan?
  rw [show cutItems? clause none 0 0 clause = _ from hitems, Option.bind_some, foldlM_scanItem?]
  rfl

end UrlRouting.Arguments
