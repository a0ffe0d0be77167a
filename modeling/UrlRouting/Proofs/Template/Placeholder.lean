import Mathlib.Data.List.TakeWhile
import UrlRouting.Proofs.Text.Ascii
import UrlRouting.Proofs.Text.Quote
import UrlRouting.Template.Parser

/-
  Placeholders as they are written.
  A `Tag` is a placeholder before it is read, with a name, a converter and a name, or a clause of
  arguments between the two. It has the shape that it has because what follows its first name is a
  colon, a parenthesis or the end. Reading accepts the tags that keep the rules and gives what they
  stand for (`placeholder_eq_ok_iff`), and a text begins with one of them at most
  (`inner_append_inj`).
-/

namespace UrlRouting.Template

open Text

/-! ## Readers that fail -/

theorem exists_or_of_bind_eq_error {ε α β : Type} {x : Except ε α} {f : α → Except ε β} {e : ε}
    (h : x >>= f = .error e) : x = .error e ∨ ∃ a, x = .ok a ∧ f a = .error e := by
  cases x with
  | error e' =>
    obtain rfl := Except.error.inj h
    exact .inl rfl
  | ok a => exact .inr ⟨a, rfl, h⟩

theorem map_eq_error_iff {ε α β : Type} {x : Except ε α} {f : α → β} {e : ε} :
    x.map f = .error e ↔ x = .error e := by
  cases x <;> simp [Except.map]

/-! ## Names -/

/-- A letter followed by letters, digits and underscores. -/
def IsVariableName (name : String) : Prop :=
  startsWithLetter name ∧ ∀ c ∈ name.toList, isNameChar c

instance (name : String) : Decidable (IsVariableName name) :=
  decidable_of_iff ((startsWithLetter name && name.toList.all isNameChar) = true)
    (by simp [IsVariableName])

theorem isNameChar_of_isNameStart {c : Char} (h : isNameStart c) : isNameChar c := by
  simp only [isNameStart, isNameChar, Char.isAlphanum, Bool.or_eq_true] at *
  exact h.imp .inl id

theorem toNat_lt_of_isNameChar {c : Char} (h : isNameChar c) : c.toNat < 128 := by
  rcases Bool.or_eq_true_iff.1 h with halphanum | hunderscore
  · exact Text.toNat_lt_of_isAlphanum halphanum
  · obtain rfl := of_decide_eq_true hunderscore
    decide

theorem mark_eq_ok {c : Char} {text rest : List Char} (h : mark c text = .ok rest) :
    text = c :: rest := by
  cases text with
  | nil => simp [mark] at h
  | cons d text =>
    simp only [mark] at h
    split at h
    next hd =>
      obtain rfl := Except.ok.inj h
      rw [hd]
    · cases h

/-- A letter or an underscore, followed by letters, digits and underscores. -/
def IsConverterName (name : String) : Prop :=
  name.toList.head?.any isNameStart ∧ ∀ c ∈ name.toList, isNameChar c

instance (name : String) : Decidable (IsConverterName name) :=
  decidable_of_iff ((name.toList.head?.any isNameStart && name.toList.all isNameChar) = true)
    (by simp [IsConverterName])

theorem isConverterName_of_isVariableName {name : String} (h : IsVariableName name) :
    IsConverterName name := by
  obtain ⟨hfirst, hall⟩ := h
  refine ⟨?_, hall⟩
  unfold startsWithLetter at hfirst
  cases hhead : name.toList.head? with
  | none =>
    rw [hhead] at hfirst
    cases hfirst
  | some c =>
    rw [hhead] at hfirst
    have hletter : c.isAlpha = true := hfirst
    show isNameStart c = true
    simp [isNameStart, hletter]

/-- A name is read as far as it goes. -/
theorem identifier_eq_ok_iff {text name rest : List Char} :
    identifier text = .ok (name, rest) ↔ text = name ++ rest ∧
      IsConverterName (String.ofList name) ∧ ∀ c, rest.head? = some c → ¬ isNameChar c := by
  unfold IsConverterName
  rw [String.toList_ofList]
  constructor
  · intro h
    cases text with
    | nil => cases h
    | cons d text =>
      simp only [identifier] at h
      split at h
      next hd =>
        obtain ⟨rfl, rfl⟩ := Prod.mk.inj (Except.ok.inj h)
        refine ⟨by simp, ⟨hd, ?_⟩, ?_⟩
        · exact List.forall_mem_cons.2
            ⟨isNameChar_of_isNameStart hd, List.all_eq_true.1 List.all_takeWhile⟩
        · intro c hc
          have hstop := List.head?_dropWhile_not isNameChar text
          rw [hc] at hstop
          simpa using hstop
      · cases h
  · rintro ⟨rfl, ⟨hstart, hall⟩, hstop⟩
    cases name with
    | nil => cases hstart
    | cons d name =>
      have hmore := fun c hc => hall c (List.mem_cons_of_mem d hc)
      have hrest : rest.takeWhile isNameChar = [] ∧ rest.dropWhile isNameChar = rest := by
        cases rest with
        | nil => exact ⟨rfl, rfl⟩
        | cons c rest =>
          have hc := hstop c rfl
          exact ⟨List.takeWhile_cons_of_neg hc, List.dropWhile_cons_of_neg hc⟩
      have hd : isNameStart d = true := hstart
      rw [List.cons_append, identifier, if_pos hd, List.takeWhile_append_of_pos hmore,
        List.dropWhile_append_of_pos hmore, hrest.1, hrest.2, List.append_nil]

/-! ## Placeholders -/

/-- Whether every quotation of the clause is closed, and no parenthesis outside quotations closes
it before its end. -/
def IsClause (clause : String) : Prop :=
  quoteBalanced none clause.toList = true ∧ OnlyQuoted ')' none clause.toList

/-- A placeholder as it is written. -/
inductive Tag where
  /-- As in `<name>`. -/
  | bare (name : String)
  /-- As in `<converter:name>`. -/
  | typed (converter name : String)
  /-- As in `<converter(clause):name>`. -/
  | called (converter clause name : String)
  deriving DecidableEq

namespace Tag

def name : Tag → String
  | bare name | typed _ name | called _ _ name => name

/-- What stands between the brackets. -/
def inner : Tag → List Char
  | bare name => name.toList
  | typed converter name => converter.toList ++ ':' :: name.toList
  | called converter clause name =>
    converter.toList ++ '(' :: (clause.toList ++ ')' :: ':' :: name.toList)

def text (tag : Tag) : List Char := '<' :: (tag.inner ++ ['>'])

/-- The name that is read first. -/
def first : Tag → String
  | bare name => name
  | typed converter _ | called converter _ _ => converter

/-- What follows the first name. -/
def declared : Tag → List Char
  | bare _ => []
  | typed _ name => ':' :: name.toList
  | called _ clause name => '(' :: (clause.toList ++ ')' :: ':' :: name.toList)

theorem inner_eq (tag : Tag) : tag.inner = tag.first.toList ++ tag.declared := by
  cases tag with
  | bare name => exact (List.append_nil _).symm
  | _ => rfl

/-- Whether the names are names, and the clause is one. -/
def IsProper : Tag → Prop
  | bare name => IsVariableName name
  | typed converter name => IsConverterName converter ∧ IsVariableName name
  | called converter clause name =>
    IsConverterName converter ∧ IsClause clause ∧ IsVariableName name

/-- The same, but the name of the variable need not begin with a letter. -/
def IsSpelled : Tag → Prop
  | bare name => IsConverterName name
  | typed converter name => IsConverterName converter ∧ IsConverterName name
  | called converter clause name =>
    IsConverterName converter ∧ IsClause clause ∧ IsConverterName name

theorem isProper_iff {tag : Tag} :
    tag.IsProper ↔ tag.IsSpelled ∧ startsWithLetter tag.name = true := by
  have hname : ∀ {name}, IsVariableName name ↔ IsConverterName name ∧ startsWithLetter name = true :=
    ⟨fun h => ⟨isConverterName_of_isVariableName h, h.1⟩, fun h => ⟨h.2, h.1.2⟩⟩
  cases tag with
  | bare name => exact hname
  | typed converter name =>
    show _ ∧ IsVariableName name ↔ _
    rw [hname, ← and_assoc]
    rfl
  | called converter clause name =>
    show _ ∧ _ ∧ IsVariableName name ↔ _
    rw [hname, ← and_assoc, ← and_assoc, and_assoc (a := IsConverterName converter)]
    rfl

theorem IsSpelled.name {tag : Tag} (h : tag.IsSpelled) : IsConverterName tag.name := by
  cases tag with
  | bare name => exact h
  | typed converter name => exact h.2
  | called converter clause name => exact h.2.2

/-- The variable that the placeholder stands for. -/
def placeholder : Tag → Placeholder
  | bare name => ⟨Catalogue.defaultName, {}, name⟩
  | typed converter name => ⟨converter, {}, name⟩
  | called converter clause name => ⟨converter, .ofClause clause.toList, name⟩

@[simp] theorem name_placeholder (tag : Tag) : tag.placeholder.name = tag.name := by
  cases tag <;> rfl

theorem IsProper.first {tag : Tag} (h : tag.IsProper) : IsConverterName tag.first := by
  cases tag with
  | bare name => exact isConverterName_of_isVariableName h
  | typed converter name => exact h.1
  | called converter clause name => exact h.1

theorem IsProper.name {tag : Tag} (h : tag.IsProper) : IsVariableName tag.name := by
  cases tag with
  | bare name => exact h
  | typed converter name => exact h.2
  | called converter clause name => exact h.2.2

/-- What is declared, with the closing bracket, is no part of the first name. -/
theorem exists_declared_eq_cons (tag : Tag) (rest : List Char) :
    ∃ c more, tag.declared ++ '>' :: rest = c :: more ∧ isNameChar c = false := by
  cases tag with
  | bare name => exact ⟨'>', rest, rfl, by decide⟩
  | typed converter name => exact ⟨':', _, rfl, by decide⟩
  | called converter clause name => exact ⟨'(', _, rfl, by decide⟩

end Tag

/-- A name is read whole where what follows it is no part of a name. -/
theorem identifier_append {name : String} (h : IsConverterName name) {c : Char}
    (hc : isNameChar c = false) (rest : List Char) :
    identifier (name.toList ++ c :: rest) = .ok (name.toList, c :: rest) := by
  refine identifier_eq_ok_iff.2 ⟨rfl, by rwa [String.ofList_toList], ?_⟩
  rintro d hd
  obtain rfl := Option.some.inj hd
  simp [hc]

theorem breakOutside?_clause {clause : String} (h : IsClause clause) (rest : List Char) :
    breakOutside? ')' none (clause.toList ++ ')' :: rest) = some (clause.toList, rest) :=
  breakOutside?_eq_some_iff.2 ⟨rfl, h⟩

/-- A name ends where the first character stands that is no part of it. -/
theorem name_append_inj {name name' : String} (h : IsConverterName name)
    (h' : IsConverterName name') {c c' : Char} (hc : isNameChar c = false)
    (hc' : isNameChar c' = false) {rest rest' : List Char}
    (heq : name.toList ++ c :: rest = name'.toList ++ c' :: rest') :
    name = name' ∧ c :: rest = c' :: rest' := by
  have hread := identifier_append h hc rest
  rw [heq, identifier_append h' hc' rest'] at hread
  obtain ⟨hname, hrest⟩ := Prod.mk.inj (Except.ok.inj hread)
  exact ⟨(String.toList_inj.1 hname).symm, hrest.symm⟩

/-- A clause ends at the first parenthesis outside quotations. -/
theorem clause_append_inj {clause clause' : String} (h : IsClause clause) (h' : IsClause clause')
    {rest rest' : List Char}
    (heq : clause.toList ++ ')' :: rest = clause'.toList ++ ')' :: rest') :
    clause = clause' ∧ rest = rest' := by
  have hbreak := breakOutside?_clause h rest
  rw [heq, breakOutside?_clause h' rest'] at hbreak
  obtain ⟨hclause, hrest⟩ := Prod.mk.inj (Option.some.inj hbreak)
  exact ⟨(String.toList_inj.1 hclause).symm, hrest.symm⟩

theorem identifier_inner {tag : Tag} (h : tag.IsProper) (rest : List Char) :
    identifier (tag.inner ++ '>' :: rest) =
      .ok (tag.first.toList, tag.declared ++ '>' :: rest) := by
  obtain ⟨c, more, heq, hc⟩ := tag.exists_declared_eq_cons rest
  rw [tag.inner_eq, List.append_assoc, heq]
  exact identifier_append h.first hc more

theorem identifier_name {tag : Tag} (h : tag.IsProper) (rest : List Char) :
    identifier (tag.name.toList ++ '>' :: rest) = .ok (tag.name.toList, '>' :: rest) :=
  identifier_append (isConverterName_of_isVariableName h.name) (by decide) rest

/-! ## Reading placeholders -/

theorem declaration_declared {tag : Tag} (h : tag.IsProper) (rest : List Char) :
    declaration tag.first.toList (tag.declared ++ '>' :: rest) =
      .ok (tag.placeholder, '>' :: rest) := by
  have hname := identifier_name h rest
  cases tag with
  | bare name =>
    simp [Tag.declared, declaration, Tag.first, Tag.placeholder]
  | typed converter name =>
    simp only [Tag.name] at hname
    simp [Tag.declared, declaration, Tag.first, Tag.placeholder, hname, bind, Except.bind]
  | called converter clause name =>
    simp only [Tag.name] at hname
    simp [Tag.declared, declaration, Tag.first, Tag.placeholder, hname, bind, Except.bind,
      breakOutside?_clause h.2.1, mark]

/-- What is declared behind a first name. -/
theorem exists_spelled_of_declaration {first text rest : List Char} {p : Placeholder}
    (hfirst : IsConverterName (String.ofList first))
    (h : declaration first text = .ok (p, rest)) :
    ∃ tag : Tag, tag.IsSpelled ∧ tag.first = String.ofList first ∧ text = tag.declared ++ rest ∧
      p = tag.placeholder := by
  unfold declaration at h
  split at h
  next clause =>
    split at h
    · cases h
    next raw after hbreak =>
      obtain ⟨named, hcolon, h⟩ := exists_of_bind_eq_ok h
      obtain ⟨⟨name, left⟩, hname, h⟩ := exists_of_bind_eq_ok h
      obtain ⟨rfl, rfl⟩ := Prod.mk.inj (Except.ok.inj h)
      obtain ⟨rfl, hclause⟩ := breakOutside?_eq_some_iff.1 hbreak
      obtain rfl := mark_eq_ok hcolon
      obtain ⟨rfl, hname, -⟩ := identifier_eq_ok_iff.1 hname
      refine ⟨.called (String.ofList first) (String.ofList raw) (String.ofList name),
        ⟨hfirst, ?_, hname⟩, rfl, ?_, ?_⟩
      · unfold IsClause
        rwa [String.toList_ofList]
      · simp [Tag.declared]
      · simp [Tag.placeholder]
  next named =>
    obtain ⟨⟨name, left⟩, hname, h⟩ := exists_of_bind_eq_ok h
    obtain ⟨rfl, rfl⟩ := Prod.mk.inj (Except.ok.inj h)
    obtain ⟨rfl, hname, -⟩ := identifier_eq_ok_iff.1 hname
    refine ⟨.typed (String.ofList first) (String.ofList name), ⟨hfirst, hname⟩, rfl, ?_, rfl⟩
    simp [Tag.declared]
  · obtain ⟨rfl, rfl⟩ := Prod.mk.inj (Except.ok.inj h)
    exact ⟨.bare (String.ofList first), hfirst, rfl, rfl, rfl⟩

/-- What is declared behind a first name, when the name of the variable begins with a letter. -/
theorem exists_tag_of_declaration {first text rest : List Char} {p : Placeholder}
    (hfirst : IsConverterName (String.ofList first))
    (h : declaration first text = .ok (p, rest)) (hletter : startsWithLetter p.name = true) :
    ∃ tag : Tag, tag.IsProper ∧ tag.first = String.ofList first ∧ text = tag.declared ++ rest ∧
      p = tag.placeholder := by
  obtain ⟨tag, hspelled, htag, htext, rfl⟩ := exists_spelled_of_declaration hfirst h
  rw [Tag.name_placeholder] at hletter
  exact ⟨tag, Tag.isProper_iff.2 ⟨hspelled, hletter⟩, htag, htext, rfl⟩

/-- The placeholders that are read are those that are written properly. -/
theorem placeholder_eq_ok_iff {text rest : List Char} {p : Placeholder} :
    placeholder text = .ok (p, rest) ↔
      ∃ tag : Tag, tag.IsProper ∧ text = tag.inner ++ '>' :: rest ∧ p = tag.placeholder := by
  constructor
  · intro h
    obtain ⟨⟨first, named⟩, hfirst, h1⟩ := exists_of_bind_eq_ok h
    obtain ⟨⟨q, closing⟩, hdeclared, h2⟩ := exists_of_bind_eq_ok h1
    obtain ⟨left, hclosing, h3⟩ := exists_of_bind_eq_ok h2
    obtain ⟨rfl, hstart, -⟩ := identifier_eq_ok_iff.1 hfirst
    obtain rfl := mark_eq_ok hclosing
    split at h3
    next hletter =>
      obtain ⟨rfl, rfl⟩ := Prod.mk.inj (Except.ok.inj h3)
      obtain ⟨tag, hproper, htag, rfl, rfl⟩ := exists_tag_of_declaration hstart hdeclared hletter
      refine ⟨tag, hproper, ?_, rfl⟩
      rw [tag.inner_eq, htag, String.toList_ofList, List.append_assoc]
    · cases h3
  · rintro ⟨tag, hproper, rfl, rfl⟩
    unfold placeholder
    simp [identifier_inner hproper, declaration_declared hproper, mark, hproper.name.1, bind,
      Except.bind]

/-- A placeholder is read up to its `>`. -/
theorem placeholder_eq_ok {text rest : List Char} {p : Placeholder}
    (h : placeholder text = .ok (p, rest)) :
    (∃ read, text = read ++ '>' :: rest) ∧ IsVariableName p.name := by
  obtain ⟨tag, hproper, htext, rfl⟩ := placeholder_eq_ok_iff.1 h
  rw [Tag.name_placeholder]
  exact ⟨⟨tag.inner, htext⟩, hproper.name⟩

/-- What is declared behind a first name is told from what follows in one way only. -/
theorem declared_append_inj {tag tag' : Tag} (h : tag.IsProper) (h' : tag'.IsProper)
    (hfirst : tag.first = tag'.first) {rest rest' : List Char}
    (heq : tag.declared ++ '>' :: rest = tag'.declared ++ '>' :: rest') :
    tag = tag' ∧ rest = rest' := by
  have hname : tag.name.toList ++ '>' :: rest = tag'.name.toList ++ '>' :: rest' →
      tag.name = tag'.name ∧ rest = rest' := by
    intro hnames
    obtain ⟨hsame, hrest⟩ := name_append_inj (isConverterName_of_isVariableName h.name)
      (isConverterName_of_isVariableName h'.name) (by decide) (by decide) hnames
    exact ⟨hsame, (List.cons.inj hrest).2⟩
  -- the first character tells the shapes apart
  cases tag with
  | bare name =>
    cases tag' with
    | bare name' =>
      obtain rfl : name = name' := hfirst
      exact ⟨rfl, (List.cons.inj heq).2⟩
    | typed converter' name' => simp [Tag.declared] at heq
    | called converter' clause' name' => simp [Tag.declared] at heq
  | typed converter name =>
    cases tag' with
    | bare name' => simp [Tag.declared] at heq
    | typed converter' name' =>
      obtain rfl : converter = converter' := hfirst
      obtain ⟨rfl, rfl⟩ := hname (List.cons.inj heq).2
      exact ⟨rfl, rfl⟩
    | called converter' clause' name' => simp [Tag.declared] at heq
  | called converter clause name =>
    cases tag' with
    | bare name' => simp [Tag.declared] at heq
    | typed converter' name' => simp [Tag.declared] at heq
    | called converter' clause' name' =>
      obtain rfl : converter = converter' := hfirst
      have hclause : clause.toList ++ ')' :: ':' :: (name.toList ++ '>' :: rest) =
          clause'.toList ++ ')' :: ':' :: (name'.toList ++ '>' :: rest') := by
        simpa [Tag.declared] using heq
      obtain ⟨rfl, hrest⟩ := clause_append_inj h.2.1 h'.2.1 hclause
      obtain ⟨rfl, rfl⟩ := hname (List.cons.inj hrest).2
      exact ⟨rfl, rfl⟩

theorem inner_append_inj {tag tag' : Tag} (h : tag.IsProper) (h' : tag'.IsProper)
    {rest rest' : List Char} (heq : tag.inner ++ '>' :: rest = tag'.inner ++ '>' :: rest') :
    tag = tag' ∧ rest = rest' := by
  have hread := identifier_inner h rest
  rw [heq, identifier_inner h' rest'] at hread
  obtain ⟨hfirst, hdeclared⟩ := Prod.mk.inj (Except.ok.inj hread)
  exact declared_append_inj h h' (String.toList_inj.1 hfirst).symm hdeclared.symm

end UrlRouting.Template
