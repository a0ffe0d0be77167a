import UrlRouting.Arguments.Clause
import UrlRouting.Converter.Catalogue
import UrlRouting.Template.Segment
import UrlRouting.Text.Offset

/-
  Reading a template such as `/users/<int(4):id>/`.
  A template begins with a slash. Every `<` opens a placeholder `<name>`, `<converter:name>` or
  `<converter(arguments):name>`; an argument clause ends at the first `)` outside quotations.
  Literal text stands before, between and behind the placeholders, empty where they touch, so
  `/<a><b>` has five segments. The first fault from the left is reported.
-/

namespace UrlRouting

/-- Why a text is no template. Places are counted in bytes. -/
inductive TemplateError where
  | missingLeadingSlash
  | unterminatedPlaceholder (index : Nat)
  | unexpected (index : Nat) (found : Char)
  | unterminatedArguments (index : Nat)
  | badVariableName (name : String)
  | duplicateVariable (name : String)
  deriving DecidableEq, Repr

def TemplateError.message (template : String) : TemplateError → String
  | missingLeadingSlash => "rule '" ++ template ++ "' does not start with a slash"
  | unterminatedPlaceholder index =>
    "placeholder opened at index " ++ Decimal.natText index ++ " in '" ++ template
      ++ "' is never closed"
  | unexpected index found =>
    "unexpected character '" ++ String.singleton found ++ "' at index " ++ Decimal.natText index
      ++ " in placeholder of '" ++ template ++ "'"
  | unterminatedArguments index =>
    "converter arguments opened at index " ++ Decimal.natText index ++ " in '" ++ template
      ++ "' are never closed"
  | badVariableName name =>
    "variable name '" ++ name ++ "' in '" ++ template ++ "' must start with an alphabetic character"
  | duplicateVariable name =>
    "variable name '" ++ name ++ "' used more than once in '" ++ template ++ "'"

namespace Template

open Text

/-- A fault in a placeholder; the text from the fault on tells where it is. -/
inductive Fault where
  | unexpected (found : Char) (rest : List Char)
  | ended
  | openArguments (clause : List Char)
  | badName (name : String)
  deriving DecidableEq

def isNameStart (c : Char) : Bool := c.isAlpha || c = '_'

def isNameChar (c : Char) : Bool := c.isAlphanum || c = '_'

/-- Reads a name as far as it goes. -/
def identifier : List Char → Except Fault (List Char × List Char)
  | [] => .error .ended
  | c :: rest =>
    if isNameStart c then .ok (c :: rest.takeWhile isNameChar, rest.dropWhile isNameChar)
    else .error (.unexpected c rest)

/-- Reads one given character. -/
def mark (c : Char) : List Char → Except Fault (List Char)
  | [] => .error .ended
  | d :: rest => if d = c then .ok rest else .error (.unexpected d rest)

/-- What follows the first name of a placeholder, up to the closing `>`. -/
def declaration (first : List Char) (text : List Char) : Except Fault (Placeholder × List Char) :=
  match text with
  | '(' :: clause =>
    match breakOutside? ')' none clause with
    | none => .error (.openArguments clause)
    | some (raw, rest) => do
      let rest ← mark ':' rest
      let (name, rest) ← identifier rest
      .ok (⟨String.ofList first, .ofClause raw, String.ofList name⟩, rest)
  | ':' :: rest => do
    let (name, rest) ← identifier rest
    .ok (⟨String.ofList first, {}, String.ofList name⟩, rest)
  | _ => .ok (⟨Catalogue.defaultName, {}, String.ofList first⟩, text)

def startsWithLetter (name : String) : Bool := name.toList.head?.any Char.isAlpha

/-- Reads a placeholder whose `<` has been read. -/
def placeholder (text : List Char) : Except Fault (Placeholder × List Char) := do
  let (first, rest) ← identifier text
  let (p, rest) ← declaration first rest
  let rest ← mark '>' rest
  if startsWithLetter p.name then .ok (p, rest) else .error (.badName p.name)

/-! ## What is left of the text

  Every reader leaves a last part of the text, and `placeholder` a shorter one. -/

theorem exists_of_bind_eq_ok {ε α β : Type} {x : Except ε α} {f : α → Except ε β} {b : β}
    (h : x >>= f = .ok b) : ∃ a, x = .ok a ∧ f a = .ok b := by
  cases x with
  | error e => cases h
  | ok a => exact ⟨a, rfl, h⟩

theorem length_of_identifier {text name rest : List Char}
    (h : identifier text = .ok (name, rest)) : rest.length < text.length := by
  cases text with
  | nil => simp [identifier] at h
  | cons c text =>
    simp only [identifier] at h
    split at h
    · obtain ⟨_, rfl⟩ : _ ∧ text.dropWhile isNameChar = rest := by simpa using h
      exact Nat.lt_succ_of_le (List.dropWhile_sublist _).length_le
    · simp at h

theorem length_of_mark {c : Char} {text rest : List Char} (h : mark c text = .ok rest) :
    rest.length < text.length := by
  cases text with
  | nil => simp [mark] at h
  | cons d text =>
    simp only [mark] at h
    split at h
    · obtain rfl : text = rest := by simpa using h
      simp
    · simp at h

theorem length_of_declaration {first text rest : List Char} {p : Placeholder}
    (h : declaration first text = .ok (p, rest)) : rest.length ≤ text.length := by
  unfold declaration at h
  split at h
  next clause =>
    split at h
    · cases h
    next raw after hb =>
      obtain ⟨named, hm, h⟩ := exists_of_bind_eq_ok h
      obtain ⟨⟨name, left⟩, hi, h⟩ := exists_of_bind_eq_ok h
      obtain ⟨_, rfl⟩ : _ ∧ left = rest := by simpa using h
      have h1 := length_of_mark hm
      have h2 := length_of_identifier hi
      have h3 := congrArg List.length (eq_append_of_breakOutside? hb)
      simp only [List.length_append, List.length_cons] at h3 ⊢
      omega
  next named =>
    obtain ⟨⟨name, left⟩, hi, h⟩ := exists_of_bind_eq_ok h
    obtain ⟨_, rfl⟩ : _ ∧ left = rest := by simpa using h
    have h2 := length_of_identifier hi
    simp only [List.length_cons]
    omega
  · obtain ⟨_, rfl⟩ : _ ∧ text = rest := by simpa using h
    exact Nat.le_refl _

theorem length_of_placeholder {text rest : List Char} {p : Placeholder}
    (h : placeholder text = .ok (p, rest)) : rest.length < text.length := by
  obtain ⟨⟨first, named⟩, hi, h⟩ := exists_of_bind_eq_ok h
  obtain ⟨⟨q, closing⟩, hd, h⟩ := exists_of_bind_eq_ok h
  obtain ⟨left, hm, h⟩ := exists_of_bind_eq_ok h
  have h1 := length_of_identifier hi
  have h2 := length_of_declaration hd
  have h3 := length_of_mark hm
  split at h
  · obtain ⟨_, rfl⟩ : _ ∧ left = rest := by simpa using h
    omega
  · cases h

/-- The error of a fault in a placeholder that opens where `whole` ends in `opened`. -/
def Fault.toError (whole opened : List Char) : Fault → TemplateError
  | .unexpected found rest => .unexpected (offset whole (found :: rest)) found
  | .ended => .unterminatedPlaceholder (offset whole opened)
  | .openArguments clause => .unterminatedArguments (offset whole ('(' :: clause))
  | .badName name => .badVariableName name

/-- Reads the segments of `text`, the last part of `whole`; `seen` are the names before it. -/
def segments (whole : List Char) (seen : List String) (text : List Char) :
    Except TemplateError (List Segment) :=
  let literal := Segment.literal (String.ofList (text.takeWhile (· ≠ '<')))
  match _ho : text.dropWhile (· ≠ '<') with
  | [] => .ok [literal]
  | opening :: inner =>
    match _hp : placeholder inner with
    | .error fault => .error (fault.toError whole (opening :: inner))
    | .ok (p, rest) =>
      if p.name ∈ seen then .error (.duplicateVariable p.name)
      else (segments whole (p.name :: seen) rest).map fun more => literal :: .placeholder p :: more
termination_by text.length
decreasing_by
  have h1 := length_of_placeholder _hp
  have h2 := congrArg List.length _ho
  have h3 : (text.dropWhile (· ≠ '<')).length ≤ text.length :=
    (List.dropWhile_sublist _).length_le
  simp only [List.length_cons] at h2
  omega

/-- Reads a template. -/
def parse (template : String) : Except TemplateError (List Segment) :=
  let text := template.toList
  if text.head? = some '/' then segments text [] text else .error .missingLeadingSlash

end Template

end UrlRouting
