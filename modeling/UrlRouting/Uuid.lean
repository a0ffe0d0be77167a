import UrlRouting.Text.Hexadecimal

/-
  Universally unique identifiers: 32 hexadecimal digits, written with hyphens after the 8th,
  12th, 16th and 20th.
  A `layout` says where digits and hyphens stand. Reading and writing go by the same layouts,
  so `fill?_write` holds for every one of them.
-/

namespace UrlRouting

/-- An identifier, as its 32 hexadecimal digits. -/
structure Uuid where
  digits : List (Fin 16)
  length_digits : digits.length = 32 := by rfl
  deriving DecidableEq

namespace Uuid

open Text

/-- What may stand at one place of a written identifier. -/
inductive Place where
  | digit | hyphen
  deriving DecidableEq, Repr

/-- Digits only. -/
def simple : List Place := List.replicate 32 .digit

/-- Digits in groups of 8, 4, 4, 4 and 12. -/
def hyphenated : List Place :=
  let group (n : Nat) : List Place := List.replicate n .digit
  group 8 ++ .hyphen :: group 4 ++ .hyphen :: group 4 ++ .hyphen :: group 4
    ++ .hyphen :: group 12

/-- The digits of a text that has exactly this layout. -/
def fill? : List Place → List Char → Option (List (Fin 16))
  | [], [] => some []
  | .digit :: places, c :: text => do
    let d ← hexValue? c
    let ds ← fill? places text
    some (d :: ds)
  | .hyphen :: places, c :: text => if c = '-' then fill? places text else none
  | _, _ => none

/-- Writes digits into a layout. -/
def write : List Place → List (Fin 16) → List Char
  | .digit :: places, d :: ds => lowerHex d :: write places ds
  | .hyphen :: places, ds => '-' :: write places ds
  | _, _ => []

theorem length_fill? {places : List Place} {text : List Char} {ds : List (Fin 16)}
    (h : fill? places text = some ds) : ds.length = places.count .digit := by
  fun_induction fill? places text generalizing ds with
  | case1 => simp_all
  | case2 places c text ih =>
    simp only [Option.bind_eq_bind, Option.bind_eq_some_iff, Option.some.injEq] at h
    obtain ⟨d, _, ds', h', rfl⟩ := h
    simp [ih h']
  | case3 places text ih => simpa using ih h
  | case4 => simp at h
  | case5 => simp at h

theorem length_eq_of_fill? {places : List Place} {text : List Char} {ds : List (Fin 16)}
    (h : fill? places text = some ds) : text.length = places.length := by
  fun_induction fill? places text generalizing ds with
  | case1 => rfl
  | case2 places c text ih =>
    simp only [Option.bind_eq_bind, Option.bind_eq_some_iff] at h
    obtain ⟨d, _, ds', h', _⟩ := h
    simp [ih h']
  | case3 places text ih => simp [ih h]
  | case4 => simp at h
  | case5 => simp at h

theorem fill?_write {places : List Place} {ds : List (Fin 16)}
    (h : ds.length = places.count .digit) : fill? places (write places ds) = some ds := by
  induction places generalizing ds with
  | nil =>
    obtain rfl : ds = [] := by simpa using h
    rfl
  | cons p places ih =>
    cases p with
    | hyphen => simpa [write, fill?] using ih (by simpa using h)
    | digit =>
      cases ds with
      | nil => simp at h
      | cons d ds => simp [write, fill?, ih (by simpa using h)]

/-- The identifier that a text of this layout stands for. -/
def ofLayout? (places : List Place) (h : places.count .digit = 32) (text : List Char) :
    Option Uuid :=
  match hf : fill? places text with
  | some ds => some ⟨ds, (length_fill? hf).trans h⟩
  | none => none

def ofSimple? : List Char → Option Uuid := ofLayout? simple (by decide)

def ofHyphenated? : List Char → Option Uuid := ofLayout? hyphenated (by decide)

/-- What may stand before the hyphenated form, in any letter case. -/
def urn : List Char := "urn:uuid:".toList

/-- Reads the hyphenated form, bare, in braces or behind the URN mark, or the digits alone. -/
def parse? (text : List Char) : Option Uuid :=
  if text.head? = some '{' then
    if text.getLast? = some '}' then ofHyphenated? text.tail.dropLast else none
  else if (text.take urn.length).map Char.toLower = urn then
    ofHyphenated? (text.drop urn.length)
  else (ofHyphenated? text).or (ofSimple? text)

/-- The hyphenated form, in lower case. -/
def text (u : Uuid) : String := String.ofList (write hyphenated u.digits)

theorem length_of_ofHyphenated? {text : List Char} {u : Uuid} (h : ofHyphenated? text = some u) :
    text.length = hyphenated.length := by
  unfold ofHyphenated? ofLayout? at h
  split at h
  next hf => exact length_eq_of_fill? hf
  · simp at h

theorem ofHyphenated?_write (u : Uuid) : ofHyphenated? (write hyphenated u.digits) = some u := by
  have h : fill? hyphenated (write hyphenated u.digits) = some u.digits :=
    fill?_write (u.length_digits.trans (by decide))
  unfold ofHyphenated? ofLayout?
  split
  · simp_all
  · simp_all

end Uuid

end UrlRouting
