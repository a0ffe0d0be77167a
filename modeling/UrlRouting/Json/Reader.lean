import UrlRouting.Decimal.Integer
import UrlRouting.Json.Basic
import UrlRouting.Text.Hexadecimal

/-
  Reading JSON strictly: blanks between tokens, no trailing commas, no leading zeros, no control
  characters in strings, and nothing behind the value.
  Values nest as deep as the text is long; `fuel` bounds the depth of the recursion and starts
  above the length of the text.
-/

namespace UrlRouting.Json

def isBlank (c : Char) : Bool := c = ' ' || c = '\n' || c = '\t' || c = '\r'

def skipBlanks (text : List Char) : List Char := text.dropWhile isBlank

/-- Reads a fixed word. -/
def word? (word : List Char) (text : List Char) : Option (List Char) :=
  if word.isPrefixOf text then some (text.drop word.length) else none

/-! ## Strings -/

/-- A character of a string as it was written: a code point, or half of a surrogate pair. -/
inductive CodeUnit where
  | char (c : Char)
  | high (n : Nat)
  | low (n : Nat)
  deriving DecidableEq

/-- The unit of a 16-bit escape. -/
def CodeUnit.ofCode (n : Nat) : CodeUnit :=
  if 0xD800 ≤ n ∧ n < 0xDC00 then .high (n - 0xD800)
  else if 0xDC00 ≤ n ∧ n < 0xE000 then .low (n - 0xDC00)
  else .char (Char.ofNat n)

/-- Reads what follows a backslash. -/
def escape? : List Char → Option (CodeUnit × List Char)
  | 'u' :: a :: b :: c :: d :: rest => do
    let a ← Text.hexValue? a
    let b ← Text.hexValue? b
    let c ← Text.hexValue? c
    let d ← Text.hexValue? d
    some (.ofCode (((a.val * 16 + b) * 16 + c) * 16 + d), rest)
  | '"' :: rest => some (.char '"', rest)
  | '\\' :: rest => some (.char '\\', rest)
  | '/' :: rest => some (.char '/', rest)
  | 'b' :: rest => some (.char '\x08', rest)
  | 'f' :: rest => some (.char '\x0c', rest)
  | 'n' :: rest => some (.char '\n', rest)
  | 'r' :: rest => some (.char '\r', rest)
  | 't' :: rest => some (.char '\t', rest)
  | _ => none

/-- Reads the units of a string whose opening quote has been read. -/
def units? : (fuel : Nat) → List Char → Option (List CodeUnit × List Char)
  | 0, _ => none
  | _, [] => none
  | _, '"' :: rest => some ([], rest)
  | fuel + 1, '\\' :: rest => do
    let (u, rest) ← escape? rest
    let (us, rest) ← units? fuel rest
    some (u :: us, rest)
  | fuel + 1, c :: rest =>
    if c.toNat < 0x20 then none
    else do
      let (us, rest) ← units? fuel rest
      some (.char c :: us, rest)

/-- The text of some units, in which surrogates must come in pairs. -/
def text? : List CodeUnit → Option (List Char)
  | [] => some []
  | .char c :: us => (text? us).map (c :: ·)
  | .high h :: .low l :: us => (text? us).map (Char.ofNat (0x10000 + h * 0x400 + l) :: ·)
  | _ => none

/-- Reads a string whose opening quote has been read. -/
def string? (fuel : Nat) (text : List Char) : Option (Option String × List Char) := do
  let (us, rest) ← units? fuel text
  some ((text? us).map String.ofList, rest)

/-! ## Numbers -/

/-- Reads one or more digits. -/
def digits? (text : List Char) : Option (List Char × List Char) :=
  let ds := text.takeWhile Char.isDigit
  if ds.isEmpty then none else some (ds, text.dropWhile Char.isDigit)

/-- Reads a whole part: a zero alone, or digits that do not begin with one. -/
def wholePart? (text : List Char) : Option (List Char × List Char) :=
  match text with
  | '0' :: rest => if rest.head?.any Char.isDigit then none else some (['0'], rest)
  | _ => digits? text

/-- Skips a fraction if there is one. -/
def skipFraction? (text : List Char) : Option (List Char) :=
  match text with
  | '.' :: rest => (digits? rest).map Prod.snd
  | _ => some text

/-- Skips an exponent if there is one. -/
def skipExponent? (text : List Char) : Option (List Char) :=
  match text with
  | mark :: rest =>
    if mark = 'e' ∨ mark = 'E' then
      match rest with
      | '+' :: rest => (digits? rest).map Prod.snd
      | '-' :: rest => (digits? rest).map Prod.snd
      | _ => (digits? rest).map Prod.snd
    else some text
  | [] => some []

/-- Reads a number. -/
def number? (text : List Char) : Option (Json × List Char) :=
  match text with
  | '-' :: rest => do
    let (_, rest) ← wholePart? rest
    let rest ← skipFraction? rest
    let rest ← skipExponent? rest
    some (.number, rest)
  | _ => do
    let (ds, afterWhole) ← wholePart? text
    let rest ← skipFraction? afterWhole
    let rest ← skipExponent? rest
    some (if rest.length = afterWhole.length then .natural (Decimal.value ds) else .number, rest)

/-! ## Values -/

mutual

/-- Reads a value behind blanks. -/
def value? : (fuel : Nat) → List Char → Option (Json × List Char)
  | 0, _ => none
  | fuel + 1, text =>
    match skipBlanks text with
    | '"' :: rest => do
      let (s, rest) ← string? fuel rest
      some (.string s, rest)
    | '[' :: rest =>
      match skipBlanks rest with
      | ']' :: rest => some (.array [], rest)
      | _ => do
        let (items, rest) ← items? fuel rest
        some (.array items, rest)
    | '{' :: rest =>
      match skipBlanks rest with
      | '}' :: rest => some (.object [], rest)
      | _ => do
        let (fields, rest) ← fields? fuel rest
        some (.object fields, rest)
    | 't' :: rest => (word? "rue".toList rest).map (.bool true, ·)
    | 'f' :: rest => (word? "alse".toList rest).map (.bool false, ·)
    | 'n' :: rest => (word? "ull".toList rest).map (.null, ·)
    | rest => number? rest

/-- Reads the items of an array up to its end. -/
def items? : (fuel : Nat) → List Char → Option (List Json × List Char)
  | 0, _ => none
  | fuel + 1, text => do
    let (item, rest) ← value? fuel text
    match skipBlanks rest with
    | ',' :: rest => do
      let (items, rest) ← items? fuel rest
      some (item :: items, rest)
    | ']' :: rest => some ([item], rest)
    | _ => none

/-- Reads the fields of an object up to its end. -/
def fields? : (fuel : Nat) → List Char → Option (List (Option String × Json) × List Char)
  | 0, _ => none
  | fuel + 1, text =>
    match skipBlanks text with
    | '"' :: rest => do
      let (name, rest) ← string? fuel rest
      match skipBlanks rest with
      | ':' :: rest => do
        let (v, rest) ← value? fuel rest
        match skipBlanks rest with
        | ',' :: rest => do
          let (fields, rest) ← fields? fuel rest
          some ((name, v) :: fields, rest)
        | '}' :: rest => some ([(name, v)], rest)
        | _ => none
      | _ => none
    | _ => none

end

/-- Reads a text that is one value and blanks. -/
def parse? (text : String) : Option Json := do
  let cs := text.toList
  let (v, rest) ← value? (cs.length + 1) cs
  if (skipBlanks rest).isEmpty then some v else none

end UrlRouting.Json
