/-
  Decimal text of whole numbers.
  Natural numbers are written by `digits` and read by `value`; 64-bit integers take an optional
  sign, and one that does not fit is refused (`int64?`). `padded` fills up with zeros between
  the sign and the digits.
-/

namespace UrlRouting.Decimal

/-- The shortest decimal text. -/
def digits (n : Nat) : List Char := Nat.toDigits 10 n

/-- The number that a text of digits stands for. -/
def value (ds : List Char) : Nat := Nat.ofDigitChars 10 ds 0

/-- One or more ASCII digits and nothing else. -/
def isDigits (text : List Char) : Bool := !text.isEmpty && text.all Char.isDigit

@[simp] theorem value_digits (n : Nat) : value (digits n) = n := Nat.ofDigitChars_ten_toDigits

theorem isDigits_digits (n : Nat) : isDigits (digits n) = true := by
  simp only [isDigits, digits, Bool.and_eq_true, List.all_eq_true]
  exact ⟨by simp, fun c hc => Nat.isDigit_of_mem_toDigits (by decide) (by decide) hc⟩

/-- The 64-bit integer of this value, if there is one. -/
def toInt64? (n : Int) : Option Int64 :=
  if Int64.minValue.toInt ≤ n ∧ n ≤ Int64.maxValue.toInt then some (Int64.ofInt n) else none

/-- Reads an optional sign and one or more digits; a number beyond 64 bits is refused. -/
def int64? (text : List Char) : Option Int64 :=
  match text with
  | '-' :: ds => if isDigits ds then toInt64? (-(value ds : Int)) else none
  | '+' :: ds => if isDigits ds then toInt64? (value ds) else none
  | ds => if isDigits ds then toInt64? (value ds) else none

/-- A minus sign for the negative numbers. -/
def sign (n : Int) : List Char := if n < 0 then ['-'] else []

def ofInt (n : Int) : List Char := sign n ++ digits n.natAbs

/-- At least `width` characters, the sign included, with zeros after the sign. -/
def padded (width : Nat) (n : Int) : List Char :=
  let ds := digits n.natAbs
  sign n ++ List.replicate (width - (sign n).length - ds.length) '0' ++ ds

def natText (n : Nat) : String := String.ofList (digits n)

def intText (n : Int) : String := String.ofList (ofInt n)

end UrlRouting.Decimal
