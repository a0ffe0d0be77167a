import UrlRouting.Decimal.Integer

/-
  Reading 64-bit floats from decimal text.
  A number is an optional sign and either one of the words `inf`, `infinity` and `nan` in any
  letter case, or digits with at most one point among, before or after them and an optional
  exponent. Its value is the float nearest to the decimal, ties to even.
-/

namespace UrlRouting.Decimal

def infinity : Float := Float.ofBits 0x7FF0000000000000

def notANumber : Float := Float.ofBits 0x7FF8000000000000

/-- The bits of infinity; those of the finite floats are below. -/
def infinityBits : Nat := 0x7FF0000000000000

/-- The quotient rounded to nearest, ties to even. -/
def roundedQuotient (n d : Nat) : Nat :=
  let twice := 2 * (n % d)
  if d < twice ∨ d = twice ∧ n / d % 2 = 1 then n / d + 1 else n / d

/-- The bits of the float nearest to `n / d`. Of the number in units of the least positive float,
which is `2 ^ (-1074)`, 53 binary digits are kept and the last of them is rounded. In a float the
exponent stands before all of its digits but the first, so the bits are the sum of the two, whether
or not rounding carries. -/
def nearestBits (n d : Nat) : Nat :=
  let scaled := n <<< 1074
  let shift := (scaled / d).log2 - 52
  min ((shift <<< 52) + roundedQuotient scaled (d <<< shift)) infinityBits

/-- The bits of the float nearest to `mantissa * 10 ^ exponent`. Numbers that are far too large or
too small are not multiplied out. -/
def scientificBits (mantissa : Nat) (exponent : Int) : Nat :=
  if mantissa = 0 ∨ exponent < -2048 - mantissa.log2 then 0
  else if 2048 < exponent then infinityBits
  else nearestBits (mantissa * Nat.pow 10 exponent.toNat) (Nat.pow 10 (-exponent).toNat)

/-- `mantissa * 10 ^ exponent`, rounded to nearest. -/
def ofScientific (mantissa : Nat) (exponent : Int) : Float :=
  Float.ofBits (scientificBits mantissa exponent).toUInt64

/-- An exponent's digits behind an optional sign. -/
def exponent? (text : List Char) : Option Int :=
  match text with
  | '-' :: ds => if isDigits ds then some (-(value ds : Int)) else none
  | '+' :: ds => if isDigits ds then some (value ds) else none
  | ds => if isDigits ds then some (value ds) else none

/-- The digits behind a point, and what follows them; without a point there are none. -/
def fraction (text : List Char) : List Char × List Char :=
  match text with
  | '.' :: rest => (rest.takeWhile Char.isDigit, rest.dropWhile Char.isDigit)
  | rest => ([], rest)

/-- An unsigned decimal: at least one digit about the point, then perhaps an exponent. -/
def unsigned? (text : List Char) : Option Float :=
  let whole := text.takeWhile Char.isDigit
  let (part, rest) := fraction (text.dropWhile Char.isDigit)
  let mantissa := whole ++ part
  if mantissa.isEmpty then none
  else
    match rest with
    | [] => some (ofScientific (value mantissa) (-(part.length : Int)))
    | mark :: power =>
      if mark = 'e' ∨ mark = 'E' then
        (exponent? power).map fun e => ofScientific (value mantissa) (e - part.length)
      else none

/-- A magnitude: one of the words, or an unsigned decimal. -/
def magnitude? (text : List Char) : Option Float :=
  let word := text.map Char.toLower
  if word = "inf".toList ∨ word = "infinity".toList then some infinity
  else if word = "nan".toList then some notANumber
  else unsigned? text

def float? (text : List Char) : Option Float :=
  match text with
  | '-' :: rest => (magnitude? rest).map Float.neg
  | '+' :: rest => magnitude? rest
  | rest => magnitude? rest

end UrlRouting.Decimal
