import UrlRouting.Decimal.Shortest

/-
  Two positional notations of floats, neither of which ever has an exponent.
  `plain` writes the shortest digits that read back, and no point in a whole number.
  `pointed` writes a whole number exactly and ends it in `.0`; other floats are as in `plain`.
-/

namespace UrlRouting.Decimal

/-- Writes `significand * 10 ^ power` with zeros up to the point. -/
def Scaled.positional (s : Scaled) : List Char :=
  let ds := digits s.significand
  let places := (-s.power).toNat
  if 0 ≤ s.power then
    if s.significand = 0 then ds else ds ++ List.replicate s.power.toNat '0'
  else if places < ds.length then
    ds.take (ds.length - places) ++ '.' :: ds.drop (ds.length - places)
  else '0' :: '.' :: (List.replicate (places - ds.length) '0' ++ ds)

/-- The number itself if it is whole. -/
def whole? (mantissa : Nat) (exponent : Int) : Option Nat :=
  if 0 ≤ exponent then some (mantissa <<< exponent.toNat)
  else
    let divisor := 1 <<< (-exponent).toNat
    if mantissa % divisor = 0 then some (mantissa / divisor) else none

/-- The minus sign of a negative float, zero included. -/
def signOf (negative : Bool) : List Char := if negative then ['-'] else []

def Binary.plain : Binary → List Char
  | .notANumber => "NaN".toList
  | .infinite negative => signOf negative ++ "inf".toList
  | .finite negative m e atPower => signOf negative ++ (shortest m e atPower).positional

def Binary.pointed (b : Binary) : List Char :=
  match b with
  | .finite negative m e _ =>
    match whole? m e with
    | some n => signOf negative ++ digits n ++ ".0".toList
    | none => b.plain
  | _ => b.plain

/-- The shortest text that reads back. -/
def plain (x : Float) : String := String.ofList (Binary.ofFloat x).plain

/-- The same, but a whole number is exact and keeps its point. -/
def pointed (x : Float) : String := String.ofList (Binary.ofFloat x).pointed

end UrlRouting.Decimal
