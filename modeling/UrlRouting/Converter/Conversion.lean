import UrlRouting.Converter.Basic
import UrlRouting.Decimal.Float
import UrlRouting.Text.Offset
import UrlRouting.Value

/-
  Between texts and values: `Converter.read` takes the text that a variable has in a path,
  `Converter.write` gives the text of a value for a path.
-/

namespace UrlRouting

/-- What a malformed text should have been. -/
def Converter.Kind.noun : Kind → String
  | int => "integer"
  | kind => kind.name

/-- Why a text does not convert, or a value cannot be written. -/
inductive ConversionError where
  | tooManyDigits (text : String) (limit : Nat)
  | outOfRange (text : String)
  | malformed (text : String) (expected : Converter.Kind)
  | unwritable (kind : Converter.Kind) (value : Value)
  deriving DecidableEq

def ConversionError.message : ConversionError → String
  | tooManyDigits text limit =>
    "'" ++ text ++ "' has more than " ++ Decimal.natText limit ++ " digits"
  | outOfRange text => "'" ++ text ++ "' is outside the allowed range"
  | malformed text expected => "'" ++ text ++ "' is not a valid " ++ expected.noun
  | unwritable kind value =>
    "converter '" ++ kind.name ++ "' cannot render value '" ++ value.kind ++ " " ++ value.text
      ++ "'"

/-! ## Whole numbers -/

namespace IntBounds

/-- Whether a number misses a bound. -/
def excludes (b : IntBounds) (n : Int64) : Bool :=
  b.min.any (fun min => n < min) || b.max.any (fun max => max < n)

/-- Whether a text is longer than the number of digits allows; the length is in bytes. -/
def isTooLong (b : IntBounds) (text : String) : Bool :=
  b.digits.any (fun limit => limit < Text.byteLength text.toList)

/-- Reads a number: its length is looked at first, then its form, then the bounds. Digits that
make a number beyond 64 bits are out of range and not malformed. -/
def read (b : IntBounds) (text : String) : Except ConversionError Value :=
  if b.isTooLong text then .error (.tooManyDigits text (b.digits.getD 0))
  else
    match Decimal.int64? text.toList with
    | none =>
      if Decimal.isDigits text.toList then .error (.outOfRange text)
      else .error (.malformed text .int)
    | some n => if b.excludes n then .error (.outOfRange text) else .ok (.int n)

/-- The number that a value stands for: an integer, or a text that reads as one. -/
def number? : Value → Option Int64
  | .int n => some n
  | .str s => Decimal.int64? s.toList
  | _ => none

/-- The greatest number of digits that numbers are filled up to. -/
def maxWidth : Nat := 65535

/-- Writes a number, filled up with zeros to the number of digits; the bounds do not matter. Asked
for more digits than `maxWidth` the program stops, so it gives the text given here only up to that
width. -/
def write (b : IntBounds) (value : Value) : Except ConversionError String :=
  match number? value with
  | none => .error (.unwritable .int value)
  | some n =>
    match b.digits with
    | some width => .ok (String.ofList (Decimal.padded width n.toInt))
    | none => .ok (Decimal.intText n.toInt)

end IntBounds

/-! ## Floats -/

namespace FloatBounds

/-- Whether a float misses a bound; what is not a number misses none. -/
def excludes (b : FloatBounds) (x : Float) : Bool :=
  b.min.any (fun min => x < min) || b.max.any (fun max => max < x)

/-- Reads a float: its form is looked at first, then the bounds. -/
def read (b : FloatBounds) (text : String) : Except ConversionError Value :=
  match Decimal.float? text.toList with
  | none => .error (.malformed text .float)
  | some x => if b.excludes x then .error (.outOfRange text) else .ok (.float x)

/-- The float that a value stands for: a number, or a text that reads as a float. -/
def number? : Value → Option Float
  | .float x => some x
  | .int n => some (Float.ofInt n.toInt)
  | .str s => Decimal.float? s.toList
  | .uuid _ => none

/-- Writes a finite float; the bounds do not matter. -/
def write (value : Value) : Except ConversionError String :=
  match (number? value).filter Float.isFinite with
  | none => .error (.unwritable .float value)
  | some x => .ok (Decimal.pointed x)

end FloatBounds

/-! ## Identifiers -/

namespace Uuid

def readText (text : String) : Except ConversionError Value :=
  match parse? text.toList with
  | none => .error (.malformed text .uuid)
  | some u => .ok (.uuid u)

/-- The identifier that a value stands for: itself, or a text that reads as one. -/
def ofValue? : Value → Option Uuid
  | .uuid u => some u
  | .str s => parse? s.toList
  | _ => none

def writeValue (value : Value) : Except ConversionError String :=
  match ofValue? value with
  | none => .error (.unwritable .uuid value)
  | some u => .ok u.text

end Uuid

namespace Converter

/-- The value of a text. -/
def read (c : Converter) (text : String) : Except ConversionError Value :=
  match c with
  | string _ | any _ | path => .ok (.str text)
  | int bounds => bounds.read text
  | float bounds => bounds.read text
  | uuid => Uuid.readText text

/-- The text of a value. -/
def write (c : Converter) (value : Value) : Except ConversionError String :=
  match c with
  | string _ | any _ | path => .ok value.text
  | int bounds => bounds.write value
  | float _ => FloatBounds.write value
  | uuid => Uuid.writeValue value

end Converter

end UrlRouting
