import UrlRouting.Text.Offset

/-
  The bytes of a text, and parts of a text that are cut out by their places in bytes.
  A place is good for a cut if it is between two characters or at one of the ends; a cut at any other
  place fails.
-/

namespace UrlRouting.Text

/-- The UTF-8 form of a text. -/
def bytes (text : List Char) : List UInt8 := text.flatMap String.utf8EncodeChar

/-- What is left of a text behind a number of bytes. -/
def dropBytes? : List Char → Nat → Option (List Char)
  | text, 0 => some text
  | [], _ + 1 => none
  | c :: rest, n + 1 => if c.utf8Size ≤ n + 1 then dropBytes? rest (n + 1 - c.utf8Size) else none

/-- The first part of a text with a number of bytes. -/
def takeBytes? : List Char → Nat → Option (List Char)
  | _, 0 => some []
  | [], _ + 1 => none
  | c :: rest, n + 1 =>
    if c.utf8Size ≤ n + 1 then (takeBytes? rest (n + 1 - c.utf8Size)).map (c :: ·) else none

/-- The text between two places. -/
def slice? (text : List Char) (start stop : Nat) : Option (List Char) :=
  if start ≤ stop then (dropBytes? text start).bind (takeBytes? · (stop - start)) else none

/-- The text from a place on. -/
def sliceFrom? (text : List Char) (start : Nat) : Option (List Char) := dropBytes? text start

/-- The place of the first such character. -/
def placeOf? (c : Char) : List Char → Option Nat
  | [] => none
  | d :: rest => if d = c then some 0 else (placeOf? c rest).map (d.utf8Size + ·)

end UrlRouting.Text
