import UrlRouting.Text.Hexadecimal

/-
  Percent encoding of a fragment: letters, digits, `-`, `_`, `.`, `~` and `/` stand for
  themselves, every other character is written as `%XX` for each byte of its UTF-8 form.
-/

namespace UrlRouting.Text

/-- A byte as two upper case digits behind a percent sign. -/
def percentByte (b : UInt8) : List Char := ['%', upperHex (highDigit b), upperHex (lowDigit b)]

/-- The characters that a fragment holds as they are. -/
def isFragmentChar (c : Char) : Bool :=
  c.isAlphanum || c = '-' || c = '_' || c = '.' || c = '~' || c = '/'

def encodeFragmentChar (c : Char) : List Char :=
  if isFragmentChar c then [c] else (String.utf8EncodeChar c).flatMap percentByte

def encodeFragment (text : String) : String :=
  String.ofList (text.toList.flatMap encodeFragmentChar)

end UrlRouting.Text
