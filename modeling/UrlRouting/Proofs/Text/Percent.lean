import UrlRouting.Proofs.Text.Slice
import UrlRouting.Text.Percent

/-
  What percent encoded text is made of, and what it stands for.
  An encoded text has only characters that stand for themselves and triples of a percent sign and
  two digits (`isFragment_encodeFragment`), so it has no number sign. `percentDecode` reads a text
  as bytes: an encoded text is read as the bytes that were encoded, whatever comes behind it
  (`percentDecode_append`), so every text is read back (`percentDecode_encodeFragment`).
-/

namespace UrlRouting.Text

/-! ## Reading back -/

/-- The byte of two hexadecimal digits. -/
def byteOfDigits (high low : Fin 16) : UInt8 := .ofNat (16 * high.val + low.val)

/-- The bytes that a text stands for: a percent sign with two hexadecimal digits for the byte of the
digits, every other character for its own bytes. -/
def percentDecode : List Char → List UInt8
  | [] => []
  | '%' :: high :: low :: rest =>
    match hexValue? high, hexValue? low with
    | some h, some l => byteOfDigits h l :: percentDecode rest
    | _, _ => String.utf8EncodeChar '%' ++ percentDecode (high :: low :: rest)
  | c :: rest => String.utf8EncodeChar c ++ percentDecode rest

theorem byteOfDigits_digits (b : UInt8) : byteOfDigits (highDigit b) (lowDigit b) = b := by
  have hdigits : 16 * (b.toNat / 16) + b.toNat % 16 = b.toNat := by omega
  show UInt8.ofNat (16 * (b.toNat / 16) + b.toNat % 16) = b
  rw [hdigits, UInt8.ofNat_toNat]

theorem percentDecode_cons {c : Char} (hc : c ≠ '%') (rest : List Char) :
    percentDecode (c :: rest) = String.utf8EncodeChar c ++ percentDecode rest := by
  rw [percentDecode]
  intro high low rest' h
  exact absurd h hc

theorem percentDecode_percentByte (b : UInt8) (rest : List Char) :
    percentDecode (percentByte b ++ rest) = b :: percentDecode rest := by
  show percentDecode ('%' :: upperHex (highDigit b) :: upperHex (lowDigit b) :: rest) = _
  rw [percentDecode, hexValue?_upperHex, hexValue?_upperHex]
  simp only [byteOfDigits_digits]

theorem percentDecode_flatMap_percentByte (bs : List UInt8) (rest : List Char) :
    percentDecode (bs.flatMap percentByte ++ rest) = bs ++ percentDecode rest := by
  induction bs with
  | nil => rfl
  | cons b bs ih =>
    rw [List.flatMap_cons, List.append_assoc, percentDecode_percentByte, ih, List.cons_append]

theorem percentDecode_encodeFragmentChar (c : Char) (rest : List Char) :
    percentDecode (encodeFragmentChar c ++ rest) =
      String.utf8EncodeChar c ++ percentDecode rest := by
  unfold encodeFragmentChar
  split
  next hc =>
    have hne : c ≠ '%' := by
      rintro rfl
      exact absurd hc (by decide)
    exact percentDecode_cons hne rest
  next => exact percentDecode_flatMap_percentByte _ rest

theorem percentDecode_append (text rest : List Char) :
    percentDecode (text.flatMap encodeFragmentChar ++ rest) = bytes text ++ percentDecode rest := by
  induction text with
  | nil => rfl
  | cons c text ih =>
    rw [List.flatMap_cons, List.append_assoc, percentDecode_encodeFragmentChar, ih, bytes_cons,
      List.append_assoc]

/-- An encoded text stands for the UTF-8 form of the text. -/
theorem percentDecode_encodeFragment (text : String) :
    (percentDecode (encodeFragment text).toList).toByteArray = text.toUTF8 := by
  have hbytes : percentDecode (encodeFragment text).toList = bytes text.toList := by
    have happend := percentDecode_append text.toList []
    simpa [encodeFragment, percentDecode] using happend
  rw [hbytes]
  exact String.utf8Encode_toList

theorem encodeFragment_inj {text other : String} (h : encodeFragment text = encodeFragment other) :
    text = other := by
  have hdecoded := percentDecode_encodeFragment text
  rw [h, percentDecode_encodeFragment other] at hdecoded
  exact (String.toByteArray_inj.1 hdecoded).symm

/-! ## The characters of an encoded text -/

def isUpperHex (c : Char) : Bool := c ∈ "0123456789ABCDEF".toList

/-- Texts of letters and digits of ASCII, of five more characters, and of percent signs with two
hexadecimal digits each. -/
inductive IsFragment : List Char → Prop where
  | nil : IsFragment []
  | kept {c : Char} {rest : List Char} (hc : c.isAlphanum ∨ c ∈ ['-', '_', '.', '~', '/'])
    (hrest : IsFragment rest) : IsFragment (c :: rest)
  | triple {high low : Char} {rest : List Char} (hhigh : isUpperHex high) (hlow : isUpperHex low)
    (hrest : IsFragment rest) : IsFragment ('%' :: high :: low :: rest)

theorem isUpperHex_upperHex (d : Fin 16) : isUpperHex (upperHex d) := by
  revert d
  decide

theorem IsFragment.append {front rest : List Char} (hfront : IsFragment front)
    (hrest : IsFragment rest) : IsFragment (front ++ rest) := by
  induction hfront with
  | nil => exact hrest
  | kept hc _ ih => exact ih.kept hc
  | triple hhigh hlow _ ih => exact ih.triple hhigh hlow

theorem isFragment_flatMap {α : Type} {f : α → List Char} (h : ∀ a, IsFragment (f a))
    (as : List α) : IsFragment (as.flatMap f) := by
  induction as with
  | nil => exact .nil
  | cons a as ih =>
    rw [List.flatMap_cons]
    exact (h a).append ih

theorem isFragment_percentByte (b : UInt8) : IsFragment (percentByte b) :=
  .triple (isUpperHex_upperHex _) (isUpperHex_upperHex _) .nil

theorem isFragment_encodeFragmentChar (c : Char) : IsFragment (encodeFragmentChar c) := by
  unfold encodeFragmentChar
  split
  next hc => exact .kept (by simpa [isFragmentChar, or_assoc] using hc) .nil
  next => exact isFragment_flatMap isFragment_percentByte _

theorem isFragment_encodeFragment (text : String) : IsFragment (encodeFragment text).toList := by
  unfold encodeFragment
  rw [String.toList_ofList]
  exact isFragment_flatMap isFragment_encodeFragmentChar _

theorem IsFragment.numberSign_not_mem {text : List Char} (h : IsFragment text) : '#' ∉ text := by
  have hdigit : ∀ d, isUpperHex d → '#' ≠ d := by
    rintro d hd rfl
    exact absurd hd (by decide)
  induction h with
  | nil => exact List.not_mem_nil
  | @kept c rest hc _ ih =>
    have hne : '#' ≠ c := by
      rintro rfl
      exact absurd hc (by decide)
    exact List.not_mem_cons_of_ne_of_not_mem hne ih
  | @triple high low rest hhigh hlow _ ih =>
    refine List.not_mem_cons_of_ne_of_not_mem (by decide) ?_
    refine List.not_mem_cons_of_ne_of_not_mem (hdigit high hhigh) ?_
    exact List.not_mem_cons_of_ne_of_not_mem (hdigit low hlow) ih

end UrlRouting.Text
