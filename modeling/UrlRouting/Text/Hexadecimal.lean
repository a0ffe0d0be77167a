/-
  Hexadecimal digits. They are read in either letter case and written in one of the two.
-/

namespace UrlRouting.Text

/-- The value of a hexadecimal digit. -/
def hexValue? (c : Char) : Option (Fin 16) :=
  match c with
  | '0' => some 0 | '1' => some 1 | '2' => some 2 | '3' => some 3 | '4' => some 4
  | '5' => some 5 | '6' => some 6 | '7' => some 7 | '8' => some 8 | '9' => some 9
  | 'a' | 'A' => some 10 | 'b' | 'B' => some 11 | 'c' | 'C' => some 12
  | 'd' | 'D' => some 13 | 'e' | 'E' => some 14 | 'f' | 'F' => some 15
  | _ => none

def lowerHex (d : Fin 16) : Char := Nat.digitChar d

def upperHex (d : Fin 16) : Char := (lowerHex d).toUpper

@[simp] theorem hexValue?_lowerHex (d : Fin 16) : hexValue? (lowerHex d) = some d := by
  revert d
  decide

@[simp] theorem hexValue?_upperHex (d : Fin 16) : hexValue? (upperHex d) = some d := by
  revert d
  decide

/-- The two digits of a byte, the higher first. -/
def highDigit (b : UInt8) : Fin 16 := ⟨b.toNat / 16, Nat.div_lt_of_lt_mul b.toNat_lt⟩

def lowDigit (b : UInt8) : Fin 16 := ⟨b.toNat % 16, Nat.mod_lt _ (by decide)⟩

end UrlRouting.Text
