import Mathlib.Data.Char
import UrlRouting.Text.Offset

/-
  Characters and bytes.
  Every character takes a byte at least.
-/

namespace UrlRouting.Text

theorem toNat_lt_of_isAlphanum {c : Char} (h : c.isAlphanum = true) : c.toNat < 128 := by
  have hupper : c.isUpper = true → c.toNat ≤ 'Z'.toNat := fun hc => (of_decide_eq_true hc).2
  have hlower : c.isLower = true → c.toNat ≤ 'z'.toNat := fun hc =>
    of_decide_eq_true (Bool.and_eq_true_iff.1 hc).2
  have hdigit : c.isDigit = true → c.toNat ≤ '9'.toNat := fun hc =>
    of_decide_eq_true (Bool.and_eq_true_iff.1 hc).2
  rcases Bool.or_eq_true_iff.1 h with hletter | hc
  · rcases Bool.or_eq_true_iff.1 hletter with hc | hc
    · exact Nat.lt_of_le_of_lt (hupper hc) (by decide)
    · exact Nat.lt_of_le_of_lt (hlower hc) (by decide)
  · exact Nat.lt_of_le_of_lt (hdigit hc) (by decide)

theorem length_le_byteLength (text : List Char) : text.length ≤ byteLength text := by
  induction text with
  | nil => exact Nat.le_refl 0
  | cons c text ih =>
    have hpos := c.utf8Size_pos
    rw [List.length_cons, byteLength]
    omega

end UrlRouting.Text
