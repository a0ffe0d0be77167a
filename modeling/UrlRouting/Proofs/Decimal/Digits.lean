import Mathlib.Algebra.Group.Nat.Defs
import UrlRouting.Decimal.Integer
import UrlRouting.Text.Offset

/-
  Texts of digits and the numbers they stand for.
  Zeros before the digits do not count (`value_padding`), and no text of digits is shorter than the
  shortest of its value (`length_digits_value_le`).
-/

namespace UrlRouting.Decimal

theorem isDigits_iff {text : List Char} :
    isDigits text = true ↔ 1 ≤ text.length ∧ ∀ c ∈ text, c.isDigit = true := by
  unfold isDigits
  cases text with
  | nil => simp
  | cons c text => simp

theorem isDigits_padding (zeros n : Nat) :
    isDigits (List.replicate zeros '0' ++ digits n) = true := by
  obtain ⟨hpos, hall⟩ := isDigits_iff.1 (isDigits_digits n)
  rw [isDigits_iff, List.length_append]
  refine ⟨by omega, ?_⟩
  intro c hc
  rcases List.mem_append.1 hc with hc | hc
  · rw [List.eq_of_mem_replicate hc]
    decide
  · exact hall c hc

theorem value_padding (zeros n : Nat) : value (List.replicate zeros '0' ++ digits n) = n := by
  unfold value
  rw [Nat.ofDigitChars_append, Nat.ofDigitChars_replicate_zero, Nat.mul_zero]
  exact value_digits n

theorem toInt64?_toInt (n : Int64) : toInt64? n.toInt = some n := by
  unfold toInt64?
  rw [if_pos ⟨Int64.minValue_le_toInt n, Int64.toInt_le n⟩, Int64.ofInt_toInt]

/-- Digits have no sign. -/
theorem int64?_of_isDigits {text : List Char} (h : isDigits text = true) :
    int64? text = toInt64? (value text) := by
  unfold int64?
  split
  next ds =>
    have hsign := (isDigits_iff.1 h).2 '-' List.mem_cons_self
    cases hsign
  next ds =>
    have hsign := (isDigits_iff.1 h).2 '+' List.mem_cons_self
    cases hsign
  · rw [if_pos h]

theorem int64?_padding {n : Int64} (h : 0 ≤ n.toInt) (zeros : Nat) :
    int64? (List.replicate zeros '0' ++ digits n.toInt.natAbs) = some n := by
  rw [int64?_of_isDigits (isDigits_padding _ _), value_padding, Int.natAbs_of_nonneg h,
    toInt64?_toInt]

theorem padded_of_nonneg {n : Int} (h : 0 ≤ n) (width : Nat) :
    padded width n =
      List.replicate (width - (digits n.natAbs).length) '0' ++ digits n.natAbs := by
  have hsign : sign n = [] := if_neg (Int.not_lt.2 h)
  unfold padded
  simp only [hsign, List.length_nil, Nat.sub_zero, List.nil_append]

theorem ofInt_of_nonneg {n : Int} (h : 0 ≤ n) : ofInt n = digits n.natAbs := by
  have hsign : sign n = [] := if_neg (Int.not_lt.2 h)
  unfold ofInt
  rw [hsign, List.nil_append]

theorem byteLength_of_isDigits {text : List Char} (h : ∀ c ∈ text, c.isDigit = true) :
    Text.byteLength text = text.length := by
  induction text with
  | nil => rfl
  | cons c text ih =>
    obtain ⟨hc, hall⟩ := List.forall_mem_cons.1 h
    have hsize : c.utf8Size = 1 := by
      unfold Char.isDigit at hc
      rw [Bool.and_eq_true, decide_eq_true_eq, decide_eq_true_eq] at hc
      exact Char.utf8Size_eq_one_iff.2 (UInt32.le_trans hc.2 (by decide))
    unfold Text.byteLength
    rw [ih hall, hsize, List.length_cons, Nat.add_comm]

theorem value_concat_zero (text : List Char) : value (text ++ ['0']) = value text * 10 := by
  unfold value
  rw [Nat.ofDigitChars_append, Nat.mul_comm]
  rfl

theorem value_cons (c : Char) (text : List Char) :
    value (c :: text) = 10 ^ text.length * (c.toNat - '0'.toNat) + value text := by
  unfold value
  rw [Nat.ofDigitChars_cons, Nat.mul_zero, Nat.zero_add]
  exact Nat.ofDigitChars_eq_ofDigitChars_zero

theorem value_lt {text : List Char} (h : ∀ c ∈ text, c.isDigit = true) :
    value text < 10 ^ text.length := by
  induction text with
  | nil => exact Nat.one_pos
  | cons c text ih =>
    obtain ⟨hc, hall⟩ := List.forall_mem_cons.1 h
    have hdigit : c.toNat - '0'.toNat ≤ 9 := by
      unfold Char.isDigit at hc
      rw [Bool.and_eq_true, decide_eq_true_eq, decide_eq_true_eq] at hc
      have hle : c.toNat ≤ 57 := hc.2
      exact Nat.sub_le_of_le_add hle
    have hrest := ih hall
    have hfirst := Nat.mul_le_mul_left (10 ^ text.length) hdigit
    rw [value_cons, List.length_cons, Nat.pow_succ]
    omega

/-- No text of digits is shorter than the shortest of its value. -/
theorem length_digits_value_le {text : List Char} (h : isDigits text = true) :
    (digits (value text)).length ≤ text.length := by
  obtain ⟨hpos, hall⟩ := isDigits_iff.1 h
  exact (Nat.length_toDigits_le_iff (by decide) hpos).2 (value_lt hall)

theorem toInt_of_toInt64? {n : Int} {k : Int64} (h : toInt64? n = some k) : k.toInt = n := by
  unfold toInt64? at h
  split at h
  next hrange =>
    obtain rfl := Option.some.inj h
    exact Int64.toInt_ofInt_of_le hrange.1 (Int.lt_of_le_of_lt hrange.2 (by decide))
  · cases h

theorem toInt64?_eq_some_iff {n : Int} {k : Int64} : toInt64? n = some k ↔ k.toInt = n := by
  refine ⟨toInt_of_toInt64?, ?_⟩
  rintro rfl
  exact toInt64?_toInt k

/-- The natural numbers among the 64-bit integers. -/
theorem exists_toInt_eq_natCast_iff {n : Nat} :
    (∃ k : Int64, k.toInt = n) ↔ n ≤ 2 ^ 63 - 1 := by
  have hmax : Int64.maxValue.toInt = (2 ^ 63 - 1 : Nat) := by decide
  have hmin : Int64.minValue.toInt ≤ n := Int.le_trans (by decide) (Int.natCast_nonneg n)
  constructor
  · rintro ⟨k, hk⟩
    have hle := Int64.toInt_le k
    rw [hk, hmax] at hle
    exact Int.ofNat_le.1 hle
  · intro hle
    have hle := Int.ofNat_le.2 hle
    rw [← hmax] at hle
    exact ⟨Int64.ofInt n, toInt64?_eq_some_iff.1 (if_pos ⟨hmin, hle⟩)⟩

end UrlRouting.Decimal
