import Mathlib
import UrlRouting.Proofs.Decimal.Shortest

/-
  A float that was read is written with a text that reads as the same float.
  Its text is one of digits with a point between (`float?_of_digits` says how such a text is read):
  a whole number is written exactly, and any other in the shortest decimal, which has digits behind
  the point then. Both are in the interval about the float, so they are read as its bits
  (`scientificBits_of_within`). A float keeps the bits that it is made of, but for those of what is
  not a number, which are beyond the bits of infinity (`toBits_ofBits`).
-/

namespace UrlRouting.Decimal

open Float.Model (Format)
open Float.Model.UnpackedFloat (isNaNBits unpackExponent)

/-! ## Reading digits with a point -/

theorem unsigned?_of_digits {whole part : List Char} (hwhole : isDigits whole = true)
    (hpart : isDigits part = true) :
    unsigned? (whole ++ '.' :: part) =
      some (ofScientific (value (whole ++ part)) (-(part.length : Int))) := by
  obtain ⟨hne, hall⟩ := isDigits_iff.1 hwhole
  obtain ⟨-, hpartall⟩ := isDigits_iff.1 hpart
  have hfront : (whole ++ '.' :: part).takeWhile Char.isDigit = whole := by
    rw [List.takeWhile_append_of_pos hall, List.takeWhile_cons_of_neg (by decide),
      List.append_nil]
  have hback : (whole ++ '.' :: part).dropWhile Char.isDigit = '.' :: part := by
    rw [List.dropWhile_append_of_pos hall, List.dropWhile_cons_of_neg (by decide)]
  have hfraction : fraction ('.' :: part) = (part, []) := by
    show (part.takeWhile Char.isDigit, part.dropWhile Char.isDigit) = _
    rw [List.takeWhile_eq_self_iff.2 hpartall, List.dropWhile_eq_nil_iff.2 hpartall]
  have hmantissa : (whole ++ part).isEmpty = false := by
    rw [List.isEmpty_eq_false_iff]
    intro hnil
    rw [(List.append_eq_nil_iff.1 hnil).1] at hne
    cases hne
  unfold unsigned?
  simp only [hfront, hback, hfraction, hmantissa, Bool.false_eq_true, ↓reduceIte]

/-- A text with a point in it is no word. -/
theorem magnitude?_of_mem {text : List Char} (h : '.' ∈ text) :
    magnitude? text = unsigned? text := by
  have hpoint : '.' ∈ text.map Char.toLower := List.mem_map.2 ⟨'.', h, rfl⟩
  have hword : ∀ word : List Char, '.' ∉ word → text.map Char.toLower ≠ word := by
    rintro word hnone rfl
    exact hnone hpoint
  unfold magnitude?
  dsimp only
  rw [if_neg (not_or.2 ⟨hword _ (by decide), hword _ (by decide)⟩),
    if_neg (hword _ (by decide))]

/-- A text with a point between digits is a number, and without a sign. -/
theorem float?_of_digits {whole part : List Char} (hwhole : isDigits whole = true)
    (hpart : isDigits part = true) :
    float? (whole ++ '.' :: part) =
      some (ofScientific (value (whole ++ part)) (-(part.length : Int))) := by
  rw [← unsigned?_of_digits hwhole hpart,
    ← magnitude?_of_mem (List.mem_append_right whole List.mem_cons_self)]
  cases whole with
  | nil => cases hwhole
  | cons c whole =>
    have hdigit := (isDigits_iff.1 hwhole).2 c List.mem_cons_self
    unfold float?
    split
    next heq =>
      obtain ⟨rfl, -⟩ := List.cons.inj heq
      cases hdigit
    next heq =>
      obtain ⟨rfl, -⟩ := List.cons.inj heq
      cases hdigit
    next => rfl

/-- A decimal with digits behind the point is written as such a text. -/
theorem Scaled.positional_of_neg {s : Scaled} (h : s.power < 0) :
    ∃ whole part, s.positional = whole ++ '.' :: part ∧ isDigits whole = true ∧
      isDigits part = true ∧ value (whole ++ part) = s.significand ∧
        -(part.length : Int) = s.power := by
  obtain ⟨hne, hall⟩ := isDigits_iff.1 (isDigits_digits s.significand)
  unfold positional
  dsimp only
  rw [if_neg (Int.not_le.2 h)]
  split
  next hmany =>
    refine ⟨_, _, rfl, ?_, ?_, ?_, ?_⟩
    · rw [isDigits_iff, List.length_take]
      exact ⟨by omega, fun c hc => hall c (List.mem_of_mem_take hc)⟩
    · rw [isDigits_iff, List.length_drop]
      exact ⟨by omega, fun c hc => hall c (List.mem_of_mem_drop hc)⟩
    · rw [List.take_append_drop, value_digits]
    · rw [List.length_drop]
      omega
  next hfew =>
    refine ⟨['0'], _, rfl, rfl, isDigits_padding _ _, ?_, ?_⟩
    · show value (List.replicate (_ + 1) '0' ++ _) = _
      exact value_padding _ _
    · rw [List.length_append, List.length_replicate]
      omega

/-! ## Bits -/

theorem toNat_unpackExponent (b : BitVec Format.binary64.numBits) :
    (unpackExponent b).toNat = b.toNat / 2 ^ 52 % 2 ^ 11 := by
  unfold unpackExponent
  rw [BitVec.toNat_cast, BitVec.extractLsb_toNat, Nat.shiftRight_eq_div_pow]
  rfl

theorem isNaNBits_of_lt {b : BitVec Format.binary64.numBits} (h : b.toNat < infinityBits) :
    isNaNBits b = false := by
  have hlt : b.toNat < 0x7FF0000000000000 := h
  have hexponent := toNat_unpackExponent b
  refine decide_eq_false fun hnan => ?_
  rw [hnan.1] at hexponent
  have hones : 2047 = b.toNat / 2 ^ 52 % 2 ^ 11 := hexponent
  omega

/-- The bits of a finite float that is not negative come back from the float. -/
theorem toBits_ofBits {bits : Nat} (h : bits < infinityBits) :
    (Float.ofBits bits.toUInt64).toBits.toNat = bits := by
  have hlt : bits < 0x7FF0000000000000 := h
  have hword : (BitVec.ofNat 64 bits).toNat = bits :=
    (BitVec.toNat_ofNat bits 64).trans (Nat.mod_eq_of_lt (by omega))
  have hback := Float.Model.UnpackedFloat.pack_unpack
    (show BitVec Format.binary64.numBits from BitVec.ofNat 64 bits)
  rw [isNaNBits_of_lt (hword.trans_lt h), if_neg Bool.false_ne_true] at hback
  exact (congrArg BitVec.toNat hback).trans hword

theorem nearestBits_zero (d : Nat) : nearestBits 0 d = 0 := by
  unfold nearestBits roundedQuotient
  simp

theorem scientificBits_le (mantissa : Nat) (exponent : Int) :
    scientificBits mantissa exponent ≤ infinityBits := by
  unfold scientificBits
  split
  · exact Nat.zero_le _
  · split
    · exact Nat.le_refl _
    · exact Nat.min_le_right _ _

/-- The intervals about a float are those in which it is read, in other units. -/
theorem holds_of_within {i : Interval} {shift : Nat} {s : Scaled}
    (h : s.Within i (shift - 1074)) :
    i.Holds (Nat.pow 10 (-s.power).toNat <<< shift)
      (4 * ((s.significand * Nat.pow 10 s.power.toNat) <<< 1074)) := by
  have hunit : ((shift : Int) - 1074 - 2).toNat + (1076 - (2 - ((shift : Int) - 1074)).toNat) =
      shift := by
    omega
  have hstep : (2 - ((shift : Int) - 1074)).toNat + (1076 - (2 - ((shift : Int) - 1074)).toNat) =
      1074 + 2 := by
    omega
  unfold Scaled.Within at h
  rw [scales_eq] at h
  generalize ((shift : Int) - 1074 - 2).toNat = x at *
  generalize (2 - ((shift : Int) - 1074)).toNat = y at *
  generalize 1076 - y = c at *
  generalize 1074 = least at *
  rw [← Interval.holds_mul_iff (Nat.two_pow_pos c)] at h
  rw [Nat.shiftLeft_eq, Nat.shiftLeft_eq, Nat.pow_eq, Nat.pow_eq, ← hunit]
  have hmore : 4 * (s.significand * 10 ^ s.power.toNat * 2 ^ least) =
      s.significand * (10 ^ s.power.toNat * 2 ^ y) * 2 ^ c := by
    calc 4 * (s.significand * 10 ^ s.power.toNat * 2 ^ least)
        = s.significand * 10 ^ s.power.toNat * 2 ^ (least + 2) := by ring
      _ = s.significand * (10 ^ s.power.toNat * 2 ^ y) * 2 ^ c := by
        rw [← hstep]
        ring
  rw [hmore, Nat.pow_add, ← Nat.mul_assoc]
  exact h

/-- A decimal in the interval about a float reads as the bits of this float. -/
theorem scientificBits_of_within {shift m : Nat} {s : Scaled} (hm : Canonical shift m)
    (hfinite : (shift <<< 52) + m < infinityBits) (hlow : -2048 ≤ s.power) (hhigh : s.power ≤ 2048)
    (h : s.Within (nearby shift m) (shift - 1074)) :
    scientificBits s.significand s.power = (shift <<< 52) + m := by
  have hten : 0 < Nat.pow 10 (-s.power).toNat := Nat.pow_pos (show 0 < 10 by decide)
  have hbits := nearestBits_of_holds hten hm (holds_of_within h)
  rw [Nat.min_eq_left (Nat.le_of_lt hfinite)] at hbits
  unfold scientificBits
  rw [← hbits]
  split
  next hzero =>
    rcases hzero with hzero | hsmall
    · rw [hzero, Nat.zero_mul, nearestBits_zero]
    · omega
  · rw [if_neg (by omega)]

/-! ## Floats -/

/-- A whole number, written exactly, is in the middle of the interval. -/
theorem within_of_whole {shift m n : Nat} (h : whole? m (shift - 1074) = some n) :
    Scaled.Within (nearby shift m) (shift - 1074) ⟨n * 10, -1⟩ := by
  have hexact := (whole?_spec m (shift - 1074)).1 n h
  unfold Scaled.Within
  rw [scales_eq]
  generalize (shift : Int) - 1074 = exponent at *
  have hcentre : n * 10 * (10 ^ (-1 : Int).toNat * 2 ^ (2 - exponent).toNat) =
      4 * (m * (10 ^ (- -1 : Int).toNat * 2 ^ (exponent - 2).toNat)) := by
    have htwos : exponent.toNat + (2 - exponent).toNat =
        (-exponent).toNat + (exponent - 2).toNat + 2 := by
      omega
    show n * 10 * (1 * 2 ^ (2 - exponent).toNat) = 4 * (m * (10 * 2 ^ (exponent - 2).toNat))
    generalize exponent.toNat = e at *
    generalize (-exponent).toNat = e' at *
    generalize (2 - exponent).toNat = x at *
    generalize (exponent - 2).toNat = y at *
    refine Nat.eq_of_mul_eq_mul_right (Nat.two_pow_pos e') ?_
    calc n * 10 * (1 * 2 ^ x) * 2 ^ e'
        = n * 2 ^ e' * 10 * 2 ^ x := by ring
      _ = m * 10 * 2 ^ (e + x) := by
        rw [hexact]
        ring
      _ = 4 * (m * (10 * 2 ^ y)) * 2 ^ e' := by
        rw [htwos]
        ring
  have hunit : 0 < 10 ^ (- -1 : Int).toNat * 2 ^ (exponent - 2).toNat :=
    Nat.mul_pos (Nat.pow_pos (by decide)) (Nat.two_pow_pos _)
  show (nearby shift m).Holds (10 ^ (- -1 : Int).toNat * 2 ^ (exponent - 2).toNat)
    (n * 10 * (10 ^ (-1 : Int).toNat * 2 ^ (2 - exponent).toNat))
  rw [hcentre]
  exact Interval.holds_centre hunit

/-- A decimal with digits behind the point that is the shortest of a float reads as its bits. -/
theorem exists_digits_of_shortest {shift m : Nat} (hm : Canonical shift m)
    (hfinite : (shift <<< 52) + m < infinityBits)
    (hneg : (shortest m (shift - 1074) (m = 2 ^ 52 ∧ 0 < shift)).power < 0) :
    ∃ whole part, (shortest m (shift - 1074) (m = 2 ^ 52 ∧ 0 < shift)).positional =
        whole ++ '.' :: part ∧ isDigits whole = true ∧ isDigits part = true ∧
      scientificBits (value (whole ++ part)) (-(part.length : Int)) = (shift <<< 52) + m := by
  have hpos : 0 < m := by
    refine Nat.pos_of_ne_zero ?_
    rintro rfl
    cases hneg
  have hexponent : -1074 ≤ (shift : Int) - 1074 := by omega
  have hleast : -341 ≤ (shortest m (shift - 1074) (m = 2 ^ 52 ∧ 0 < shift)).power :=
    le_power_of_shortest hpos hexponent
  obtain ⟨whole, part, htext, hwhole, hpart, hvalue, hpower⟩ := Scaled.positional_of_neg hneg
  refine ⟨whole, part, htext, hwhole, hpart, ?_⟩
  rw [hvalue, hpower]
  exact scientificBits_of_within hm hfinite (by omega) (by omega)
    (within_shortest hpos hm.lt hexponent)

/-- A finite float that is not negative is written as digits with a point between that read as its
bits. -/
theorem exists_pointed {bits : Nat} (h : bits < infinityBits) :
    ∃ whole part, (pointed (Float.ofBits bits.toUInt64)).toList = whole ++ '.' :: part ∧
      isDigits whole = true ∧ isDigits part = true ∧
        scientificBits (value (whole ++ part)) (-(part.length : Int)) = bits := by
  obtain ⟨shift, m, hm, rfl, hstands⟩ := exists_canonical h
  unfold pointed Binary.ofFloat
  rw [String.toList_ofList, toBits_ofBits h, hstands]
  unfold Binary.pointed
  dsimp only
  split
  next n hwhole =>
    refine ⟨digits n, ['0'], rfl, isDigits_digits n, rfl, ?_⟩
    rw [value_concat_zero, value_digits]
    have hlow : (-2048 : Int) ≤ -1 := by decide
    have hhigh : (-1 : Int) ≤ 2048 := by decide
    exact scientificBits_of_within hm h hlow hhigh (within_of_whole hwhole)
  next hwhole =>
    have hpos : 0 < m := by
      refine Nat.pos_of_ne_zero ?_
      rintro rfl
      exact ((whole?_spec 0 _).2 hwhole).2 (Nat.dvd_zero _)
    have hexponent : -1074 ≤ (shift : Int) - 1074 := by omega
    have hneg : (shortest m (shift - 1074) (m = 2 ^ 52 ∧ 0 < shift)).power < 0 :=
      power_neg_of_shortest hpos hm.lt hexponent hwhole
    exact exists_digits_of_shortest hm h hneg

/-- What is read of digits with a point between is, if it is finite, written as such digits, and
they read as the same float. -/
theorem float?_pointed {whole part : List Char} {x : Float} (hwhole : isDigits whole = true)
    (hpart : isDigits part = true) (hread : float? (whole ++ '.' :: part) = some x)
    (hfinite : x.isFinite = true) :
    ∃ whole part, (pointed x).toList = whole ++ '.' :: part ∧ isDigits whole = true ∧
      isDigits part = true ∧ float? (whole ++ '.' :: part) = some x := by
  rw [float?_of_digits hwhole hpart] at hread
  obtain rfl := Option.some.inj hread
  unfold ofScientific at hfinite ⊢
  have hle := scientificBits_le (value (whole ++ part)) (-(part.length : Int))
  generalize scientificBits (value (whole ++ part)) (-(part.length : Int)) = bits at *
  have hlt : bits < infinityBits := by
    refine Nat.lt_of_le_of_ne hle ?_
    rintro rfl
    revert hfinite
    decide +kernel
  obtain ⟨whole', part', htext, hwhole', hpart', hbits⟩ := exists_pointed hlt
  refine ⟨whole', part', htext, hwhole', hpart', ?_⟩
  rw [float?_of_digits hwhole' hpart', ofScientific, hbits]

end UrlRouting.Decimal
