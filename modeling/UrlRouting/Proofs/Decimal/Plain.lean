import UrlRouting.Proofs.Decimal.ReadBack

/-
  A float that is written with a point reads as a float that is written so again.
  What `plain` writes with a point in it is the shortest decimal of a float that is not whole, and
  perhaps a minus sign. The digits read as the bits of that float, and the sign is put to these bits
  (`exists_float?_signOf`), so the text is the one of what is read of it (`plain_float?_plain`).
-/

namespace UrlRouting.Decimal

open Float.Model (Format UnpackedFloat)
open Float.Model.UnpackedFloat

/-! ## The bit of the sign -/

/-- The bit that negative floats have. -/
def signBit : Nat := 0x8000000000000000

section

variable {b b' : BitVec Format.binary64.numBits}

theorem toNat_unpackMantissa (b : BitVec Format.binary64.numBits) :
    (unpackMantissa b).toNat = b.toNat % 2 ^ 52 := by
  unfold unpackMantissa
  rw [BitVec.toNat_cast, BitVec.extractLsb_toNat, Nat.shiftRight_zero]
  rfl

theorem toNat_unpackSign (b : BitVec Format.binary64.numBits) :
    (unpackSign b).toNat = b.toNat / 2 ^ 63 % 2 := by
  unfold unpackSign
  rw [BitVec.toNat_cast, BitVec.extractLsb_toNat, Nat.shiftRight_eq_div_pow]
  rfl

/-- Two words that differ in the first bit only are read as a float and its negative. -/
theorem unpack_add_signBit (h : b.toNat < signBit) (h' : b'.toNat = signBit + b.toNat) :
    unpack Format.binary64 b' = (unpack Format.binary64 b).neg ∧ isNaNBits b' = isNaNBits b := by
  unfold signBit at h h'
  have hexponent : unpackExponent b' = unpackExponent b := by
    apply BitVec.eq_of_toNat_eq
    rw [toNat_unpackExponent, toNat_unpackExponent]
    omega
  have hmantissa : unpackMantissa b' = unpackMantissa b := by
    apply BitVec.eq_of_toNat_eq
    rw [toNat_unpackMantissa, toNat_unpackMantissa]
    omega
  have hpositive : unpackSign b = 0#1 := by
    apply BitVec.eq_of_toNat_eq
    rw [toNat_unpackSign]
    show b.toNat / 2 ^ 63 % 2 = 0
    omega
  have hnegative : unpackSign b' = 1#1 := by
    apply BitVec.eq_of_toNat_eq
    rw [toNat_unpackSign]
    show b'.toNat / 2 ^ 63 % 2 = 1
    omega
  have hsign : Sign.ofBitVec (unpackSign b') = -Sign.ofBitVec (unpackSign b) := by
    rw [hpositive, hnegative]
    rfl
  constructor
  · unfold unpack
    simp only [hexponent, hmantissa, hsign]
    split
    · split <;> rfl
    · split
      · split <;> rfl
      · rfl
  · unfold isNaNBits
    rw [hexponent, hmantissa]

end

theorem toBits_neg_ofBits {bits : Nat} (h : bits < infinityBits) :
    (Float.neg (Float.ofBits bits.toUInt64)).toBits.toNat = signBit + bits := by
  have hlt : bits < 0x7FF0000000000000 := h
  have hsum : signBit + bits < 2 ^ 64 := by
    unfold signBit
    omega
  let b : BitVec Format.binary64.numBits := BitVec.ofNat 64 bits
  let b' : BitVec Format.binary64.numBits := BitVec.ofNat 64 (signBit + bits)
  have hb : b.toNat = bits := (BitVec.toNat_ofNat _ 64).trans (Nat.mod_eq_of_lt (by omega))
  have hb' : b'.toNat = signBit + b.toNat :=
    (BitVec.toNat_ofNat _ 64).trans ((Nat.mod_eq_of_lt hsum).trans (by rw [hb]))
  have hnumber : isNaNBits b = false := isNaNBits_of_lt (hb.trans_lt h)
  obtain ⟨hneg, hsame⟩ := unpack_add_signBit (hb.trans_lt (Nat.lt_trans h (by decide))) hb'
  have hback := pack_unpack b
  have hback' := pack_unpack b'
  rw [hnumber, if_neg Bool.false_ne_true] at hback
  rw [hsame, hnumber, if_neg Bool.false_ne_true, hneg] at hback'
  have hpacked : pack Format.binary64
      (unpack Format.binary64 (pack Format.binary64 (unpack Format.binary64 b))).neg = b' := by
    rw [hback, hback']
  exact (congrArg BitVec.toNat hpacked).trans (hb'.trans (by rw [hb]))

/-! ## The text of a float -/

theorem Scaled.power_neg_of_mem {s : Scaled} (h : '.' ∈ s.positional) : s.power < 0 := by
  by_contra hnot
  have hdigits : '.' ∉ digits s.significand := fun hmem =>
    nomatch (isDigits_iff.1 (isDigits_digits s.significand)).2 '.' hmem
  unfold positional at h
  dsimp only at h
  rw [if_pos (Int.not_lt.1 hnot)] at h
  split at h
  · exact hdigits h
  · rcases List.mem_append.1 h with hmem | hzero
    · exact hdigits hmem
    · cases List.eq_of_mem_replicate hzero

section

variable {n m : Nat} {negative atPower : Bool} {exponent : Int}

theorem Binary.shiftRight_eq (n : Nat) : (n >>> 52) % 0x800 = n % signBit / 0x10000000000000 := by
  unfold signBit
  rw [Nat.shiftRight_eq_div_pow]
  omega

theorem Binary.ne_of_finite (h : ofBits n = .finite negative m exponent atPower) :
    n % signBit / 0x10000000000000 ≠ 0x7FF := by
  intro hall
  unfold ofBits at h
  simp only [shiftRight_eq, hall, if_true] at h
  split at h <;> cases h

theorem Binary.negative_of_finite (h : ofBits n = .finite negative m exponent atPower) :
    negative = decide (signBit ≤ n) := by
  have hfinite := ne_of_finite h
  unfold ofBits at h
  simp only [shiftRight_eq, if_neg hfinite] at h
  split at h <;> exact (Binary.finite.inj h).1.symm

/-- Without the bit of the sign a float is positive, and else the same. -/
theorem Binary.ofBits_mod_signBit (h : ofBits n = .finite negative m exponent atPower) :
    ofBits (n % signBit) = .finite false m exponent atPower := by
  have hfinite := ne_of_finite h
  have hpart : n % signBit % 0x10000000000000 = n % 0x10000000000000 := by
    unfold signBit
    omega
  have hsign : decide (0x8000000000000000 ≤ n % signBit) = false :=
    decide_eq_false (Nat.not_le.2 (Nat.mod_lt _ (by decide)))
  unfold ofBits at h ⊢
  simp only [shiftRight_eq, Nat.mod_mod, hpart, hsign, if_neg hfinite] at h ⊢
  split at h
  next hzero =>
    rw [if_pos hzero]
    obtain ⟨-, rfl, rfl, rfl⟩ := Binary.finite.inj h
    rfl
  next hpositive =>
    rw [if_neg hpositive]
    obtain ⟨-, rfl, rfl, rfl⟩ := Binary.finite.inj h
    rfl

/-- The bits of a finite float are those of a positive one and the sign. -/
theorem Binary.exists_bits_of_finite (hn : n < 2 ^ 64)
    (h : ofBits n = .finite negative m exponent atPower) :
    ∃ bits, bits < infinityBits ∧ n = (if negative then signBit else 0) + bits ∧
      ofBits bits = .finite false m exponent atPower := by
  have hfinite := ne_of_finite h
  refine ⟨n % signBit, ?_, ?_, ofBits_mod_signBit h⟩
  · unfold signBit infinityBits at *
    omega
  · rw [negative_of_finite h]
    simp only [decide_eq_true_eq]
    unfold signBit at *
    split <;> omega

end

/-- Digits about a point, with a sign or without, read as the float with the bits of the digits and
the sign. -/
theorem exists_float?_signOf (negative : Bool) {whole part : List Char} {bits : Nat}
    (hwhole : isDigits whole = true) (hpart : isDigits part = true)
    (hvalue : scientificBits (value (whole ++ part)) (-(part.length : Int)) = bits)
    (hbits : bits < infinityBits) :
    ∃ y, float? (signOf negative ++ (whole ++ '.' :: part)) = some y ∧
      y.toBits.toNat = (if negative then signBit else 0) + bits := by
  cases negative with
  | true =>
    have hmagnitude : magnitude? (whole ++ '.' :: part) = some (Float.ofBits bits.toUInt64) := by
      rw [magnitude?_of_mem (List.mem_append_right whole List.mem_cons_self),
        unsigned?_of_digits hwhole hpart, ofScientific, hvalue]
    exact ⟨_, congrArg (Option.map Float.neg) hmagnitude, toBits_neg_ofBits hbits⟩
  | false =>
    refine ⟨_, float?_of_digits hwhole hpart, ?_⟩
    rw [ofScientific, hvalue, toBits_ofBits hbits]
    exact (Nat.zero_add _).symm

/-- A text with a point in it that a float has is the text of what is read of it. -/
theorem plain_float?_plain {x : Float} (h : '.' ∈ (plain x).toList) :
    ∃ y, float? (plain x).toList = some y ∧ plain y = plain x := by
  unfold plain at h ⊢
  rw [String.toList_ofList] at h ⊢
  cases hstands : Binary.ofFloat x with
  | notANumber =>
    rw [hstands] at h
    revert h
    decide
  | infinite negative =>
    rw [hstands] at h
    revert h
    cases negative <;> decide
  | finite negative m exponent atPower =>
    obtain ⟨bits, hbits, hword, hpositive⟩ :=
      Binary.exists_bits_of_finite x.toBits.toNat_lt hstands
    obtain ⟨shift, m', hm, rfl, hcanonical⟩ := exists_canonical hbits
    rw [hcanonical] at hpositive
    obtain ⟨-, rfl, rfl, rfl⟩ := Binary.finite.inj hpositive
    rw [hstands] at h
    have hmem : '.' ∈ (shortest m' (shift - 1074) (m' = 2 ^ 52 ∧ 0 < shift)).positional := by
      rcases List.mem_append.1 h with hsign | hmem
      · cases negative with
        | true => cases List.mem_singleton.1 hsign
        | false => cases hsign
      · exact hmem
    obtain ⟨whole, part, htext, hwhole, hpart, hvalue⟩ :=
      exists_digits_of_shortest hm hbits (Scaled.power_neg_of_mem hmem)
    obtain ⟨y, hread, hsame⟩ := exists_float?_signOf negative hwhole hpart hvalue hbits
    have hfloat : Binary.ofFloat y = Binary.ofFloat x :=
      congrArg Binary.ofBits (hsame.trans hword.symm)
    refine ⟨y, ?_, by rw [hfloat, hstands]⟩
    unfold Binary.plain
    dsimp only
    rw [htext]
    exact hread

end UrlRouting.Decimal
