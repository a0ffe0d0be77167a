import Mathlib.Tactic.Ring
import UrlRouting.Decimal.Float
import UrlRouting.Decimal.Shortest

/-
  Which decimals are read as a float.
  The interval about a float (`Interval.about`) is that of the numbers nearest to it:
  `nearestBits_of_holds` says that each of them rounds to the bits of this float. Where the spacing
  of floats doubles the numbers next below have a smaller exponent, and rounding carries into the
  digit that the float has more.
-/

namespace UrlRouting.Decimal

/-! ## Rounded quotients -/

/-- Between the middles of two steps the quotient rounds to the whole number there; in a middle, to
the even one of two. -/
theorem roundedQuotient_eq {n d m : Nat} (hlow : 2 * (m * d) ≤ 2 * n + d)
    (hhigh : 2 * n ≤ 2 * (m * d) + d)
    (hodd : m % 2 = 1 → 2 * (m * d) < 2 * n + d ∧ 2 * n < 2 * (m * d) + d) (hd : 0 < d) :
    roundedQuotient n d = m := by
  have hdivision := Nat.div_add_mod n d
  have hrest := Nat.mod_lt n hd
  rw [Nat.mul_comm] at hdivision
  unfold roundedQuotient
  dsimp only
  generalize n / d = q at *
  generalize n % d = r at *
  obtain h | rfl | rfl | h : m < q ∨ q = m ∨ m = q + 1 ∨ q + 1 < m := by omega
  · have hmul := Nat.mul_le_mul_right d h
    rw [Nat.succ_mul] at hmul
    omega
  · rw [if_neg (by omega)]
  · have hmul : (q + 1) * d = q * d + d := Nat.succ_mul q d
    rw [if_pos (by omega)]
  · have hmul := Nat.mul_le_mul_right d h
    rw [Nat.succ_mul, Nat.succ_mul] at hmul
    omega

/-! ## Intervals -/

/-- Whether a number is in the interval. -/
def Interval.Holds (i : Interval) (unit n : Nat) : Prop :=
  i.reachesDown unit n = true ∧ i.reachesUp unit n = true

theorem Interval.holds_about_iff {m unit n : Nat} {atPower : Bool} :
    (Interval.about m atPower).Holds unit n ↔
      4 * (m * unit) ≤ n + (if atPower then unit else 2 * unit) ∧ n ≤ 4 * (m * unit) + 2 * unit ∧
        (m % 2 = 1 → 4 * (m * unit) < n + (if atPower then unit else 2 * unit) ∧
          n < 4 * (m * unit) + 2 * unit) := by
  unfold Holds reachesDown reachesUp about
  have hlow : (4 * m - if atPower then 1 else 2) * unit =
      4 * (m * unit) - (if atPower then unit else 2 * unit) := by
    rw [Nat.sub_mul, Nat.mul_assoc]
    cases atPower <;> simp
  have hhigh : (4 * m + 2) * unit = 4 * (m * unit) + 2 * unit := by ring
  have hreach : (if atPower then unit else 2 * unit) ≤ 2 * unit := by
    cases atPower
    · exact Nat.le_refl _
    · exact Nat.le_mul_of_pos_left unit Nat.two_pos
  simp only [hlow, hhigh]
  generalize (if atPower then unit else 2 * unit) = reach at *
  rcases Nat.mod_two_eq_zero_or_one m with heven | hodd
  · simp only [heven, decide_true, ↓reduceIte, decide_eq_true_eq]
    omega
  · have hunit : unit ≤ m * unit := Nat.le_mul_of_pos_left unit (by omega)
    simp only [hodd, Nat.one_ne_zero, decide_false, Bool.false_eq_true, ↓reduceIte,
      decide_eq_true_eq, forall_const]
    omega

theorem Interval.holds_centre {m unit : Nat} {atPower : Bool} (hunit : 0 < unit) :
    (Interval.about m atPower).Holds unit (4 * (m * unit)) := by
  refine holds_about_iff.2 ?_
  split <;> omega

/-- A unit ten times as small, or any other, makes no difference. -/
theorem Interval.holds_mul_iff {i : Interval} {unit n c : Nat} (hc : 0 < c) :
    i.Holds (unit * c) (n * c) ↔ i.Holds unit n := by
  unfold Holds reachesDown reachesUp
  simp only [← Nat.mul_assoc, Nat.mul_le_mul_right_iff hc, Nat.mul_lt_mul_right hc]

/-! ## The nearest float -/

/-- Whether a float has this mantissa, when its exponent is that many above the least. -/
structure Canonical (shift m : Nat) : Prop where
  lt : m < 2 ^ 53
  full : 0 < shift → 2 ^ 52 ≤ m

/-- The interval of the numbers that are nearest to a float. -/
def nearby (shift m : Nat) : Interval := .about m (m = 2 ^ 52 ∧ 0 < shift)

section

variable {n d shift : Nat}

theorem two_pow_add_mul (k d shift : Nat) : 2 ^ (k + shift) * d = 2 ^ k * (d <<< shift) := by
  rw [Nat.shiftLeft_eq, Nat.pow_add]
  ring

theorem log2_div_le {k : Nat} (hd : 0 < d) (h : n < 2 ^ (k + 1) * (d <<< shift)) :
    (n / d).log2 ≤ k + shift := by
  rcases Nat.eq_zero_or_pos (n / d) with hzero | hpos
  · rw [hzero]
    exact Nat.zero_le _
  · rw [← two_pow_add_mul, ← Nat.div_lt_iff_lt_mul hd] at h
    have hlt := (Nat.log2_lt hpos.ne').2 h
    omega

theorem le_log2_div {k : Nat} (hd : 0 < d) (h : 2 ^ k * (d <<< shift) ≤ n) :
    k + shift ≤ (n / d).log2 := by
  rw [← two_pow_add_mul, ← Nat.le_div_iff_mul_le hd] at h
  have hpos := Nat.lt_of_lt_of_le (Nat.two_pow_pos (k + shift)) h
  exact (Nat.le_log2 hpos.ne').2 h

/-- The digits that are kept begin where those of the float do, or one before. -/
theorem shift_of_holds {m : Nat} (hd : 0 < d) (hm : Canonical shift m)
    (h : (nearby shift m).Holds (d <<< shift) (4 * n)) :
    (n / d).log2 - 52 = shift ∨
      m = 2 ^ 52 ∧ shift = (n / d).log2 - 52 + 1 ∧ n < 2 ^ 52 * (d <<< shift) := by
  obtain ⟨hlow, hhigh, -⟩ := Interval.holds_about_iff.1 h
  have hunit : 0 < d <<< shift := by
    rw [Nat.shiftLeft_eq]
    exact Nat.mul_pos hd (Nat.two_pow_pos shift)
  -- at most as many digits as the float has
  have hmul := Nat.mul_le_mul_right (d <<< shift) hm.lt
  rw [Nat.succ_mul] at hmul
  have hle : (n / d).log2 ≤ 52 + shift := log2_div_le hd (by omega)
  rcases Nat.eq_zero_or_pos shift with rfl | hshift
  · exact .inl (by omega)
  rcases Nat.lt_or_ge n (2 ^ 52 * (d <<< shift)) with hbelow | habove
  · right
    obtain rfl : m = 2 ^ 52 := by
      by_contra hne
      have hmore := Nat.mul_le_mul_right (d <<< shift)
        (Nat.lt_of_le_of_ne (hm.full hshift) (Ne.symm hne))
      rw [Nat.succ_mul] at hmore
      rw [if_neg (fun hpower => hne (of_decide_eq_true hpower).1)] at hlow
      omega
    rw [if_pos (by simp [hshift])] at hlow
    have hge : 51 + shift ≤ (n / d).log2 := le_log2_div hd (by omega)
    have hlog : (n / d).log2 ≤ 51 + shift := log2_div_le hd hbelow
    exact ⟨rfl, by omega, hbelow⟩
  · left
    have hge := le_log2_div hd habove
    omega

end

/-- Numbers in the interval about a float round to it. -/
theorem nearestBits_of_holds {n d shift m : Nat} (hd : 0 < d) (hm : Canonical shift m)
    (h : (nearby shift m).Holds (d <<< shift) (4 * (n <<< 1074))) :
    nearestBits n d = min ((shift <<< 52) + m) infinityBits := by
  unfold nearestBits
  dsimp only
  generalize n <<< 1074 = a at *
  have hunit : 0 < d <<< shift := by
    rw [Nat.shiftLeft_eq]
    exact Nat.mul_pos hd (Nat.two_pow_pos shift)
  rcases shift_of_holds hd hm h with hshift | ⟨rfl, hshift, hbelow⟩
  · obtain ⟨hlow, hhigh, hodd⟩ := Interval.holds_about_iff.1 h
    rw [hshift, roundedQuotient_eq (m := m) ?_ ?_ ?_ hunit]
    · split at hlow <;> omega
    · omega
    · intro h1
      have h2 := hodd h1
      split at h2 <;> omega
  · -- the interval goes on below the least mantissa in steps half as far
    generalize (a / d).log2 - 52 = below at *
    obtain rfl := hshift
    have hdouble : d <<< (below + 1) = 2 * (d <<< below) := by
      rw [Nat.shiftLeft_succ]
    obtain ⟨hlow, -⟩ := Interval.holds_about_iff.1 h
    rw [if_pos (by simp)] at hlow
    rw [hdouble] at hlow hbelow hunit
    rw [roundedQuotient_eq (m := 2 ^ 53) (by omega) (by omega) (by omega) (by omega)]
    have hcarry : (below <<< 52) + 2 ^ 53 = ((below + 1) <<< 52) + 2 ^ 52 := by
      rw [Nat.shiftLeft_eq, Nat.shiftLeft_eq]
      omega
    rw [hcarry]

/-! ## Bits -/

/-- What the bits of a finite float that is not negative say. -/
theorem exists_canonical {bits : Nat} (h : bits < infinityBits) :
    ∃ shift m, Canonical shift m ∧ bits = (shift <<< 52) + m ∧
      Binary.ofBits bits = .finite false m (shift - 1074) (m = 2 ^ 52 ∧ 0 < shift) := by
  have hlt : bits < 0x7FF0000000000000 := h
  have hpart := Nat.mod_lt bits (show 0 < 0x10000000000000 by decide)
  have hpower : (bits >>> 52) % 0x800 = bits / 0x10000000000000 := by
    rw [Nat.shiftRight_eq_div_pow]
    exact Nat.mod_eq_of_lt (by omega)
  have hsign : decide (0x8000000000000000 ≤ bits) = false := decide_eq_false (by omega)
  unfold Binary.ofBits
  simp only [hpower, hsign]
  rw [if_neg (by omega)]
  split
  next hzero =>
    refine ⟨0, bits % 0x10000000000000, ⟨by omega, by omega⟩, ?_, by simp⟩
    rw [Nat.shiftLeft_eq]
    omega
  next hpositive =>
    refine ⟨bits / 0x10000000000000 - 1, 0x10000000000000 + bits % 0x10000000000000,
      ⟨by omega, fun _ => by omega⟩, ?_, ?_⟩
    · rw [Nat.shiftLeft_eq]
      omega
    · congr 1
      · omega
      · rw [← Bool.decide_and]
        exact decide_eq_decide.2 (by omega)

end UrlRouting.Decimal
