import UrlRouting.Decimal.Notation
import UrlRouting.Proofs.Decimal.Digits
import UrlRouting.Proofs.Decimal.Rounding

/-
  The shortest decimal of a float is in the interval about it.
  A neighbour on a grid is taken only if the interval holds it (`within_of_onGrid?`). On the last
  grid a step is shorter than a quarter of the float's spacing (`step_le_unit`), so the number below
  is in the interval there without being held against it (`within_search`).
-/

namespace UrlRouting.Decimal

/-- Whether a decimal is in the interval about a float with this exponent. -/
def Scaled.Within (i : Interval) (exponent : Int) (s : Scaled) : Prop :=
  i.Holds (scales exponent s.power).1 (s.significand * (scales exponent s.power).2)

theorem scales_eq (exponent power : Int) :
    scales exponent power = (10 ^ (-power).toNat * 2 ^ (exponent - 2).toNat,
      10 ^ power.toNat * 2 ^ (2 - exponent).toNat) := by
  unfold scales
  rw [Nat.shiftLeft_eq, Nat.shiftLeft_eq]
  rfl

theorem unit_pos (exponent power : Int) : 0 < (scales exponent power).1 := by
  rw [scales_eq]
  exact Nat.mul_pos (Nat.pow_pos (by decide)) (Nat.two_pow_pos _)

theorem step_pos (exponent power : Int) : 0 < (scales exponent power).2 := by
  rw [scales_eq]
  exact Nat.mul_pos (Nat.pow_pos (by decide)) (Nat.two_pow_pos _)

/-! ## Neighbours on a grid -/

/-- A grid that is ten times as coarse has a step ten times as long, or a unit ten times as
small. -/
theorem scales_succ (exponent power : Int) :
    (scales exponent (power + 1)).1 = (scales exponent power).1 ∧
        (scales exponent (power + 1)).2 = 10 * (scales exponent power).2 ∨
      (scales exponent power).1 = 10 * (scales exponent (power + 1)).1 ∧
        (scales exponent (power + 1)).2 = (scales exponent power).2 := by
  rw [scales_eq, scales_eq]
  rcases Int.lt_or_le power 0 with h | h
  · right
    have h1 : (-power).toNat = (-(power + 1)).toNat + 1 := by omega
    have h2 : (power + 1).toNat = power.toNat := by omega
    rw [h1, h2]
    exact ⟨by ring, rfl⟩
  · left
    have h1 : (power + 1).toNat = power.toNat + 1 := by omega
    have h2 : (-(power + 1)).toNat = (-power).toNat := by omega
    rw [h1, h2]
    exact ⟨rfl, by ring⟩

theorem Scaled.within_above {i : Interval} {exponent power : Int} {c : Nat}
    (h : Within i exponent ⟨c + 1, power⟩) : Within i exponent (.above c power) := by
  unfold above
  split
  next hten =>
    unfold Within at h ⊢
    simp only at h ⊢
    rw [hten] at h
    rw [Nat.one_mul]
    rcases scales_succ exponent power with ⟨hunit, hstep⟩ | ⟨hunit, hstep⟩
    · rw [hunit, hstep]
      exact h
    · rw [hunit, Nat.mul_comm 10, Nat.mul_comm 10, Interval.holds_mul_iff (by decide)] at h
      rw [hstep]
      exact h
  · exact h

theorem Interval.reachesDown_of_lt {i : Interval} {unit n : Nat} (h : i.low * unit < n) :
    i.reachesDown unit n = true := by
  unfold reachesDown
  split
  · exact decide_eq_true (Nat.le_of_lt h)
  · exact decide_eq_true h

theorem Interval.reachesUp_of_lt {i : Interval} {unit n : Nat} (h : n < i.high * unit) :
    i.reachesUp unit n = true := by
  unfold reachesUp
  split
  · exact decide_eq_true (Nat.le_of_lt h)
  · exact decide_eq_true h

/-- A neighbour that is held against one end of the interval is inside of the other. -/
theorem within_of_onGrid? {i : Interval} {exponent power : Int} {s : Scaled}
    (hlow : i.low ≤ i.centre) (hhigh : i.centre < i.high)
    (h : onGrid? i (scales exponent power).1 (scales exponent power).2 power = some s) :
    s.Within i exponent := by
  have hunit := unit_pos exponent power
  have hstep := step_pos exponent power
  have hbelow :=
    Nat.div_mul_le_self (i.centre * (scales exponent power).1) (scales exponent power).2
  have habove := Nat.lt_div_mul_add (a := i.centre * (scales exponent power).1) hstep
  rw [← Nat.succ_mul] at habove
  have hlow' := Nat.mul_le_mul_right (scales exponent power).1 hlow
  have hhigh' := Nat.mul_lt_mul_of_pos_right hhigh hunit
  unfold onGrid? at h
  dsimp only at h
  split at h
  next hup =>
    obtain rfl := Option.some.inj h
    rw [Bool.and_eq_true] at hup
    exact Scaled.within_above
      ⟨Interval.reachesDown_of_lt (Nat.lt_of_le_of_lt hlow' habove), hup.1⟩
  · split at h
    next hdown =>
      obtain rfl := Option.some.inj h
      exact ⟨hdown, Interval.reachesUp_of_lt (Nat.lt_of_le_of_lt hbelow hhigh')⟩
    · cases h

/-! ## The search -/

/-- Where the last grid is fine enough the search ends in the interval. -/
theorem within_search {i : Interval} {exponent : Int} (hlow : i.low < i.centre)
    (hhigh : i.centre < i.high) (grids : Nat) (power : Int)
    (hfine : (scales exponent (power - grids)).2 ≤ (scales exponent (power - grids)).1) :
    (search i exponent grids power).Within i exponent := by
  induction grids generalizing power with
  | zero =>
    rw [Int.natCast_zero, Int.sub_zero] at hfine
    have hunit := unit_pos exponent power
    have hstep := step_pos exponent power
    have hbelow :=
      Nat.div_mul_le_self (i.centre * (scales exponent power).1) (scales exponent power).2
    have habove := Nat.lt_div_mul_add (a := i.centre * (scales exponent power).1) hstep
    have hlow' := Nat.mul_le_mul_right (scales exponent power).1 hlow
    have hhigh' := Nat.mul_lt_mul_of_pos_right hhigh hunit
    rw [Nat.succ_mul] at hlow'
    have hin : i.low * (scales exponent power).1 <
        i.centre * (scales exponent power).1 / (scales exponent power).2 *
          (scales exponent power).2 := by
      omega
    exact ⟨Interval.reachesDown_of_lt hin,
      Interval.reachesUp_of_lt (Nat.lt_of_le_of_lt hbelow hhigh')⟩
  | succ grids ih =>
    unfold search
    dsimp only
    split
    next s hs => exact within_of_onGrid? (Nat.le_of_lt hlow) hhigh hs
    next =>
      refine ih (power - 1) ?_
      have hsame : power - 1 - (grids : Int) = power - (grids + 1 : Nat) := by omega
      rw [hsame]
      exact hfine

/-- The search goes down by as many powers as there are grids, and no further. -/
theorem le_power_of_search (i : Interval) (exponent : Int) (grids : Nat) (power : Int) :
    power - grids ≤ (search i exponent grids power).power := by
  induction grids generalizing power with
  | zero => exact Int.le_of_eq (Int.sub_zero power)
  | succ grids ih =>
    unfold search
    dsimp only
    split
    next s hs =>
      have hpower : power ≤ s.power := by
        unfold onGrid? at hs
        dsimp only at hs
        split at hs
        · obtain rfl := Option.some.inj hs
          unfold Scaled.above
          split
          · exact Int.le_of_lt (Int.lt_add_one_iff.2 (Int.le_refl power))
          · exact Int.le_refl power
        · split at hs
          · obtain rfl := Option.some.inj hs
            exact Int.le_refl power
          · cases hs
      omega
    next =>
      have hmore := ih (power - 1)
      omega

/-! ## Seventeen digits -/

/-- A number that the leading power does not exceed, in units of the last power that is looked
at. -/
theorem pow_leadingPower_le {m : Nat} {exponent : Int} (hm : 0 < m)
    (hexponent : -1074 ≤ exponent) :
    ∃ k : Nat, leadingPower m exponent = k - 324 ∧
      10 ^ k * 2 ^ (-exponent).toNat ≤ m * 2 ^ exponent.toNat * Nat.pow 10 324 := by
  have hlead : leadingPower m exponent =
      (digits (m * 2 ^ exponent.toNat * Nat.pow 10 324 / 2 ^ (-exponent).toNat)).length - 325 := by
    unfold leadingPower
    rw [Nat.shiftLeft_eq, Nat.shiftRight_eq_div_pow]
  rw [hlead]
  generalize hscaled : m * 2 ^ exponent.toNat * Nat.pow 10 324 / 2 ^ (-exponent).toNat = scaled
  have hpos : 0 < scaled := by
    rw [← hscaled]
    refine Nat.div_pos ?_ (Nat.two_pow_pos _)
    have hleast : (-exponent).toNat ≤ 1074 := by omega
    have hbig := Nat.le_trans (Nat.pow_le_pow_right Nat.two_pos hleast)
      (show _ ≤ Nat.pow 10 324 by decide +kernel)
    have hone : 1 ≤ m * 2 ^ exponent.toNat := Nat.mul_pos hm (Nat.two_pow_pos _)
    exact Nat.le_trans hbig (Nat.le_mul_of_pos_left _ hone)
  obtain ⟨k, hk⟩ : ∃ k, (digits scaled).length = k + 1 :=
    Nat.exists_eq_add_one.2 (isDigits_iff.1 (isDigits_digits scaled)).1
  refine ⟨k, by omega, ?_⟩
  have hle : 10 ^ k ≤ scaled := by
    rcases Nat.eq_zero_or_pos k with rfl | hpositive
    · exact hpos
    · by_contra hless
      have hshort := (Nat.length_toDigits_le_iff (by decide) hpositive).2 (Nat.lt_of_not_le hless)
      unfold digits at hk
      omega
  have hdiv := Nat.div_mul_le_self (m * 2 ^ exponent.toNat * Nat.pow 10 324) (2 ^ (-exponent).toNat)
  rw [hscaled] at hdiv
  exact Nat.le_trans (Nat.mul_le_mul_right _ hle) hdiv

/-- Seventeen grids below the leading digit a step is no longer than a quarter of the spacing. -/
theorem step_le_unit {m : Nat} {exponent : Int} (hm : 0 < m) (hlt : m < 2 ^ 53)
    (hexponent : -1074 ≤ exponent) :
    (scales exponent (leadingPower m exponent - 17)).2 ≤
      (scales exponent (leadingPower m exponent - 17)).1 := by
  obtain ⟨k, hlead, hle⟩ := pow_leadingPower_le hm hexponent
  generalize ht : (324 : Nat) = t at hle
  rw [Nat.pow_eq] at hle
  generalize hpower : leadingPower m exponent - 17 = power
  rw [scales_eq]
  show 10 ^ power.toNat * 2 ^ (2 - exponent).toNat ≤
    10 ^ (-power).toNat * 2 ^ (exponent - 2).toNat
  -- the exponents of two and of ten on both sides
  have htwos : exponent.toNat + (2 - exponent).toNat =
      (-exponent).toNat + (exponent - 2).toNat + 2 := by
    omega
  have htens : k + (-power).toNat = power.toNat + 17 + t := by omega
  generalize exponent.toNat = e at *
  generalize (-exponent).toNat = e' at *
  generalize (2 - exponent).toNat = x at *
  generalize (exponent - 2).toNat = y at *
  generalize power.toNat = p at *
  generalize (-power).toNat = q at *
  have hten : 2 ^ 55 ≤ 10 ^ 17 := by decide
  have hmantissa := Nat.mul_le_mul_right (2 ^ e * 10 ^ t) (Nat.le_of_lt hlt)
  have hpos : 0 < 10 ^ (17 + t) * 2 ^ (e + 2) :=
    Nat.mul_pos (Nat.pow_pos (by decide)) (Nat.two_pow_pos _)
  refine Nat.le_of_mul_le_mul_right ?_ hpos
  calc 10 ^ p * 2 ^ x * (10 ^ (17 + t) * 2 ^ (e + 2))
      = 10 ^ (p + 17 + t) * 2 ^ (e + x) * 2 ^ 2 := by ring
    _ = 10 ^ k * 2 ^ e' * (10 ^ q * 2 ^ y * 2 ^ 4) := by
      rw [← htens, htwos]
      ring
    _ ≤ m * 2 ^ e * 10 ^ t * (10 ^ q * 2 ^ y * 2 ^ 4) := Nat.mul_le_mul_right _ hle
    _ ≤ 2 ^ 53 * (2 ^ e * 10 ^ t) * (10 ^ q * 2 ^ y * 2 ^ 4) := by
      rw [Nat.mul_assoc m]
      exact Nat.mul_le_mul_right _ hmantissa
    _ = 2 ^ 55 * (10 ^ q * 2 ^ y * 10 ^ t * 2 ^ (e + 2)) := by ring
    _ ≤ 10 ^ 17 * (10 ^ q * 2 ^ y * 10 ^ t * 2 ^ (e + 2)) := Nat.mul_le_mul_right _ hten
    _ = 10 ^ q * 2 ^ y * (10 ^ (17 + t) * 2 ^ (e + 2)) := by ring

/-! ## The shortest decimal -/

theorem within_shortest {m : Nat} {exponent : Int} {atPower : Bool} (hm : 0 < m)
    (hlt : m < 2 ^ 53) (hexponent : -1074 ≤ exponent) :
    (shortest m exponent atPower).Within (.about m atPower) exponent := by
  unfold shortest
  rw [if_neg (Nat.ne_of_gt hm)]
  refine within_search ?_ ?_ 17 _ (step_le_unit hm hlt hexponent)
  · show 4 * m - (if atPower then 1 else 2) < 4 * m
    cases atPower <;> simp only [Bool.false_eq_true, ↓reduceIte] <;> omega
  · show 4 * m < 4 * m + 2
    omega

theorem le_power_of_shortest {m : Nat} {exponent : Int} {atPower : Bool} (hm : 0 < m)
    (hexponent : -1074 ≤ exponent) : -341 ≤ (shortest m exponent atPower).power := by
  obtain ⟨k, hlead, -⟩ := pow_leadingPower_le hm hexponent
  have hle := le_power_of_search (.about m atPower) exponent 17 (leadingPower m exponent)
  unfold shortest
  rw [if_neg (Nat.ne_of_gt hm)]
  omega

/-- Whether a number is whole, and which it is. -/
theorem whole?_spec (m : Nat) (exponent : Int) :
    (∀ n, whole? m exponent = some n → n * 2 ^ (-exponent).toNat = m * 2 ^ exponent.toNat) ∧
      (whole? m exponent = none → exponent < 0 ∧ ¬ 2 ^ (-exponent).toNat ∣ m) := by
  unfold whole?
  dsimp only
  rw [Nat.shiftLeft_eq, Nat.shiftLeft_eq, Nat.one_mul]
  split
  next hexponent =>
    have hzero : (-exponent).toNat = 0 := by omega
    refine ⟨?_, fun h => nomatch h⟩
    intro n hn
    obtain rfl := Option.some.inj hn
    rw [hzero, Nat.pow_zero, Nat.mul_one]
  next hexponent =>
    have hzero : exponent.toNat = 0 := by omega
    rw [hzero, Nat.pow_zero, Nat.mul_one]
    split
    next hmod =>
      refine ⟨?_, fun h => nomatch h⟩
      intro n hn
      obtain rfl := Option.some.inj hn
      exact Nat.div_mul_cancel (Nat.dvd_of_mod_eq_zero hmod)
    next hmod =>
      refine ⟨fun n hn => (nomatch hn), fun _ => ⟨by omega, ?_⟩⟩
      exact fun hdvd => hmod (Nat.mod_eq_zero_of_dvd hdvd)

/-- Between two whole numbers the shortest decimal is not whole. -/
theorem power_neg_of_shortest {m : Nat} {exponent : Int} {atPower : Bool} (hm : 0 < m)
    (hlt : m < 2 ^ 53) (hexponent : -1074 ≤ exponent) (hwhole : whole? m exponent = none) :
    (shortest m exponent atPower).power < 0 := by
  obtain ⟨hneg, hdvd⟩ := (whole?_spec m exponent).2 hwhole
  have hwithin : (shortest m exponent atPower).Within (.about m atPower) exponent :=
    within_shortest hm hlt hexponent
  generalize shortest m exponent atPower = s at *
  by_contra hnot
  apply hdvd
  unfold Scaled.Within at hwithin
  have h1 : (-s.power).toNat = 0 := by omega
  have h2 : (exponent - 2).toNat = 0 := by omega
  have h3 : (2 - exponent).toNat = (-exponent).toNat + 2 := by omega
  rw [scales_eq, h1, h2, h3] at hwithin
  obtain ⟨hlow, hhigh, -⟩ := Interval.holds_about_iff.1 hwithin
  have hmultiple : s.significand * (10 ^ s.power.toNat * 2 ^ ((-exponent).toNat + 2)) =
      4 * (s.significand * 10 ^ s.power.toNat * 2 ^ (-exponent).toNat) := by
    ring
  simp only [Nat.pow_zero, Nat.mul_one, hmultiple] at hlow hhigh
  refine ⟨s.significand * 10 ^ s.power.toNat, ?_⟩
  rw [Nat.mul_comm]
  split at hlow <;> omega

end UrlRouting.Decimal
