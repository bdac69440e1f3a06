import ListRepeater.Proofs.Number.RoundingIntervals
/-!
# The shortest decimal

The decimal with which a number is written lies in the rounding interval of the number. The search
for it looks at up to seventeen digits: a step in the seventeenth place is less than a rounding
interval is wide, so one of the two neighbours in that place is a hit.
-/
namespace ListRepeater.Binary64

section Neighbours

variable {i : Interval} {place : Int}

/-- The multiples of a power of ten between which a number lies. -/
theorem neighbours (i : Interval) (place : Int) :
    let below := (crossed i.value i.unit 1 place).1 / (crossed i.value i.unit 1 place).2
    (below : ℚ) * (10 : ℚ) ^ place ≤ i.value * (2 : ℚ) ^ i.unit ∧
      i.value * (2 : ℚ) ^ i.unit < ((below + 1 : Nat) : ℚ) * (10 : ℚ) ^ place := by
  intro below
  obtain ⟨left, right⟩ := crossed_eq i.value i.unit 1 place
  have factor := crossed_factor_pos i.unit place
  have ten : (0 : ℚ) < (10 : ℚ) ^ place := by positivity
  have step : (0 : ℚ) < ((crossed i.value i.unit 1 place).2 : ℚ) := by
    rw [right]
    positivity
  have step : 0 < (crossed i.value i.unit 1 place).2 := by exact_mod_cast step
  have least : below * (crossed i.value i.unit 1 place).2 ≤ (crossed i.value i.unit 1 place).1 :=
    Nat.div_mul_le_self _ _
  have next : (crossed i.value i.unit 1 place).1 <
      (below + 1) * (crossed i.value i.unit 1 place).2 := by
    rw [Nat.mul_comm]
    exact Nat.lt_mul_div_succ _ step
  have least : (below : ℚ) * ((crossed i.value i.unit 1 place).2 : ℚ) ≤
      ((crossed i.value i.unit 1 place).1 : ℚ) := by exact_mod_cast least
  have next : ((crossed i.value i.unit 1 place).1 : ℚ) <
      ((below + 1 : Nat) : ℚ) * ((crossed i.value i.unit 1 place).2 : ℚ) := by exact_mod_cast next
  rw [left, right, Nat.cast_one, one_mul] at least next
  constructor
  · refine le_of_mul_le_mul_right ?_ factor
    rwa [mul_assoc]
  · refine lt_of_mul_lt_mul_right ?_ factor.le
    rwa [mul_assoc ((below + 1 : Nat) : ℚ)]

theorem holds_of_neighbour? {s : Decimal} (h : neighbour? i place = some s) :
    i.Holds s.value := by
  have contained : ∀ c, i.contains c place = true → some ⟨c, place⟩ = some s → i.Holds s.value := by
    intro c hc e
    rw [← Option.some.inj e]
    exact (i.contains_iff c place).mp hc
  simp only [neighbour?] at h
  split at h
  · next below above =>
    split at h
    · exact contained _ below h
    · exact contained _ above h
  · next below _ => exact contained _ below h
  · next _ above => exact contained _ above h
  · cases h

/-- Where steps are smaller than the interval is wide, one of the neighbours is inside. -/
theorem exists_neighbour? (low : i.low < i.value) (high : i.value < i.high)
    (narrow : (10 : ℚ) ^ place < (i.high - i.low) * (2 : ℚ) ^ i.unit) :
    ∃ s, neighbour? i place = some s := by
  obtain ⟨least, next⟩ := neighbours i place
  have unit : (0 : ℚ) < (2 : ℚ) ^ i.unit := by positivity
  have low : (i.low : ℚ) * (2 : ℚ) ^ i.unit < i.value * (2 : ℚ) ^ i.unit :=
    mul_lt_mul_of_pos_right (by exact_mod_cast low) unit
  have high : (i.value : ℚ) * (2 : ℚ) ^ i.unit < i.high * (2 : ℚ) ^ i.unit :=
    mul_lt_mul_of_pos_right (by exact_mod_cast high) unit
  simp only [neighbour?]
  split
  · split <;> exact ⟨_, rfl⟩
  · exact ⟨_, rfl⟩
  · exact ⟨_, rfl⟩
  · next below above =>
    have below := mt (i.contains_iff _ place).mpr (by rw [below]; exact Bool.false_ne_true)
    have above := mt (i.contains_iff _ place).mpr (by rw [above]; exact Bool.false_ne_true)
    -- neither neighbour is inside, so the interval lies between them
    have under : ((crossed i.value i.unit 1 place).1 / (crossed i.value i.unit 1 place).2 : Nat) *
        (10 : ℚ) ^ place ≤ i.low * (2 : ℚ) ^ i.unit := by
      by_contra inside
      apply below
      rw [Interval.Holds]
      split
      · exact ⟨(not_le.mp inside).le, by linarith⟩
      · exact ⟨not_le.mp inside, by linarith⟩
    have beyond : (i.high : ℚ) * (2 : ℚ) ^ i.unit ≤
        (((crossed i.value i.unit 1 place).1 / (crossed i.value i.unit 1 place).2 + 1 : Nat) : ℚ) *
          (10 : ℚ) ^ place := by
      by_contra inside
      apply above
      rw [Interval.Holds]
      split
      · exact ⟨by linarith, (not_le.mp inside).le⟩
      · exact ⟨by linarith, not_le.mp inside⟩
    push_cast at under beyond
    exfalso
    nlinarith

end Neighbours

section Leading

/-- The leading place of a fraction is not above it. -/
theorem leadingPlace_le {num den : Nat} (hden : 0 < den) (reach : den ≤ num * powTen 399) :
    (10 : ℚ) ^ leadingPlace num den ≤ (num : ℚ) / den := by
  have hden' : (0 : ℚ) < den := by exact_mod_cast hden
  rw [leadingPlace]
  split
  · next whole =>
    obtain ⟨k, hk⟩ : ∃ k, (Nat.toDigits 10 (num / den)).length = k + 1 :=
      ⟨_, (Nat.succ_pred_eq_of_pos Nat.length_toDigits_pos).symm⟩
    have least : 10 ^ k ≤ num / den := by
      cases k with
      | zero => exact Nat.div_pos whole hden
      | succ k =>
        by_contra small
        have short := (Nat.length_toDigits_le_iff (b := 10) (n := num / den) (k := k + 1)
          (by decide) (by omega)).mpr (Nat.not_le.mp small)
        omega
    have place : ((k + 1 : Nat) : ℤ) - 1 = (k : ℤ) := by omega
    rw [hk, place, zpow_natCast, le_div_iff₀ hden']
    have product : 10 ^ k * den ≤ num :=
      Nat.le_trans (Nat.mul_le_mul_right den least) (Nat.div_mul_le_self num den)
    exact_mod_cast product
  · cases found : (List.range 400).find? fun j => den ≤ num * powTen j with
    | none =>
      have missed := List.find?_eq_none.mp found 399 (by simp)
      exact absurd (decide_eq_true reach) missed
    | some j =>
      have hit : den ≤ num * powTen j := by simpa using List.find?_some found
      have hit : (den : ℚ) ≤ num * 10 ^ j := by
        rw [← cast_powTen]
        exact_mod_cast hit
      rw [Option.getD_some, zpow_neg, zpow_natCast, le_div_iff₀ hden', inv_mul_le_iff₀ (by positivity)]
      linarith

end Leading

section Shortest

variable {d : Binary64}

theorem powTwo_le_powTen {m n : Nat} (h : m ≤ 3 * n) : powTwo m ≤ powTen n := by
  calc powTwo m ≤ 2 ^ (3 * n) := Nat.pow_le_pow_right (by decide) h
    _ = (2 ^ 3) ^ n := pow_mul 2 3 n
    _ ≤ powTen n := Nat.pow_le_pow_left (by decide) n

theorem value_eq (d : Binary64) : (d.numerator : ℚ) / d.denominator =
    d.interval.value * (2 : ℚ) ^ d.interval.unit := by
  have value : d.interval.value = 4 * d.mantissa := rfl
  have unit : d.interval.unit = d.exponent - 2 := rfl
  have quarter : (2 : ℚ) ^ d.exponent = 4 * (2 : ℚ) ^ (d.exponent - 2) := by
    have split : d.exponent = 2 + (d.exponent - 2) := by omega
    conv => lhs; rw [split, zpow_add₀ (by norm_num)]
    norm_num
  have product : (d.numerator : ℚ) / d.denominator = d.mantissa * (2 : ℚ) ^ d.exponent := by
    rw [numerator, denominator]
    split
    · next h =>
      obtain ⟨e, he⟩ := Int.eq_ofNat_of_zero_le h
      rw [he]
      simp [cast_powTwo]
    · next h =>
      have split := zpow_split 2 (by norm_num) d.exponent
      have zero : d.exponent.toNat = 0 := by omega
      rw [zero, pow_zero] at split
      rw [cast_powTwo, div_eq_iff (by positivity), mul_assoc, split, mul_one]
  rw [product, value, unit, quarter]
  push_cast
  ring

theorem interval_width (nonzero : d.mantissa ≠ 0) :
    (10 : ℚ) ^ (-16 : ℤ) * d.interval.value < d.interval.high - d.interval.low := by
  have p52 : powTwo 52 = 4503599627370496 := by decide
  have bounded := mantissa_lt nonzero
  have value : (d.interval.value : ℚ) = 4 * d.mantissa := by simp [interval]
  have high : (d.interval.high : ℚ) = 4 * d.mantissa + 2 := by simp [interval]
  rw [value, high]
  by_cases power : (d.mantissa == powTwo 52 && decide (d.exponent > -1074)) = true
  · have low : d.interval.low = 4 * d.mantissa - 1 := by simp only [interval, power, if_true]
    have low : (d.interval.low : ℚ) = 4 * d.mantissa - 1 := by
      rw [low, Nat.cast_sub (by omega)]
      simp
    have least : d.mantissa = 4503599627370496 := by
      simp only [Bool.and_eq_true, beq_iff_eq, p52] at power
      exact power.1
    rw [low, least]
    norm_num
  · have low : d.interval.low = 4 * d.mantissa - 2 := by
      simp only [interval]
      rw [if_neg power]
    have low : (d.interval.low : ℚ) = 4 * d.mantissa - 2 := by
      rw [low, Nat.cast_sub (by omega)]
      simp
    have bounded : (d.mantissa : ℚ) < 9007199254740992 := by exact_mod_cast bounded
    rw [low]
    norm_num
    linarith

theorem denominator_pos (d : Binary64) : 0 < d.denominator := by
  rw [denominator]
  split
  · decide
  · exact powTwo_pos _

/-- The leading place of a number is looked for far enough. -/
theorem denominator_le (nonzero : d.mantissa ≠ 0) : d.denominator ≤ d.numerator * powTen 399 := by
  have positive : 0 < d.mantissa := Nat.pos_of_ne_zero nonzero
  have least := exponent_ge nonzero
  rw [denominator, numerator]
  split
  · exact Nat.mul_pos (Nat.mul_pos positive (powTwo_pos _)) (powTen_pos _)
  · have far : powTwo (-d.exponent).toNat ≤ powTen 399 := powTwo_le_powTen (by omega)
    exact Nat.le_trans far (Nat.le_mul_of_pos_left _ positive)

/-- At the seventeenth place steps are smaller than the interval is wide. -/
theorem step_lt_width (nonzero : d.mantissa ≠ 0) :
    (10 : ℚ) ^ (leadingPlace d.numerator d.denominator - (16 : Nat)) <
      (d.interval.high - d.interval.low) * (2 : ℚ) ^ d.interval.unit := by
  have lead := leadingPlace_le d.denominator_pos (denominator_le nonzero)
  rw [value_eq] at lead
  have width := interval_width nonzero
  have unit : (0 : ℚ) < (2 : ℚ) ^ d.interval.unit := by positivity
  have small : (0 : ℚ) < (10 : ℚ) ^ (-16 : ℤ) := by positivity
  calc (10 : ℚ) ^ (leadingPlace d.numerator d.denominator - (16 : Nat))
      = (10 : ℚ) ^ leadingPlace d.numerator d.denominator * (10 : ℚ) ^ (-16 : ℤ) := by
        rw [← zpow_add₀ (by norm_num)]
        rfl
    _ ≤ d.interval.value * (2 : ℚ) ^ d.interval.unit * (10 : ℚ) ^ (-16 : ℤ) :=
        mul_le_mul_of_nonneg_right lead small.le
    _ = (10 : ℚ) ^ (-16 : ℤ) * d.interval.value * (2 : ℚ) ^ d.interval.unit := by ring
    _ < (d.interval.high - d.interval.low) * (2 : ℚ) ^ d.interval.unit :=
        mul_lt_mul_of_pos_right width unit

/-- The shortest decimal of a number rounds to the number. -/
theorem holds_shortest (nonzero : d.mantissa ≠ 0) : d.interval.Holds d.shortest.value := by
  have low : d.interval.low < d.interval.value := by
    simp only [interval]
    split <;> omega
  have high : d.interval.value < d.interval.high := by simp [interval]
  rw [shortest]
  cases found : (List.range 17).findSome? fun (n : Nat) =>
      neighbour? d.interval (leadingPlace d.numerator d.denominator - n) with
  | none =>
    obtain ⟨s, hs⟩ := exists_neighbour? low high (step_lt_width nonzero)
    have missed := List.findSome?_eq_none_iff.mp found 16 (by simp)
    rw [hs] at missed
    cases missed
  | some s =>
    obtain ⟨n, -, hn⟩ := List.exists_of_findSome?_eq_some found
    exact holds_of_neighbour? hn

end Shortest

end ListRepeater.Binary64
