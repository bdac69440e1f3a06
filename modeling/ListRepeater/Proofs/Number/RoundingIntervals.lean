import ListRepeater.Number.Shortest
import Mathlib.Algebra.Order.Field.Power
import Mathlib.Tactic.FieldSimp
import Mathlib.Tactic.Linarith
import Mathlib.Tactic.NormNum
import Mathlib.Tactic.Positivity
import Mathlib.Tactic.Ring
/-!
# Rounding intervals

The reals that round to a number form an interval around it. The intervals of different numbers do
not meet, and seventeen digits are enough to hit one. So the shortest decimal of a number, as a
fraction, tells it from all others.
-/
namespace ListRepeater.Binary64

/-- The value of a decimal. -/
def Decimal.value (s : Decimal) : ℚ := s.digits * (10 : ℚ) ^ s.place

theorem powTwo_pos (n : Nat) : 0 < powTwo n := Nat.pow_pos (by decide)

theorem powTen_pos (n : Nat) : 0 < powTen n := Nat.pow_pos (by decide)

theorem cast_powTwo (n : Nat) : (powTwo n : ℚ) = 2 ^ n := by
  simp [powTwo]

theorem cast_powTen (n : Nat) : (powTen n : ℚ) = 10 ^ n := by
  simp [powTen]

theorem zpow_split (b : ℚ) (hb : 0 < b) (e : ℤ) : b ^ e * b ^ (-e).toNat = b ^ e.toNat := by
  rw [← zpow_natCast, ← zpow_natCast, ← zpow_add₀ (ne_of_gt hb)]
  congr 1
  omega

section Crossing

variable (x : Nat) (unit : Int) (c : Nat) (place : Int)

/-- Both sides of a comparison are cleared of fractions by the same factor. -/
theorem crossed_eq : ((crossed x unit c place).1 : ℚ) =
      (x * (2 : ℚ) ^ unit) * ((2 : ℚ) ^ (-unit).toNat * (10 : ℚ) ^ (-place).toNat) ∧
    ((crossed x unit c place).2 : ℚ) =
      (c * (10 : ℚ) ^ place) * ((2 : ℚ) ^ (-unit).toNat * (10 : ℚ) ^ (-place).toNat) := by
  have two := zpow_split 2 (by norm_num) unit
  have ten := zpow_split 10 (by norm_num) place
  simp only [crossed, Nat.cast_mul, cast_powTwo, cast_powTen, ← two, ← ten]
  constructor <;> ring

theorem crossed_factor_pos :
    (0 : ℚ) < (2 : ℚ) ^ (-unit).toNat * (10 : ℚ) ^ (-place).toNat := by positivity

theorem crossed_le_iff : (crossed x unit c place).1 ≤ (crossed x unit c place).2 ↔
    x * (2 : ℚ) ^ unit ≤ c * (10 : ℚ) ^ place := by
  obtain ⟨left, right⟩ := crossed_eq x unit c place
  rw [← Nat.cast_le (α := ℚ), left, right, mul_le_mul_iff_left₀ (crossed_factor_pos unit place)]

theorem crossed_ge_iff : (crossed x unit c place).2 ≤ (crossed x unit c place).1 ↔
    c * (10 : ℚ) ^ place ≤ x * (2 : ℚ) ^ unit := by
  obtain ⟨left, right⟩ := crossed_eq x unit c place
  rw [← Nat.cast_le (α := ℚ), left, right, mul_le_mul_iff_left₀ (crossed_factor_pos unit place)]

end Crossing

namespace Interval

/-- A value lies in an interval. -/
def Holds (i : Interval) (v : ℚ) : Prop :=
  if i.closed then i.low * (2 : ℚ) ^ i.unit ≤ v ∧ v ≤ i.high * (2 : ℚ) ^ i.unit
  else i.low * (2 : ℚ) ^ i.unit < v ∧ v < i.high * (2 : ℚ) ^ i.unit

theorem contains_iff (i : Interval) (c : Nat) (place : Int) :
    i.contains c place = true ↔ i.Holds (c * (10 : ℚ) ^ place) := by
  rw [contains, Holds]
  cases i.closed with
  | true =>
    simp only [if_true, Bool.and_eq_true, decide_eq_true_eq, crossed_le_iff, crossed_ge_iff]
  | false =>
    simp only [Bool.false_eq_true, if_false, Bool.and_eq_true, decide_eq_true_eq,
      ← Nat.not_le, crossed_le_iff, crossed_ge_iff, not_le]

theorem Holds.le {i : Interval} {v : ℚ} (h : i.Holds v) :
    i.low * (2 : ℚ) ^ i.unit ≤ v ∧ v ≤ i.high * (2 : ℚ) ^ i.unit := by
  rw [Holds] at h
  split at h
  · exact h
  · exact ⟨h.1.le, h.2.le⟩

theorem Holds.lt {i : Interval} {v : ℚ} (h : i.Holds v) (opened : i.closed = false) :
    i.low * (2 : ℚ) ^ i.unit < v ∧ v < i.high * (2 : ℚ) ^ i.unit := by
  rwa [Holds, opened, if_neg Bool.false_ne_true] at h

end Interval

section Apart

variable {d d' : Binary64}

theorem interval_low_pos (nonzero : d.mantissa ≠ 0) : 0 < d.interval.low := by
  simp only [interval]
  split <;> omega

section Bounds

variable (nonzero : d.mantissa ≠ 0)

include nonzero

theorem mantissa_lt : d.mantissa < 9007199254740992 := by
  rcases d.canonical with ⟨zero, -⟩ | ⟨-, bounded, -⟩
  · exact absurd zero nonzero
  · exact bounded

theorem exponent_ge : -1074 ≤ d.exponent := by
  rcases d.canonical with ⟨zero, -⟩ | ⟨-, -, least, -⟩
  · exact absurd zero nonzero
  · exact least

/-- Only the least power goes with a small mantissa. -/
theorem mantissa_ge (normal : -1074 < d.exponent) : 4503599627370496 ≤ d.mantissa := by
  rcases d.canonical with ⟨zero, -⟩ | ⟨-, -, -, -, large | subnormal⟩
  · exact absurd zero nonzero
  · exact large
  · omega

/-- At the least mantissa of a power the numbers below are closer, unless there is no lower
power. -/
theorem interval_low_ge (normal : -1074 < d.exponent) :
    4 * 4503599627370496 - 1 ≤ d.interval.low := by
  have p52 : powTwo 52 = 4503599627370496 := by decide
  have large := mantissa_ge nonzero normal
  simp only [interval, normal, decide_true, Bool.and_true, beq_iff_eq, p52]
  split <;> omega

end Bounds

theorem interval_low_cases (d : Binary64) :
    d.interval.low = 4 * d.mantissa - 1 ∨ d.interval.low = 4 * d.mantissa - 2 := by
  simp only [interval]
  split
  · exact Or.inl rfl
  · exact Or.inr rfl

/-- The interval of a number ends before that of a greater one of the same power begins, or both end
where they touch, and then one of them does not hold its end. -/
theorem intervals_apart_of_mantissa (less : d.mantissa < d'.mantissa) :
    d.interval.high < d'.interval.low ∨
    d.interval.high = d'.interval.low ∧ (d.interval.closed = false ∨ d'.interval.closed = false) := by
  have high : d.interval.high = 4 * d.mantissa + 2 := rfl
  have closed : d.interval.closed = (d.mantissa % 2 == 0) := rfl
  have closed' : d'.interval.closed = (d'.mantissa % 2 == 0) := rfl
  have low := interval_low_cases d'
  by_cases strict : d.interval.high < d'.interval.low
  · exact Or.inl strict
  · refine Or.inr ⟨by omega, ?_⟩
    -- the mantissas follow each other, so one of them is odd
    rw [closed, closed']
    simp only [beq_eq_false_iff_ne]
    omega

/-- The interval of a number ends before that of a number of a greater power begins. Only the last
of a power and the first of the next touch, and the last does not hold its end. -/
theorem intervals_apart_of_exponent (nonzero : d.mantissa ≠ 0) (nonzero' : d'.mantissa ≠ 0)
    (less : d.exponent < d'.exponent) :
    d.interval.high < d'.interval.low * 2 ^ (d'.exponent - d.exponent).toNat ∨
    d.interval.high = d'.interval.low * 2 ^ (d'.exponent - d.exponent).toNat ∧
      d.interval.closed = false := by
  have bounded := mantissa_lt nonzero
  have least := exponent_ge nonzero
  have edge := interval_low_ge nonzero' (by omega)
  have high : d.interval.high = 4 * d.mantissa + 2 := rfl
  have closed : d.interval.closed = (d.mantissa % 2 == 0) := rfl
  obtain ⟨k, hk⟩ : ∃ k, (d'.exponent - d.exponent).toNat = k + 1 :=
    ⟨(d'.exponent - d.exponent).toNat - 1, by omega⟩
  have low : 2 * d'.interval.low ≤ d'.interval.low * 2 ^ (d'.exponent - d.exponent).toNat := by
    have steps := Nat.one_le_two_pow (n := k)
    rw [Nat.mul_comm 2, hk, pow_succ]
    exact Nat.mul_le_mul_left _ (by omega)
  by_cases strict : d.interval.high < 2 * d'.interval.low
  · exact Or.inl (Nat.lt_of_lt_of_le strict low)
  · have last : d.mantissa = 9007199254740991 := by omega
    rcases Nat.lt_or_ge d.interval.high
      (d'.interval.low * 2 ^ (d'.exponent - d.exponent).toNat) with h | h
    · exact Or.inl h
    · refine Or.inr ⟨by omega, ?_⟩
      rw [closed, last]
      rfl

theorem intervals_apart (nonzero : d.mantissa ≠ 0)
    (less : d.exponent < d'.exponent ∨ d.exponent = d'.exponent ∧ d.mantissa < d'.mantissa)
    (nonzero' : d'.mantissa ≠ 0) :
    d.interval.high < d'.interval.low * 2 ^ (d'.exponent - d.exponent).toNat ∨
    d.interval.high = d'.interval.low * 2 ^ (d'.exponent - d.exponent).toNat ∧
      (d.interval.closed = false ∨ d'.interval.closed = false) := by
  rcases less with below | ⟨same, below⟩
  · exact (intervals_apart_of_exponent nonzero nonzero' below).imp id (And.imp id Or.inl)
  · have zero : (d'.exponent - d.exponent).toNat = 0 := by omega
    rw [zero, pow_zero, Nat.mul_one]
    exact intervals_apart_of_mantissa below

/-- The intervals of two numbers have no value in common. -/
theorem not_holds_both (nonzero : d.mantissa ≠ 0) (nonzero' : d'.mantissa ≠ 0)
    (less : d.exponent < d'.exponent ∨ d.exponent = d'.exponent ∧ d.mantissa < d'.mantissa)
    {v : ℚ} (h : d.interval.Holds v) (h' : d'.interval.Holds v) : False := by
  have unit : d.interval.unit = d.exponent - 2 := rfl
  have unit' : d'.interval.unit = d'.exponent - 2 := rfl
  have scale : (2 : ℚ) ^ d'.interval.unit =
      2 ^ (d'.exponent - d.exponent).toNat * (2 : ℚ) ^ d.interval.unit := by
    rw [← zpow_natCast, ← zpow_add₀ (by norm_num)]
    congr 1
    omega
  have pos : (0 : ℚ) < (2 : ℚ) ^ d.interval.unit := by positivity
  have ends : (d'.interval.low : ℚ) * (2 : ℚ) ^ d'.interval.unit =
      ((d'.interval.low * 2 ^ (d'.exponent - d.exponent).toNat : Nat) : ℚ) *
        (2 : ℚ) ^ d.interval.unit := by
    rw [scale]
    push_cast
    ring
  rcases intervals_apart nonzero less nonzero' with apart | ⟨touch, opened⟩
  · have between : (d.interval.high : ℚ) * (2 : ℚ) ^ d.interval.unit <
        d'.interval.low * (2 : ℚ) ^ d'.interval.unit := by
      rw [ends]
      exact mul_lt_mul_of_pos_right (by exact_mod_cast apart) pos
    linarith [h.le.2, h'.le.1]
  · have meet : (d.interval.high : ℚ) * (2 : ℚ) ^ d.interval.unit =
        d'.interval.low * (2 : ℚ) ^ d'.interval.unit := by
      rw [ends, touch]
    rcases opened with opened | opened
    · linarith [(h.lt opened).2, h'.le.1]
    · linarith [h.le.2, (h'.lt opened).1]

/-- A value rounds to one number at most. -/
theorem parts_eq_of_holds (nonzero : d.mantissa ≠ 0) (nonzero' : d'.mantissa ≠ 0) {v : ℚ}
    (h : d.interval.Holds v) (h' : d'.interval.Holds v) :
    d.mantissa = d'.mantissa ∧ d.exponent = d'.exponent := by
  rcases Int.lt_trichotomy d.exponent d'.exponent with e | e | e
  · exact (not_holds_both nonzero nonzero' (Or.inl e) h h').elim
  · rcases Nat.lt_trichotomy d.mantissa d'.mantissa with m | m | m
    · exact (not_holds_both nonzero nonzero' (Or.inr ⟨e, m⟩) h h').elim
    · exact ⟨m, e⟩
    · exact (not_holds_both nonzero' nonzero (Or.inr ⟨e.symm, m⟩) h' h).elim
  · exact (not_holds_both nonzero' nonzero (Or.inl e) h' h).elim

end Apart

end ListRepeater.Binary64
