/-!
# Finite binary floating-point numbers

A `Binary64` is a sign, a mantissa below `2 ^ 53` and a power of two. The mantissa is as large as it
can be, so every number but zero has one form for each sign. Products, quotients and decimal
readings are computed exactly as fractions and then rounded to the nearest number, a half going to
the even mantissa. A magnitude beyond the largest finite number has no value here.
-/
namespace ListRepeater

namespace Binary64

def powTwo (n : Nat) : Nat := Nat.pow 2 n

def powTen (n : Nat) : Nat := Nat.pow 10 n

/-- Whether a mantissa and a power of two are those of a number. Below `2 ^ 52` only the least power
goes with a mantissa. -/
def Canonical (mantissa : Nat) (exponent : Int) : Prop :=
  (mantissa = 0 ∧ exponent = 0) ∨
    (0 < mantissa ∧ mantissa < powTwo 53 ∧ -1074 ≤ exponent ∧ exponent ≤ 971 ∧
      (powTwo 52 ≤ mantissa ∨ exponent = -1074))

instance (mantissa : Nat) (exponent : Int) : Decidable (Canonical mantissa exponent) :=
  inferInstanceAs (Decidable (_ ∨ _))

end Binary64

structure Binary64 where
  negative : Bool
  mantissa : Nat
  exponent : Int
  canonical : Binary64.Canonical mantissa exponent
  deriving DecidableEq

namespace Binary64

def zero (negative : Bool) : Binary64 := ⟨negative, 0, 0, Or.inl ⟨rfl, rfl⟩⟩

instance : Inhabited Binary64 := ⟨zero false⟩

/-- The number with these parts, if there is one. -/
def ofParts (negative : Bool) (mantissa : Nat) (exponent : Int) : Option Binary64 :=
  if h : Canonical mantissa exponent then some ⟨negative, mantissa, exponent, h⟩ else none

def isZero (d : Binary64) : Bool := d.mantissa == 0

/-- The number without the sign of a zero, which comparison does not see. -/
def dropZeroSign (d : Binary64) : Binary64 := if d.isZero then zero false else d

/-- The fraction `num / (den * 2 ^ e)`. -/
def scaled (num den : Nat) (e : Int) : Nat × Nat :=
  if 0 ≤ e then (num, den * powTwo e.toNat) else (num * powTwo (-e).toNat, den)

/-- The integer nearest to `num / den`, a half going to the even neighbour. -/
def roundEven (num den : Nat) : Nat :=
  let q := num / den
  let twice := 2 * (num % den)
  if twice < den ∨ (twice = den ∧ q % 2 = 0) then q else q + 1

/-- The power of two that brings `num / den` between `2 ^ 52` and `2 ^ 53`, or the least one. -/
def unitExponent (num den : Nat) : Int :=
  let guess : Int := (num.log2 : Int) - den.log2 - 52
  let s := scaled num den guess
  max (-1074) (if s.1 < powTwo 52 * s.2 then guess - 1 else guess)

/-- The number nearest to `num / den`, unless it is too large. -/
def ofFraction (negative : Bool) (num den : Nat) : Option Binary64 :=
  let e := unitExponent num den
  let s := scaled num den e
  let m := roundEven s.1 s.2
  if m = 0 then some (zero negative)
  else if m = powTwo 53 then ofParts negative (powTwo 52) (e + 1)
  else ofParts negative m e

def numerator (d : Binary64) : Nat :=
  if 0 ≤ d.exponent then d.mantissa * powTwo d.exponent.toNat else d.mantissa

def denominator (d : Binary64) : Nat :=
  if 0 ≤ d.exponent then 1 else powTwo (-d.exponent).toNat

def mul (a b : Binary64) : Option Binary64 :=
  ofFraction (a.negative != b.negative) (a.numerator * b.numerator) (a.denominator * b.denominator)

def div (a b : Binary64) : Option Binary64 :=
  ofFraction (a.negative != b.negative) (a.numerator * b.denominator) (a.denominator * b.numerator)

def powerOfTen (k : Nat) : Binary64 := (ofFraction false (powTen k) 1).getD default

/-- `d` times ten to the `e`, in steps of at most 308 places, each step rounded. -/
def shiftDecimal (d : Binary64) (e : Int) : Option Binary64 :=
  if e.natAbs ≤ 308 then
    if 0 ≤ e then d.mul (powerOfTen e.natAbs) else d.div (powerOfTen e.natAbs)
  else if d.isZero then some d
  else if 0 ≤ e then none
  else (d.div (powerOfTen 308)).bind (shiftDecimal · (e + 308))
  termination_by e.natAbs

/-- The number read from the digits `significand` with the decimal point moved by `e` places. The
significand is rounded first and the power of ten applied to the result. -/
def ofDecimal (negative : Bool) (significand : Nat) (e : Int) : Option Binary64 :=
  ((ofFraction false significand 1).bind (shiftDecimal · e)).map ({ · with negative := negative })

end Binary64

end ListRepeater
