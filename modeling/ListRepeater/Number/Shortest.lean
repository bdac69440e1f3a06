import ListRepeater.Number.Binary64
/-!
# Shortest decimal text of a floating-point number

The text of a number has the fewest digits that read back as that number. Among decimals of that
length the nearest is taken, and of two equally near the one whose last digit is even.
-/
namespace ListRepeater.Binary64

/-- The reals that round to a number, as fractions over a common power of two, and whether the end
points belong to them. -/
structure Interval where
  low : Nat
  value : Nat
  high : Nat
  unit : Int
  closed : Bool

/-- Half way to the neighbours on both sides. Below a power of two the neighbours are twice as
dense. -/
def interval (d : Binary64) : Interval :=
  let atPower := d.mantissa == powTwo 52 && d.exponent > -1074
  { low := 4 * d.mantissa - (if atPower then 1 else 2)
    value := 4 * d.mantissa
    high := 4 * d.mantissa + 2
    unit := d.exponent - 2
    closed := d.mantissa % 2 == 0 }

/-- A decimal with integer digits `digits` and its last digit at `10 ^ place`. -/
structure Decimal where
  digits : Nat
  place : Int
  deriving DecidableEq

/-- Both sides of a comparison of `x * 2 ^ unit` with `c * 10 ^ place`, cleared of fractions. -/
def crossed (x : Nat) (unit : Int) (c : Nat) (place : Int) : Nat × Nat :=
  (x * powTwo unit.toNat * powTen (-place).toNat, c * powTen place.toNat * powTwo (-unit).toNat)

def Interval.contains (i : Interval) (c : Nat) (place : Int) : Bool :=
  let l := crossed i.low i.unit c place
  let h := crossed i.high i.unit c place
  if i.closed then l.1 ≤ l.2 && h.2 ≤ h.1 else l.1 < l.2 && h.2 < h.1

/-- The position of the leading decimal digit of `num / den`. -/
def leadingPlace (num den : Nat) : Int :=
  if den ≤ num then ((Nat.toDigits 10 (num / den)).length : Int) - 1
  else -(((List.range 400).find? fun j => den ≤ num * powTen j).getD 0 : Nat)

/-- The decimals just below and just above the number with last digit at `10 ^ place`. -/
def neighbour? (i : Interval) (place : Int) : Option Decimal :=
  let v := crossed i.value i.unit 1 place
  let below := v.1 / v.2
  let above := below + 1
  match i.contains below place, i.contains above place with
  | true, true =>
    let twice := 2 * (v.1 % v.2)
    if twice < v.2 ∨ (twice = v.2 ∧ below % 2 = 0) then some ⟨below, place⟩ else some ⟨above, place⟩
  | true, false => some ⟨below, place⟩
  | false, true => some ⟨above, place⟩
  | false, false => none

/-- The decimal of fewest digits; seventeen always suffice. -/
def shortest (d : Binary64) : Decimal :=
  let i := d.interval
  let lead := leadingPlace d.numerator d.denominator
  ((List.range 17).findSome? fun (n : Nat) => neighbour? i (lead - n)).getD ⟨0, 0⟩

/-- Where a decimal is written out and where it takes an exponent. -/
structure Layout where
  leastPlace : Int
  greatestPlace : Int

/-- Numbers from `0.00001` up to below `10 ^ 16` are written out. -/
def layout : Layout := ⟨-5, 15⟩

def zeros (n : Nat) : List Char := List.replicate n '0'

def exponentText (e : Int) : List Char :=
  'e' :: (if 0 ≤ e then '+' else '-') :: Nat.toDigits 10 e.natAbs

/-- Digits `ds`, the first of them at `10 ^ lead`, with a fraction or an exponent in any case. -/
def layOut (ds : List Char) (lead : Int) : List Char :=
  if layout.leastPlace ≤ lead ∧ lead ≤ layout.greatestPlace then
    if lead < 0 then '0' :: '.' :: zeros (-lead - 1).toNat ++ ds
    else
      let whole := lead.toNat + 1
      if ds.length ≤ whole then ds ++ zeros (whole - ds.length) ++ ['.', '0']
      else ds.take whole ++ '.' :: ds.drop whole
  else
    match ds with
    | [] => []
    | [c] => c :: exponentText lead
    | c :: rest => c :: '.' :: rest ++ exponentText lead

def magnitudeText (d : Binary64) : List Char :=
  if d.isZero then ['0', '.', '0']
  else
    let s := d.shortest
    let ds := Nat.toDigits 10 s.digits
    let lead := s.place + ds.length - 1
    layOut ((ds.reverse.dropWhile (· == '0')).reverse) lead

def text (d : Binary64) : List Char :=
  if d.negative then '-' :: d.magnitudeText else d.magnitudeText

end ListRepeater.Binary64
