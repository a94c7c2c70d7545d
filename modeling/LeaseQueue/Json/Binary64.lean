/-!
# Binary floating point numbers

Numbers of 53 significant bits, held as sign, mantissa and exponent. A decimal
is read as the nearest of them, a tie going to the even mantissa, and one is
written with the fewest digits that read back as the same number.
-/

namespace LeaseQueue

/-- The number `mantissa · 2 ^ exponent`, negated if `negative`. The mantissa is below `2 ^ 53`, and
from `2 ^ 52` unless the exponent is the least one. -/
structure Binary64 where
  /-- Whether the number is negative; zero has a sign too. -/
  negative : Bool
  /-- The significant bits. -/
  mantissa : Nat
  /-- The power of two they are scaled by. -/
  exponent : Int
deriving Repr, DecidableEq

namespace Binary64

def leastExponent : Int := -1074

def greatestExponent : Int := 971

/-- The least mantissa of a number whose exponent is not the least one. -/
def leastNormal : Nat := 4503599627370496

def zero (negative : Bool) : Binary64 := ⟨negative, 0, leastExponent⟩

/-- The quotient rounded to the nearest whole number, a tie to the even one. -/
def roundDiv (num den : Nat) : Nat :=
  let q := num / den
  let r := num % den
  if 2 * r < den then q
  else if den < 2 * r then q + 1
  else if q % 2 = 0 then q else q + 1

/-- The numerator and denominator of `num / den` scaled by `base ^ (-power)`. -/
def scaleDown (base : Nat) (num den : Nat) (power : Int) : Nat × Nat :=
  if 0 ≤ power then (num, den * base.pow power.toNat) else (num * base.pow (-power).toNat, den)

/-- The greatest power of two that does not exceed the positive quotient `num / den`. -/
def floorLog2 (num den : Nat) : Int :=
  let guess : Int := (num.log2 : Int) - (den.log2 : Int)
  let (n, d) := scaleDown 2 num den guess
  if d ≤ n then guess else guess - 1

/-- The number nearest to `num / den`, unless it is too large. -/
def nearest (negative : Bool) (num den : Nat) : Option Binary64 :=
  if num = 0 then some (zero negative)
  else
    let exponent := max (floorLog2 num den - 52) leastExponent
    let (n, d) := scaleDown 2 num den exponent
    let mantissa := roundDiv n d
    let (mantissa, exponent) :=
      if mantissa = 2 * leastNormal then (leastNormal, exponent + 1) else (mantissa, exponent)
    if greatestExponent < exponent then none else some ⟨negative, mantissa, exponent⟩

/-- The number nearest to `significand · 10 ^ power`, unless it is too large. -/
def ofDecimal (negative : Bool) (significand : Nat) (power : Int) : Option Binary64 :=
  if significand = 0 then some (zero negative)
  else
    let size : Int := (Nat.toDigits 10 significand).length + power
    if 310 < size then none
    else if size < -330 then some (zero negative)
    else
      let (num, den) := scaleDown 10 significand 1 (-power)
      nearest negative num den

/-- How many decimal digits stand before the point of `num / den`; none or fewer for a number below
one. The least `k` with `num / den < 10 ^ k`, searched upward from `k`. -/
def placesFrom (num den : Nat) : Nat → Int → Int
  | 0, k => k
  | fuel + 1, k =>
      let (n, d) := scaleDown 10 num den k
      if n < d then k else placesFrom num den fuel (k + 1)

/-- The interval of quotients that read back as a number: its ends over a common denominator, with
the number itself between them. -/
structure Interval where
  /-- Numerator of the lower end. -/
  low : Nat
  /-- Numerator of the number. -/
  mid : Nat
  /-- Numerator of the upper end. -/
  high : Nat
  /-- The common denominator. -/
  den : Nat
  /-- Whether the ends belong to the interval. -/
  closed : Bool

/-- The interval of a number: half way to its neighbours, the lower one being nearer at a power of
two. -/
def interval (x : Binary64) : Interval :=
  let m := x.mantissa
  let gap := if m = leastNormal && x.exponent != leastExponent then 1 else 2
  let power := x.exponent - 2
  let closed := m % 2 = 0
  if 0 ≤ power then
    let s := Nat.pow 2 power.toNat
    ⟨(4 * m - gap) * s, 4 * m * s, (4 * m + 2) * s, 1, closed⟩
  else
    ⟨4 * m - gap, 4 * m, 4 * m + 2, Nat.pow 2 (-power).toNat, closed⟩

def Interval.holds (i : Interval) (n d : Nat) : Bool :=
  if i.closed then i.low * d ≤ n * i.den && n * i.den ≤ i.high * d
  else i.low * d < n * i.den && n * i.den < i.high * d

/-- The decimals of `count` or more digits, at most `count + fuel - 1`, that lie in an interval: the
digits of the first and nearest one, and its count of places. -/
def shortestFrom (i : Interval) (places : Int) : Nat → Nat → Nat × Int
  | 0, count => (i.mid / i.den, (count : Int))
  | fuel + 1, count =>
      let power := places - count
      let (n, d) := scaleDown 10 i.mid i.den power
      let below := n / d
      let (num, den) := scaleDown 10 1 1 (-power)
      let holdsBelow := i.holds (below * num) den
      let holdsAbove := i.holds ((below + 1) * num) den
      if holdsBelow && holdsAbove then
        let rest := n % d
        if 2 * rest < d || (2 * rest = d && below % 2 = 0) then (below, power)
        else (below + 1, power)
      else if holdsBelow then (below, power)
      else if holdsAbove then (below + 1, power)
      else shortestFrom i places fuel (count + 1)

/-- The digits of a positive number and the power of ten they are scaled by, as few digits as read
back. -/
def shortest (x : Binary64) : Nat × Int :=
  let i := x.interval
  shortestFrom i (placesFrom i.mid i.den 700 (-330)) 17 1

def dropZeros (digits : List Char) : List Char :=
  (digits.reverse.dropWhile (· = '0')).reverse

/-- The text of digits with the point after `places` of them: positional from `10 ^ -5` up to
`10 ^ 16`, with an exponent outside. -/
def layout (digits : List Char) (places : Int) : List Char :=
  let count : Int := digits.length
  if count ≤ places && places ≤ 16 then
    digits ++ List.replicate (places - count).toNat '0' ++ ['.', '0']
  else if 0 < places && places ≤ 16 then
    digits.take places.toNat ++ '.' :: digits.drop places.toNat
  else if -5 < places && places ≤ 0 then
    '0' :: '.' :: (List.replicate (-places).toNat '0' ++ digits)
  else
    let lead := digits.take 1 ++ (if 1 < digits.length then '.' :: digits.drop 1 else [])
    lead ++ 'e' :: (toString (places - 1)).toList

def render (x : Binary64) : List Char :=
  let sign := if x.negative then ['-'] else []
  if x.mantissa = 0 then sign ++ ['0', '.', '0']
  else
    let (digits, power) := x.shortest
    let text := Nat.toDigits 10 digits
    sign ++ layout (dropZeros text) (text.length + power)

end Binary64
end LeaseQueue
