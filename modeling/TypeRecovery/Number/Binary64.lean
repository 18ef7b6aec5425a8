/-!
# Double-precision numbers

A double is kept as its bit pattern. Reading a decimal rounds to the nearest double, ties to the
even significand. The digits of a double are the fewest that read back as the same double, and of
those the nearest to its value. All arithmetic is on natural numbers.
-/
namespace TypeRecovery.Number

structure Binary64 where
  bits : UInt64
  deriving DecidableEq

namespace Binary64

def pow2 (n : Nat) : Nat := Nat.pow 2 n
def pow10 (n : Nat) : Nat := Nat.pow 10 n

def hiddenBit : Nat := pow2 52

def isNegative (x : Binary64) : Bool := x.bits.toNat / pow2 63 == 1
def exponentField (x : Binary64) : Nat := x.bits.toNat / pow2 52 % pow2 11
def fraction (x : Binary64) : Nat := x.bits.toNat % pow2 52
def isSpecial (x : Binary64) : Bool := x.exponentField == 2047
def isNaN (x : Binary64) : Bool := x.isSpecial && x.fraction != 0
def isZero (x : Binary64) : Bool := x.exponentField == 0 && x.fraction == 0

def significand (x : Binary64) : Nat :=
  if x.exponentField == 0 then x.fraction else x.fraction + hiddenBit

/-- A finite double is its significand times two to the power of its scale. -/
def scale (x : Binary64) : Int :=
  if x.exponentField == 0 then -1074 else (x.exponentField : Int) - 1075

/-- Whether `x` is a number less than one. -/
def isBelowOne (x : Binary64) : Bool :=
  !x.isNaN && (x.isNegative || x.exponentField < 1023)

/-- The least natural number that is not less than the finite, nonnegative `x`. -/
def ceiling (x : Binary64) : Nat :=
  let d := pow2 (-x.scale).toNat
  (x.significand * pow2 x.scale.toNat + d - 1) / d

def pack (negative : Bool) (magnitude : Nat) : Binary64 :=
  ⟨UInt64.ofNat (magnitude + if negative then pow2 63 else 0)⟩

def infinity (negative : Bool) : Binary64 := pack negative (2047 * pow2 52)
def nan : Binary64 := pack false (2047 * pow2 52 + pow2 51)

/-- The quotient rounded to the nearest integer, a half to the even one. -/
def roundDiv (num den : Nat) : Nat :=
  let q := num / den
  let r := num % den
  if 2 * r > den || (2 * r == den && q % 2 == 1) then q + 1 else q

/-- `num / den / 2 ^ q`, as a quotient of natural numbers. -/
def scaled (num den : Nat) (q : Int) : Nat × Nat :=
  if q ≥ 0 then (num, den * pow2 q.toNat) else (num * pow2 (-q).toNat, den)

/-- The double nearest to the positive quotient `num / den`. -/
def ofRatio (negative : Bool) (num den : Nat) : Binary64 :=
  let l : Int := (num.log2 : Int) - den.log2
  let wide := scaled num den (l - 53)
  let q := max (if wide.1 / wide.2 ≥ pow2 53 then l - 52 else l - 53) (-1074)
  let ratio := scaled num den q
  let m := roundDiv ratio.1 ratio.2
  let magnitude := if m < hiddenBit then m else (q + 1074).toNat * pow2 52 + m
  if magnitude ≥ 2047 * pow2 52 then infinity negative else pack negative magnitude

def decimalLength (n : Nat) : Nat := (Nat.toDigits 10 n).length

/-- The double nearest to `digits * 10 ^ exponent`. -/
def ofDecimal (negative : Bool) (digits : Nat) (exponent : Int) : Binary64 :=
  let size := (decimalLength digits : Int) + exponent
  if digits == 0 || size < -330 then pack negative 0
  else if size > 310 then infinity negative
  else if exponent ≥ 0 then ofRatio negative (digits * pow10 exponent.toNat) 1
  else ofRatio negative digits (pow10 (-exponent).toNat)

/-- A decimal `digits * 10 ^ exponent`. -/
structure Decimal where
  digits : Nat
  exponent : Int

/-- Four times the lower end, the value and the upper end of the interval of numbers that round to
`x`, over one denominator. -/
structure Interval where
  low : Nat
  value : Nat
  high : Nat
  den : Nat
  closed : Bool

def interval (x : Binary64) : Interval :=
  let m := x.significand
  let low := if x.fraction == 0 && x.exponentField > 1 then 4 * m - 1 else 4 * m - 2
  let e := x.scale - 2
  let up := if e ≥ 0 then pow2 e.toNat else 1
  let den := if e ≥ 0 then 1 else pow2 (-e).toNat
  ⟨low * up, 4 * m * up, (4 * m + 2) * up, den, m % 2 == 0⟩

/-- Compares `d * 10 ^ k` with the interval. -/
def Interval.contains (i : Interval) (d : Nat) (k : Int) : Bool :=
  let x := if k ≥ 0 then d * pow10 k.toNat * i.den else d * i.den
  let s := if k ≥ 0 then 1 else pow10 (-k).toNat
  if i.closed then i.low * s ≤ x && x ≤ i.high * s else i.low * s < x && x < i.high * s

/-- The largest `e` with `10 ^ e` at most the value. -/
def Interval.magnitude (i : Interval) : Int :=
  let a := decimalLength i.value
  let b := decimalLength i.den
  let e : Int := (a : Int) - b
  let fits := if e ≥ 0 then i.den * pow10 e.toNat ≤ i.value else i.den ≤ i.value * pow10 (-e).toNat
  if fits then e else e - 1

/-- The decimal with `n` digits nearest to the value among the two neighbours inside the interval. -/
def Interval.pick (i : Interval) (n : Nat) : Option Decimal :=
  let k := i.magnitude - ((n : Int) - 1)
  let num := if k ≥ 0 then i.value else i.value * pow10 (-k).toNat
  let den := if k ≥ 0 then i.den * pow10 k.toNat else i.den
  let below := num / den
  let nearest := roundDiv num den
  let other := if nearest == below then below + 1 else below
  if i.contains nearest k then some ⟨nearest, k⟩
  else if i.contains other k then some ⟨other, k⟩
  else none

/-- The shortest decimal that reads back as the finite, nonzero double `x`, without its sign. -/
def shortest (x : Binary64) : Decimal :=
  let i := x.interval
  ((List.range 17).findSome? fun n => i.pick (n + 1)).getD ⟨0, 0⟩

/-- The digits without trailing zeros, and the power of ten of the first digit. -/
def Decimal.normal (d : Decimal) : List Char × Int :=
  let ds := Nat.toDigits 10 d.digits
  let kept := (ds.reverse.dropWhile (· == '0')).reverse
  (kept, d.exponent + (ds.length : Int) - 1)

def padLeft (width : Nat) (cs : List Char) : List Char :=
  List.replicate (width - cs.length) '0' ++ cs

def exponentText (e : Int) : List Char :=
  (if e < 0 then '-' else '+') :: padLeft 2 (Nat.toDigits 10 e.natAbs)

/-- Numbers from `0.0001` up to below ten to the sixteenth are written positionally, with at least
one place behind the point; the others have one digit before the point and an exponent. -/
def layout (digits : List Char) (e : Int) : List Char :=
  if e < -4 || e ≥ 16 then
    digits.take 1 ++ (if digits.length > 1 then '.' :: digits.drop 1 else []) ++
      'e' :: exponentText e
  else if e < 0 then
    '0' :: '.' :: List.replicate (-e - 1).toNat '0' ++ digits
  else
    let places := e.toNat + 1
    let whole := digits.take places ++ List.replicate (places - digits.length) '0'
    let rest := digits.drop places
    whole ++ '.' :: (if rest.isEmpty then ['0'] else rest)

def toText (x : Binary64) : String :=
  if x.isNaN then "nan"
  else
    let sign := if x.isNegative then "-" else ""
    if x.isSpecial then sign ++ "inf"
    else if x.isZero then sign ++ "0.0"
    else
      let (digits, e) := x.shortest.normal
      sign ++ String.ofList (layout digits e)

end Binary64

end TypeRecovery.Number
