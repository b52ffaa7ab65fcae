import SharedHeap.Float.Bits

/-!
# The shortest decimal text of a floating-point number

Of the decimal numbers that round to a given floating-point number, the one with the fewest digits
is written, and of those the nearest; of two that are equally near, the one further from zero.
-/

namespace SharedHeap.FloatType

/-- The numbers `x` with `low ≤ x ≤ high` in units of `2 ^ scale`, around `middle`; the ends count
only if `closed`. -/
structure Interval where
  low : Nat
  middle : Nat
  high : Nat
  scale : Int
  closed : Bool

/-- The numbers that round to a finite number other than zero. -/
def rounding (t : FloatType) (bits : Nat) : Interval :=
  let e := t.storedExponent bits
  let f := t.fraction bits
  let m := if e = 0 then f else f + 2 ^ t.fractionBits
  let q : Int := (max e 1 : Nat) - (t.bias + t.fractionBits : Nat)
  let lower := if f = 0 && 1 < e then 1 else 2
  ⟨4 * m - lower, 4 * m, 4 * m + 2, q - 2, m % 2 == 0⟩

/-- `x` units of `2 ^ scale` in units of `10 ^ place`, as a fraction of two natural numbers. -/
def ratio (x : Nat) (scale place : Int) : Nat × Nat :=
  (x * 2 ^ scale.toNat * 10 ^ (-place).toNat, 2 ^ (-scale).toNat * 10 ^ place.toNat)

/-- Whether `d` units of `10 ^ place` lie in an interval. -/
def Interval.holds (i : Interval) (d : Nat) (place : Int) : Bool :=
  let (low, unit) := ratio i.low i.scale place
  let (high, _) := ratio i.high i.scale place
  if i.closed then low ≤ d * unit && d * unit ≤ high else low < d * unit && d * unit < high

/-- The place of the leading digit: the largest `k` from `top` downwards, at most `n` steps, with
`10 ^ k ≤ x`. -/
def leadingPlace (x : Nat) (scale : Int) : Nat → Int → Int
  | 0, top => top
  | n + 1, top =>
    let (num, den) := ratio x scale top
    if den ≤ num then top else leadingPlace x scale n (top - 1)

/-- Tries the two neighbours of the middle on ever finer decimal grids. Half-way between two that
both lie in the interval, the upper one is taken. -/
def shortestFrom (i : Interval) (lead : Int) : Nat → Nat → Nat × Int
  | 0, digits =>
    let place := lead - digits + 1
    let (num, den) := ratio i.middle i.scale place
    ((2 * num + den) / (2 * den), place)
  | n + 1, digits =>
    let place := lead - digits + 1
    let (num, den) := ratio i.middle i.scale place
    let d := num / den
    let below := i.holds d place && d != 0
    let above := i.holds (d + 1) place
    if below && (!above || 2 * (num % den) < den) then (d, place)
    else if above then (d + 1, place)
    else shortestFrom i lead n (digits + 1)

/-- The digits of the shortest decimal, and the place of the last one. -/
def shortest (t : FloatType) (bits : Nat) : Nat × Int :=
  let i := t.rounding bits
  let lead := leadingPlace i.middle i.scale 700 330
  shortestFrom i lead 17 1

/-- Digits with the point behind the first `whole` of them, filled up by zeros so that at least one
digit stands on either side. -/
def positional (digits : List Char) (whole : Int) : String :=
  let front := if whole ≤ 0 then ['0']
    else digits.take whole.toNat ++ .replicate (whole.toNat - digits.length) '0'
  let back := if whole ≤ 0 then .replicate (-whole).toNat '0' ++ digits
    else digits.drop whole.toNat
  .ofList (front ++ ['.'] ++ if back.isEmpty then ['0'] else back)

/-- One digit before the point, and the power of ten behind the mark `e`. -/
def scientific (digits : List Char) (exponent : Int) : String :=
  let mantissa := match digits with
    | [] => []
    | [d] => [d]
    | d :: ds => d :: '.' :: ds
  String.ofList mantissa ++ "e" ++ toString exponent

/-- The text of a number other than NaN, infinity and zero, without its sign: positional from
`0.0001` up to below `1e16`. -/
def magnitude (t : FloatType) (bits : Nat) : String :=
  let (d, place) := t.shortest bits
  let all := Nat.toDigits 10 d
  let digits := (all.reverse.dropWhile (· == '0')).reverse
  let whole : Int := all.length + place
  if whole ≤ -4 || 16 < whole then scientific digits (whole - 1) else positional digits whole

def shown (t : FloatType) (bits : Nat) : String :=
  let mark := if t.isNegative bits then "-" else ""
  if t.isNaN bits then "NaN"
  else if t.storedExponent bits = t.topExponent then mark ++ "inf"
  else if t.isZero bits then mark ++ "0.0"
  else mark ++ t.magnitude bits

end SharedHeap.FloatType
