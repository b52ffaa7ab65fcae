import SharedHeap.Plain.Basic

/-!
# The bits of floating-point numbers

Both formats have a sign, a biased exponent and a fraction. A number other than zero, infinity and
NaN is a whole number times a power of two; whole numbers and numbers of the small format go over
into the large one without rounding.
-/

namespace SharedHeap.FloatType

/-- How many digits the fraction has. -/
def fractionBits : FloatType → Nat
  | f32 => 23
  | f64 => 52

def exponentBits : FloatType → Nat
  | f32 => 8
  | f64 => 11

/-- What the exponent of one is stored as. -/
def bias (t : FloatType) : Nat := 2 ^ (t.exponentBits - 1) - 1

/-- The stored exponent of infinity and of all that is not a number. -/
def topExponent (t : FloatType) : Nat := 2 ^ t.exponentBits - 1

def fraction (t : FloatType) (bits : Nat) : Nat := bits % 2 ^ t.fractionBits

def storedExponent (t : FloatType) (bits : Nat) : Nat :=
  bits / 2 ^ t.fractionBits % 2 ^ t.exponentBits

def isNegative (t : FloatType) (bits : Nat) : Bool :=
  bits / 2 ^ (t.fractionBits + t.exponentBits) % 2 == 1

def isNaN (t : FloatType) (bits : Nat) : Bool :=
  t.storedExponent bits == t.topExponent && t.fraction bits != 0

def isZero (t : FloatType) (bits : Nat) : Bool :=
  t.storedExponent bits == 0 && t.fraction bits == 0

def pack (t : FloatType) (negative : Bool) (exponent fraction : Nat) : Nat :=
  ((if negative then 1 else 0) * 2 ^ t.exponentBits + exponent) * 2 ^ t.fractionBits + fraction

/-- The bits of a number `m * 2 ^ q`, for an `m` other than zero that fits into the fraction and its
leading digit. -/
def ofScaled (t : FloatType) (negative : Bool) (m : Nat) (q : Int) : Nat :=
  let top := m.log2
  let exponent := (q + top + t.bias).toNat
  t.pack negative exponent (m * 2 ^ (t.fractionBits - top) - 2 ^ t.fractionBits)

/-- The bits of a whole number of small size. -/
def ofInt (t : FloatType) (n : Int) : Nat :=
  if n = 0 then 0 else t.ofScaled (n < 0) n.natAbs 0

/-- The bits in the large format of a number in the small one. What is not a number stays what it
was, made quiet. -/
def widen (bits : Nat) : Nat :=
  let s := f32.isNegative bits
  let e := f32.storedExponent bits
  let m := f32.fraction bits
  let shift := f64.fractionBits - f32.fractionBits
  if e = f32.topExponent then
    f64.pack s f64.topExponent
      (if m = 0 then 0 else (m * 2 ^ shift) ||| 2 ^ (f64.fractionBits - 1))
  else if e = 0 then
    if m = 0 then f64.pack s 0 0
    else f64.ofScaled s m (1 - (f32.bias + f32.fractionBits : Nat))
  else
    f64.pack s (e + f64.bias - f32.bias) (m * 2 ^ shift)

/-- Equality of numbers: nothing equals what is not a number, and the two zeros are equal. -/
def same (t : FloatType) (a b : Nat) : Bool :=
  !t.isNaN a && !t.isNaN b && (a == b || (t.isZero a && t.isZero b))

end SharedHeap.FloatType
