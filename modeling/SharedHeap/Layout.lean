/-!
# Layouts

The size and alignment of a block of memory, and the arithmetic of rounding to powers of two.
-/

namespace SharedHeap

/-- The largest size that any object may have once it is rounded up to its alignment. -/
def maxObjectSize : Nat := 2 ^ 63 - 1

/-- The least multiple of `align` that is not below `n`. -/
def roundUp (n align : Nat) : Nat := (n + align - 1) / align * align

theorem le_roundUp (n : Nat) {align : Nat} (h : 0 < align) : n ≤ roundUp n align := by
  have := Nat.div_add_mod (n + align - 1) align
  have := Nat.mod_lt (n + align - 1) h
  rw [roundUp, Nat.mul_comm]
  omega

theorem roundUp_lt_add (n : Nat) {align : Nat} (h : 0 < align) : roundUp n align < n + align := by
  have := Nat.div_mul_le_self (n + align - 1) align
  rw [roundUp]
  omega

theorem dvd_roundUp (n align : Nat) : align ∣ roundUp n align := Nat.dvd_mul_left ..

/-- The least exponent whose power of two is not below `n`. -/
def ceilLog2 (n : Nat) : Nat := if n ≤ 1 then 0 else (n - 1).log2 + 1

theorem le_two_pow_ceilLog2 (n : Nat) : n ≤ 2 ^ ceilLog2 n := by
  rw [ceilLog2]
  split
  · next h => simpa using h
  · next h =>
    have : n - 1 < 2 ^ ((n - 1).log2 + 1) := Nat.lt_log2_self
    omega

/-- No smaller exponent will do. -/
theorem ceilLog2_le {n k : Nat} (h : n ≤ 2 ^ k) : ceilLog2 n ≤ k := by
  rw [ceilLog2]
  split
  · exact Nat.zero_le k
  · next hn =>
    have h₁ : 2 ^ (n - 1).log2 ≤ n - 1 := Nat.log2_self_le (by omega)
    have h₂ : 2 ^ (n - 1).log2 < 2 ^ k := by omega
    exact (Nat.pow_lt_pow_iff_right (by decide)).1 h₂

structure Layout where
  size : Nat
  align : Nat
deriving DecidableEq, Repr, Inhabited

namespace Layout

def isPowerOfTwo (n : Nat) : Bool := 0 < n && 2 ^ n.log2 == n

/-- The alignment is a power of two, and the size rounded up to it is a size an object may have. -/
def Valid (l : Layout) : Prop := isPowerOfTwo l.align ∧ l.size + (l.align - 1) ≤ maxObjectSize

instance (l : Layout) : Decidable l.Valid := inferInstanceAs (Decidable (_ ∧ _))

/-- The layout of a size and an alignment, unless there is none. -/
def ofSizeAlign? (size align : Nat) : Option Layout :=
  if (Layout.mk size align).Valid then some ⟨size, align⟩ else none

/-- The layout of `n` elements in a row, unless there is none. -/
def array? (elem : Layout) (n : Nat) : Option Layout := ofSizeAlign? (elem.size * n) elem.align

/-- The layout as a shown value, with the exponent of its alignment. -/
def shown (l : Layout) : String :=
  "Layout \x7b size: " ++ toString l.size ++ ", align: " ++ toString l.align ++ " (1 << " ++
    toString l.align.log2 ++ ") \x7d"

end Layout

end SharedHeap
