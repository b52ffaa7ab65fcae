import SharedHeap.Action
import SharedHeap.Error
import SharedHeap.Layout

/-!
# Size classes

Blocks come in powers of two, from 16 bytes on. A block starts on a multiple of its size, or of a
page if it is larger than one, so a block of a class serves every request of that class.
-/

namespace SharedHeap

/-- The class of the blocks of `2 ^ (index + 4)` bytes. -/
structure SizeClass where
  index : Nat
deriving DecidableEq, Repr, Inhabited

namespace SizeClass

/-- The largest alignment that a block is guaranteed to have: a page. -/
def maxAlign : Nat := 4096

def blockSize (c : SizeClass) : Nat := 2 ^ (c.index + 4)

def blockAlign (c : SizeClass) : Nat := min c.blockSize maxAlign

/-- How many bytes a block for a layout has to have at least. -/
def need (l : Layout) : Nat := max (max l.size l.align) 16

/-- The class whose blocks serve a layout. -/
def ofLayout (l : Layout) : SizeClass := ⟨ceilLog2 (need l) - 4⟩

/-- The class for a request, unless its alignment is too large. -/
def request {σ : Type} (l : Layout) : Action σ MemoryError SizeClass := do
  if maxAlign < l.align then
    .throw (.invalidAlignment l.align)
  else
    .require (need l ≤ 2 ^ 63) .overflow
    pure (ofLayout l)

theorem sixteen_le_need (l : Layout) : 16 ≤ need l := Nat.le_max_right ..

theorem four_le_ceilLog2_need (l : Layout) : 4 ≤ ceilLog2 (need l) := by
  have h₁ := sixteen_le_need l
  have h₂ := le_two_pow_ceilLog2 (need l)
  have h₃ : 2 ^ 4 ≤ 2 ^ ceilLog2 (need l) := by omega
  exact (Nat.pow_le_pow_iff_right (by decide)).1 h₃

theorem blockSize_ofLayout (l : Layout) : (ofLayout l).blockSize = 2 ^ ceilLog2 (need l) := by
  rw [ofLayout, blockSize, Nat.sub_add_cancel (four_le_ceilLog2_need l)]

/-- A block of the class is large enough. -/
theorem need_le_blockSize (l : Layout) : need l ≤ (ofLayout l).blockSize := by
  rw [blockSize_ofLayout]
  exact le_two_pow_ceilLog2 _

/-- No smaller power of two is large enough. -/
theorem blockSize_le {l : Layout} {k : Nat} (h : need l ≤ 2 ^ k) :
    (ofLayout l).blockSize ≤ 2 ^ k := by
  rw [blockSize_ofLayout]
  exact Nat.pow_le_pow_right (by decide) (ceilLog2_le h)

theorem sixteen_le_blockSize (c : SizeClass) : 16 ≤ c.blockSize := by
  rw [blockSize, Nat.pow_add]
  have := Nat.two_pow_pos c.index
  omega

theorem blockAlign_pos (c : SizeClass) : 0 < c.blockAlign := by
  have := c.sixteen_le_blockSize
  rw [blockAlign, maxAlign]
  omega

end SizeClass

end SharedHeap
