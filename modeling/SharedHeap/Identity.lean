import SharedHeap.Text.Digits

/-!
# Identities and offsets

An allocator has an identity that every process knows it by, and a place in its region is named by
its distance from the start. Neither holds an address, so both may be stored in the region itself.
For each, the value with all bits set names nothing.
-/

namespace SharedHeap

/-- The identity of an allocator. `major` usually names the region and `minor` tells apart the
allocators that share it. -/
structure AllocatorId where
  major : UInt32
  minor : UInt32
deriving DecidableEq, Repr, Inhabited, Hashable

namespace AllocatorId

/-- The identity that names no allocator. -/
def null : AllocatorId := ⟨0xffffffff, 0xffffffff⟩

def isNull (i : AllocatorId) : Bool := i == null

/-- Both parts in one number, `major` in the upper half. -/
def toNat (i : AllocatorId) : Nat := i.major.toNat * 2 ^ 32 + i.minor.toNat

/-- Identities are ordered by `major`, then by `minor`. -/
instance : Ord AllocatorId := ⟨fun i j => compare i.toNat j.toNat⟩

/-- `1.0`, or `null`. -/
def text (i : AllocatorId) : String :=
  if i.isNull then "null" else s!"{i.major.toNat}.{i.minor.toNat}"

instance : ToString AllocatorId := ⟨text⟩

def shown (i : AllocatorId) : String :=
  "AllocatorId \x7b major: " ++ toString i.major.toNat ++ ", minor: " ++ toString i.minor.toNat ++
    " \x7d"

end AllocatorId

/-- A distance in bytes from the start of a region. -/
structure Offset where
  word : UInt64
deriving DecidableEq, Repr, Inhabited

namespace Offset

def toNat (o : Offset) : Nat := o.word.toNat

def ofNat (n : Nat) : Offset := ⟨.ofNat n⟩

theorem toNat_ofNat {n : Nat} (h : n < 2 ^ 64) : (ofNat n).toNat = n :=
  UInt64.toNat_ofNat_of_lt h

@[simp] theorem ofNat_toNat (o : Offset) : ofNat o.toNat = o := by
  simp [ofNat, toNat]

/-- The offset that names no place. -/
def null : Offset := ⟨0xffffffffffffffff⟩

theorem toNat_null : null.toNat = 2 ^ 64 - 1 := rfl

def isNull (o : Offset) : Bool := o == null

theorem isNull_eq_false_of_lt {o : Offset} (h : o.toNat < 2 ^ 64 - 1) : o.isNull = false := by
  rw [isNull, beq_eq_false_iff_ne]
  rintro rfl
  simp [toNat_null] at h

theorem isNull_iff {o : Offset} : o.isNull ↔ o.toNat = 2 ^ 64 - 1 := by
  rw [isNull, beq_iff_eq]
  refine ⟨fun h => h ▸ rfl, fun h => ?_⟩
  rw [← o.ofNat_toNat, h]
  rfl

instance : Ord Offset := ⟨fun o p => compare o.toNat p.toNat⟩

/-- `0x140`, or `null`. -/
def text (o : Offset) : String := if o.isNull then "null" else Text.hex o.toNat

instance : ToString Offset := ⟨text⟩

def shown (o : Offset) : String := s!"OffsetPointer({o.toNat})"

end Offset

end SharedHeap
