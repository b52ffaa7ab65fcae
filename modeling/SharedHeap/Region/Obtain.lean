import SharedHeap.Error
import SharedHeap.Layout
import SharedHeap.Process

/-!
# Obtaining regions

A region is obtained zeroed from the system, which may have no memory to give, filled with a copy of
given bytes, or lent by whoever holds the memory. Obtained regions start on a page boundary.
-/

namespace SharedHeap.Region

/-- Obtains a region that holds a copy of some bytes. -/
def ofBytes (b : Bytes) : Action Process MemoryError Region := do
  if b.size = 0 then
    .throw (.regionTooSmall 0 1)
  else if (Layout.mk b.size alignment).Valid then
    if ← Process.request b.size then
      let segment ← Process.addSegment 0 b
      pure ⟨segment, b.size, true⟩
    else
      .throw (.regionAllocationFailed b.size)
  else
    .throw (.regionAllocationFailed b.size)

def new (length : Nat) : Action Process MemoryError Region := ofBytes (.zeros length)

/-- A region over zeroed memory of somebody else, `skew` bytes behind a page boundary. -/
def lend (skew length : Nat) : Action Process MemoryError Region := do
  let segment ← Process.addSegment skew (.zeros length)
  pure ⟨segment, length, false⟩

/-- The first `length` bytes of a region, lent by it. -/
def view (r : Region) (length : Nat) : Region := ⟨r.segment, length, false⟩

def bytes (r : Region) (p : Process) : Bytes := (p.bytes r.segment).resize r.length

def copy (r : Region) : Action Process MemoryError Region := do
  let p ← .get
  ofBytes (r.bytes p)

/-- Nobody obtains a region of no bytes, or of more than an object may have. Otherwise it is up to
the system. -/
theorem ofBytes_apply (b : Bytes) (p : Process) :
    ofBytes b p =
      if b.size = 0 then ⟨.error (.regionTooSmall 0 1), p, []⟩
      else if (Layout.mk b.size alignment).Valid then
        if p.grants b.size then ⟨.ok ⟨p.segments.size, b.size, true⟩, p.extended b, []⟩
        else ⟨.error (.regionAllocationFailed b.size), p.asked, []⟩
      else ⟨.error (.regionAllocationFailed b.size), p, []⟩ := by
  unfold ofBytes
  split
  · rfl
  · split
    · cases h : p.grants b.size <;>
        simp [Process.request, Process.addSegment, Process.extended, Process.asked, h]
    · rfl

end SharedHeap.Region
