import SharedHeap.Allocator.Block
import SharedHeap.Region.Obtain

/-!
# Allocators

An allocator hands out blocks of one region and takes them back. All that it knows lies in the bytes
of the region, so several allocators over the same bytes act as one, and an allocator attached to a
copy of the bytes goes on where the first one stood.
-/

namespace SharedHeap.Allocator

variable {ε : Type}

/-- The smallest region that holds the header and one block. -/
def minRegionSize : Nat := Header.dataStart + 16

/-- The bytes of the allocator's region and what lies behind them in the same segment. -/
def bytes (a : Allocator) (p : Process) : Bytes := p.bytes a.region.segment

def id (a : Allocator) (p : Process) : AllocatorId := Header.id (a.bytes p)

/-- Whether a region is large enough and starts on a page boundary. -/
def check (r : Region) : Action Process MemoryError Unit := do
  let p ← .get
  if r.length < minRegionSize then
    .throw (.regionTooSmall r.length minRegionSize)
  else if p.isAligned r.base Region.alignment then
    pure ()
  else
    .throw (.invalidAlignment Region.alignment)

/-- Formats a region, whatever it held. -/
def create (id : AllocatorId) (r : Region) : Action Process MemoryError Allocator := do
  check r
  .modify fun p =>
    p.setBytes r.segment (Header.format (p.bytes r.segment) id (.ofNat r.length))
  Process.say .info Block.speaker do
    return s!"created region allocator {id} over {r.length} bytes"
  pure ⟨r⟩

/-- Takes over a region that was formatted before, with the length that it has. -/
def attach (r : Region) : Action Process MemoryError Allocator := do
  check r
  let p ← .get
  let b := p.bytes r.segment
  if Header.hasMark b ∧ (Header.capacity b).toNat = r.length then
    Process.say .info Block.speaker do
      let p ← .get
      return s!"attached region allocator {Header.id (p.bytes r.segment)} at {Address.text}"
    pure ⟨r⟩
  else
    .throw .invalidRegion

def new (id : AllocatorId) (length : Nat) : Action Process MemoryError Allocator := do
  create id (← Region.new length)

def contains (a : Allocator) (x : Address) : Bool := a.region.contains x

def toOffset (a : Allocator) (x : Address) : Offset := a.region.toOffset x

def toAddress (a : Allocator) (o : Offset) : Address := a.region.toAddress o

/-- Hands out a block for a layout, by its address and its offset. -/
def allocate (a : Allocator) (l : Layout) : Action Process MemoryError (Address × Offset) := do
  let o ← Process.onBytes a.region.segment fun level => Block.allocate level l
  pure (.place a.region.segment o.toNat, o)

/-- Takes back the block at an address. What no block was ever handed out for, an alignment beyond a
page or an address outside the region, is reported and ignored. -/
def free (a : Allocator) (x : Address) (l : Layout) : Action Process ε Unit := do
  match ← Action.attempt (SizeClass.request l) with
  | .error _ =>
    Process.say .warn Block.speaker do
      return s!"free with unsupported layout {l.shown} ignored"
  | .ok c =>
    let o := a.toOffset x
    if o.isNull then
      Process.say .warn Block.speaker do
        return s!"allocator {a.id (← .get)}: free of foreign pointer {Address.text} ignored"
    else
      Process.onBytes a.region.segment fun level => Block.release level c o

/-- The address of an object with a layout at an offset, if it lies inside the region as a whole and
is aligned. An object of no bytes has to lie inside as one of one byte does. -/
def resolve (a : Allocator) (p : Process) (o : Offset) (l : Layout) : Option Address :=
  let start := a.toAddress o
  if start.isNull || !p.isAligned start l.align then none
  else if a.contains (start.add (Int.ofNat (l.size - 1))) then some start
  else none

/-- The bytes between the cursor and the end of the region. -/
def remaining (a : Allocator) : Action Process ε Nat :=
  Process.onBytes a.region.segment fun _ => Block.remaining

/-- What an allocator has counted. -/
structure Stats where
  allocations : UInt64
  frees : UInt64
  bytesInUse : UInt64
  capacity : UInt64
deriving DecidableEq, Repr, Inhabited

def Stats.ofBytes (b : Bytes) : Stats where
  allocations := Header.allocations b
  frees := Header.frees b
  bytesInUse := Header.bytesInUse b
  capacity := Header.capacity b

def stats (a : Allocator) (p : Process) : Stats := .ofBytes (a.bytes p)

/-- How many blocks are handed out. -/
def Stats.live {σ : Type} (s : Stats) : Action σ ε Nat := do
  .require (s.frees ≤ s.allocations) .overflow
  pure (s.allocations.toNat - s.frees.toNat)

def Stats.shown (s : Stats) : String :=
  showFields "AllocStats" [("allocations", toString s.allocations.toNat),
    ("frees", toString s.frees.toNat), ("bytes_in_use", toString s.bytesInUse.toNat),
    ("capacity", toString s.capacity.toNat)]

/-- An allocator as a shown value, by its identity alone. -/
def shownById (a : Allocator) (p : Process) : String :=
  showFields "Allocator" [("id", (a.id p).shown)]

/-- An allocator as a shown value, with its region and its counters. -/
def shown (a : Allocator) (p : Process) : String :=
  showFields "RegionAllocator" [("id", (a.id p).shown), ("region", a.region.shown),
    ("stats", (a.stats p).shown)]

end SharedHeap.Allocator
