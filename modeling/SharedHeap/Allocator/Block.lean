import SharedHeap.Allocator.Header
import SharedHeap.Allocator.SizeClass

/-!
# Blocks

Taking and returning blocks, on the bytes of a formatted region. A returned block stores the offset
of the next free block of its class in its first eight bytes; the last one returned is the first to
be handed out again. When no block of the class is free, a new one is carved behind the cursor. Both
happen under the lock in the header; the counters change without it. What there is to tell passes a
filter at a level that is given.
-/

namespace SharedHeap.Block

open Log (Level)

def speaker : String := "shmref_mem::region_alloc"

/-- The bytes between the cursor and the end of the region. -/
def remaining {ε : Type} : Action Bytes ε Nat := do
  let b ← .get
  let capacity := (Header.capacity b).toNat
  let cursor := (Header.cursor b).toNat
  .require (cursor ≤ capacity) .overflow
  pure (capacity - cursor)

/-- Takes the first free block of a class off its chain. -/
def reuse (c : SizeClass) (head : UInt64) : Action Bytes MemoryError UInt64 := do
  let b ← .get
  .require (head.toNat + 8 ≤ b.size) .wildAccess
  .set (Header.setFreeHead b c.index (b.word head.toNat))
  pure head

/-- Where a block of the class would begin behind a cursor. -/
def carveStart (c : SizeClass) (cursor : Nat) : Nat := roundUp cursor c.blockAlign

/-- Carves a block of a class behind the cursor. -/
def carve (level : Level) (c : SizeClass) : Action Bytes MemoryError UInt64 := do
  let b ← .get
  let cursor := (Header.cursor b).toNat
  .require (cursor + c.blockAlign < 2 ^ 64) .overflow
  let start := carveStart c cursor
  let stop := min (start + c.blockSize) (2 ^ 64 - 1)
  if (Header.capacity b).toNat < stop then
    .tell level .warn speaker do
      let free ← remaining
      return s!"allocator {Header.id b} exhausted: {c.blockSize} bytes requested, {free} free"
    .throw (.outOfMemory c.blockSize (← remaining))
  else
    .set (Header.setCursor b (.ofNat stop))
    pure (.ofNat start)

/-- Runs an action with the lock held. The lock is given back however the action ends. Whoever else
holds it never comes back, so there is no waiting for it. -/
def locked {ε α : Type} (x : Action Bytes ε α) : Action Bytes ε α := do
  let b ← .get
  .require (Header.lock b = 0) .lockHeld
  .set (Header.setLock b 1)
  x.afterwards fun b => Header.setLock b 0

/-- Takes a block for a layout and answers its offset. -/
def allocate (level : Level) (l : Layout) : Action Bytes MemoryError Offset := do
  let c ← SizeClass.request l
  if Header.classCount ≤ c.index then
    .throw (.outOfMemory c.blockSize (← remaining))
  else
    let off ← locked do
      let head := Header.freeHead (← .get) c.index
      if head = Header.nil then carve level c else reuse c head
    .modify fun b => Header.countAllocation b (.ofNat c.blockSize)
    .tell level .trace speaker do
      let b ← .get
      return s!"allocator {Header.id b}: {c.blockSize} byte block at {Text.hex off.toNat}"
    pure ⟨off⟩

/-- Puts the block at an offset in front of the chain of its class. -/
def release {ε : Type} (level : Level) (c : SizeClass) (o : Offset) : Action Bytes ε Unit := do
  locked do
    .require (c.index < Header.classCount) .noSuchClass
    let b ← .get
    .require (o.toNat + 8 ≤ b.size) .wildAccess
    let linked := b.setWord o.toNat (Header.freeHead b c.index)
    .set (Header.setFreeHead linked c.index o.word)
  .modify fun b => Header.countFree b (.ofNat c.blockSize)
  .tell level .trace speaker do
    let b ← .get
    return s!"allocator {Header.id b}: freed {c.blockSize} byte block at {o}"

end SharedHeap.Block
