import SharedHeap.Bytes.Word
import SharedHeap.Identity

/-!
# The header of a region

The first bytes of a formatted region hold all that its allocator knows: a mark, the identity, the
capacity, a lock, the cursor behind the last block that was carved, counters, and for each size
class the offset of the first free block. Everything is little-endian; the word with all bits set
ends a chain of free blocks.
-/

namespace SharedHeap.Header

/-- The mark of a formatted region, the letters `SHMREF01`. -/
def mark : UInt64 := 0x31304645524d4853

def classCount : Nat := 28

def markAt : Nat := 0
def majorAt : Nat := 8
def minorAt : Nat := 12
def capacityAt : Nat := 16
def lockAt : Nat := 24
def cursorAt : Nat := 32
def allocationsAt : Nat := 40
def freesAt : Nat := 48
def bytesInUseAt : Nat := 56
def freeHeadAt (index : Nat) : Nat := 64 + 8 * index

def size : Nat := freeHeadAt classCount

/-- Where the first block lies: behind the header, on a boundary of 64 bytes. -/
def dataStart : Nat := 320

/-- The end of a chain of free blocks. -/
def nil : UInt64 := 0xffffffffffffffff

def hasMark (b : Bytes) : Bool := b.word markAt == mark

def id (b : Bytes) : AllocatorId := ⟨b.halfWord majorAt, b.halfWord minorAt⟩

def capacity (b : Bytes) : UInt64 := b.word capacityAt

/-- Zero while nobody holds the lock, and one while somebody does. -/
def lock (b : Bytes) : UInt32 := b.halfWord lockAt

def cursor (b : Bytes) : UInt64 := b.word cursorAt

def allocations (b : Bytes) : UInt64 := b.word allocationsAt

def frees (b : Bytes) : UInt64 := b.word freesAt

def bytesInUse (b : Bytes) : UInt64 := b.word bytesInUseAt

def freeHead (b : Bytes) (index : Nat) : UInt64 := b.word (freeHeadAt index)

def setLock (b : Bytes) (w : UInt32) : Bytes := b.setHalfWord lockAt w

def setCursor (b : Bytes) (w : UInt64) : Bytes := b.setWord cursorAt w

def setFreeHead (b : Bytes) (index : Nat) (w : UInt64) : Bytes := b.setWord (freeHeadAt index) w

/-- One more block of `size` bytes is in use. Counters wrap. -/
def countAllocation (b : Bytes) (size : UInt64) : Bytes :=
  (b.setWord allocationsAt (allocations b + 1)).setWord bytesInUseAt (bytesInUse b + size)

/-- A block of `size` bytes was returned. Counters wrap. -/
def countFree (b : Bytes) (size : UInt64) : Bytes :=
  (b.setWord freesAt (frees b + 1)).setWord bytesInUseAt (bytesInUse b - size)

/-- The header of a region in which no block was carved yet. -/
def fresh (id : AllocatorId) (capacity : UInt64) : List UInt8 :=
  bytesOfWord mark ++ toBytesLE 4 id.major.toNat ++ toBytesLE 4 id.minor.toNat ++
  bytesOfWord capacity ++ toBytesLE 4 0 ++ toBytesLE 4 0 ++ bytesOfWord (.ofNat dataStart) ++
  bytesOfWord 0 ++ bytesOfWord 0 ++ bytesOfWord 0 ++
  (List.replicate classCount nil).flatMap bytesOfWord

@[simp] theorem length_fresh (id : AllocatorId) (capacity : UInt64) :
    (fresh id capacity).length = size := by
  simp [fresh, classCount, size, freeHeadAt]

/-- Formats bytes; those behind the header keep what they held. -/
def format (b : Bytes) (id : AllocatorId) (capacity : UInt64) : Bytes :=
  b.write 0 (fresh id capacity)

@[simp] theorem size_format (b : Bytes) (id : AllocatorId) (capacity : UInt64) :
    (format b id capacity).size = b.size := Bytes.size_write ..

theorem lock_setLock {b : Bytes} {w : UInt32} (h : size ≤ b.size) : lock (setLock b w) = w :=
  Bytes.halfWord_setHalfWord_self (by
    simp only [lockAt]
    have : size = 288 := rfl
    omega)

@[simp] theorem size_setLock (b : Bytes) (w : UInt32) : (setLock b w).size = b.size := by
  simp [setLock]

@[simp] theorem size_countAllocation (b : Bytes) (n : UInt64) :
    (countAllocation b n).size = b.size := by simp [countAllocation]

@[simp] theorem size_countFree (b : Bytes) (n : UInt64) : (countFree b n).size = b.size := by
  simp [countFree]

end SharedHeap.Header
