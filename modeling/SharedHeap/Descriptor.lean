import SharedHeap.Error
import SharedHeap.Fingerprint

/-!
# Descriptors

A descriptor names an object for every process: by the identity of the allocator that it was built
in and by its offset in that allocator's region. A descriptor with a null offset names nothing,
whatever its identity.
-/

namespace SharedHeap

structure Descriptor where
  id : AllocatorId
  offset : Offset
deriving DecidableEq, Repr

namespace Descriptor

def null : Descriptor := ⟨.null, .null⟩

instance : Inhabited Descriptor := ⟨null⟩

def isNull (d : Descriptor) : Bool := d.offset.isNull

/-- `0x140@1.0`. -/
def text (d : Descriptor) : String := s!"{d.offset}@{d.id}"

/-- The sixteen bytes that a descriptor is stored as. -/
def encode (d : Descriptor) : List UInt8 :=
  toBytesLE 4 d.id.major.toNat ++ toBytesLE 4 d.id.minor.toNat ++ bytesOfWord d.offset.word

/-- The words that a descriptor is hashed as. -/
def words (d : Descriptor) : List UInt64 :=
  Fingerprint.wordsOfId d.id ++ Fingerprint.wordsOfOffset d.offset

/-- Both parts as a shown value. -/
def showAs (name : String) (d : Descriptor) : String :=
  showFields name [("allocator_id", d.id.shown), ("offset", d.offset.shown)]

end Descriptor

/-- A place that holds a descriptor: a plain one, or one whose offset others may replace while it is
looked at. -/
structure DescriptorCell where
  isAtomic : Bool
  value : Descriptor
deriving DecidableEq, Repr, Inhabited

namespace DescriptorCell

def store (c : DescriptorCell) (d : Descriptor) : DescriptorCell := { c with value := d }

/-- Replaces the offset and answers the one before. -/
def swapOffset (c : DescriptorCell) (o : Offset) : Offset × DescriptorCell :=
  (c.value.offset, { c with value := { c.value with offset := o } })

def shown (c : DescriptorCell) : String :=
  c.value.showAs (if c.isAtomic then "AtomicPointer" else "Pointer")

end DescriptorCell

end SharedHeap
