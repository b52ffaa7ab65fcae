import SharedHeap.Identity

/-!
# Errors

`MemoryError` is what regions, allocators and registries answer when they refuse. `HandleError` is
what building or resolving a handle answers: a memory error, or one of the ways in which a
descriptor names nothing.
-/

namespace SharedHeap

inductive MemoryError
  /-- No block of `requested` bytes is free, and `available` bytes were never handed out. -/
  | outOfMemory (requested available : Nat)
  /-- The alignment is none that blocks are guaranteed to have. -/
  | invalidAlignment (alignment : Nat)
  /-- The region has `size` bytes and needs `minimum`. -/
  | regionTooSmall (size minimum : Nat)
  /-- The bytes are no formatted region of this length. -/
  | invalidRegion
  /-- The system provides no region of `size` bytes. -/
  | regionAllocationFailed (size : Nat)
  | allocatorExists (id : AllocatorId)
  | allocatorNotFound (id : AllocatorId)
deriving DecidableEq, Repr, Inhabited

namespace MemoryError

def kind : MemoryError → String
  | outOfMemory .. => "OutOfMemory"
  | invalidAlignment _ => "InvalidAlignment"
  | regionTooSmall .. => "RegionTooSmall"
  | invalidRegion => "InvalidRegion"
  | regionAllocationFailed _ => "RegionAllocationFailed"
  | allocatorExists _ => "AllocatorExists"
  | allocatorNotFound _ => "AllocatorNotFound"

def message : MemoryError → String
  | outOfMemory requested available =>
    s!"Region out of memory: requested {requested} bytes, available {available} bytes"
  | invalidAlignment alignment =>
    s!"Invalid alignment: {alignment} is not a power of two no larger than a page"
  | regionTooSmall size minimum =>
    s!"Region too small: {size} bytes, need at least {minimum} bytes"
  | invalidRegion => "Region does not contain a region allocator header"
  | regionAllocationFailed size => s!"Failed to allocate region of size {size} bytes"
  | allocatorExists id => s!"Allocator {id} is already registered"
  | allocatorNotFound id => s!"Allocator {id} is not registered"

/-- The named parts of an error, each as a shown value. -/
def fields : MemoryError → List (String × String)
  | outOfMemory requested available =>
    [("requested", toString requested), ("available", toString available)]
  | invalidAlignment alignment => [("alignment", toString alignment)]
  | regionTooSmall size minimum => [("size", toString size), ("minimum", toString minimum)]
  | invalidRegion => []
  | regionAllocationFailed size => [("size", toString size)]
  | allocatorExists id => [("id", id.shown)]
  | allocatorNotFound id => [("id", id.shown)]

end MemoryError

/-- A value with named parts, as it is shown: `Name { part: value, part: value }`. -/
def showFields (name : String) (parts : List (String × String)) : String :=
  if parts.isEmpty then name
  else
    name ++ " \x7b " ++ String.intercalate ", " (parts.map fun (k, v) => k ++ ": " ++ v) ++ " \x7d"

def MemoryError.shown (e : MemoryError) : String := showFields e.kind e.fields

inductive HandleError
  | memory (e : MemoryError)
  /-- The descriptor names an allocator that is not registered. -/
  | allocatorNotFound (id : AllocatorId)
  | nullPointer
  /-- The offset is no place for a whole, aligned value in the allocator's region. -/
  | offsetOutOfRange (id : AllocatorId) (offset : Offset)
deriving DecidableEq, Repr, Inhabited

namespace HandleError

def kind : HandleError → String
  | memory e => s!"Memory:{e.kind}"
  | allocatorNotFound _ => "AllocatorNotFound"
  | nullPointer => "NullPointer"
  | offsetOutOfRange .. => "OffsetOutOfRange"

def message : HandleError → String
  | memory e => s!"Allocation failed: {e.message}"
  | allocatorNotFound id => s!"Descriptor names unregistered allocator {id}"
  | nullPointer => "Cannot deserialize a null descriptor"
  | offsetOutOfRange id offset => s!"Offset {offset} is not a valid location in allocator {id}"

def shown : HandleError → String
  | memory e => s!"Memory({e.shown})"
  | allocatorNotFound id => showFields "AllocatorNotFound" [("id", id.shown)]
  | nullPointer => "NullPointer"
  | offsetOutOfRange id offset =>
    showFields "OffsetOutOfRange" [("id", id.shown), ("offset", offset.shown)]

/-- The error that an error passes on. -/
def cause? : HandleError → Option MemoryError
  | memory e => some e
  | _ => none

end HandleError

end SharedHeap
