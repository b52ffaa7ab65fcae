import SharedHeap.Session.State

/-!
# Answers of a session

What the operations of a session answer. Places are told in the session's terms, so no answer
depends on where a process finds its memory.
-/

namespace SharedHeap

/-- An allocator as answers refer to it: its identity now, and where its region starts. -/
structure AllocatorRef where
  id : AllocatorId
  base : Place
deriving DecidableEq, Repr, Inhabited

/-- What an allocator tells that is no registry's own. -/
structure RegionFacts where
  /-- The bytes behind the cursor. -/
  remaining : Nat
  /-- The allocator as a shown value. -/
  shown : String
  /-- Whether the region is as long as the header says. -/
  isWhole : Bool
deriving DecidableEq, Repr, Inhabited

structure AllocatorFacts where
  id : AllocatorId
  stats : Allocator.Stats
  live : Nat
  /-- The allocator as a shown value, by its identity alone. -/
  shownById : String
  region : Option RegionFacts
deriving DecidableEq, Repr, Inhabited

structure RegistryFacts where
  /-- The registered identities in ascending order. -/
  ids : List AllocatorId
  config : Config
  /-- The registry as a shown value, unless that would depend on the order of registering. -/
  shown : Option String
deriving DecidableEq, Repr, Inhabited

structure HandleFacts where
  target : Target
  kind : Kind
  isOwner : Bool
  isDetached : Bool
  allocator : Option AllocatorRef
  descriptor : Descriptor
  /-- Where the value is that the handle shows. -/
  seen : Place
  value : Option Literal
deriving Repr, Inhabited

structure BareFacts where
  address : Place
  allocator : Option AllocatorRef
  descriptor : Descriptor
  isArchived : Bool
  value : Option Literal
  shown : String
deriving Repr, Inhabited

inductive Answer
  | done
  | flag (b : Bool)
  | text (s : String)
  | fingerprint (w : UInt64)
  | bytes (bs : Option (List UInt8))
  /-- A new or attached allocator, by identity, capacity and the bytes behind the cursor. -/
  | allocator (id : AllocatorId) (capacity remaining : Nat)
  | allocatorFacts (f : AllocatorFacts)
  | block (o : Offset)
  /-- How many blocks were allocated, and the error that ended it. -/
  | filled (count : Nat) (stop : Option MemoryError)
  /-- The offset of an address and whether it lies inside. -/
  | offset (o : Offset) (isInside : Bool)
  | address (p : Place)
  | resolved (p : Option Place)
  | registered (id : AllocatorId)
  | reference (r : Option AllocatorRef)
  | registryFacts (f : RegistryFacts)
  | descriptor (c : DescriptorCell)
  /-- The offset that was replaced. -/
  | replaced (o : Offset)
  | slot (p : Place) (l : Layout)
  | slotDescriptor (d : Descriptor)
  /-- The descriptor of a handle's target and whether the handle is its owner. -/
  | handle (h : Option (Descriptor × Bool))
  /-- The descriptor and the place of a stored form, which is shown as a value. -/
  | archive (a : Option (Descriptor × Place × String))
  | handleFacts (f : HandleFacts)
  /-- The value of a target, `none` without one. -/
  | value (v : Option Literal)
  /-- An element of a list, `none` behind its end. -/
  | item (v : Option Literal)
  | length (n : Nat)
  | bareFacts (f : BareFacts)
deriving Repr, Inhabited

namespace Session

/-- How answers refer to an allocator. -/
def refer (s : Session) (a : Allocator) : AllocatorRef :=
  ⟨a.id s.process, s.locate a.region.base⟩

end Session

end SharedHeap
