import SharedHeap.Descriptor
import SharedHeap.Registry.Use
import SharedHeap.Target

/-!
# Resolved places

A descriptor is resolved through a registry: its identity leads to an allocator, and its offset to
an address in that allocator's region, if a whole, aligned object has room there. A slot is such
room that somebody holds already and builds a target in.
-/

namespace SharedHeap

/-- The stored form of a target at an address, with the allocator that it belongs to. -/
structure Resolved where
  address : Address
  allocator : Allocator
deriving DecidableEq, Repr, Inhabited

namespace Resolved

def speaker : String := "shmref::archive"

/-- Looks up what a descriptor names: the allocator in a registry, and in its region a place for a
whole, aligned object. -/
def ofDescriptor (r : Registry) (d : Descriptor) (t : Target) :
    Action Process HandleError Resolved := do
  if d.isNull then
    .throw .nullPointer
  else
    match r.get? d.id with
    | none =>
      Process.say .debug speaker do
        return s!"cannot resolve {d.offset}: allocator {d.id} is not registered"
      .throw (.allocatorNotFound d.id)
    | some a =>
      let p ← .get
      match a.resolve p d.offset t.layout with
      | none =>
        Process.say .debug speaker do
          return s!"cannot resolve {d.offset}: no aligned {t.storedName} fits in allocator {d.id}"
        .throw (.offsetOutOfRange d.id d.offset)
      | some x =>
        Process.say .trace speaker do return s!"resolved {d.text} to {Address.text}"
        pure ⟨x, a⟩

def descriptor (x : Resolved) (p : Process) : Descriptor :=
  ⟨x.allocator.id p, x.allocator.toOffset x.address⟩

def shown (x : Resolved) (p : Process) : String :=
  showFields "Deserialize" [("header", Address.text), ("allocator", (x.allocator.id p).shown)]

end Resolved

/-- Room for the stored form of a target, written only by what is built in it. -/
structure Slot where
  target : Target
  address : Address
deriving DecidableEq, Repr, Inhabited

namespace Slot

/-- The descriptor of the room, null unless it lies in the allocator's region. -/
def descriptor (s : Slot) (a : Allocator) (p : Process) : Descriptor :=
  let o := a.toOffset s.address
  if o.isNull then .null else ⟨a.id p, o⟩

def shown : String := s!"Archive({Address.text})"

end Slot

end SharedHeap
