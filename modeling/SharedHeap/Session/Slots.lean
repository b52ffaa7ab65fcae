import SharedHeap.Session.Answer

/-!
# Operations on slots

Room for the stored form of a target: a block of its own, a part of a block, or memory outside all
regions.
-/

namespace SharedHeap

inductive SlotOp
  /-- In a new block with the target's layout. -/
  | create (name : String) (target : Target) (allocator : String)
  /-- In a named block, at a distance from its start. -/
  | createIn (name : String) (target : Target) (block : String) (distance : Nat)
  | createOutside (name : String) (target : Target)
  /-- The descriptor that an allocator gives the slot. -/
  | describe (name allocator : String)
deriving Repr, Inhabited

namespace Session

/-- Names a slot and answers where it is. -/
def reserve (name : String) (slot : Slot) : Run Answer := do
  bindSlot name slot
  return .slot ((← .get).locate slot.address) slot.target.layout

end Session

open Session in
def SlotOp.run : SlotOp → Session.Run Answer
  | create name target allocator => do
    let a ← findAllocator allocator
    let (x, _) ← onMemory (a.allocate target.layout)
    reserve name ⟨target, x⟩
  | createIn name target block distance => do
    let (start, l) ← findBlock block
    let x := start.add distance
    let p := (← .get).process
    if distance + target.layout.size ≤ l.size ∧ p.isAligned x target.layout.align then
      reserve name ⟨target, x⟩
    else
      .throw (.unfit .place)
  | createOutside name target => do
    reserve name ⟨target, ← keep (.replicate target.layout.size 0)⟩
  | describe name allocator => do
    let slot ← findSlot name
    let a ← findAllocator allocator
    return .slotDescriptor (slot.descriptor a (← .get).process)

end SharedHeap
