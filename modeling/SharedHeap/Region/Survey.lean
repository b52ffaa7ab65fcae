import SharedHeap.Region.Obtain

/-!
# Surveys of regions

What can be told of a region without an allocator, with a copy of it made on the way.
-/

namespace SharedHeap.Region

/-- How a copy of a region compares with it. -/
structure Duplicate where
  hasSameBytes : Bool
  isElsewhere : Bool
  length : Nat
deriving DecidableEq, Repr, Inhabited

structure Survey where
  region : Region
  /-- Whether it starts on a page boundary. -/
  isAligned : Bool
  /-- How many bytes are not zero. -/
  nonzero : Nat
  /-- Whether each of the asked distances from the start lies inside. -/
  contains : List Bool
  containsNull : Bool
  copy : Except MemoryError Duplicate

def survey {ε : Type} (r : Region) (distances : List Int) : Action Process ε Survey := do
  let copied ← Action.attempt r.copy
  let p ← .get
  return {
    region := r
    isAligned := p.isAligned r.base alignment
    nonzero := (r.bytes p).countNonzero
    contains := distances.map fun n => r.contains (r.base.add n)
    containsNull := r.contains .null
    copy := copied.map fun c => ⟨r.bytes p == c.bytes p, c.base != r.base, c.length⟩ }

/-- Surveys the front part of a new region with given bytes, or all of it, in a process that has
nothing else. -/
def surveyBytes (supply : Supply) (b : Bytes) (front : Option Nat) (distances : List Int) :
    Outcome MemoryError Survey :=
  let x : Action Process MemoryError Survey := do
    let r ← ofBytes b
    (front.elim r r.view).survey distances
  (x { (default : Process) with supply := supply }).outcome

end SharedHeap.Region
