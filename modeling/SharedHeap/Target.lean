import SharedHeap.Plain.Codec

/-!
# Targets

What a handle can point at: a plain value, stored as it is, or a list, of which a header is stored
that leads to the elements.
-/

namespace SharedHeap

inductive Target
  | plain (t : Plain)
  | list (elem : Plain)
deriving DecidableEq, Repr, Inhabited

/-- What a list is built from. -/
inductive ListArgs (α : Type)
  | nothing
  | elements (vs : List α)
  /-- Two groups of elements, one after the other. -/
  | parts (first second : List α)
deriving Repr, Inhabited

/-- The elements that arguments give, in order. -/
def ListArgs.toList {α : Type} : ListArgs α → List α
  | nothing => []
  | elements vs => vs
  | parts first second => first ++ second

namespace Target

@[reducible] def Val : Target → Type
  | plain t => t.Val
  | list elem => List elem.Val

@[reducible] def Args : Target → Type
  | plain t => t.Val
  | list elem => ListArgs elem.Val

/-- The header of a list: its length, its capacity, and the offset of its elements. -/
def listHeader : Layout := ⟨24, 8⟩

def layout : Target → Layout
  | plain t => t.layout
  | list _ => listHeader

def storedName : Target → String
  | plain t => t.name
  | list _ => "shmref_oracle::common::ListHeader"

end Target

end SharedHeap
