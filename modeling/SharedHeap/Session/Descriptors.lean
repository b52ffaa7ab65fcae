import SharedHeap.Session.Answer

/-!
# Operations on descriptors

Descriptors are kept in named variables, plain or atomic.
-/

namespace SharedHeap

/-- A descriptor as an argument: that of a variable, or one that is written out. -/
inductive DescriptorArg
  | stored (name : String)
  | given (d : Descriptor)
deriving Repr, Inhabited

inductive DescriptorOp
  /-- A new variable, null unless a value is given. -/
  | create (name : String) (value : Option DescriptorArg) (isAtomic : Bool)
  | describe (name : String)
  | store (name : String) (d : Descriptor)
  /-- Replaces the offset of an atomic variable and answers the one before. -/
  | swap (name : String) (offset : Offset)
  | storeOffset (name : String) (offset : Offset)
  | equal (left right : DescriptorArg)
deriving Repr, Inhabited

namespace Session

/-- The descriptor that an argument stands for. -/
def descriptorOf : DescriptorArg → Run Descriptor
  | .stored name => do return (← findDescriptor name).value
  | .given d => pure d

def findAtomic (name : String) : Run DescriptorCell := do
  let c ← findDescriptor name
  if c.isAtomic then pure c else .throw (.unknown .descriptor)

def swapOffset (name : String) (offset : Offset) : Run Offset := do
  let (old, c) := (← findAtomic name).swapOffset offset
  bindDescriptor name c
  return old

def storeDescriptor (name : String) (d : Descriptor) : Run Answer := do
  let c := (← findDescriptor name).store d
  bindDescriptor name c
  return .descriptor c

end Session

open Session in
def DescriptorOp.run : DescriptorOp → Session.Run Answer
  | create name value isAtomic => do
    let d ← match value with
      | some d => descriptorOf d
      | none => pure .null
    let c : DescriptorCell := ⟨isAtomic, d⟩
    bindDescriptor name c
    return .descriptor c
  | describe name => do
    return .descriptor (← findDescriptor name)
  | store name d => storeDescriptor name d
  | swap name offset => do
    return .replaced (← swapOffset name offset)
  | storeOffset name offset => do
    let _ ← swapOffset name offset
    return .done
  | equal left right => do
    let d ← descriptorOf left
    let e ← descriptorOf right
    return .flag (d == e)

end SharedHeap
