import SharedHeap.Session.Answer

/-!
# Operations on bare references

References to 64-bit numbers that are kept by hand: nothing is released when such a reference goes
or refers to something else.
-/

namespace SharedHeap

inductive ReferenceOp
  | create (name : String) (isDestructible : Bool)
  /-- Builds a number in a new block. -/
  | init (name allocator : String) (value : UInt64)
  /-- Refers to a number in memory outside all regions. -/
  | ofValue (name : String) (value : UInt64)
  | copy (name source : String)
  | destroy (name : String)
  | describe (name : String)
deriving Repr, Inhabited

namespace BareRef

/-- What bare references refer to. -/
def number : Plain := .int .u64

/-- A reference to a list's view, which it holds itself, as a shown value. -/
def shownInline : String := "InlineRef \x7b .. \x7d"

end BareRef

namespace Session

def bareFacts (r : PlainRef) : Run BareFacts := do
  let v ←
    if r.address.isNull then pure none
    else some <$> onMemory (r.load BareRef.number)
  let s ← .get
  let archived := r.resolved?
  return {
    address := s.locate r.address
    allocator := r.allocator.map s.refer
    descriptor := (archived.map (·.descriptor s.process)).getD .null
    isArchived := archived.isSome
    value := v.map BareRef.number.write
    shown := r.shown s.process }

end Session

open Session in
def ReferenceOp.run : ReferenceOp → Session.Run Answer
  | create name isDestructible => do
    bindReference name ⟨.empty, isDestructible⟩
    return .done
  | init name allocator value => do
    let x ← findReference name
    let a ← findAllocator allocator
    let r ← onHandle (.mapError .memory (PlainRef.build a BareRef.number value.toBitVec))
    bindReference name { x with ref := r }
    return .done
  | ofValue name value => do
    let x ← findReference name
    let r ← onMemory (PlainRef.ofAddress (← keep (BareRef.number.encode value.toBitVec)))
    bindReference name { x with ref := r }
    return .done
  | copy name source => do
    let x ← findReference name
    match (← .get).references[source]? with
    | some y =>
      if x.isDestructible = y.isDestructible then
        bindReference name y
        return .done
      else
        .throw .typeMismatch
    | none => .throw .typeMismatch
  | destroy name => do
    let x ← findReference name
    let r ← onMemory (x.ref.destroy BareRef.number x.isDestructible)
    bindReference name { x with ref := r }
    return .done
  | describe name => do
    return .bareFacts (← bareFacts (← findReference name).ref)

end SharedHeap
