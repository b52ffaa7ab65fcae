import SharedHeap.Resolved

/-!
# References to plain values

A reference to a plain value is its address together with the allocator that the value came from, if
that is known. Without an allocator the value can be read and written, but not named for others, and
nobody knows how to release it.
-/

namespace SharedHeap

structure PlainRef where
  address : Address
  allocator : Option Allocator
deriving DecidableEq, Repr, Inhabited

namespace PlainRef

variable {ε : Type}

def speaker : String := "shmref::reference"

def empty : PlainRef := ⟨.null, none⟩

def ofResolved (x : Resolved) : PlainRef := ⟨x.address, some x.allocator⟩

/-- Where the value is, if others can find it. -/
def resolved? (r : PlainRef) : Option Resolved :=
  if r.address.isNull then none else r.allocator.map fun a => ⟨r.address, a⟩

/-- A reference to the value at an address. The process-wide registry is asked for the allocator
that the address belongs to. -/
def ofAddress (x : Address) : Action Process ε PlainRef := do
  let registry ← Process.theRegistry
  let owner := registry.findOwner x
  if owner.isNone then
    Process.say .trace speaker do return s!"{Address.text} is not in a registered region"
  pure ⟨x, owner⟩

def load (r : PlainRef) (t : Plain) : Action Process ε t.Val := do
  return t.decode (← Process.load r.address t.size)

/-- Stores a value where none is alive. -/
def store (r : PlainRef) (t : Plain) (v : t.Val) : Action Process ε Unit :=
  Process.store r.address (t.encode v)

/-- Stores a value over one that is finalized. -/
def replace (r : PlainRef) (t : Plain) (v : t.Val) : Action Process ε Unit := do
  Process.finalize t.finalizers
  r.store t v

/-- Builds a value in a new block. A value that does not get one is finalized, be it for want of
room or because of a fault. -/
def build (a : Allocator) (t : Plain) (v : t.Val) : Action Process MemoryError PlainRef := do
  let allocated := Action.attempt (a.allocate t.layout)
  match ← allocated.onFault (Process.finalize t.finalizers) with
  | .ok (x, _) =>
    let r : PlainRef := ⟨x, some a⟩
    r.store t v
    pure r
  | .error e =>
    Process.finalize t.finalizers
    .throw e

def buildAt (x : Address) (a : Allocator) (t : Plain) (v : t.Val) :
    Action Process ε PlainRef := do
  let r : PlainRef := ⟨x, some a⟩
  r.store t v
  pure r

/-- Finalizes the value and returns its block, unless the reference may not; afterwards it refers to
nothing. -/
def destroy (r : PlainRef) (t : Plain) (destructible : Bool) : Action Process ε PlainRef := do
  if destructible then
    if !r.address.isNull then
      match r.allocator with
      | some a =>
        Process.say .trace speaker do
          return s!"freeing {Address.text} in allocator {a.id (← .get)}"
        Process.finalize t.finalizers
        a.free r.address t.layout
      | none =>
        Process.say .warn speaker do
          return s!"cannot free {Address.text}: owning allocator is unknown"
    pure { r with address := .null }
  else
    pure r

def shown (r : PlainRef) (p : Process) : String :=
  showFields "ExternalRef" [
    ("obj", if r.address.isNull then "0x0" else Address.text),
    ("allocator", match r.allocator with
      | some a => s!"Some({(a.id p).shown})"
      | none => "None")]

end PlainRef

end SharedHeap
