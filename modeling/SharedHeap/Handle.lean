import SharedHeap.Plain.Shown
import SharedHeap.PlainRef
import SharedHeap.SharedList

/-!
# Handles

A handle names a target, or nothing once it has given its target away. Kinds of handles differ in
two ways: whether the owner of a target releases it when the handle goes, and whether the handle may
release a target at all. A handle owns what it built; one that was led to a target by a descriptor,
a slot or a value does not. Ownership moves from handle to handle and is never shared.
-/

namespace SharedHeap

structure Kind where
  /-- Whether an owner releases its target when it goes. -/
  isUnique : Bool
  /-- Whether the handle may release a target at all. -/
  isDestructible : Bool
deriving DecidableEq, Repr, Inhabited

namespace Kind

/-- An owner releases its target when it goes. -/
def unique : Kind := ⟨true, true⟩

/-- The target is released on demand only. -/
def shared : Kind := ⟨false, true⟩

/-- The target is never released. -/
def borrowed : Kind := ⟨false, false⟩

/-- An owner that may not release its target and leaves it where it is. -/
def uniqueBorrowed : Kind := ⟨true, false⟩

end Kind

/-- What a handle holds of its target: the address of a plain value, or the view of a list. -/
@[reducible] def Target.Ref : Target → Type
  | .plain _ => PlainRef
  | .list _ => SharedList

namespace Target

variable {ε : Type}

/-- Where the stored form is, if others can find it. -/
def resolved? : (t : Target) → t.Ref → Option Resolved
  | plain _, r => r.resolved?
  | list _, l => some l.resolved

def ofResolved : (t : Target) → Resolved → t.Ref
  | plain _, x => .ofResolved x
  | list _, x => .ofResolved x

def allocator? : (t : Target) → t.Ref → Option Allocator
  | plain _, r => r.allocator
  | list _, l => some l.allocator

/-- The value that a reference shows. -/
def load : (t : Target) → t.Ref → Action Process ε t.Val
  | plain t, r => r.load t
  | list elem, l => l.toList elem

/-- Builds a target in new blocks. On an error the block of a list's header is returned. -/
def build : (t : Target) → Allocator → t.Args → Action Process MemoryError t.Ref
  | plain t, a, v => PlainRef.build a t v
  | list elem, a, args => do
    let (x, _) ← a.allocate listHeader
    let l : SharedList := ⟨x, a, false⟩
    match ← Action.attempt (l.build elem args.toList) with
    | .ok _ => pure l
    | .error e =>
      a.free x listHeader
      .throw e

def buildAt : (t : Target) → Address → Allocator → t.Args → Action Process MemoryError t.Ref
  | plain t, x, a, v => PlainRef.buildAt x a t v
  | list elem, x, a, args => do
    let l : SharedList := ⟨x, a, false⟩
    l.build elem args.toList
    pure l

/-- Releases a target, if the reference may. -/
def destroy : (t : Target) → t.Ref → Bool → Action Process ε t.Ref
  | plain t, r, destructible => r.destroy t destructible
  | list elem, l, destructible => { l with owned := destructible }.destroy elem

end Target

/-- A handle of a kind to a target of a type. -/
structure Handle (t : Target) (k : Kind) where
  /-- What it names, `none` once the target was given away. -/
  object : Option t.Ref
  /-- Whether the handle has built its target or was given one by its owner. -/
  owner : Bool

namespace Handle

variable {t : Target} {k : Kind} {ε : Type}

def speaker : String := "shmref::smart_ptr"

/-- A handle that names nothing. -/
def detached : Handle t k := ⟨none, false⟩

def isDetached (h : Handle t k) : Bool := h.object.isNone

/-- Whether the target is released when the handle goes. -/
def isOwner (h : Handle t k) : Bool := k.isUnique && h.owner

def build (a : Allocator) (args : t.Args) : Action Process HandleError (Handle t k) := do
  return ⟨some (← .mapError .memory (t.build a args)), true⟩

def buildAt (x : Address) (a : Allocator) (args : t.Args) :
    Action Process HandleError (Handle t k) := do
  return ⟨some (← .mapError .memory (t.buildAt x a args)), true⟩

/-- Builds a target in the default allocator of the process-wide registry. What a target was to be
built from is finalized if there is none. -/
def buildDefault (args : t.Args) : Action Process HandleError (Handle t k) := do
  match ← Action.attempt Process.defaultAllocator with
  | .ok a => build a args
  | .error e =>
    match t with
    | .plain p => Process.finalize p.finalizers
    | .list _ => pure ()
    .throw (.memory e)

/-- Releases the target of an owner that is about to let go of it. -/
def release (h : Handle t k) : Action Process ε Unit := do
  if h.isOwner then
    match h.object with
    | some r =>
      let _ ← t.destroy r k.isDestructible
    | none => pure ()

/-- What happens when a handle goes: an owner releases its target. -/
def drop (h : Handle t k) : Action Process ε Unit := do
  if h.isOwner then
    Process.say .trace speaker do return s!"dropping owning handle {Address.text}"
    h.release

/-- Lets go of the target and takes over what another handle held. If releasing the target faults,
the other handle goes instead. -/
def replace (h fresh : Handle t k) : Action Process ε (Handle t k) := do
  h.release.onFault fresh.drop
  pure fresh

/-- What becomes of a handle that is to have a new target. Without one it is as it was. -/
def renewed (h : Handle t k) :
    Except HandleError (Handle t k) → Action Process ε (Handle t k × Except HandleError Unit)
  | .ok fresh => return (← h.replace fresh, .ok ())
  | .error e => return (h, .error e)

/-- Replaces the target by a new one, which is built first. Answers the handle and whether there was
an error. -/
def init (h : Handle t k) (a : Allocator) (args : t.Args) :
    Action Process ε (Handle t k × Except HandleError Unit) := do
  h.renewed (← .attempt (build a args))

def initAt (h : Handle t k) (x : Address) (a : Allocator) (args : t.Args) :
    Action Process ε (Handle t k × Except HandleError Unit) := do
  h.renewed (← .attempt (buildAt x a args))

def initDefault (h : Handle t k) (args : t.Args) :
    Action Process ε (Handle t k × Except HandleError Unit) := do
  h.renewed (← .attempt (buildDefault args))

/-- A handle to a target that was built before; it is no owner. -/
def ofResolved (x : Resolved) : Handle t k := ⟨some (t.ofResolved x), false⟩

def ofDescriptor (r : Registry) (d : Descriptor) : Action Process HandleError (Handle t k) := do
  return ofResolved (← Resolved.ofDescriptor r d t)

/-- Where the target is, if others can find it. -/
def resolved? (h : Handle t k) : Option Resolved := h.object.bind t.resolved?

/-- The descriptor that names the target for others, null if there is none. -/
def descriptor (h : Handle t k) (p : Process) : Descriptor :=
  match h.resolved? with
  | some x => x.descriptor p
  | none => .null

def allocator? (h : Handle t k) : Option Allocator := h.object.bind t.allocator?

/-- A handle to the same target that never releases anything. -/
def borrow? (h : Handle t k) : Option (Handle t .borrowed) := h.resolved?.map ofResolved

def clone (h : Handle t .borrowed) : Handle t .borrowed :=
  match t, h with
  | .plain _, h => ⟨h.object, false⟩
  | .list _, h => ⟨h.object.map fun l => .ofResolved l.resolved, false⟩

/-- Lets go of the target and takes over the other's target and ownership. The other handle is left
detached. -/
def assign (h other : Handle t k) : Action Process ε (Handle t k × Handle t k) := do
  return (← h.replace other, detached)

/-- Releases the target whether or not the handle owns it, if the kind may release at all. If that
faults, an owner goes without its target. -/
def destroy (h : Handle t k) : Action Process ε Unit := do
  match h.object with
  | some r =>
    let emptied : Handle t k := { h with object := none }
    let _ ← Action.onFault (t.destroy r k.isDestructible) emptied.drop
  | none => pure ()

def target (h : Handle t k) : Action Process ε t.Ref :=
  match h.object with
  | some r => pure r
  | none => .fault .detached

def value? (h : Handle t k) : Action Process ε (Option t.Val) := do
  match h.object with
  | some r => return some (← t.load r)
  | none => return none

def value (h : Handle t k) : Action Process ε t.Val := do
  t.load (← h.target)

def set {e : Plain} (h : Handle (.plain e) k) (v : e.Val) : Action Process ε Unit := do
  PlainRef.replace (← h.target) e v

def push {e : Plain} (h : Handle (.list e) k) (v : e.Val) :
    Action Process HandleError Unit := do
  let l ← h.target
  .mapError .memory (SharedList.push l e v)

def item {e : Plain} (h : Handle (.list e) k) (i : Nat) :
    Action Process ε (Option e.Val) := do
  SharedList.item (← h.target) e i

def length {e : Plain} (h : Handle (.list e) k) : Action Process ε Nat := do
  SharedList.length (← h.target)

def ofAddress {e : Plain} (x : Address) : Action Process ε (Handle (.plain e) k) := do
  return ⟨some (← PlainRef.ofAddress x), false⟩

def ofView {e : Plain} (l : SharedList) : Handle (.list e) k :=
  ⟨some (.ofResolved l.resolved), false⟩

/-- The words that a handle to a plain value is hashed as: whether there is a value, and the words
of the value. -/
def words {e : Plain} (h : Handle (.plain e) k) : Action Process ε (List UInt64) := do
  match ← h.value? with
  | none => return [0]
  | some v => return 1 :: e.words v

/-- Whether two handles show equal values; two that show none do. -/
def same {e : Plain} (h other : Handle (.plain e) k) : Action Process ε Bool := do
  match ← h.value?, ← other.value? with
  | some v, some w => return e.same v w
  | none, none => return true
  | _, _ => return false

def shown {e : Plain} (h : Handle (.plain e) k) : Action Process ε String := do
  let value := match ← h.value? with
    | some v => s!"Some({e.shown v})"
    | none => "None"
  return showFields "SmartPtr" [("value", value), ("owner", toString h.owner)]

end Handle

end SharedHeap
