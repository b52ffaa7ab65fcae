import SharedHeap.Handle
import SharedHeap.Session.Literal
import Std.Data.TreeMap

/-!
# Sessions

A session is a process together with names that somebody has given to allocators, registries,
blocks, descriptors, slots and handles. Operations refer to things by name and never by address;
places are told as distances from named allocators.
-/

namespace SharedHeap

/-- What a session has names for. -/
inductive Noun
  | allocator | registry | handle | descriptor | slot | block | reference
deriving DecidableEq, Repr, Inhabited

/-- An argument that may not fit the operation it was given to. -/
inductive Argument
  | offset | place | value
deriving DecidableEq, Repr, Inhabited

/-- Why a session does not carry out an operation. -/
inductive Refusal
  /-- Nothing of this sort has the name. -/
  | unknown (n : Noun)
  | unfit (a : Argument)
  /-- The operation is none for things of this type. -/
  | unsupported
  | typeMismatch
  /-- There is no layout of the size and alignment. -/
  | noLayout
  /-- The text names no level. -/
  | noLevel
  | memory (e : MemoryError)
  | handle (e : HandleError)
deriving DecidableEq, Repr, Inhabited

/-- A place in the terms of a session. -/
inductive Place
  | null
  /-- In no region of a named allocator. -/
  | outside
  /-- A distance from the start of a named allocator's region. -/
  | within (name : String) (distance : Int)
deriving DecidableEq, Repr, Inhabited

/-- Named things, in the order of their names. -/
abbrev Table (α : Type) := Std.TreeMap String α

structure NamedAllocator where
  allocator : Allocator
  /-- A registry's own allocator is known by what all allocators can do. -/
  isRegistrys : Bool
deriving Inhabited

/-- A handle of any kind to a target of any type. -/
structure AnyHandle where
  target : Target
  kind : Kind
  handle : Handle target kind

/-- The handle, if it has the given type and kind. -/
def AnyHandle.as? (h : AnyHandle) (t : Target) (k : Kind) : Option (Handle t k) :=
  if e : h.target = t ∧ h.kind = k then some (e.1 ▸ e.2 ▸ h.handle) else none

/-- A reference without ownership to a 64-bit number. -/
structure BareRef where
  ref : PlainRef
  /-- Whether the reference may release its target. -/
  isDestructible : Bool
deriving Inhabited

structure Session where
  process : Process
  allocators : Table NamedAllocator
  registries : Table Registry
  /-- Blocks that were allocated and not freed under their names. -/
  blocks : Table (Address × Layout)
  descriptors : Table DescriptorCell
  slots : Table Slot
  handles : Table AnyHandle
  references : Table BareRef

namespace Session

variable {ε α : Type}

/-- The first segment of a process is memory of its own, outside all regions. -/
def ownMemory : Segment := ⟨0, .zeros 4096⟩

/-- An address outside all regions. -/
def ownAddress : Address := .place 0 0

/-- Where values of no bytes are that lie in no region: all at one address. -/
def emptyAddress : Address := .place 0 ownMemory.bytes.size

/-- A session in a process, without any names. -/
def start (supply : Supply) (registry : Option Registry) (environment : Environment)
    (level : Log.Level) : Session where
  process := ⟨#[ownMemory], supply, registry, environment, level, 0⟩
  allocators := ∅
  registries := ∅
  blocks := ∅
  descriptors := ∅
  slots := ∅
  handles := ∅
  references := ∅

/-- What runs on a session: it answers, or refuses. -/
abbrev Run (α : Type) := Action Session Refusal α

def lift (g : ε → Refusal) (x : Action Process ε α) : Run α := fun s =>
  let r := x s.process
  ⟨r.outcome.mapError g, { s with process := r.state }, r.written⟩

/-- Runs an action whose errors are those of memory. -/
def onMemory (x : Action Process MemoryError α) : Run α := lift .memory x

/-- Runs an action whose errors are those of handles. -/
def onHandle (x : Action Process HandleError α) : Run α := lift .handle x

/-- What a name stands for. -/
def find (n : Noun) (table : Session → Table α) (name : String) : Run α := do
  match (table (← .get))[name]? with
  | some a => pure a
  | none => .throw (.unknown n)

def findAllocator (name : String) : Run Allocator := do
  return (← find .allocator Session.allocators name).allocator

def findBlock (name : String) : Run (Address × Layout) := find .block Session.blocks name

def findDescriptor (name : String) : Run DescriptorCell :=
  find .descriptor Session.descriptors name

def findSlot (name : String) : Run Slot := find .slot Session.slots name

def findHandle (name : String) : Run AnyHandle := find .handle Session.handles name

def findReference (name : String) : Run BareRef := find .reference Session.references name

def bindAllocator (name : String) (a : Allocator) (isRegistrys : Bool) : Run Unit :=
  .modify fun s => { s with allocators := s.allocators.insert name ⟨a, isRegistrys⟩ }

def bindBlock (name : String) (x : Address) (l : Layout) : Run Unit :=
  .modify fun s => { s with blocks := s.blocks.insert name (x, l) }

def bindDescriptor (name : String) (c : DescriptorCell) : Run Unit :=
  .modify fun s => { s with descriptors := s.descriptors.insert name c }

def bindSlot (name : String) (x : Slot) : Run Unit :=
  .modify fun s => { s with slots := s.slots.insert name x }

def bindReference (name : String) (r : BareRef) : Run Unit :=
  .modify fun s => { s with references := s.references.insert name r }

def address : Place → Run Address
  | .null => pure .null
  | .outside => pure ownAddress
  | .within name distance => do
    return (← findAllocator name).region.base.add distance

def addressOfObject (place : Place) : Run Address := do
  let x ← address place
  if x.isNull then .throw (.unfit .place) else return x

/-- The place of an address: in the region of the first named allocator that holds it. -/
def locate (s : Session) (x : Address) : Place :=
  match x with
  | .null => .null
  | .place _ distance =>
    match s.allocators.toList.find? fun (_, a) => a.allocator.contains x with
    | some (name, _) => .within name distance
    | none => .outside

/-- Puts bytes into memory of the process, outside all regions. -/
def keep (bs : List UInt8) : Run Address := do
  if bs.isEmpty then
    return emptyAddress
  else
    return .place (← onMemory (Process.addSegment 0 (.ofList bs))) 0

def layout (size align : Nat) : Run Layout :=
  match Layout.ofSizeAlign? size align with
  | some l => pure l
  | none => .throw .noLayout

/-- What was read of a literal, unless it does not write anything of the sort. -/
def readable : Option α → Run α
  | some a => pure a
  | none => .throw (.unfit .value)

def readPlain (e : Plain) (l : Literal) : Run e.Val := readable (e.read? l)

def arguments (t : Target) (l : Literal) : Run t.Args := readable (t.read? l)

end Session

end SharedHeap
