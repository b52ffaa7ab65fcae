import SharedHeap.Session.Allocators
import SharedHeap.Session.Handles
import SharedHeap.Session.References
import SharedHeap.Session.Slots

/-!
# Histories

A history is a list of operations, carried out one after the other on a session. Each is reported
with its outcome, the state of every named allocator behind it, and the lines that were logged. An
operation that is refused or runs into a fault does not end the history. At the end the remaining
handles are dropped in the order of their names.
-/

namespace SharedHeap

inductive Op
  | onAllocators (op : AllocatorOp)
  | onRegistries (op : RegistryOp)
  | onDescriptors (op : DescriptorOp)
  | onSlots (op : SlotOp)
  | onHandles (op : HandleOp)
  | onReferences (op : ReferenceOp)
  /-- What a reference to a list's view is shown as. -/
  | showInline
deriving Repr, Inhabited

def Op.run : Op → Session.Run Answer
  | onAllocators op => op.run
  | onRegistries op => op.run
  | onDescriptors op => op.run
  | onSlots op => op.run
  | onHandles op => op.run
  | onReferences op => op.run
  | showInline => return .text BareRef.shownInline

/-- The counters of a named allocator and, unless it is a registry's own, the bytes behind its
cursor. -/
structure Tally where
  name : String
  stats : Allocator.Stats
  remaining : Option Nat
deriving DecidableEq, Repr, Inhabited

/-- What is known behind an operation. -/
structure Report where
  outcome : Outcome Refusal Answer
  tallies : List Tally
  lines : List String

/-- What is known at the end of a history. -/
structure Ending where
  tallies : List Tally
  finalized : Nat
  lines : List String

namespace Session

/-- The state of every named allocator. -/
def tallies (s : Session) : List Tally :=
  s.allocators.toList.map fun (name, x) =>
    let left : Action Process Empty Nat := x.allocator.remaining
    let left := if x.isRegistrys then none else (left s.process).outcome.toOption
    ⟨name, x.allocator.stats s.process, left⟩

/-- Carries out an operation. -/
def step (s : Session) (op : Op) : Report × Session :=
  let r := op.run s
  (⟨r.outcome, r.state.tallies, Log.lines r.written⟩, r.state)

def steps : Session → List Op → List Report × Session
  | s, [] => ([], s)
  | s, op :: ops =>
    let (report, s) := s.step op
    let (reports, s) := s.steps ops
    (report :: reports, s)

/-- Drops the remaining handles in the order of their names, each however the others end. -/
def dropAll : Run Unit := do
  (← .get).handles.keys.forM fun name => .settle (HandleOp.drop name).run

def finish (s : Session) : Ending × Session :=
  let r := dropAll s
  (⟨r.state.tallies, r.state.process.finalized, Log.lines r.written⟩, r.state)

end Session

end SharedHeap
