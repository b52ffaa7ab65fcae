import SharedHeap.Allocator.Basic

/-!
# Using registries

Registering and unregistering allocators, looking them up, and the default allocator, which is made
when it is first asked for. A call runs on the registry and the process that it is used in, so
whatever it has done before an error stays done.
-/

namespace SharedHeap

/-- A process, and a registry that is used in it. -/
structure Registrar where
  process : Process
  registry : Registry

namespace Registrar

variable {ε α : Type}

def speaker : String := "shmref_mem::registry"

/-- Runs an action on the process. -/
def lift (x : Action Process ε α) : Action Registrar ε α := fun s =>
  let r := x s.process
  ⟨r.outcome, { s with process := r.state }, r.written⟩

def say (level : Log.Level) (text : Action Process ε String) : Action Registrar ε Unit :=
  lift (Process.say level speaker text)

def register (a : Allocator) : Action Registrar MemoryError Unit := do
  let s ← .get
  let id := a.id s.process
  if s.registry.contains id then
    .throw (.allocatorExists id)
  else
    .modify fun s => { s with registry := s.registry.insert id a }
    say .info do return s!"registered allocator {id}"

/-- Removes an identity, and the default if that allocator has this identity now. Answers the
allocator that was registered under it. -/
def unregister (id : AllocatorId) : Action Registrar ε (Option Allocator) := do
  match (← .get).registry.get? id with
  | none => pure none
  | some a =>
    .modify fun s => { s with registry := s.registry.erase id }
    .modify fun s =>
      { s with registry.default := s.registry.default.filter fun d => d.id s.process != id }
    say .info do return s!"unregistered allocator {id}"
    pure (some a)

def resolve (id : AllocatorId) : Action Registrar MemoryError Allocator := do
  match (← .get).registry.get? id with
  | some a => pure a
  | none =>
    say .debug do return s!"descriptor names unknown allocator {id}"
    .throw (.allocatorNotFound id)

def setDefault (id : AllocatorId) : Action Registrar MemoryError Unit := do
  let a ← resolve id
  .modify fun s => { s with registry.default := some a }
  say .info do return s!"default allocator is now {id}"

/-- A new allocator of the configured size, registered under the configured identity. -/
def makeDefault : Action Registrar MemoryError Allocator := do
  let config := (← .get).registry.config
  let a ← lift (Allocator.new config.defaultId config.regionSize)
  register a
  pure a

/-- The default allocator. Without one, the allocator under the configured identity becomes the
default, and if there is none, a new one of the configured size. -/
def defaultAllocator : Action Registrar MemoryError Allocator := do
  let r := (← .get).registry
  match r.default with
  | some a => pure a
  | none =>
    let a ← match r.get? r.config.defaultId with
      | some a => pure a
      | none => makeDefault
    .modify fun s => { s with registry.default := some a }
    pure a

end Registrar

namespace Process

variable {ε α : Type}

/-- Runs an action on a registry. However it ends, what it leaves is the process-wide registry. -/
def install (r : Registry) (x : Action Registrar ε α) : Action Process ε α := fun p =>
  let r := x ⟨p, r⟩
  ⟨r.outcome, { r.state.process with registry := some r.state.registry }, r.written⟩

/-- Runs an action on the process-wide registry. -/
def withRegistry (x : Action Registrar ε α) : Action Process ε α := do
  install (← theRegistry) x

def defaultAllocator : Action Process MemoryError Allocator :=
  withRegistry Registrar.defaultAllocator

end Process

end SharedHeap
