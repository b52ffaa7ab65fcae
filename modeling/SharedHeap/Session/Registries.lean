import SharedHeap.Session.Answer

/-!
# Operations on registries

Making registries, registering allocators, looking them up, and the settings of a process.
-/

namespace SharedHeap

/-- Which registry an operation goes through. -/
inductive RegistryName
  | processWide
  | named (name : String)
deriving DecidableEq, Repr, Inhabited

inductive RegistryOp
  | create (name : String) (config : Config)
  | register (registry : RegistryName) (allocator : String)
  /-- Hands a new allocator over to a registry. -/
  | registerNew (registry : RegistryName) (name : String) (id : AllocatorId) (length : Nat)
  | unregister (registry : RegistryName) (id : AllocatorId)
  | get (registry : RegistryName) (id : AllocatorId)
  | resolve (registry : RegistryName) (id : AllocatorId)
  /-- The default allocator, which may be given a name. -/
  | default (registry : RegistryName) (name : Option String)
  | setDefault (registry : RegistryName) (id : AllocatorId)
  | findOwner (registry : RegistryName) (place : Place)
  | describe (registry : RegistryName)
  /-- Installs a configuration for the process-wide registry. -/
  | configure (config : Config)
  | setLevel (text : String)
deriving Repr, Inhabited

namespace Session

variable {α : Type}

/-- Runs an action on a registry, and keeps what it leaves of it. -/
def withRegistry (name : RegistryName) (x : Action Registrar MemoryError α) : Run α :=
  match name with
  | .processWide => onMemory (Process.withRegistry x)
  | .named name => do
    let r ← find .registry Session.registries name
    fun s =>
      let run := x ⟨s.process, r⟩
      let registries := s.registries.insert name run.state.registry
      ⟨run.outcome.mapError .memory,
        { s with process := run.state.process, registries := registries }, run.written⟩

def findRegistry (name : RegistryName) : Run Registry :=
  withRegistry name do return (← .get).registry

/-- Answers how an allocator is referred to. -/
def referTo (a : Option Allocator) : Run Answer := do
  return .reference (a.map (← .get).refer)

end Session

namespace Registry

def sortedIds (r : Registry) : List AllocatorId :=
  r.ids.mergeSort fun i j => (compare i j).isLE

/-- What a registry tells. The answer does not depend on the order of registering. -/
def facts (r : Registry) : RegistryFacts where
  ids := r.sortedIds
  config := r.config
  shown := if r.size < 2 then some r.shown else none

end Registry

open Session in
def RegistryOp.run : RegistryOp → Session.Run Answer
  | create name config => do
    .modify fun s => { s with registries := s.registries.insert name (.empty config) }
    return .done
  | register registry allocator => do
    let a ← findAllocator allocator
    withRegistry registry (Registrar.register a)
    return .registered (a.id (← .get).process)
  | registerNew registry name id length => do
    let a ← onMemory (Allocator.new id length)
    withRegistry registry (Registrar.register a)
    bindAllocator name a true
    return .registered (a.id (← .get).process)
  | unregister registry id => do
    referTo (← withRegistry registry (Registrar.unregister id))
  | get registry id => do
    referTo ((← findRegistry registry).get? id)
  | resolve registry id => do
    referTo (some (← withRegistry registry (Registrar.resolve id)))
  | default registry name => do
    let a ← withRegistry registry Registrar.defaultAllocator
    match name with
    | some name => bindAllocator name a true
    | none => pure ()
    referTo (some a)
  | setDefault registry id => do
    withRegistry registry (Registrar.setDefault id)
    return .done
  | findOwner registry place => do
    let x ← address place
    referTo ((← findRegistry registry).findOwner x)
  | describe registry => do
    return .registryFacts (← findRegistry registry).facts
  | configure config => do
    return .flag (← onMemory (Process.configure config))
  | setLevel text =>
    match Log.setLevel text with
    | .ok events => do
      onMemory (Process.heed events)
      return .done
    | .error _ => .throw .noLevel

end SharedHeap
