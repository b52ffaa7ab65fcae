import SharedHeap.ByteCount
import SharedHeap.Identity
import SharedHeap.Log.Record

/-!
# Configuration

Which identity and which size the default allocator of a registry gets when it is made.
-/

namespace SharedHeap

open Log (Event)

structure Config where
  /-- The size in bytes of the default allocator's region. -/
  regionSize : Nat
  defaultId : AllocatorId
deriving DecidableEq, Repr

namespace Config

/-- 16 MiB under the identity `0.0`. -/
def standard : Config := ⟨16 * 1024 * 1024, ⟨0, 0⟩⟩

instance : Inhabited Config := ⟨standard⟩

/-- The variable of the environment that holds a region size. -/
def sizeVariable : String := "SHMREF_REGION_SIZE"

/-- The standard configuration with the region size that the environment names; a text that is no
byte count is reported. -/
def fromEnvironment (value : Option String) : Config × List Event :=
  match value with
  | none => (standard, [])
  | some s =>
    match ByteCount.parse s with
    | some n => ({ standard with regionSize := n.toNat }, [])
    | none =>
      (standard, [.say .warn "shmref_mem::config"
        s!"ignoring {sizeVariable}={Text.quoted s}: not a byte size"])

def shown (c : Config) : String :=
  "MemoryConfig \x7b default_region_size: " ++ toString c.regionSize ++
    ", default_allocator_id: " ++ c.defaultId.shown ++ " \x7d"

end Config

end SharedHeap
