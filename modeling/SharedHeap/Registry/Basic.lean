import SharedHeap.Config
import SharedHeap.Region.Basic

/-!
# Registries

Descriptors carry only the identity of an allocator. A registry leads from the identity to the
allocator in this process, and names one of its allocators as the default.
-/

namespace SharedHeap

/-- The allocator over a region. All that it knows lies in the region's bytes. -/
structure Allocator where
  region : Region
deriving DecidableEq, Repr, Inhabited

structure Registry where
  /-- The registered allocators with the identities they were registered under, oldest first. -/
  entries : List (AllocatorId × Allocator)
  default : Option Allocator
  config : Config
deriving Inhabited

namespace Registry

def empty (config : Config) : Registry := ⟨[], none, config⟩

/-- The allocator registered under an identity. -/
def get? (r : Registry) (id : AllocatorId) : Option Allocator := r.entries.lookup id

def contains (r : Registry) (id : AllocatorId) : Bool := (r.get? id).isSome

def insert (r : Registry) (id : AllocatorId) (a : Allocator) : Registry :=
  { r with entries := r.entries ++ [(id, a)] }

def erase (r : Registry) (id : AllocatorId) : Registry :=
  { r with entries := r.entries.filter (·.1 != id) }

def ids (r : Registry) : List AllocatorId := r.entries.map (·.1)

def size (r : Registry) : Nat := r.entries.length

/-- The registered allocator whose region holds an address. -/
def findOwner (r : Registry) (a : Address) : Option Allocator :=
  (r.entries.find? fun e => e.2.region.contains a).map (·.2)

theorem get?_insert {r : Registry} {id : AllocatorId} (a : Allocator) (j : AllocatorId)
    (h : r.get? id = none) :
    (r.insert id a).get? j = if j = id then some a else r.get? j := by
  simp only [get?, insert] at h ⊢
  rw [List.lookup_append]
  by_cases hj : j = id
  · subst hj
    simp [h]
  · have : (j == id) = false := by simpa using hj
    simp [hj, List.lookup_cons, this]

theorem get?_erase (r : Registry) (id j : AllocatorId) :
    (r.erase id).get? j = if j = id then none else r.get? j := by
  simp only [get?, erase]
  induction r.entries with
  | nil => simp
  | cons e es ih =>
    obtain ⟨i, a⟩ := e
    by_cases hi : i = id
    · subst hi
      by_cases hj : j = i
      · simpa [hj] using ih
      · have hji : (j == i) = false := by simpa using hj
        simpa [hj, List.lookup_cons, hji] using ih
    · have hne : (i != id) = true := by simpa using hi
      by_cases hj : j = i
      · subst hj
        simp [hi]
      · have hji : (j == i) = false := by simpa using hj
        simpa [hne, List.lookup_cons, hji] using ih

/-- The registry as a shown value. -/
def shown (r : Registry) : String :=
  "MemoryRegistry \x7b allocators: [" ++ String.intercalate ", " (r.ids.map AllocatorId.shown) ++
    "], config: " ++ r.config.shown ++ " \x7d"

end Registry

end SharedHeap
