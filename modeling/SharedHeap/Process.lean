import SharedHeap.Action
import SharedHeap.Bytes.Word
import SharedHeap.Registry.Basic

/-!
# Processes

The state that operations work on: the segments of memory a process can reach, what the system has
left for it, its process-wide registry, the environment it was started in, the level of its log, and
how many values were finalized.
-/

namespace SharedHeap

open Log (Level Event)

/-- A run of memory. `skew` is how far behind a page boundary it starts. -/
structure Segment where
  skew : Nat
  bytes : Bytes

instance : Inhabited Segment := ⟨⟨0, .zeros 0⟩⟩

/-- The variables of the environment that are looked at, unset if `none`. -/
structure Environment where
  level : Option String
  regionSize : Option String
deriving Inhabited

/-- The memory that the system has left. A request may be granted or not, whatever became of others
before. -/
structure Supply where
  /-- Whether so many bytes are granted, by the number of the request. -/
  grants : Nat → Nat → Bool
  /-- How many requests there were. -/
  requests : Nat
deriving Inhabited

structure Process where
  segments : Array Segment
  supply : Supply
  /-- The process-wide registry, once somebody has asked for it. -/
  registry : Option Registry
  environment : Environment
  /-- The level in effect: records that are less severe are not written. -/
  level : Level
  /-- How many values with a finalizer were finalized. -/
  finalized : Nat
deriving Inhabited

namespace Process

variable {ε α : Type}

/-- A process with some bytes of memory, on a system that grants all requests. -/
def single (b : Bytes) : Process where
  segments := #[⟨0, b⟩]
  supply := ⟨fun _ _ => true, 0⟩
  registry := none
  environment := ⟨none, none⟩
  level := .warn
  finalized := 0

/-- The bytes of a segment; a segment that does not exist is empty. -/
def bytes (p : Process) (segment : Nat) : Bytes := ((p.segments[segment]?).getD default).bytes

def setBytes (p : Process) (segment : Nat) (b : Bytes) : Process :=
  { p with segments := p.segments.modify segment fun s => { s with bytes := b } }

theorem bytes_setBytes_of_ne {p : Process} {i j : Nat} {b : Bytes} (h : i ≠ j) :
    (p.setBytes i b).bytes j = p.bytes j := by
  simp [bytes, setBytes, Array.getElem?_modify, h]

theorem bytes_setBytes_self {p : Process} {i : Nat} {b : Bytes} (h : i < p.segments.size) :
    (p.setBytes i b).bytes i = b := by
  simp [bytes, setBytes, h, Array.getElem_modify]

@[simp] theorem size_segments_setBytes (p : Process) (i : Nat) (b : Bytes) :
    (p.setBytes i b).segments.size = p.segments.size := by simp [setBytes]

/-- The system grants the next request if it is for `n` bytes. -/
def grants (p : Process) (n : Nat) : Bool := p.supply.grants p.supply.requests n

/-- The process after it has made a request to the system. -/
def asked (p : Process) : Process := { p with supply.requests := p.supply.requests + 1 }

/-- Asks the system for `n` bytes. Answers whether it grants them. -/
def request (n : Nat) : Action Process ε Bool := do
  let p ← .get
  .modify asked
  pure (p.grants n)

def addSegment (skew : Nat) (b : Bytes) : Action Process ε Nat := fun p =>
  ⟨.ok p.segments.size, { p with segments := p.segments.push ⟨skew, b⟩ }, []⟩

/-- The process after it was granted memory, which now holds some bytes. -/
def extended (p : Process) (b : Bytes) : Process :=
  { p.asked with segments := p.segments.push ⟨0, b⟩ }

/-- Runs an action on the bytes of a segment, with the level in effect. -/
def onBytes (segment : Nat) (x : Level → Action Bytes ε α) : Action Process ε α := fun p =>
  let r := x p.level (p.bytes segment)
  ⟨r.outcome, p.setBytes segment r.state, r.written⟩

/-- Tells a record at the level in effect. -/
def say (level : Level) (target : String) (text : Action Process ε String) :
    Action Process ε Unit := do
  .tell (← .get).level level target text

/-- Takes events in, one after the other: a record is written if it passes, and a change of level
holds from there on. -/
def heed (es : List Event) : Action Process ε Unit := fun p =>
  let (level, rs) := Log.play p.level es
  ⟨.ok (), { p with level := level }, rs⟩

/-- Whether an address is a multiple of an alignment. -/
def isAligned (p : Process) (a : Address) (align : Nat) : Bool :=
  match a with
  | .null => true
  | .place segment distance =>
    (((p.segments[segment]?).getD default).skew + distance) % align == 0

/-- The place of `n` bytes from an address on, if its segment holds them all. -/
def extent? (p : Process) (a : Address) (n : Nat) : Option (Nat × Nat) :=
  match a with
  | .null => none
  | .place segment distance =>
    if 0 ≤ distance ∧ distance.toNat + n ≤ (p.bytes segment).size then
      some (segment, distance.toNat)
    else none

/-- Reads `n` bytes at an address. No bytes can be read anywhere. -/
def load (a : Address) (n : Nat) : Action Process ε (List UInt8) := do
  if n = 0 then
    return []
  else
    let p ← .get
    match p.extent? a n with
    | some (segment, i) => pure ((p.bytes segment).read i n)
    | none => .fault .wildAccess

/-- Stores bytes at an address. No bytes can be stored anywhere. -/
def store (a : Address) (vs : List UInt8) : Action Process ε Unit := do
  if vs.isEmpty then
    return ()
  else
    let p ← .get
    match p.extent? a vs.length with
    | some (segment, i) =>
      .modify fun p => p.setBytes segment ((p.bytes segment).write i vs)
    | none => .fault .wildAccess

/-- Counts values that are finalized. -/
def finalize (n : Nat) : Action Process ε Unit :=
  .modify fun p => { p with finalized := p.finalized + n }

/-- The process-wide registry. The first to ask for it takes over the level and the region size
that the environment names. -/
def theRegistry : Action Process ε Registry := do
  let p ← .get
  match p.registry with
  | some r => pure r
  | none =>
    heed (Log.fromEnvironment p.environment.level)
    let (config, events) := Config.fromEnvironment p.environment.regionSize
    heed events
    let r := Registry.empty config
    .modify fun p => { p with registry := some r }
    pure r

/-- Installs a configuration for the process-wide registry, unless somebody has asked for it
before. Answers whether it did. -/
def configure (config : Config) : Action Process ε Bool := do
  let p ← .get
  match p.registry with
  | some _ => pure false
  | none =>
    .modify fun p => { p with registry := some (.empty config) }
    pure true

end Process

end SharedHeap
