import SharedHeap.Allocator.Fill
import SharedHeap.Session.Answer

/-!
# Operations on allocators

Making and attaching allocators, blocks, and the bytes of regions.
-/

namespace SharedHeap

inductive AllocatorOp
  /-- A new allocator over a new region. -/
  | create (name : String) (id : AllocatorId) (length : Nat)
  /-- A new allocator over lent memory that starts `skew` bytes behind a page boundary. -/
  | createLent (name : String) (id : AllocatorId) (length skew : Nat)
  /-- Attaches to the first bytes of another allocator's region, as many as its header says unless a
  length is given. -/
  | attachShared (name source : String) (length : Option Nat)
  /-- Formats the first bytes of another allocator's region, as many as its header says unless a
  length is given. -/
  | reformat (name source : String) (id : AllocatorId) (length : Option Nat)
  /-- Attaches to a copy of another allocator's region, cut or extended by zeros to a length and
  with some bytes replaced. -/
  | attachCopy (name source : String) (length : Option Nat) (patches : List (Nat × List UInt8))
  /-- Attaches to a copy of given bytes. -/
  | attachBytes (name : String) (bytes : List UInt8)
  | describe (name : String)
  | allocate (name block : String) (size align : Nat)
  /-- Frees a named block, with its layout or with another one. The block loses its name even if
  there is no such layout. -/
  | free (name block : String) (size align : Option Nat)
  | freeAt (name : String) (place : Place) (size align : Nat)
  /-- Allocates blocks until there is an error. -/
  | fill (name : String) (size align limit : Nat)
  | toOffset (name : String) (place : Place)
  | toAddress (name : String) (offset : Offset)
  /-- The address of an object at an offset. -/
  | resolve (name : String) (offset : Offset) (size align : Nat)
  | resolveTarget (name : String) (offset : Offset) (target : Target)
  /-- The bytes of a region from an offset on. There are none outside it; an empty run may begin at
  its end. -/
  | peek (name : String) (offset length : Nat)
  /-- Overwrites bytes of a region from an offset in it on. -/
  | poke (name : String) (offset : Nat) (bytes : List UInt8)
deriving Repr, Inhabited

namespace Session

/-- Names an allocator and answers what it is. -/
def opened (name : String) (a : Allocator) : Run Answer := do
  let left ← onMemory a.remaining
  bindAllocator name a false
  let p := (← .get).process
  return .allocator (a.id p) (a.stats p).capacity.toNat left

/-- What an allocator tells; a registry's own allocator tells less. -/
def allocatorFacts (x : NamedAllocator) : Run AllocatorFacts := do
  let a := x.allocator
  let p := (← .get).process
  let stats := a.stats p
  let live ← stats.live
  let region ←
    if x.isRegistrys then pure none
    else do
      let left ← onMemory a.remaining
      pure (some ⟨left, a.shown p, a.region.length == stats.capacity.toNat⟩)
  return ⟨a.id p, stats, live, a.shownById p, region⟩

/-- Bytes with runs of them replaced. -/
def patched : Bytes → List (Nat × List UInt8) → Run Bytes
  | b, [] => pure b
  | b, (i, vs) :: rest =>
    if i + vs.length ≤ b.size then patched (b.write i vs) rest
    else .throw (.unfit .offset)

/-- The first bytes of an allocator's region, lent by it; as many as its header says unless a length
is given. -/
def view (a : Allocator) (length : Option Nat) : Run Region := do
  let stated := (a.stats (← .get).process).capacity.toNat
  return a.region.view (length.getD stated)

/-- The layout that a block is freed with: its own, unless a size is given. -/
def layoutToFree (own : Layout) (size align : Option Nat) : Run Layout :=
  match size with
  | some size => layout size (align.getD 8)
  | none => pure own

end Session

open Session in
def AllocatorOp.run : AllocatorOp → Session.Run Answer
  | create name id length => do
    opened name (← onMemory (Allocator.new id length))
  | createLent name id length skew => do
    opened name (← onMemory do Allocator.create id (← Region.lend skew length))
  | attachShared name source length => do
    let r ← view (← findAllocator source) length
    opened name (← onMemory (Allocator.attach r))
  | reformat name source id length => do
    let r ← view (← findAllocator source) length
    opened name (← onMemory (Allocator.create id r))
  | attachCopy name source length patches => do
    let a ← findAllocator source
    let b := a.region.bytes (← .get).process
    let b ← patched (b.resize (length.getD b.size)) patches
    opened name (← onMemory do Allocator.attach (← Region.ofBytes b))
  | attachBytes name bytes => do
    opened name (← onMemory do Allocator.attach (← Region.ofBytes (.ofList bytes)))
  | describe name => do
    return .allocatorFacts (← allocatorFacts (← find .allocator Session.allocators name))
  | allocate name block size align => do
    let a ← findAllocator name
    let l ← layout size align
    let (x, o) ← onMemory (a.allocate l)
    bindBlock block x l
    return .block o
  | free name block size align => do
    let a ← findAllocator name
    let (x, own) ← findBlock block
    .modify fun s => { s with blocks := s.blocks.erase block }
    let l ← layoutToFree own size align
    onMemory (a.free x l)
    return .done
  | freeAt name place size align => do
    let a ← findAllocator name
    let x ← addressOfObject place
    let l ← layout size align
    onMemory (a.free x l)
    return .done
  | fill name size align limit => do
    let a ← findAllocator name
    let l ← layout size align
    let (count, stop) ← onMemory (a.fill l limit)
    return .filled count stop
  | toOffset name place => do
    let a ← findAllocator name
    let x ← address place
    return .offset (a.toOffset x) (a.contains x)
  | toAddress name offset => do
    let a ← findAllocator name
    return .address ((← .get).locate (a.toAddress offset))
  | resolve name offset size align => do
    let a ← findAllocator name
    let l ← layout size align
    let s ← .get
    return .resolved ((a.resolve s.process offset l).map s.locate)
  | resolveTarget name offset target => do
    let a ← findAllocator name
    let s ← .get
    return .resolved ((a.resolve s.process offset target.layout).map s.locate)
  | peek name offset length => do
    let r := (← findAllocator name).region
    let b := (← .get).process.bytes r.segment
    return .bytes (if offset + length ≤ r.length then some (b.read offset length) else none)
  | poke name offset bytes => do
    let r := (← findAllocator name).region
    if offset < r.length ∧ offset + bytes.length ≤ r.length then
      .modify fun s =>
        let b := (s.process.bytes r.segment).write offset bytes
        { s with process := s.process.setBytes r.segment b }
      return .done
    else
      .throw (.unfit .offset)

end SharedHeap
