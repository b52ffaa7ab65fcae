import SharedHeap.Resolved

/-!
# Lists in a region

A growable list whose header and elements lie in a region. A process sees it through a view: the
address of the header and the allocator. The elements lie in one block, which is replaced by one of
twice the capacity when it is full. A header may tell of a block that lies over it, so what is
written at an element can change the header: it is read anew after each store, and no word of it is
stored that did not change.
-/

namespace SharedHeap

/-- What is stored of a list besides its elements. -/
structure ListHeader where
  length : UInt64
  capacity : UInt64
  /-- Where the elements are, null while there is no room for any. -/
  data : Offset
deriving DecidableEq, Repr, Inhabited

namespace ListHeader

def empty : ListHeader := ⟨0, 0, .null⟩

def lengthAt : Nat := 0
def capacityAt : Nat := 8
def dataAt : Nat := 16

def encode (h : ListHeader) : List UInt8 :=
  bytesOfWord h.length ++ bytesOfWord h.capacity ++ bytesOfWord h.data.word

def decode (bs : List UInt8) : ListHeader :=
  ⟨wordOfBytes (bs.take 8), wordOfBytes ((bs.drop 8).take 8), ⟨wordOfBytes (bs.drop 16)⟩⟩

@[simp] theorem length_encode (h : ListHeader) : h.encode.length = 24 := by simp [encode]

theorem decode_encode (h : ListHeader) : decode h.encode = h := by
  obtain ⟨l, c, ⟨d⟩⟩ := h
  simp [encode, decode, List.drop_append, List.drop_eq_nil_of_le]

end ListHeader

/-- A process's view of a list with elements of one plain type. -/
structure SharedList where
  header : Address
  allocator : Allocator
  /-- Whether `destroy` may release memory through this view. -/
  owned : Bool
deriving DecidableEq, Repr, Inhabited

namespace SharedList

variable {ε : Type}

/-- A view of the list whose header is at a resolved place. -/
def ofResolved (x : Resolved) : SharedList := ⟨x.address, x.allocator, false⟩

def resolved (l : SharedList) : Resolved := ⟨l.header, l.allocator⟩

def loadHeader (l : SharedList) : Action Process ε ListHeader := do
  return .decode (← Process.load l.header Target.listHeader.size)

def storeHeader (l : SharedList) (h : ListHeader) : Action Process ε Unit :=
  Process.store l.header h.encode

def storeWord (l : SharedList) (i : Nat) (w : UInt64) : Action Process ε Unit :=
  Process.store (l.header.add i) (bytesOfWord w)

/-- The layout of a block with room for `capacity` elements. -/
def dataLayout (elem : Plain) (capacity : UInt64) : Action Process ε Layout :=
  match elem.layout.array? capacity.toNat with
  | some layout => pure layout
  | none => .fault .overflow

/-- Returns the block that elements lie in, if there is one. -/
def freeData (l : SharedList) (elem : Plain) (h : ListHeader) : Action Process ε Unit := do
  let x := l.allocator.toAddress h.data
  if x.isNull then
    pure ()
  else
    let layout ← dataLayout elem h.capacity
    l.allocator.free x layout

/-- The capacity after a full block: twice what it was, and at least four. -/
def nextCapacity (capacity : UInt64) : Action Process ε UInt64 := do
  .require (2 * capacity.toNat < 2 ^ 64) .overflow
  pure (max (2 * capacity) 4)

/-- Moves the elements to a larger block. -/
def grow (l : SharedList) (elem : Plain) : Action Process MemoryError Unit := do
  let capacity ← nextCapacity (← l.loadHeader).capacity
  let layout ← dataLayout elem capacity
  let (block, offset) ← l.allocator.allocate layout
  let h ← l.loadHeader
  if !h.data.isNull then
    let old ← Process.load (l.allocator.toAddress h.data) (h.length.toNat * elem.size)
    Process.store block old
    l.freeData elem (← l.loadHeader)
  l.storeWord ListHeader.dataAt offset.word
  l.storeWord ListHeader.capacityAt capacity

def push (l : SharedList) (elem : Plain) (v : elem.Val) : Action Process MemoryError Unit := do
  let h ← l.loadHeader
  if h.length = h.capacity then l.grow elem
  let h ← l.loadHeader
  let block := l.allocator.toAddress h.data
  Process.store (block.nth elem.size h.length.toNat) (elem.encode v)
  let length := (← l.loadHeader).length
  .require (length.toNat + 1 < 2 ^ 64) .overflow
  l.storeWord ListHeader.lengthAt (length + 1)

/-- Appends elements in order, up to the first that finds no room. -/
def pushAll (l : SharedList) (elem : Plain) : List elem.Val → Action Process MemoryError Unit
  | [] => pure ()
  | v :: vs => do
    l.push elem v
    l.pushAll elem vs

/-- Builds a list where a view points at. Without room for all elements, none of the blocks that
were taken is kept. -/
def build (l : SharedList) (elem : Plain) (vs : List elem.Val) :
    Action Process MemoryError Unit := do
  l.storeHeader .empty
  match ← Action.attempt (l.pushAll elem vs) with
  | .ok _ => pure ()
  | .error e =>
    l.freeData elem (← l.loadHeader)
    .throw e

def item (l : SharedList) (elem : Plain) (i : Nat) : Action Process ε (Option elem.Val) := do
  let h ← l.loadHeader
  if i < h.length.toNat then
    let block := l.allocator.toAddress h.data
    return some (elem.decode (← Process.load (block.nth elem.size i) elem.size))
  else
    return none

def toList (l : SharedList) (elem : Plain) : Action Process ε (List elem.Val) := do
  let h ← l.loadHeader
  if h.length = 0 then
    return []
  else
    let n := h.length.toNat
    let bs ← Process.load (l.allocator.toAddress h.data) (n * elem.size)
    return Plain.decodeMany elem.decode elem.size n bs

def length (l : SharedList) : Action Process ε Nat := do
  return (← l.loadHeader).length.toNat

/-- Returns the elements' block and the header, if the view may, and gives the permission up. -/
def destroy (l : SharedList) (elem : Plain) : Action Process ε SharedList := do
  if l.owned then
    let h ← l.loadHeader
    l.freeData elem h
    l.allocator.free l.header Target.listHeader
    pure { l with owned := false }
  else
    pure l

end SharedList

end SharedHeap
