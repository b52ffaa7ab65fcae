import SharedHeap.Session.Descriptors
import SharedHeap.Session.Registries

/-!
# Operations on handles

Making handles by building targets or by being led to them, moving ownership between handles, and
using what they name. A new handle takes the place of the one that had its name, which is dropped
afterwards; an operation that is refused leaves it alone.
-/

namespace SharedHeap

inductive HandleOp
  /-- Builds a target in new blocks of an allocator, or of the default allocator of the process-wide
  registry. The value may be written as one of a type that converts into the target's. -/
  | build (name : String) (kind : Kind) (target : Target) (value : Literal)
      (allocator : Option String) (source : Option Plain)
  | buildAt (name : String) (kind : Kind) (slot allocator : String) (value : Literal)
  /-- A handle to what stands in a slot. -/
  | ofSlot (name : String) (kind : Kind) (slot allocator : String)
  /-- A handle to what a descriptor names. -/
  | ofDescriptor (name : String) (kind : Kind) (target : Target) (d : DescriptorArg)
      (registry : RegistryName)
  /-- A handle to the target of another one, if others can find it. -/
  | ofHandle (name : String) (kind : Kind) (source : String)
  /-- A handle over the value that another one shows. -/
  | ofValueOf (name : String) (kind : Kind) (source : String)
  | ofPlace (name : String) (kind : Kind) (target : Target) (place : Place)
  /-- A handle over a value in memory outside all regions. -/
  | ofValue (name : String) (kind : Kind) (target : Target) (value : Literal)
  | borrow (name source : String)
  | clone (name source : String)
  | init (name : String) (value : Literal) (allocator : Option String)
  | initAt (name slot allocator : String) (value : Literal)
  | assign (name source : String)
  /-- Lets a handle name the target of another one, if others can find it. -/
  | follow (name source : String)
  /-- Lets a handle name what a descriptor names. -/
  | followDescriptor (name : String) (target : Target) (d : DescriptorArg)
      (registry : RegistryName)
  /-- Stores a handle's descriptor in a variable. -/
  | serialize (name cell : String)
  | archive (name : String)
  | describe (name : String)
  | read? (name : String)
  /-- The value of a handle that has to name something. -/
  | read (name : String)
  | set (name : String) (value : Literal)
  | push (name : String) (value : Literal)
  /-- Appends elements one after the other, up to the first that cannot be read or has no room. -/
  | pushAll (name : String) (values : List Literal)
  | item (name : String) (index : Nat)
  | length (name : String)
  | fingerprint (name : String)
  | shown (name : String)
  | same (name other : String)
  /-- Whether two handles show a value at the same address. -/
  | sameAddress (name other : String)
  | destroy (name : String)
  | drop (name : String)
  /-- Gives a handle up without dropping it. -/
  | forget (name : String)
deriving Repr, Inhabited

/-- Where what a handle shows begins. The view of a list lies in the handle itself. -/
inductive Seen
  | nothing
  | value (x : Address)
  | viewOf (name : String)
deriving DecidableEq, Repr, Inhabited

def Seen.place (s : Session) : Seen → Place
  | nothing => .null
  | value x => s.locate x
  | viewOf _ => .outside

namespace AnyHandle

def isOwner (h : AnyHandle) : Bool := h.handle.isOwner

def isDetached (h : AnyHandle) : Bool := h.handle.isDetached

/-- Where what the handle of a name shows begins. -/
def seen (name : String) : AnyHandle → Seen
  | ⟨.plain _, _, h⟩ =>
    match h.object with
    | some r => if r.address.isNull then .nothing else .value r.address
    | none => .nothing
  | ⟨.list _, _, h⟩ => if h.isDetached then .nothing else .viewOf name

end AnyHandle

namespace Session

variable {α : Type}

/-- Answers the descriptor and the ownership of a handle. -/
def handleAnswer (h : AnyHandle) : Run Answer := do
  return .handle (some (h.handle.descriptor (← .get).process, h.isOwner))

def storeHandle (name : String) (h : AnyHandle) : Run Unit :=
  .modify fun s => { s with handles := s.handles.insert name h }

/-- Answers what a new handle is and gives it a name. The handle that had the name is dropped after
that. -/
def bindHandle (name : String) {t : Target} {k : Kind} (h : Handle t k) : Run Answer := do
  let answer ← handleAnswer ⟨t, k, h⟩
  let old := (← .get).handles[name]?
  storeHandle name ⟨t, k, h⟩
  match old with
  | some old => onHandle old.handle.drop
  | none => pure ()
  return answer

def takeHandle (name : String) : Run AnyHandle := do
  let h ← findHandle name
  .modify fun s => { s with handles := s.handles.erase name }
  pure h

/-- Replaces a named handle by what became of it. -/
def update {t : Target} {k : Kind} (name : String) (h : Handle t k) : Run Answer := do
  storeHandle name ⟨t, k, h⟩
  handleAnswer ⟨t, k, h⟩

/-- Keeps what became of a named handle that was to have a new target, and hands the error on if
there is none. -/
def renew {t : Target} {k : Kind} (name : String)
    (r : Handle t k × Except HandleError Unit) : Run Answer := do
  let answer ← update name r.1
  match r.2 with
  | .ok _ => pure answer
  | .error e => .throw (.handle e)

/-- The allocator to build in, or none for the default one. -/
def findAllocator? : Option String → Run (Option Allocator)
  | some name => return some (← findAllocator name)
  | none => return none

/-- A handle seen as one of a given type and kind. -/
def asSame (h : AnyHandle) (t : Target) (k : Kind) : Run (Handle t k) :=
  match h.as? t k with
  | some h => pure h
  | none => .throw .typeMismatch

/-- A plain value that is read at another type. -/
def readAs (e source : Plain) (l : Literal) : Run e.Val := do
  if source ∈ e.sources then
    match Plain.convert? source e (← readPlain source l) with
    | some v => pure v
    | none => .throw .unsupported
  else
    .throw .unsupported

/-- The arguments for a target, read at the type that they are written in. -/
def convertedArguments (t : Target) (source : Option Plain) (l : Literal) : Run t.Args :=
  match source, t with
  | none, t => arguments t l
  | some s, .plain e => readAs e s l
  | some _, .list _ => .throw .unsupported

def resolve (t : Target) (d : DescriptorArg) (registry : RegistryName) : Run Resolved := do
  let d ← descriptorOf d
  let r ← findRegistry registry
  onHandle (Resolved.ofDescriptor r d t)

/-- Refuses an operation on what a handle names; a handle has to name something before anybody asks
of what type it is. -/
def refuse {t : Target} {k : Kind} (h : Handle t k) : Run α := do
  let _ ← onHandle h.target
  .throw .unsupported

/-- Appends an element to a named list. Before anybody reads the element, the handle has to name
something, and that has to be a list. -/
def append (name : String) (value : Literal) : Run Unit := do
  match ← findHandle name with
  | ⟨.list e, _, h⟩ =>
    let _ ← onHandle h.target
    let v ← readPlain e value
    onHandle (h.push v)
  | ⟨.plain _, _, h⟩ => refuse h

/-- Lets a named handle name what stands at a resolved place. -/
def lead (name : String) (t : Target) (x : Resolved) : Run Answer := do
  let h ← findHandle name
  if h.target = t then
    update name (← onHandle (h.handle.replace (Handle.ofResolved x)))
  else
    .throw .typeMismatch

def handleFacts (name : String) (h : AnyHandle) : Run HandleFacts := do
  let v ← onHandle h.handle.value?
  let s ← .get
  return {
    target := h.target
    kind := h.kind
    isOwner := h.isOwner
    isDetached := h.isDetached
    allocator := h.handle.allocator?.map s.refer
    descriptor := h.handle.descriptor s.process
    seen := Seen.place s (h.seen name)
    value := v.map h.target.write }

end Session

open Session in
def HandleOp.run : HandleOp → Session.Run Answer
  | build name kind target value allocator source => do
    let a ← findAllocator? allocator
    let args ← convertedArguments target source value
    let h : Handle target kind ← onHandle <| match a with
      | some a => Handle.build a args
      | none => Handle.buildDefault args
    bindHandle name h
  | buildAt name kind slot allocator value => do
    let x ← findSlot slot
    let a ← findAllocator allocator
    let args ← arguments x.target value
    let h : Handle x.target kind ← onHandle (Handle.buildAt x.address a args)
    bindHandle name h
  | ofSlot name kind slot allocator => do
    let x ← findSlot slot
    let a ← findAllocator allocator
    let h : Handle x.target kind := Handle.ofResolved ⟨x.address, a⟩
    bindHandle name h
  | ofDescriptor name kind target d registry => do
    let h : Handle target kind := Handle.ofResolved (← resolve target d registry)
    bindHandle name h
  | ofHandle name kind source => do
    let h ← findHandle source
    match h.handle.resolved? with
    | some x =>
      let h : Handle h.target kind := Handle.ofResolved x
      bindHandle name h
    | none => return .handle none
  | ofValueOf name kind source => do
    match ← findHandle source with
    | ⟨.plain e, _, h⟩ =>
      let r ← onHandle h.target
      let h : Handle (.plain e) kind ← onHandle (Handle.ofAddress r.address)
      bindHandle name h
    | ⟨.list e, _, h⟩ =>
      let l ← onHandle h.target
      let h : Handle (.list e) kind := Handle.ofView l
      bindHandle name h
  | ofPlace name kind target place => do
    match target with
    | .plain e =>
      let x ← addressOfObject place
      let h : Handle (.plain e) kind ← onHandle (Handle.ofAddress x)
      bindHandle name h
    | .list _ => .throw .unsupported
  | ofValue name kind target value => do
    match target with
    | .plain e =>
      let v ← readPlain e value
      let x ← keep (e.encode v)
      let h : Handle (.plain e) kind ← onHandle (Handle.ofAddress x)
      bindHandle name h
    | .list _ => .throw .unsupported
  | borrow name source => do
    let h ← findHandle source
    match h.handle.borrow? with
    | some h => bindHandle name h
    | none => return .handle none
  | clone name source => do
    let h ← findHandle source
    if e : h.kind = .borrowed then
      bindHandle name (Handle.clone (e ▸ h.handle))
    else
      .throw .unsupported
  | init name value allocator => do
    let h ← findHandle name
    let a ← findAllocator? allocator
    let args ← arguments h.target value
    renew name <| ← onHandle <| match a with
      | some a => h.handle.init a args
      | none => h.handle.initDefault args
  | initAt name slot allocator value => do
    let h ← findHandle name
    let x ← findSlot slot
    let a ← findAllocator allocator
    if h.target = x.target then
      let args ← arguments h.target value
      renew name (← onHandle (h.handle.initAt x.address a args))
    else
      .throw .typeMismatch
  | assign name source => do
    let h ← findHandle name
    if name = source then
      .throw (.unknown .handle)
    else
      let other ← asSame (← findHandle source) h.target h.kind
      let _ ← takeHandle source
      let (h, other) ← onHandle (h.handle.assign other)
      storeHandle source ⟨_, _, other⟩
      update name h
  | follow name source => do
    let other ← findHandle source
    match other.handle.resolved? with
    | some x => lead name other.target x
    | none => return .handle none
  | followDescriptor name target d registry => do
    lead name target (← resolve target d registry)
  | serialize name cell => do
    let h ← findHandle name
    storeDescriptor cell (h.handle.descriptor (← .get).process)
  | archive name => do
    let h ← findHandle name
    let s ← .get
    return .archive <| h.handle.resolved?.map fun x =>
      (x.descriptor s.process, s.locate x.address, x.shown s.process)
  | describe name => do
    return .handleFacts (← handleFacts name (← findHandle name))
  | read? name => do
    let h ← findHandle name
    return .value ((← onHandle h.handle.value?).map h.target.write)
  | read name => do
    let h ← findHandle name
    return .value (some (h.target.write (← onHandle h.handle.value)))
  | set name value => do
    match ← findHandle name with
    | ⟨.plain e, _, h⟩ =>
      let _ ← onHandle h.target
      let v ← readPlain e value
      onHandle (h.set v)
      return .done
    | ⟨.list _, _, h⟩ => refuse h
  | push name value => do
    append name value
    return .done
  | pushAll name values => do
    let _ ← findHandle name
    values.forM (append name)
    return .done
  | item name index => do
    match ← findHandle name with
    | ⟨.list e, _, h⟩ => return .item ((← onHandle (h.item index)).map e.write)
    | ⟨.plain _, _, h⟩ => refuse h
  | length name => do
    match ← findHandle name with
    | ⟨.list _, _, h⟩ => return .length (← onHandle h.length)
    | ⟨.plain _, _, h⟩ => refuse h
  | fingerprint name => do
    match ← findHandle name with
    | ⟨.plain e, _, h⟩ =>
      if e.isHashable then return .fingerprint (Fingerprint.ofWords (← onHandle h.words))
      else .throw .unsupported
    | ⟨.list _, _, _⟩ => .throw .unsupported
  | shown name => do
    match ← findHandle name with
    | ⟨.plain _, _, h⟩ => return .text (← onHandle h.shown)
    | ⟨.list _, _, _⟩ => .throw .unsupported
  | same name other => do
    match ← findHandle name with
    | ⟨.plain e, k, h⟩ =>
      let other ← asSame (← findHandle other) (.plain e) k
      return .flag (← onHandle (h.same other))
    | ⟨.list e, k, _⟩ =>
      let _ ← asSame (← findHandle other) (.list e) k
      .throw .unsupported
  | sameAddress name other => do
    let h ← findHandle name
    let g ← findHandle other
    return .flag (h.seen name == g.seen other)
  | destroy name => do
    onHandle (← takeHandle name).handle.destroy
    return .done
  | drop name => do
    onHandle (← takeHandle name).handle.drop
    return .done
  | forget name => do
    let _ ← takeHandle name
    return .done

end SharedHeap
