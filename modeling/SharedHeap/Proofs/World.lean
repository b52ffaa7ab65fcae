import Mathlib.Logic.Relation
import SharedHeap.Proofs.TypedHeap
import SharedHeap.Session.Handles

/-!
# Runs of handles

A process with any number of regions, handles of all kinds to targets of all types, and blocks that
are asked for and returned by hand. `World.Step` tells what may happen next: every operation on
handles runs as it stands, and what is asked of its caller is what the operation cannot check. What
happened to targets is written down as a list of deeds, the last one first; `standing` reads off the
list which targets are alive and which value was stored in each of them last.
-/

namespace SharedHeap

instance : (t : Target) → DecidableEq t.Ref
  | .plain _ => inferInstanceAs (DecidableEq PlainRef)
  | .list _ => inferInstanceAs (DecidableEq SharedList)

deriving instance DecidableEq for Handle

deriving instance DecidableEq for AnyHandle

/-- What can happen to the target at an address. -/
inductive Deed
  | built (x : Address) (c : Cell)
  | stored (x : Address) (c : Cell)
  /-- An element was put at the end of a list. -/
  | pushed (x : Address) (e : Plain) (v : e.Val)
  /-- A handle returned the target's blocks. -/
  | released (x : Address)
  /-- Nobody will use the target, and its block is used as one without a target. -/
  | abandoned (x : Address)
deriving DecidableEq

/-- A list with one more element. -/
def Cell.push (e : Plain) (v : e.Val) : Cell → Cell
  | ⟨.list f, vs⟩ => if h : e = f then ⟨.list f, vs ++ [h ▸ v]⟩ else ⟨.list f, vs⟩
  | c => c

@[simp] theorem Cell.push_list {e : Plain} (v : e.Val) (vs : List e.Val) :
    Cell.push e v ⟨.list e, vs⟩ = ⟨.list e, vs ++ [v]⟩ := by simp [Cell.push]

/-- The targets that are alive after what happened, with the value stored in each last. -/
def standing : List Deed → Heap
  | [] => fun _ => none
  | .built x c :: past | .stored x c :: past => Function.update (standing past) x (some c)
  | .pushed x e v :: past =>
    Function.update (standing past) x ((standing past x).map (Cell.push e v))
  | .released x :: past | .abandoned x :: past => Function.update (standing past) x none

/-- The allocator works on one of the regions. -/
def Allocator.Serves (a : Allocator) (rs : List Region) : Prop := ∃ r ∈ rs, a.Over r

/-- All registered allocators work on some of the regions. -/
def Registry.Serves (g : Registry) (rs : List Region) : Prop := ∀ e ∈ g.entries, e.2.Serves rs

/-- The place is one of the region that its allocator works on. -/
def Resolved.Fits (x : Resolved) (rs : List Region) : Prop :=
  ∃ r ∈ rs, x.allocator.Over r ∧ ∃ d, x.address = .place r.segment d

/-- The allocator of a reference, if it has one, is that of the place it leads to. -/
def Target.Fits (t : Target) (x : t.Ref) (rs : List Region) : Prop :=
  ∀ a, t.allocator? x = some a → Resolved.Fits ⟨t.address x, a⟩ rs

namespace AnyHandle

/-- Where the target is. -/
def address? (h : AnyHandle) : Option Address := h.handle.object.map h.target.address

/-- The target that is released if the handle is destroyed. -/
def destroys? (h : AnyHandle) : Option Address :=
  if h.kind.isDestructible && h.handle.allocator?.isSome then h.address? else none

/-- The target that is released if the handle lets go of it. -/
def releases? (h : AnyHandle) : Option Address := if h.isOwner then h.destroys? else none

def Fits (h : AnyHandle) (rs : List Region) : Prop :=
  ∀ x, h.handle.object = some x → h.target.Fits x rs

/-- Another handle, if the kind has such. -/
def clone? (h : AnyHandle) : Option AnyHandle :=
  if e : h.kind = .borrowed then some ⟨h.target, .borrowed, Handle.clone (e ▸ h.handle)⟩ else none

end AnyHandle

/-- A target can stand in the slot, and if the handle may release the target, the slot serves its
layout. -/
def Patch.Hosts (b : Patch) (t : Target) (k : Kind) : Prop :=
  b.layout.Suits t.layout b.offset ∧ (k.isDestructible → b.layout.Shares t.layout)

/-- What a handle can be led to a target by. -/
inductive View
  /-- A place that is known, that of a slot for instance. -/
  | place (t : Target) (k : Kind) (x : Resolved)
  /-- A descriptor and a registry. -/
  | descriptor (t : Target) (k : Kind) (g : Registry) (d : Descriptor)
  /-- A descriptor that is looked up in the process-wide registry, be it read from an atomic cell or
  from a plain one. -/
  | pointer (t : Target) (k : Kind) (d : Descriptor)
  /-- A plain value, wherever it is. -/
  | value (e : Plain) (k : Kind) (x : Address)
  /-- A view of a list. -/
  | list (e : Plain) (k : Kind) (l : SharedList)
  /-- A borrowed handle to the target of another one. -/
  | borrow (i : Nat)
  | clone (i : Nat)

/-- What is asked of those who lead handles to targets. -/
def View.Fits (rs : List Region) : View → Prop
  | place _ _ x => x.Fits rs
  | descriptor _ _ g _ => g.Serves rs
  | list _ _ l => l.resolved.Fits rs
  | _ => True

/-- Which handle an operation is about. -/
inductive Act
  | build (i : Nat)
  | lead (i : Nat)
  /-- A handle is led to another target. -/
  | follow (i : Nat)
  | init (i : Nat)
  | assign (i j : Nat)
  | store (i : Nat)
  | destroy (i : Nat)
  | drop (i : Nat)
  | abandon (x : Address)
  /-- No handle. -/
  | blocks

/-- The handle that an operation finds and works on. -/
def Act.handle? : Act → Option Nat
  | follow i | init i | assign i _ | store i | destroy i | drop i => some i
  | build _ | lead _ | abandon _ | blocks => none

/-- A process, what is known of its regions, and its handles by number. -/
structure World where
  process : Process
  regions : List Region
  patches : List Patch
  /-- What the blocks with targets were asked for with. -/
  layouts : Layouts
  handles : Nat → Option AnyHandle
  history : List Deed

namespace World

variable {t : Target} {k : Kind} {e : Plain}

def heap (w : World) : Heap := standing w.history

/-- The handle is the owner of what is at an address. -/
def Owns (w : World) (i : Nat) (x : Address) : Prop :=
  ∃ h, w.handles i = some h ∧ h.isOwner ∧ h.address? = some x

/-! ## Blocks -/

def allocate (w : World) (a : Allocator) (y : Layout) : World :=
  let run := a.allocate y w.process
  match run.outcome with
  | .ok (_, o) =>
    { w with process := run.state, patches := ⟨a.region.segment, o.toNat, y⟩ :: w.patches }
  | _ => { w with process := run.state }

@[simp] theorem allocate_handles (w : World) (a : Allocator) (y : Layout) :
    (w.allocate a y).handles = w.handles := by
  simp only [allocate]
  split <;> rfl

@[simp] theorem allocate_history (w : World) (a : Allocator) (y : Layout) :
    (w.allocate a y).history = w.history := by
  simp only [allocate]
  split <;> rfl

def free (w : World) (a : Allocator) (b : Patch) : World :=
  { w with
    process := ((a.free b.address b.layout : Action Process MemoryError Unit) w.process).state
    patches := w.patches.erase b }

def write (w : World) (b : Patch) (i : Nat) (vs : List UInt8) : World :=
  { w with
    process :=
      ((Process.store (b.address.add i) vs : Action Process MemoryError Unit) w.process).state }

/-- The block of a target that nobody uses becomes one without a target. -/
def abandon (w : World) (s o : Nat) : World :=
  { w with
    patches := ⟨s, o, w.layouts (.place s o)⟩ :: w.patches
    history := .abandoned (.place s o) :: w.history }

def enroll (w : World) (g : Registry) : World :=
  { w with process := { w.process with registry := some g } }

/-! ## Handles -/

/-- A handle has a new target, in a block for the layout `y`. The handle that had the number may
have let go of another target. -/
def gain (w : World) (i : Nat) (p : Process) (h : Handle t k) (v : t.Val) (y : Layout)
    (bs : List Patch) (gone : Option Address) : World :=
  let h : AnyHandle := ⟨t, k, h⟩
  { w with
    process := p
    patches := bs
    layouts := h.address?.elim w.layouts (Function.update w.layouts · y)
    handles := Function.update w.handles i (some h)
    history := (gone.map .released).toList ++ (h.address?.map (.built · ⟨t, v⟩)).toList ++
      w.history }

/-- A handle is made by an action that builds a target. -/
def make (w : World) (i : Nat) (x : Action Process HandleError (Handle t k)) (v : t.Val)
    (y : Layout) (bs : List Patch) : World :=
  let run := x w.process
  match run.outcome with
  | .ok h => w.gain i run.state h v y bs none
  | _ => { w with process := run.state }

/-- An action that builds a target answers what became of the handle that was to have it, and an
error if there is no new target. -/
def remake (w : World) (i : Nat)
    (x : Action Process HandleError (Handle t k × Except HandleError Unit)) (v : t.Val)
    (y : Layout) (bs : List Patch) (gone : Option Address) : World :=
  let run := x w.process
  match run.outcome with
  | .ok (h, .ok _) => w.gain i run.state h v y bs gone
  | .ok (h, .error _) =>
    { w with process := run.state, handles := Function.update w.handles i (some ⟨t, k, h⟩) }
  | _ => { w with process := run.state }

def build (w : World) (i : Nat) (k : Kind) (a : Allocator) (args : t.Args) : World :=
  w.make i (Handle.build a args : Action _ _ (Handle t k)) (t.initial args) t.layout w.patches

theorem build_handles_of_ne (w : World) {i j : Nat} (hj : j ≠ i) (k : Kind) (a : Allocator)
    (args : t.Args) : (w.build i k a args).handles j = w.handles j := by
  simp only [build, make]
  split
  · exact Function.update_of_ne hj ..
  · rfl

def buildAt (w : World) (i : Nat) (k : Kind) (b : Patch) (a : Allocator) (args : t.Args) : World :=
  w.make i (Handle.buildAt b.address a args : Action _ _ (Handle t k)) (t.initial args) b.layout
    (w.patches.erase b)

def init (w : World) (i : Nat) (h : Handle t k) (a : Allocator) (args : t.Args) : World :=
  w.remake i (h.init a args) (t.initial args) t.layout w.patches (AnyHandle.mk t k h).releases?

def initAt (w : World) (i : Nat) (h : Handle t k) (b : Patch) (a : Allocator) (args : t.Args) :
    World :=
  w.remake i (h.initAt b.address a args) (t.initial args) b.layout (w.patches.erase b)
    (AnyHandle.mk t k h).releases?

def seen (w : World) : View → Action Process HandleError (Option AnyHandle)
  | .place t k x => return some ⟨t, k, .ofResolved x⟩
  | .descriptor t k g d => return some ⟨t, k, ← Handle.ofDescriptor g d⟩
  | .pointer t k d => return some ⟨t, k, ← Handle.ofDescriptor (← Process.theRegistry) d⟩
  | .value e k x => return some ⟨.plain e, k, ← Handle.ofAddress x⟩
  | .list e k l => return some ⟨.list e, k, .ofView l⟩
  | .borrow i => return (w.handles i).bind fun h => h.handle.borrow?.map (⟨h.target, .borrowed, ·⟩)
  | .clone i => return (w.handles i).bind AnyHandle.clone?

def lead (w : World) (i : Nat) (v : View) : World :=
  let run := w.seen v w.process
  match run.outcome with
  | .ok (some h) =>
    { w with process := run.state, handles := Function.update w.handles i (some h) }
  | _ => { w with process := run.state }

/-- A handle is led to another target. -/
def follow (w : World) (i : Nat) (h : Handle t k) (x : Resolved) : World :=
  let run := (h.replace (.ofResolved x) : Action Process HandleError _) w.process
  match run.outcome with
  | .ok h' =>
    { w with
      process := run.state
      handles := Function.update w.handles i (some ⟨t, k, h'⟩)
      history := ((AnyHandle.mk t k h).releases?.map .released).toList ++ w.history }
  | _ => { w with process := run.state }

def assign (w : World) (i j : Nat) (h other : Handle t k) : World :=
  let run := (h.assign other : Action Process HandleError _) w.process
  match run.outcome with
  | .ok (h', other') =>
    { w with
      process := run.state
      handles := Function.update (Function.update w.handles i (some ⟨t, k, h'⟩)) j
        (some ⟨t, k, other'⟩)
      history := ((AnyHandle.mk t k h).releases?.map .released).toList ++ w.history }
  | _ => { w with process := run.state }

def set (w : World) (h : Handle (.plain e) k) (v : e.Val) : World :=
  let run := (h.set v : Action Process HandleError Unit) w.process
  match run.outcome with
  | .ok _ =>
    { w with
      process := run.state
      history := ((AnyHandle.mk _ k h).address?.map (.stored · ⟨.plain e, v⟩)).toList ++ w.history }
  | _ => { w with process := run.state }

def push (w : World) (h : Handle (.list e) k) (v : e.Val) : World :=
  let run := h.push v w.process
  match run.outcome with
  | .ok _ =>
    { w with
      process := run.state
      history := ((AnyHandle.mk _ k h).address?.map (.pushed · e v)).toList ++ w.history }
  | _ => { w with process := run.state }

@[simp] theorem push_handles (w : World) (h : Handle (.list e) k) (v : e.Val) :
    (w.push h v).handles = w.handles := by
  simp only [push]
  split <;> rfl

def destroy (w : World) (i : Nat) (h : AnyHandle) : World :=
  { w with
    process := ((h.handle.destroy : Action Process HandleError Unit) w.process).state
    handles := Function.update w.handles i none
    history := (h.destroys?.map .released).toList ++ w.history }

def drop (w : World) (i : Nat) (h : AnyHandle) : World :=
  { w with
    process := ((h.handle.drop : Action Process HandleError Unit) w.process).state
    handles := Function.update w.handles i none
    history := (h.releases?.map .released).toList ++ w.history }

inductive Step (w : World) : Act → World → Prop
  | allocate {a : Allocator} (ha : a.Serves w.regions) {y : Layout} (hy : y.Valid) :
    Step w .blocks (w.allocate a y)
  | free {b : Patch} (hb : b ∈ w.patches) {a : Allocator}
    (ha : Resolved.Fits ⟨b.address, a⟩ w.regions) : Step w .blocks (w.free a b)
  | write {b : Patch} (hb : b ∈ w.patches) {i : Nat} {vs : List UInt8}
    (hi : i + vs.length ≤ b.plot.extent.size) : Step w .blocks (w.write b i vs)
  /-- The target has no owner that could release it. -/
  | abandon {s o : Nat} {c : Cell} (hc : w.heap (.place s o) = some c)
    (ho : ∀ i, ¬ w.Owns i (.place s o)) :
    Step w (.abandon (.place s o)) (w.abandon s o)
  | enroll {g : Registry} (hg : g.Serves w.regions) : Step w .blocks (w.enroll g)
  | build {i : Nat} (hi : w.handles i = none) {a : Allocator} (ha : a.Serves w.regions)
    {t : Target} (ht : t.Valid) (k : Kind) (args : t.Args) :
    Step w (.build i) (w.build i k a args)
  /-- The slot is a block of its own. -/
  | buildAt {i : Nat} (hi : w.handles i = none) {b : Patch} (hb : b ∈ w.patches) {a : Allocator}
    (ha : Resolved.Fits ⟨b.address, a⟩ w.regions) {t : Target} (ht : t.Valid) {k : Kind}
    (hh : b.Hosts t k) (args : t.Args) : Step w (.build i) (w.buildAt i k b a args)
  | lead {i : Nat} (hi : w.handles i = none) {v : View} (hv : v.Fits w.regions) :
    Step w (.lead i) (w.lead i v)
  | follow {i : Nat} {t : Target} {k : Kind} {h : Handle t k} (hi : w.handles i = some ⟨t, k, h⟩)
    {x : Resolved} (hx : x.Fits w.regions) : Step w (.follow i) (w.follow i h x)
  | init {i : Nat} {t : Target} {k : Kind} {h : Handle t k} (hi : w.handles i = some ⟨t, k, h⟩)
    {a : Allocator} (ha : a.Serves w.regions) (ht : t.Valid) (args : t.Args) :
    Step w (.init i) (w.init i h a args)
  | initAt {i : Nat} {t : Target} {k : Kind} {h : Handle t k} (hi : w.handles i = some ⟨t, k, h⟩)
    {b : Patch} (hb : b ∈ w.patches) {a : Allocator}
    (ha : Resolved.Fits ⟨b.address, a⟩ w.regions) (ht : t.Valid)
    (hh : b.Hosts t k) (args : t.Args) : Step w (.init i) (w.initAt i h b a args)
  | assign {i j : Nat} (hij : i ≠ j) {t : Target} {k : Kind} {h other : Handle t k}
    (hi : w.handles i = some ⟨t, k, h⟩) (hj : w.handles j = some ⟨t, k, other⟩) :
    Step w (.assign i j) (w.assign i j h other)
  /-- What the handle names is alive. -/
  | set {i : Nat} {e : Plain} {k : Kind} {h : Handle (.plain e) k}
    (hi : w.handles i = some ⟨.plain e, k, h⟩)
    (hl : ∀ x, (AnyHandle.mk _ k h).address? = some x → ∃ v, w.heap x = some ⟨.plain e, v⟩)
    (v : e.Val) : Step w (.store i) (w.set h v)
  /-- What the handle names is alive. -/
  | push {i : Nat} {e : Plain} {k : Kind} {h : Handle (.list e) k}
    (hi : w.handles i = some ⟨.list e, k, h⟩)
    (hl : ∀ x, (AnyHandle.mk _ k h).address? = some x → ∃ vs, w.heap x = some ⟨.list e, vs⟩)
    (v : e.Val) : Step w (.store i) (w.push h v)
  /-- What a handle releases that is no owner was not released before, has no owner, and is on a
  block for its layout. -/
  | destroy {i : Nat} {h : AnyHandle} (hi : w.handles i = some h)
    (hd : h.isOwner = false → ∀ x, h.destroys? = some x →
      (∃ v, w.heap x = some ⟨h.target, v⟩) ∧ (w.layouts x).Shares h.target.layout ∧
        ∀ j, ¬ w.Owns j x) :
    Step w (.destroy i) (w.destroy i h)
  | drop {i : Nat} {h : AnyHandle} (hi : w.handles i = some h) : Step w (.drop i) (w.drop i h)

/-- Regions that nobody has used, formatted one after the other. -/
def formatted : List (AllocatorId × Region) → Process → Process
  | [], p => p
  | (id, r) :: rest, p => formatted rest (Allocator.create id r p).state

/-- A process with formatted regions and no handles. -/
def start (rs : List (AllocatorId × Region)) (p : Process) : World where
  process := formatted rs p
  regions := rs.map (·.2)
  patches := []
  layouts := fun _ => default
  handles := fun _ => none
  history := []

/-- What regions have to be for a start: they lie apart from each other, and each is one that an
allocator can be created over. -/
structure Ready (rs : List (AllocatorId × Region)) (p : Process) : Prop where
  apart : (rs.map (·.2.segment)).Nodup
  backed : ∀ r ∈ rs.map (·.2), r.Backed p
  large : ∀ r ∈ rs.map (·.2), Allocator.minRegionSize ≤ r.length
  aligned : ∀ r ∈ rs.map (·.2), p.isAligned r.base Region.alignment
  registry : ∀ g, p.registry = some g → g.Serves (rs.map (·.2))

/-- A page of memory, whose allocator is registered. -/
def page : Region := ⟨0, 4096, true⟩

def pageProcess : Process :=
  { Process.single (.zeros 4096) with registry := some ⟨[(⟨1, 0⟩, ⟨page⟩)], none, .standard⟩ }

theorem page_serves {rs : List Region} (h : page ∈ rs) : Allocator.Serves ⟨page⟩ rs :=
  ⟨page, h, rfl, rfl⟩

theorem page_ready : Ready [(⟨1, 0⟩, page)] pageProcess := by
  refine ⟨by simp, ?_, ?_, ?_, ?_⟩
  · intro r hr
    rw [List.mem_singleton.1 hr]
    exact ⟨by decide, by decide, by decide⟩
  · intro r hr
    rw [List.mem_singleton.1 hr]
    decide
  · intro r hr
    rw [List.mem_singleton.1 hr]
    decide
  · rintro g ⟨⟩ e he
    rw [List.mem_singleton.1 he]
    exact page_serves List.mem_cons_self

abbrev Reachable (rs : List (AllocatorId × Region)) (p : Process) : World → Prop :=
  Relation.ReflTransGen (fun w w' => ∃ act, Step w act w') (start rs p)

end World

end SharedHeap
