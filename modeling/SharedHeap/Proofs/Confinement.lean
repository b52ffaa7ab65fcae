import SharedHeap.Proofs.Copies
import SharedHeap.Proofs.Runs

/-!
# What operations can reach

An operation stores in the regions of the allocators that it is given and at the addresses that it
is given, and nowhere else, however it ends (`Process.Confined`). This needs nothing to be true of
the process: lists are followed through their headers, and whatever a header says, an allocator
turns it into addresses of its own region. From it, whatever is done with handles leaves all other
segments alone (`World.Sound.retains_run`).
-/

namespace SharedHeap

open SharedHeap.Action (Ends)

namespace Process

variable {S : Nat → Prop} {ε ε' α β : Type} {Q : α → Prop} {R : β → Prop} {x : Action Process ε α}

/-- The action leaves segments alone that are not in `S`, and what it answers satisfies `Q`. -/
structure Confined (S : Nat → Prop) (x : Action Process ε α) (Q : α → Prop) : Prop where
  retains : ∀ (p : Process) (s : Nat), ¬ S s → p.Retains (x p).state s
  answer : ∀ (p : Process) (a : α), (x p).outcome = .ok a → Q a

/-- Nothing is known of an answer. -/
abbrev Any : α → Prop := fun _ => True

namespace Confined

theorem mono (h : Confined S x Q) {Q' : α → Prop} (hq : ∀ a, Q a → Q' a) : Confined S x Q' :=
  ⟨h.retains, fun p a ha => hq a (h.answer p a ha)⟩

/-- The action changes no segment at all. -/
theorem of_segments (h : ∀ p, (x p).state.segments = p.segments) : Confined S x Any :=
  ⟨fun p _ _ => retains_of_segments (h p), fun _ _ _ => trivial⟩

protected theorem pure {a : α} (ha : Q a) : Confined S (pure a : Action Process ε α) Q := by
  refine ⟨fun p s _ => .refl p s, ?_⟩
  rintro p b ⟨⟩
  exact ha

protected theorem get : Confined S (Action.get : Action Process ε Process) Any :=
  of_segments fun _ => rfl

protected theorem throw {e : ε} : Confined S (Action.throw e : Action Process ε α) Q :=
  ⟨fun p s _ => .refl p s, nofun⟩

protected theorem fault {f : Fault} : Confined S (Action.fault f : Action Process ε α) Q :=
  ⟨fun p s _ => .refl p s, nofun⟩

protected theorem ite {c : Prop} [Decidable c] {y : Action Process ε α} (hx : Confined S x Q)
    (hy : Confined S y Q) : Confined S (if c then x else y) Q := by
  split
  · exact hx
  · exact hy

protected theorem require {c : Prop} [Decidable c] {f : Fault} :
    Confined S (Action.require c f : Action Process ε Unit) Any := .ite (.pure trivial) .fault

protected theorem bind {f : α → Action Process ε β} (hx : Confined S x Q)
    (hf : ∀ a, Q a → Confined S (f a) R) : Confined S (x >>= f) R := by
  constructor
  · intro p s hs
    have h₁ := hx.retains p s hs
    have h₂ := hx.answer p
    rcases hrun : x p with ⟨a | e | y, p', es⟩ <;> rw [hrun] at h₁ h₂ <;>
      simp only [Action.bind_apply, hrun, Action.andThen_ok, Action.andThen_error,
        Action.andThen_fault]
    · exact h₁.trans ((hf a (h₂ a rfl)).retains p' s hs)
    · exact h₁
    · exact h₁
  · intro p b hb
    have h₂ := hx.answer p
    rcases hrun : x p with ⟨a | e | y, p', es⟩ <;> rw [hrun] at h₂ <;>
      simp only [Action.bind_apply, hrun, Action.andThen_ok, Action.andThen_error,
        Action.andThen_fault] at hb
    · exact (hf a (h₂ a rfl)).answer p' b hb
    · cases hb
    · cases hb

protected theorem mapError {g : ε → ε'} (hx : Confined S x Q) : Confined S (x.mapError g) Q := by
  refine ⟨hx.retains, fun p a ha => hx.answer p a ?_⟩
  simp only [Action.mapError_apply] at ha
  cases hrun : (x p).outcome <;> rw [hrun] at ha <;> cases ha
  rfl

protected theorem attempt (hx : Confined S x Q) :
    Confined S (x.attempt : Action Process ε' (Except ε α)) fun r => ∀ a, r = .ok a → Q a := by
  constructor
  · intro p s hs
    have h := hx.retains p s hs
    cases hrun : (x p).outcome <;> simpa only [Action.attempt, hrun] using h
  · intro p r hr a ha
    subst ha
    refine hx.answer p a ?_
    unfold Action.attempt at hr
    cases hrun : (x p).outcome <;> simp only [hrun] at hr <;> cases hr
    rfl

protected theorem onFault {c : Action Process ε Unit} (hx : Confined S x Q)
    (hc : Confined S c Any) : Confined S (x.onFault c) Q := by
  constructor
  · intro p s hs
    have h := hx.retains p s hs
    cases hrun : (x p).outcome <;> simp only [Action.onFault, hrun]
    · exact h
    · exact h
    · exact h.trans (hc.retains _ s hs)
  · intro p a ha
    refine hx.answer p a ?_
    unfold Action.onFault at ha
    cases hrun : (x p).outcome <;> simp only [hrun] at ha
    · exact ha
    · cases ha
    · cases ha

/-- Telling something does what putting the text together does. -/
protected theorem say {level : Log.Level} {target : String} {text : Action Process ε String}
    (h : Confined S text Any) : Confined S (Process.say level target text) Any :=
  .bind .get fun _ _ => .ite (.bind h fun _ _ => .of_segments fun _ => rfl) (.pure trivial)

end Confined

/-! ## Memory -/

/-- The address, unless it is null, is in one of the segments. -/
def Reaches (S : Nat → Prop) : Address → Prop
  | .null => True
  | .place s _ => S s

theorem Reaches.add {a : Address} (h : Reaches S a) (n : Int) : Reaches S (a.add n) := by
  cases a <;> exact h

theorem load_confined (a : Address) (n : Nat) :
    Confined S (load a n : Action Process ε (List UInt8)) Any := by
  unfold load
  split
  · exact .pure trivial
  · refine .bind .get fun p _ => ?_
    split
    · exact .pure trivial
    · exact .fault

theorem store_confined {a : Address} (ha : Reaches S a) (vs : List UInt8) :
    Confined S (store a vs : Action Process ε Unit) Any := by
  refine ⟨fun p s hs => ?_, fun _ _ _ => trivial⟩
  unfold store
  split
  · exact .refl p s
  · cases a with
    | null => exact .refl p s
    | place i d =>
      have hi : i ≠ s := by
        rintro rfl
        exact hs ha
      simp only [Action.bind_apply, Action.get_apply, Action.andThen_ok, extent?]
      by_cases hd : 0 ≤ d ∧ d.toNat + vs.length ≤ (p.bytes i).size
      · simp only [if_pos hd]
        exact retains_setBytes hi
      · simp only [if_neg hd]
        exact .refl p s

theorem onBytes_confined {i : Nat} (hi : S i) (x : Log.Level → Action Bytes ε α) :
    Confined S (onBytes i x) Any := by
  refine ⟨fun p s hs => retains_setBytes (i := i) ?_, fun _ _ _ => trivial⟩
  rintro rfl
  exact hs hi

theorem finalize_confined (n : Nat) : Confined S (finalize n : Action Process ε Unit) Any :=
  .of_segments fun _ => rfl

theorem theRegistry_confined : Confined S (theRegistry : Action Process ε Registry) Any := by
  refine .of_segments fun p => ?_
  unfold theRegistry
  cases h : p.registry <;> simp [h, heed]

end Process

open Process (Confined Any Reaches)

namespace Allocator

variable {S : Nat → Prop} {ε : Type} {a : Allocator}

/-- Blocks are in the segment of their allocator. -/
theorem allocate_confined (ha : S a.region.segment) (y : Layout) :
    Confined S (a.allocate y) fun x => Reaches S x.1 :=
  .bind (Process.onBytes_confined ha _) fun _ _ => .pure ha

theorem free_confined (ha : S a.region.segment) (x : Address) (y : Layout) :
    Confined S (a.free x y : Action Process ε Unit) Any := by
  have hreq : Confined S (SizeClass.request y) Any :=
    .ite .throw (.bind .require fun _ _ => .pure trivial)
  refine .bind hreq.attempt fun r _ => ?_
  cases r with
  | error e => exact .say (.pure trivial)
  | ok c =>
    exact .ite (.say (.bind .get fun _ _ => .pure trivial)) (Process.onBytes_confined ha _)

theorem toAddress_reaches (ha : S a.region.segment) (o : Offset) : Reaches S (a.toAddress o) := by
  rw [toAddress, Region.toAddress]
  split
  · trivial
  · exact ha

end Allocator

/-! ## Plain values -/

namespace PlainRef

variable {S : Nat → Prop} {ε : Type} {x : PlainRef}

theorem store_confined (hx : Reaches S x.address) (t : Plain) (v : t.Val) :
    Confined S (x.store t v : Action Process ε Unit) Any := Process.store_confined hx _

theorem replace_confined (hx : Reaches S x.address) (t : Plain) (v : t.Val) :
    Confined S (x.replace t v : Action Process ε Unit) Any :=
  .bind (Process.finalize_confined _) fun _ _ => store_confined hx t v

theorem build_confined {a : Allocator} (ha : S a.region.segment) (t : Plain) (v : t.Val) :
    Confined S (build a t v) fun x => x.allocator = some a := by
  refine .bind (.onFault (Allocator.allocate_confined ha _).attempt
    (Process.finalize_confined _)) fun r hr => ?_
  cases r with
  | ok y => exact .bind (store_confined (hr y rfl) t v) fun _ _ => .pure rfl
  | error e => exact .bind (Process.finalize_confined _) fun _ _ => .throw

theorem destroy_confined (hx : ∀ a, x.allocator = some a → S a.region.segment) (t : Plain)
    (d : Bool) : Confined S (x.destroy t d : Action Process ε PlainRef) Any := by
  refine .ite (.ite ?_ (.pure trivial)) (.pure trivial)
  cases ha : x.allocator with
  | none => exact .bind (.say (.pure trivial)) fun _ _ => .pure trivial
  | some a =>
    exact .bind (.say (.bind .get fun _ _ => .pure trivial)) fun _ _ =>
      .bind (Process.finalize_confined _) fun _ _ =>
      .bind (Allocator.free_confined (hx a ha) ..) fun _ _ => .pure trivial

end PlainRef

/-! ## Lists -/

namespace SharedList

variable {S : Nat → Prop} {ε : Type} {l : SharedList} {e : Plain}

theorem loadHeader_confined (l : SharedList) :
    Confined S (l.loadHeader : Action Process ε ListHeader) Any :=
  .bind (Process.load_confined ..) fun _ _ => .pure trivial

theorem dataLayout_confined (e : Plain) (n : UInt64) :
    Confined S (dataLayout e n : Action Process ε Layout) Any := by
  unfold dataLayout
  cases e.layout.array? n.toNat with
  | some y => exact .pure trivial
  | none => exact .fault

theorem freeData_confined (ha : S l.allocator.region.segment) (e : Plain) (h : ListHeader) :
    Confined S (l.freeData e h : Action Process ε Unit) Any :=
  .ite (.pure trivial) (.bind (dataLayout_confined ..) fun _ _ => Allocator.free_confined ha ..)

theorem storeWord_confined (hl : Reaches S l.header) (i : Nat) (w : UInt64) :
    Confined S (l.storeWord i w : Action Process ε Unit) Any := Process.store_confined (hl.add _) _

theorem grow_confined (hl : Reaches S l.header) (ha : S l.allocator.region.segment) :
    Confined S (l.grow e) Any := by
  have hwords (o : Offset) (c : UInt64) : Confined S (do
      l.storeWord ListHeader.dataAt o.word
      l.storeWord ListHeader.capacityAt c : Action Process MemoryError Unit) Any :=
    .bind (storeWord_confined hl ..) fun _ _ => storeWord_confined hl ..
  refine .bind (loadHeader_confined l) fun h _ => ?_
  refine .bind (.bind .require fun _ _ => .pure trivial) fun c (_ : Any c) => ?_
  refine .bind (dataLayout_confined ..) fun y _ => ?_
  refine .bind (Allocator.allocate_confined ha y) fun x hx => ?_
  refine .bind (loadHeader_confined l) fun h _ => ?_
  refine .ite ?_ (hwords ..)
  exact .bind (Process.load_confined ..) fun old _ => .bind (Process.store_confined hx _)
    fun _ _ => .bind (loadHeader_confined l) fun _ _ => .bind (freeData_confined ha ..)
    fun _ _ => hwords ..

theorem push_confined (hl : Reaches S l.header) (ha : S l.allocator.region.segment) (v : e.Val) :
    Confined S (l.push e v) Any := by
  have hput : Confined S (do
      let h ← l.loadHeader
      let block := l.allocator.toAddress h.data
      Process.store (block.nth e.size h.length.toNat) (e.encode v)
      let length := (← l.loadHeader).length
      .require (length.toNat + 1 < 2 ^ 64) .overflow
      l.storeWord ListHeader.lengthAt (length + 1) : Action Process MemoryError Unit) Any :=
    .bind (loadHeader_confined l) fun h _ =>
      .bind (Process.store_confined ((Allocator.toAddress_reaches ha _).add _) _) fun _ _ =>
        .bind (loadHeader_confined l) fun _ _ => .bind .require fun _ _ => storeWord_confined hl ..
  refine .bind (loadHeader_confined l) fun h _ => ?_
  exact .ite (.bind (grow_confined hl ha) fun _ _ => hput) hput

theorem pushAll_confined (hl : Reaches S l.header) (ha : S l.allocator.region.segment)
    (vs : List e.Val) : Confined S (l.pushAll e vs) Any := by
  induction vs with
  | nil => exact .pure trivial
  | cons v vs ih => exact .bind (push_confined hl ha v) fun _ _ => ih

theorem build_confined (hl : Reaches S l.header) (ha : S l.allocator.region.segment)
    (vs : List e.Val) : Confined S (l.build e vs) Any := by
  refine .bind (Process.store_confined hl _) fun _ _ => ?_
  refine .bind (pushAll_confined hl ha vs).attempt fun r _ => ?_
  cases r with
  | ok u => exact .pure trivial
  | error err =>
    exact .bind (loadHeader_confined l) fun _ _ => .bind (freeData_confined ha ..) fun _ _ => .throw

theorem destroy_confined (ha : S l.allocator.region.segment) (e : Plain) :
    Confined S (l.destroy e : Action Process ε SharedList) Any :=
  .ite (.bind (loadHeader_confined l) fun _ _ => .bind (freeData_confined ha ..) fun _ _ =>
    .bind (Allocator.free_confined ha ..) fun _ _ => .pure trivial) (.pure trivial)

end SharedList

/-! ## Targets and handles -/

namespace Target

variable {S : Nat → Prop} {ε : Type} {t : Target} {a : Allocator}

/-- The allocator of a reference, if it has one, is one of those. -/
def BelongsTo (S : Nat → Prop) (t : Target) (x : t.Ref) : Prop :=
  ∀ a, t.allocator? x = some a → S a.region.segment

theorem build_confined (ha : S a.region.segment) (args : t.Args) :
    Confined S (t.build a args) (t.BelongsTo S) := by
  cases t with
  | plain t =>
    refine (PlainRef.build_confined ha t args).mono fun x hx a' ha' => ?_
    obtain rfl := Option.some.inj (hx.symm.trans ha')
    exact ha
  | list e =>
    refine .bind (Allocator.allocate_confined ha _) fun x hx => ?_
    have hbuild := SharedList.build_confined (l := ⟨x.1, a, false⟩) (e := e) hx ha args.toList
    refine .bind hbuild.attempt fun r _ => ?_
    cases r with
    | ok u =>
      refine .pure ?_
      rintro a' ⟨⟩
      exact ha
    | error err => exact .bind (Allocator.free_confined ha ..) fun _ _ => .throw

theorem buildAt_confined {x : Address} (hx : Reaches S x) (ha : S a.region.segment)
    (args : t.Args) : Confined S (t.buildAt x a args) (t.BelongsTo S) := by
  cases t with
  | plain t =>
    refine .bind (PlainRef.store_confined (x := ⟨x, some a⟩) hx t args) fun _ _ => .pure ?_
    rintro a' ⟨⟩
    exact ha
  | list e =>
    refine .bind (SharedList.build_confined (l := ⟨x, a, false⟩) hx ha args.toList)
      fun _ _ => .pure ?_
    rintro a' ⟨⟩
    exact ha

theorem destroy_confined {x : t.Ref} (hx : t.BelongsTo S x) (d : Bool) :
    Confined S (t.destroy x d : Action Process ε _) Any := by
  cases t with
  | plain t => exact PlainRef.destroy_confined hx t d
  | list e => exact SharedList.destroy_confined (l := { x with owned := d }) (hx _ rfl) e

end Target

namespace Handle

variable {S : Nat → Prop} {ε : Type} {t : Target} {k : Kind} {h f : Handle t k} {a : Allocator}

/-- The allocator that the handle knows, if it does, is one of those. -/
def BelongsTo (S : Nat → Prop) (h : Handle t k) : Prop :=
  ∀ x, h.object = some x → t.BelongsTo S x

theorem build_confined (ha : S a.region.segment) (args : t.Args) :
    Confined S (build a args : Action _ _ (Handle t k)) (BelongsTo S) := by
  refine .bind (Target.build_confined ha args).mapError fun x hx => .pure ?_
  rintro _ ⟨⟩
  exact hx

theorem buildAt_confined {x : Address} (hx : Reaches S x) (ha : S a.region.segment)
    (args : t.Args) : Confined S (buildAt x a args : Action _ _ (Handle t k)) (BelongsTo S) := by
  refine .bind (Target.buildAt_confined hx ha args).mapError fun x hx => .pure ?_
  rintro _ ⟨⟩
  exact hx

theorem release_confined (hh : h.BelongsTo S) :
    Confined S (h.release : Action Process ε Unit) Any := by
  unfold release
  refine .ite ?_ (.pure trivial)
  cases hx : h.object with
  | none => exact .pure trivial
  | some x => exact .bind (Target.destroy_confined (hh x hx) _) fun _ _ => .pure trivial

theorem drop_confined (hh : h.BelongsTo S) : Confined S (h.drop : Action Process ε Unit) Any :=
  .ite (.bind (.say (.pure trivial)) fun _ _ => release_confined hh) (.pure trivial)

theorem replace_confined (hh : h.BelongsTo S) (hf : f.BelongsTo S) :
    Confined S (h.replace f : Action Process ε _) Any :=
  .bind (.onFault (release_confined hh) (drop_confined hf)) fun _ _ => .pure trivial

theorem assign_confined (hh : h.BelongsTo S) (hf : f.BelongsTo S) :
    Confined S (h.assign f : Action Process ε _) Any :=
  .bind (replace_confined hh hf) fun _ _ => .pure trivial

theorem renewed_confined (hh : h.BelongsTo S) {r : Except HandleError (Handle t k)}
    (hr : ∀ f, r = .ok f → f.BelongsTo S) :
    Confined S (h.renewed r : Action Process ε _) Any := by
  cases r with
  | ok f => exact .bind (replace_confined hh (hr f rfl)) fun _ _ => .pure trivial
  | error e => exact .pure trivial

theorem init_confined (hh : h.BelongsTo S) (ha : S a.region.segment) (args : t.Args) :
    Confined S (h.init a args : Action Process ε _) Any :=
  .bind (build_confined ha args).attempt fun _ hr => renewed_confined hh hr

theorem initAt_confined (hh : h.BelongsTo S) {x : Address} (hx : Reaches S x)
    (ha : S a.region.segment) (args : t.Args) :
    Confined S (h.initAt x a args : Action Process ε _) Any :=
  .bind (buildAt_confined hx ha args).attempt fun _ hr => renewed_confined hh hr

theorem destroy_confined (hh : h.BelongsTo S) :
    Confined S (h.destroy : Action Process ε Unit) Any := by
  unfold destroy
  cases hx : h.object with
  | none => exact .pure trivial
  | some x =>
    exact .bind (.onFault (Target.destroy_confined (hh x hx) _) (drop_confined nofun))
      fun _ _ => .pure trivial

theorem target_confined (h : Handle t k) :
    Confined S (h.target : Action Process ε t.Ref) fun x => h.object = some x := by
  unfold target
  cases hx : h.object with
  | none => exact .fault
  | some x => exact .pure rfl

theorem set_confined {e : Plain} {h : Handle (.plain e) k}
    (hh : ∀ x, h.object = some x → Reaches S x.address) (v : e.Val) :
    Confined S (h.set v : Action Process ε Unit) Any :=
  .bind (target_confined h) fun x hx => PlainRef.replace_confined (hh x hx) e v

theorem push_confined {e : Plain} {h : Handle (.list e) k}
    (hh : ∀ x, h.object = some x → Reaches S x.header) (ha : h.BelongsTo S) (v : e.Val) :
    Confined S (h.push v) Any :=
  .bind (target_confined h) fun x hx =>
    (SharedList.push_confined (hh x hx) (ha x hx _ rfl) v).mapError

end Handle

/-! ## Worlds -/

/-- The segments of regions. -/
def Region.Among (rs : List Region) (s : Nat) : Prop := ∃ r ∈ rs, r.segment = s

theorem Allocator.Serves.among {a : Allocator} {rs : List Region} (h : a.Serves rs) :
    Region.Among rs a.region.segment := by
  obtain ⟨r, hr, hover⟩ := h
  exact ⟨r, hr, hover.segment.symm⟩

theorem Resolved.Fits.among {x : Resolved} {rs : List Region} (h : x.Fits rs) :
    Region.Among rs x.allocator.region.segment ∧ Reaches (Region.Among rs) x.address := by
  obtain ⟨r, hr, hover, d, hd⟩ := h
  refine ⟨⟨r, hr, hover.segment.symm⟩, ?_⟩
  rw [hd]
  exact ⟨r, hr, rfl⟩

theorem AnyHandle.Fits.belongsTo {h : AnyHandle} {rs : List Region} (hf : h.Fits rs) :
    h.handle.BelongsTo (Region.Among rs) := fun x hx a ha => (hf x hx a ha).among.1

namespace World

variable {w w' : World} {act : Act} {t : Target} {k : Kind} {e : Plain}

theorem process_allocate (w : World) (a : Allocator) (y : Layout) :
    (w.allocate a y).process = (a.allocate y w.process).state := by
  simp only [allocate]
  split <;> rfl

theorem process_make (w : World) (i : Nat) (x : Action Process HandleError (Handle t k)) (v : t.Val)
    (y : Layout) (bs : List Patch) : (w.make i x v y bs).process = (x w.process).state := by
  simp only [make]
  split <;> rfl

theorem process_remake (w : World) (i : Nat)
    (x : Action Process HandleError (Handle t k × Except HandleError Unit)) (v : t.Val)
    (y : Layout) (bs : List Patch) (gone : Option Address) :
    (w.remake i x v y bs gone).process = (x w.process).state := by
  simp only [remake]
  split <;> rfl

theorem process_lead (w : World) (i : Nat) (v : View) :
    (w.lead i v).process = (w.seen v w.process).state := by
  simp only [lead]
  split <;> rfl

theorem process_follow (w : World) (i : Nat) (h : Handle t k) (x : Resolved) :
    (w.follow i h x).process =
      ((h.replace (.ofResolved x) : Action Process HandleError _) w.process).state := by
  simp only [follow]
  split <;> rfl

theorem process_assign (w : World) (i j : Nat) (h other : Handle t k) :
    (w.assign i j h other).process =
      ((h.assign other : Action Process HandleError _) w.process).state := by
  simp only [assign]
  split <;> rfl

theorem process_set (w : World) (h : Handle (.plain e) k) (v : e.Val) :
    (w.set h v).process = ((h.set v : Action Process HandleError Unit) w.process).state := by
  simp only [set]
  split <;> rfl

theorem process_push (w : World) (h : Handle (.list e) k) (v : e.Val) :
    (w.push h v).process = (h.push v w.process).state := by
  simp only [push]
  split <;> rfl

theorem seen_confined {S : Nat → Prop} (w : World) (v : View) : Confined S (w.seen v) Any := by
  have hdesc (t : Target) (k : Kind) (g : Registry) (d : Descriptor) :
      Confined S (Handle.ofDescriptor g d : Action Process HandleError (Handle t k)) Any := by
    have hres : Confined S (Resolved.ofDescriptor g d t) Any := by
      refine .ite .throw ?_
      cases g.get? d.id with
      | none => exact .bind (.say (.pure trivial)) fun _ _ => .throw
      | some a =>
        refine .bind .get fun p _ => ?_
        cases a.resolve p d.offset t.layout with
        | none => exact .bind (.say (.pure trivial)) fun _ _ => .throw
        | some x => exact .bind (.say (.pure trivial)) fun _ _ => .pure trivial
    exact .bind hres fun _ _ => .pure trivial
  cases v with
  | place | list | borrow | clone => exact .pure trivial
  | descriptor t k g d => exact .bind (hdesc t k g d) fun _ _ => .pure trivial
  | pointer t k d =>
    exact .bind Process.theRegistry_confined fun g _ => .bind (hdesc t k g d) fun _ _ =>
      .pure trivial
  | value e k x =>
    have haddr : Confined S (PlainRef.ofAddress x : Action Process HandleError PlainRef) Any :=
      .bind Process.theRegistry_confined fun g _ =>
        .ite (.bind (.say (.pure trivial)) fun _ _ => .pure trivial) (.pure trivial)
    have hof : Confined S (Handle.ofAddress x : Action Process HandleError (Handle (.plain e) k))
        Any := .bind haddr fun _ _ => .pure trivial
    exact .bind hof fun _ _ => .pure trivial

/-- No operation changes which regions there are. -/
theorem regions_step (hs : Step w act w') : w'.regions = w.regions := by
  cases hs with
  | allocate => simp only [allocate]; split <;> rfl
  | build => simp only [build, make]; split <;> rfl
  | buildAt => simp only [buildAt, make]; split <;> rfl
  | init => simp only [init, remake]; split <;> rfl
  | initAt => simp only [initAt, remake]; split <;> rfl
  | lead => simp only [lead]; split <;> rfl
  | follow => simp only [follow]; split <;> rfl
  | assign => simp only [assign]; split <;> rfl
  | set => simp only [set]; split <;> rfl
  | push => simp only [push]; split <;> rfl
  | free | write | abandon | enroll | destroy | drop => rfl

/-- An operation on handles or blocks leaves segments alone that are those of no region. -/
theorem Sound.retains_step (hw : w.Sound) (hs : Step w act w') {s : Nat}
    (hn : ¬ Region.Among w.regions s) : w.process.Retains w'.process s := by
  have hlive {x : Address} {c : Cell} (hx : w.heap x = some c) :
      Reaches (Region.Among w.regions) x := by
    obtain ⟨r, hr, o, rfl⟩ := hw.stands.place hx
    exact ⟨r, hr, rfl⟩
  cases hs with
  | allocate ha hy =>
    rw [process_allocate]
    exact (Allocator.allocate_confined ha.among _).retains _ _ hn
  | free hb ha => exact (Allocator.free_confined ha.among.1 ..).retains _ _ hn
  | @write b hb i vs hi =>
    obtain ⟨items, lost, hl, -⟩ := hw.stands
    obtain ⟨r, hr, hs⟩ := hl.estate.placed b.plot (List.mem_append_right _
      (List.mem_append_left _ (List.mem_map_of_mem hb)))
    have hreach : Reaches (Region.Among w.regions) b.address := ⟨r, hr, hs⟩
    exact (Process.store_confined (hreach.add _) vs).retains _ _ hn
  | abandon => exact .refl ..
  | enroll => exact Process.retains_of_segments rfl
  | build hi ha ht k args =>
    rw [build, process_make]
    exact (Handle.build_confined ha.among args).retains _ _ hn
  | buildAt hi hb ha ht hh args =>
    rw [buildAt, process_make]
    exact (Handle.buildAt_confined ha.among.2 ha.among.1 args).retains _ _ hn
  | lead hi hv =>
    rw [process_lead]
    exact (seen_confined w _).retains _ _ hn
  | follow hi hx =>
    rw [process_follow]
    exact (Handle.replace_confined (hw.fits _ _ hi).belongsTo
      (Target.fits_ofResolved hx).belongsTo).retains _ _ hn
  | init hi ha ht args =>
    rw [init, process_remake]
    exact (Handle.init_confined (hw.fits _ _ hi).belongsTo ha.among args).retains _ _ hn
  | initAt hi hb ha ht hh args =>
    rw [initAt, process_remake]
    exact (Handle.initAt_confined (hw.fits _ _ hi).belongsTo ha.among.2 ha.among.1 args).retains
      _ _ hn
  | assign hij hi hj =>
    rw [process_assign]
    exact (Handle.assign_confined (hw.fits _ _ hi).belongsTo
      (hw.fits _ _ hj).belongsTo).retains _ _ hn
  | set hi hl v =>
    rw [process_set]
    refine (Handle.set_confined (fun x hx => ?_) v).retains _ _ hn
    exact hlive (hl _ (AnyHandle.address?_eq hx)).choose_spec
  | push hi hl v =>
    rw [process_push]
    refine (Handle.push_confined (fun x hx => ?_) (hw.fits _ _ hi).belongsTo v).retains _ _ hn
    exact hlive (hl _ (AnyHandle.address?_eq hx)).choose_spec
  | destroy hi hd => exact (Handle.destroy_confined (hw.fits _ _ hi).belongsTo).retains _ _ hn
  | drop hi => exact (Handle.drop_confined (hw.fits _ _ hi).belongsTo).retains _ _ hn

/-- Whatever is done next. -/
abbrev Runs : World → World → Prop := Relation.ReflTransGen fun w w' => ∃ act, Step w act w'

theorem Sound.run (hw : w.Sound) (h : w.Runs w') :
    w'.Sound ∧ w'.regions = w.regions := by
  induction h with
  | refl => exact ⟨hw, rfl⟩
  | tail _ hs ih =>
    obtain ⟨act, hs⟩ := hs
    exact ⟨ih.1.step hs, (regions_step hs).trans ih.2⟩

/-- Whatever is done with handles and blocks leaves segments alone that are those of no region. -/
theorem Sound.retains_run (hw : w.Sound) (h : w.Runs w') {s : Nat}
    (hn : ¬ Region.Among w.regions s) : w.process.Retains w'.process s := by
  induction h with
  | refl => exact .refl ..
  | tail h hs ih =>
    obtain ⟨act, hs⟩ := hs
    obtain ⟨hu, hr⟩ := hw.run h
    exact ih.trans (hu.retains_step hs (hr ▸ hn))

end World

end SharedHeap
