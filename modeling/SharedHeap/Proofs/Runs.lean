import SharedHeap.Proofs.Upkeep

/-!
# Each operation on handles

What building, moving, reading through and giving up handles makes of a sound world, one operation
after the other, and from them that every world which a start leads to is sound
(`World.Sound.reachable`).
-/

namespace SharedHeap

open SharedHeap.Action (Ends)

namespace Handle

variable {e : Plain} {k : Kind}

theorem set_detached {g : Handle (.plain e) k} (hx : g.object = none) (v : e.Val) (p : Process)
    {ε : Type} : Ends (g.set v : Action Process ε Unit) p (.fault .detached) p := by
  rw [set, target, hx]
  exact .bind_fault .fault

theorem push_detached {g : Handle (.list e) k} (hx : g.object = none) (v : e.Val) (p : Process) :
    Ends (g.push v) p (.fault .detached) p := by
  rw [push, target, hx]
  exact .bind_fault .fault

theorem push_eq {g : Handle (.list e) k} {l : SharedList} (hx : g.object = some l) (v : e.Val) :
    g.push v = .mapError .memory (l.push e v) := by
  rw [push, target, hx]
  rfl

end Handle

namespace World

/-- The action makes a handle that owns a new target on a block for the layout `y`, or no target is
touched. -/
def Makes {t : Target} {k : Kind} (w : World) (x : Action Process HandleError (Handle t k))
    (v : t.Val) (y : Layout) (bs : List Patch) (lossy : Nat → Prop := fun _ => True) : Prop :=
  (k.isDestructible → y.Shares t.layout) ∧
  ∃ out p', Ends x w.process out p' ∧ p'.registry = w.process.registry ∧
    match out with
    | .ok g => ∃ z, g = ⟨some z, true⟩ ∧ t.Fits z w.regions ∧ w.heap (t.address z) = none ∧
      Heap.Stands (Function.update w.heap (t.address z) (some ⟨t, v⟩))
        (Function.update w.layouts (t.address z) y) p' w.regions bs lossy
    | _ => w.heap.Stands w.layouts p' w.regions w.patches lossy

/-- What came of making a handle: nothing, or the handle, with its new target. -/
def Made (w : World) (i : Nat) (t : Target) (k : Kind) (v : t.Val) (y : Layout) (bs : List Patch)
    (gone : Option Address) (w' : World) : Prop :=
  (∃ p', w' = { w with process := p' }) ∨
  ∃ z p', w' = { w with
      process := p'
      patches := bs
      layouts := Function.update w.layouts (t.address z) y
      handles := Function.update w.handles i (some ⟨t, k, some z, true⟩)
      history := (gone.map .released).toList ++ .built (t.address z) ⟨t, v⟩ :: w.history } ∧
    w.heap (t.address z) = none ∧
    ∀ s o : Nat, gone = some (.place s o) → p'.Returned s o t.layout

/-- The operation is one on the target at an address: it works on a handle that names it, or gives
its block away. -/
def Concerns (w : World) (act : Act) (x : Address) : Prop :=
  (∃ i h, act.handle? = some i ∧ w.handles i = some h ∧ h.address? = some x) ∨ act = .abandon x

/-- What an operation adds to the history: deeds, and perhaps a release after them. -/
structure Adds (w : World) (act : Act) (w' : World) (gone : Option Address) (ds : List Deed) :
    Prop where
  history : w'.history = (gone.map .released).toList ++ (ds ++ w.history)
  kept : ∀ x, .released x ∉ ds
  others : ∀ d ∈ ds, w.heap d.address = none ∨ w.Concerns act d.address
  gone : ∀ x, gone = some x → w.Concerns act x ∧ ∃ c, w.heap x = some c ∧
    ∀ s o : Nat, x = .place s o → w'.process.Returned s o c.target.layout

/-- Without a new target nothing becomes of the handle, and nothing of anything else. -/
theorem remake_error {w : World} {i : Nat} {t : Target} {k : Kind} {g : Handle t k}
    (hi : w.handles i = some ⟨t, k, g⟩) {x : Action Process HandleError (Handle t k)}
    {e : HandleError} {p' : Process} (hx : Ends x w.process (.error e) p') {v : t.Val} {y : Layout}
    {bs : List Patch} {gone : Option Address} :
    w.remake i (.attempt x >>= g.renewed) v y bs gone = { w with process := p' } := by
  have hrun := hx.attempt_error.bind (Sound.renewed_error (ε := HandleError) g e p')
  simp only [World.remake, hrun.outcome, hrun.state, ← hi, Function.update_eq_self]

namespace Sound

variable {w : World} {lossy : Nat → Prop} {p' : Process} {bs : List Patch} {i : Nat} {t : Target}
  {k : Kind} {y : Layout}

/-! ## Building targets -/

/-- If building may fault, the region is one where blocks may be lost. -/
theorem makes_build_of (h : w.Sound lossy) {a : Allocator} {r : Region} (hr : r ∈ w.regions)
    (ha : a.Over r) (ht : t.Valid) (args : t.Args)
    (hf : ∀ f p', Ends (Handle.build a args : Action _ _ (Handle t k)) w.process (.fault f) p' →
      lossy r.segment) :
    w.Makes (Handle.build a args : Action _ _ (Handle t k)) (t.initial args) t.layout
      w.patches lossy := by
  refine ⟨fun _ => rfl, ?_⟩
  obtain ⟨out, p', hb, hreg, hout⟩ := h.stands.build hr ha ht args
  cases out with
  | ok x =>
    obtain ⟨o, hx, hn, hs⟩ := hout
    exact ⟨_, p', .bind hb.mapError .pure, hreg, x, rfl, hx.fits hr, hn, hs⟩
  | error e => exact ⟨_, p', .bind_error hb.mapError, hreg, hout⟩
  | fault f =>
    have hrun : Ends (Handle.build a args : Action _ _ (Handle t k)) w.process (.fault f) p' :=
      .bind_fault hb.mapError
    exact ⟨_, p', hrun, hreg, hout.2 (hf f p' hrun)⟩

theorem makes_build (h : w.Sound) {a : Allocator} (ha : a.Serves w.regions) (ht : t.Valid)
    (args : t.Args) :
    w.Makes (Handle.build a args : Action _ _ (Handle t k)) (t.initial args) t.layout
      w.patches := by
  obtain ⟨r, hr, hover⟩ := ha
  exact h.makes_build_of hr hover ht args fun _ _ _ => trivial

/-- The region of the slot is one where blocks may be lost. -/
theorem makes_buildAt_of (h : w.Sound lossy) {b : Patch} (hb : b ∈ w.patches) {a : Allocator}
    (ha : Resolved.Fits ⟨b.address, a⟩ w.regions) (ht : t.Valid) (hh : b.Hosts t k)
    (args : t.Args) (hs : lossy b.segment) :
    w.Makes (Handle.buildAt b.address a args : Action _ _ (Handle t k)) (t.initial args) b.layout
      (w.patches.erase b) lossy := by
  refine ⟨hh.2, ?_⟩
  obtain ⟨r, hr, hover, d, hd⟩ := ha
  have hseg : b.segment = r.segment := (Address.place.inj hd).1
  obtain ⟨out, p', hba, hreg, hout⟩ := h.stands.buildAt hr hover ht hb hseg hh.1 args
  cases out with
  | ok x =>
    obtain ⟨hx, hn, hs⟩ := hout
    exact ⟨_, p', .bind hba.mapError .pure, hreg, x, rfl, hx.fits hr, hn, hs⟩
  | error e => exact ⟨_, p', .bind_error hba.mapError, hreg, hout⟩
  | fault f => exact ⟨_, p', .bind_fault hba.mapError, hreg, hout.2 (hseg ▸ hs)⟩

theorem makes_buildAt (h : w.Sound) {b : Patch} (hb : b ∈ w.patches) {a : Allocator}
    (ha : Resolved.Fits ⟨b.address, a⟩ w.regions) (ht : t.Valid) (hh : b.Hosts t k)
    (args : t.Args) :
    w.Makes (Handle.buildAt b.address a args : Action _ _ (Handle t k)) (t.initial args) b.layout
      (w.patches.erase b) := h.makes_buildAt_of hb ha ht hh args trivial

theorem not_owns (h : w.Sound lossy) {x : Address} (hx : w.heap x = none) (i : Nat) :
    ¬ w.Owns i x := by
  intro hi
  obtain ⟨c, hc⟩ := h.live_of_owns hi
  rw [hx] at hc
  cases hc

theorem built (h : w.Sound lossy) {x : Address} {c : Cell} (hn : w.heap x = none)
    (hs : Heap.Stands (Function.update w.heap x (some c)) (Function.update w.layouts x y) p'
      w.regions bs lossy)
    (hreg : p'.registry = w.process.registry) :
    Sound { w with
      process := p'
      patches := bs
      layouts := Function.update w.layouts x y
      history := .built x c :: w.history } lossy := by
  refine h.record (d := .built x c) hn hs hreg (fun i z hz => ?_) fun i hi => absurd hi ?_
  · refine Function.update_of_ne ?_ ..
    rintro rfl
    exact h.not_owns hn i hz
  · exact h.not_owns hn i

/-- A new handle, with a new target. -/
theorem make (h : w.Sound lossy) (hi : w.handles i = none)
    {x : Action Process HandleError (Handle t k)} {v : t.Val}
    (hm : w.Makes x v y bs lossy) :
    (w.make i x v y bs).Sound lossy ∧ w.Made i t k v y bs none (w.make i x v y bs) := by
  obtain ⟨hy, out, p', hx, hreg, hout⟩ := hm
  cases out with
  | ok g =>
    obtain ⟨z, rfl, hf, hn, hs⟩ := hout
    have heq : w.make i x v y bs = { w with
        process := p'
        patches := bs
        layouts := Function.update w.layouts (t.address z) y
        handles := Function.update w.handles i (some ⟨t, k, some z, true⟩)
        history := .built (t.address z) ⟨t, v⟩ :: w.history } := by
      simp only [World.make, hx.outcome, hx.state]
      rfl
    refine ⟨?_, .inr ⟨z, p', heq, hn, fun _ _ h => by cases h⟩⟩
    rw [heq]
    refine (h.built hn hs hreg).bind hi ?_ (fun _ => rfl) (fun _ => ?_) fun x hx =>
      AnyHandle.suited_owner hy w.layouts hx
    · rintro _ ⟨⟩
      exact hf
    · exact ⟨t.address z, v, rfl, standing_built .., h.not_owns hn⟩
  | error e | fault e =>
    have heq : w.make i x v y bs = { w with process := p' } := by
      simp only [World.make, hx.outcome, hx.state]
    rw [heq]
    exact ⟨h.proceed hout (h.serves hreg), .inl ⟨p', rfl⟩⟩

/-- A handle gets a new target. If it is the owner of another one, it releases that afterwards. If
there is no new target, it is as it was. -/
theorem remake (h : w.Sound lossy) {g : Handle t k} (hi : w.handles i = some ⟨t, k, g⟩)
    {x : Action Process HandleError (Handle t k)} {v : t.Val}
    (hm : w.Makes x v y bs lossy) :
    (w.remake i (.attempt x >>= g.renewed) v y bs (AnyHandle.mk t k g).releases?).Sound lossy ∧
      w.Made i t k v y bs (AnyHandle.mk t k g).releases?
        (w.remake i (.attempt x >>= g.renewed) v y bs (AnyHandle.mk t k g).releases?) := by
  obtain ⟨hy, out, p₁, hx, hreg, hout⟩ := hm
  cases out with
  | ok g' =>
    obtain ⟨z, rfl, hf, hn, hs⟩ := hout
    -- the new target stands before the old one is released
    have h₁ := h.built hn hs hreg
    obtain ⟨p₂, hrel, h₂, hret⟩ := h₁.release (ε := HandleError) hi
    have hrun := hx.attempt.bind (renewed_ends (f := ⟨some z, true⟩) hrel)
    have heq : w.remake i (.attempt x >>= g.renewed) v y bs (AnyHandle.mk t k g).releases? =
        { w with
          process := p₂
          patches := bs
          layouts := Function.update w.layouts (t.address z) y
          handles := Function.update w.handles i (some ⟨t, k, some z, true⟩)
          history := ((AnyHandle.mk t k g).releases?.map .released).toList ++
            .built (t.address z) ⟨t, v⟩ :: w.history } := by
      simp only [World.remake, hrun.outcome, hrun.state, gain, List.append_assoc]
      rfl
    refine ⟨?_, .inr ⟨z, p₂, heq, hn, hret⟩⟩
    have hlive := standing_remade ⟨t, v⟩ hn fun x hx =>
      h.live_of_owns ⟨_, hi, AnyHandle.of_releases? hx⟩
    have h₃ := h₂.bind (Function.update_self ..) (g := ⟨t, k, some z, true⟩) (by
      rintro _ ⟨⟩
      exact hf) (fun _ => rfl) (fun _ => ⟨t.address z, v, rfl, hlive, fun j hj => ?_⟩)
      fun x hx => AnyHandle.suited_owner hy w.layouts hx
    · rw [heq]
      simpa only [Function.update_idem] using h₃
    · exact h.not_owns hn j (owns_of_vacate (i := i) (w := { w with process := p₂ }) hj).2
  | error e =>
    rw [remake_error hi hx]
    exact ⟨h.proceed hout (h.serves hreg), .inl ⟨p₁, rfl⟩⟩
  | fault e =>
    have hrun := Ends.bind_fault (f := g.renewed (ε := HandleError)) hx.attempt_fault
    have heq : w.remake i (.attempt x >>= g.renewed) v y bs (AnyHandle.mk t k g).releases? =
        { w with process := p₁ } := by
      simp only [World.remake, hrun.outcome, hrun.state]
    rw [heq]
    exact ⟨h.proceed hout (h.serves hreg), .inl ⟨p₁, rfl⟩⟩

/-! ## Moving handles -/

/-- A handle is led to another target. If it is the owner of one, it releases that before. -/
theorem follow (h : w.Sound lossy) {g : Handle t k} (hi : w.handles i = some ⟨t, k, g⟩)
    {x : Resolved} (hx : x.Fits w.regions) :
    (w.follow i g x).Sound lossy ∧ ∃ p', w.follow i g x = { w with
      process := p'
      handles := Function.update w.handles i (some ⟨t, k, .ofResolved x⟩)
      history := ((AnyHandle.mk t k g).releases?.map .released).toList ++ w.history } ∧
    ∀ s o : Nat, (AnyHandle.mk t k g).releases? = some (.place s o) →
      p'.Returned s o t.layout := by
  obtain ⟨p', hrel, h', hret⟩ := h.release (ε := HandleError) hi
  have hrun := replace_ends (f := .ofResolved x) hrel
  have heq : w.follow i g x = { w with
      process := p'
      handles := Function.update w.handles i (some ⟨t, k, .ofResolved x⟩)
      history := ((AnyHandle.mk t k g).releases?.map .released).toList ++ w.history } := by
    simp only [World.follow, hrun.outcome, hrun.state]
  refine ⟨?_, p', heq, hret⟩
  have h₁ := h'.bind_guest (Function.update_self ..) (g := ⟨t, k, .ofResolved x⟩)
    (Target.fits_ofResolved hx) rfl
  rw [heq]
  simpa only [Function.update_idem] using h₁

/-- A handle takes over the target and the ownership of another one. If it is the owner of a target,
it releases that before. -/
theorem assign (h : w.Sound lossy) {j : Nat} (hij : i ≠ j) {g other : Handle t k}
    (hi : w.handles i = some ⟨t, k, g⟩) (hj : w.handles j = some ⟨t, k, other⟩) :
    (w.assign i j g other).Sound lossy ∧ ∃ p', w.assign i j g other = { w with
      process := p'
      handles := Function.update (Function.update w.handles i (some ⟨t, k, other⟩)) j
        (some ⟨t, k, .detached⟩)
      history := ((AnyHandle.mk t k g).releases?.map .released).toList ++ w.history } ∧
    ∀ s o : Nat, (AnyHandle.mk t k g).releases? = some (.place s o) →
      p'.Returned s o t.layout := by
  obtain ⟨p', hrel, h', hret⟩ := h.release (ε := HandleError) hi
  have hrun : Ends (g.assign other : Action Process HandleError _) w.process
    (.ok (other, .detached)) p' := .bind (replace_ends hrel) .pure
  have heq : w.assign i j g other = { w with
      process := p'
      handles := Function.update (Function.update w.handles i (some ⟨t, k, other⟩)) j
        (some ⟨t, k, .detached⟩)
      history := ((AnyHandle.mk t k g).releases?.map .released).toList ++ w.history } := by
    simp only [World.assign, hrun.outcome, hrun.state]
  refine ⟨?_, p', heq, hret⟩
  have hj' : Function.update w.handles i none j = some ⟨t, k, other⟩ := by
    rw [Function.update_of_ne hij.symm]
    exact hj
  have hi' : Function.update (Function.update w.handles i none) j none i = none := by
    rw [Function.update_of_ne hij, Function.update_self]
  -- the other handle gives its target away before the first one gets it
  have h₁ := (h'.vacate j).bind hi' (g := ⟨t, k, other⟩) (h'.fits j _ hj') (h'.attached j _ hj')
    (fun ho => by
      obtain ⟨x, v, hx, hH⟩ := h'.named j _ hj' ho
      refine ⟨x, v, hx, hH, fun l hl => ?_⟩
      obtain ⟨hlj, hl⟩ := owns_of_vacate hl
      exact hlj (h'.unique l j x hl ⟨_, hj', ho, hx⟩)) fun x => h'.suited j _ x hj'
  have h₂ := (h₁.vacate j).bind_guest (i := j) (g := ⟨t, k, .detached⟩) (Function.update_self ..)
    nofun rfl
  rw [heq]
  have hhandles : Function.update (Function.update (Function.update (Function.update
      (Function.update w.handles i none) j none) i (some ⟨t, k, other⟩)) j none) j
      (some ⟨t, k, .detached⟩) =
    Function.update (Function.update w.handles i (some ⟨t, k, other⟩)) j
      (some (⟨t, k, .detached⟩ : AnyHandle)) := by
    rw [Function.update_idem, Function.update_comm hij.symm, Function.update_idem,
      Function.update_idem]
  simpa only [hhandles] using h₂

/-- What goes with a handle that is destroyed is alive, on a block for its layout, and has no other
owner. -/
theorem alone_of_destroys (h : w.Sound lossy) {g : AnyHandle} (hi : w.handles i = some g)
    (hd : g.isOwner = false → ∀ x, g.destroys? = some x →
      (∃ v, w.heap x = some ⟨g.target, v⟩) ∧ (w.layouts x).Shares g.target.layout ∧
        ∀ j, ¬ w.Owns j x) {x : Address} (hx : g.destroys? = some x) :
    (∃ v, w.heap x = some ⟨g.target, v⟩) ∧ (w.layouts x).Shares g.target.layout ∧
      ∀ j, j ≠ i → ¬ w.Owns j x := by
  cases hown : g.isOwner with
  | false =>
    obtain ⟨hv, hy, hno⟩ := hd hown x hx
    exact ⟨hv, hy, fun j _ => hno j⟩
  | true => exact h.alone hi hown hx

/-- A handle is destroyed, and with it the target that it may release. -/
theorem destroy_ends (h : w.Sound lossy) {g : AnyHandle} (hi : w.handles i = some g)
    (hd : g.isOwner = false → ∀ x, g.destroys? = some x →
      (∃ v, w.heap x = some ⟨g.target, v⟩) ∧ (w.layouts x).Shares g.target.layout ∧
        ∀ j, ¬ w.Owns j x) {ε : Type} :
    ∃ p', Ends (g.handle.destroy : Action Process ε Unit) w.process (.ok ()) p' ∧
      Sound { w with
        process := p'
        handles := Function.update w.handles i none
        history := (g.destroys?.map .released).toList ++ w.history } lossy ∧
      ∀ s o : Nat, g.destroys? = some (.place s o) → p'.Returned s o g.target.layout := by
  obtain ⟨t, k, g⟩ := g
  cases hx : g.object with
  | none =>
    have hdes : (AnyHandle.mk t k g).destroys? = none := by
      simp [AnyHandle.destroys?, AnyHandle.address?, hx]
    rw [hdes]
    refine ⟨w.process, ?_, h.vacate i, fun s o hso => ?_⟩
    · rw [Handle.destroy, hx]
      exact .pure
    · cases hso
  | some x =>
    obtain ⟨x', p', hdest, hsound, hret⟩ := h.part (ε := ε) hi hx (h.alone_of_destroys hi hd)
    refine ⟨p', ?_, hsound, hret⟩
    rw [Handle.destroy, hx]
    exact .bind hdest.onFault .pure

theorem destroy (h : w.Sound lossy) {g : AnyHandle} (hi : w.handles i = some g)
    (hd : g.isOwner = false → ∀ x, g.destroys? = some x →
      (∃ v, w.heap x = some ⟨g.target, v⟩) ∧ (w.layouts x).Shares g.target.layout ∧
        ∀ j, ¬ w.Owns j x) :
    (w.destroy i g).Sound lossy ∧ ∀ s o : Nat, g.destroys? = some (.place s o) →
      (w.destroy i g).process.Returned s o g.target.layout := by
  obtain ⟨p', hrun, hsound, hret⟩ := h.destroy_ends (ε := HandleError) hi hd
  simp only [World.destroy, hrun.state]
  exact ⟨hsound, hret⟩

theorem drop (h : w.Sound lossy) {g : AnyHandle} (hi : w.handles i = some g) :
    (w.drop i g).Sound lossy ∧ ∀ s o : Nat, g.releases? = some (.place s o) →
      (w.drop i g).process.Returned s o g.target.layout := by
  obtain ⟨t, k, g⟩ := g
  obtain ⟨p', hrel, h', hret⟩ := h.release (ε := HandleError) hi
  simp only [World.drop, (drop_ends hrel).state]
  exact ⟨h', hret⟩

/-! ## Values -/

theorem set (h : w.Sound lossy) {e : Plain} {g : Handle (.plain e) k}
    (hi : w.handles i = some ⟨.plain e, k, g⟩)
    (hl : ∀ x, (AnyHandle.mk _ k g).address? = some x → ∃ v, w.heap x = some ⟨.plain e, v⟩)
    (v : e.Val) : (w.set g v).Sound lossy ∧ ∃ p', w.set g v = { w with
      process := p'
      history := ((AnyHandle.mk _ k g).address?.map (.stored · ⟨.plain e, v⟩)).toList ++
        w.history } := by
  cases hx : g.object with
  | none =>
    have hrun := Handle.set_detached (ε := HandleError) hx v w.process
    have heq : w.set g v = w := by
      simp only [World.set, hrun.outcome, hrun.state]
    refine ⟨heq.symm ▸ h, w.process, heq.trans ?_⟩
    simp [AnyHandle.address?, hx]
  | some x =>
    have hy := AnyHandle.address?_eq (k := k) hx
    obtain ⟨v₀, hv₀⟩ := hl _ hy
    obtain ⟨r, hr, o, hlead⟩ := (h.fits i _ hi x hx).leads h.stands hv₀
    obtain ⟨p', hrep, hreg, hs⟩ := h.stands.replace (ε := HandleError) hlead hv₀ v
    have hrun : Ends (g.set v : Action Process HandleError Unit) w.process (.ok ()) p' := by
      rw [Handle.set, Handle.target, hx]
      exact .bind .pure hrep
    have heq : w.set g v = { w with
        process := p'
        history := ((AnyHandle.mk _ k g).address?.map (.stored · ⟨.plain e, v⟩)).toList ++
          w.history } := by
      simp only [World.set, hrun.outcome, hrun.state]
    refine ⟨?_, p', heq⟩
    rw [heq, hy]
    refine h.record (d := .stored _ ⟨.plain e, v⟩) ⟨v₀, hv₀⟩ hs hreg (fun _ _ _ => rfl)
      fun j _ t' v' hv' => ?_
    obtain rfl : Target.plain e = t' := congrArg Cell.target (Option.some.inj (hv₀.symm.trans hv'))
    exact ⟨v, Function.update_self ..⟩

theorem push (h : w.Sound lossy) {e : Plain} {g : Handle (.list e) k}
    (hi : w.handles i = some ⟨.list e, k, g⟩)
    (hl : ∀ x, (AnyHandle.mk _ k g).address? = some x → ∃ vs, w.heap x = some ⟨.list e, vs⟩)
    (v : e.Val) : (w.push g v).Sound lossy ∧ (w.push g v = w ∨ ∃ p', w.push g v = { w with
      process := p'
      history := ((AnyHandle.mk _ k g).address?.map (.pushed · e v)).toList ++ w.history }) := by
  cases hx : g.object with
  | none =>
    have hrun := Handle.push_detached hx v w.process
    have heq : w.push g v = w := by
      simp only [World.push, hrun.outcome, hrun.state]
    exact ⟨heq.symm ▸ h, .inl heq⟩
  | some x =>
    have hy := AnyHandle.address?_eq (k := k) hx
    obtain ⟨vs, hvs⟩ := hl _ hy
    obtain ⟨r, hr, o, hlead⟩ := (h.fits i _ hi x hx).leads h.stands hvs
    rcases h.stands.push hr hlead hvs v with ⟨p', hpush, hreg, hs⟩ | hfail
    · have hrun : Ends (g.push v) w.process (.ok ()) p' := by
        rw [Handle.push_eq hx]
        exact hpush.mapError
      have heq : w.push g v = { w with
          process := p'
          history := ((AnyHandle.mk _ k g).address?.map (.pushed · e v)).toList ++
            w.history } := by
        simp only [World.push, hrun.outcome, hrun.state]
      refine ⟨?_, .inr ⟨p', heq⟩⟩
      have hcell := standing_pushed hvs v
      rw [heq, hy]
      refine h.record (d := .pushed _ e v) ⟨vs, hvs⟩ (hcell ▸ hs) hreg (fun _ _ _ => rfl)
        fun j _ t' v' hv' => ?_
      obtain rfl : Target.list e = t' :=
        congrArg Cell.target (Option.some.inj (hvs.symm.trans hv'))
      exact ⟨vs ++ [v], (congrFun hcell _).trans (Function.update_self ..)⟩
    · obtain ⟨out, hne, -, -, hpush⟩ := hfail
      have hrun : Ends (g.push v) w.process (out.mapError .memory) w.process := by
        rw [Handle.push_eq hx]
        exact hpush.mapError
      have heq : w.push g v = w := by
        cases out with
        | ok u => exact absurd rfl (hne u)
        | error e | fault e => simp only [World.push, hrun.outcome, hrun.state, Outcome.mapError]
      exact ⟨heq.symm ▸ h, .inl heq⟩

/-! ## Leading handles to targets -/

theorem theRegistry_ends (h : w.Sound lossy) {ε : Type} :
    ∃ g p', Ends (Process.theRegistry : Action Process ε Registry) w.process (.ok g) p' ∧
      p'.segments = w.process.segments ∧ g.Serves w.regions ∧ p'.registry = some g := by
  rcases w.process.theRegistry_cases (ε := ε) with ⟨g, hreg, hrun⟩ | ⟨config, l, -, hrun⟩
  · exact ⟨g, _, hrun, rfl, h.registry g hreg, hreg⟩
  · exact ⟨_, _, hrun, rfl, nofun, rfl⟩

theorem ofDescriptor_ends {g : Registry} {rs : List Region} (hg : g.Serves rs) (d : Descriptor)
    (t : Target) (p : Process) :
    (∃ x, Ends (Resolved.ofDescriptor g d t) p (.ok x) p ∧ x.Fits rs) ∨
      ∃ e, Ends (Resolved.ofDescriptor g d t) p (.error e) p := by
  unfold Resolved.ofDescriptor
  split
  · exact .inr ⟨_, .throw⟩
  · cases hget : g.get? d.id with
    | none => exact .inr ⟨_, .bind (Process.say_ends .pure) .throw⟩
    | some a =>
      cases hres : a.resolve p d.offset t.layout with
      | none =>
        refine .inr ⟨.offsetOutOfRange d.id d.offset, .bind .get ?_⟩
        simp only [hres]
        exact .bind (Process.say_ends .pure) .throw
      | some x =>
        refine .inl ⟨⟨x, a⟩, .bind .get ?_, ?_⟩
        · simp only [hres]
          exact .bind (Process.say_ends .pure) .pure
        · obtain ⟨r, hr, hover⟩ := hg.of_get? hget
          obtain ⟨o, rfl⟩ := Allocator.resolve_place hres
          exact ⟨r, hr, hover, o, by rw [hover.segment]⟩

theorem ofAddress_ends (h : w.Sound lossy) (x : Address) {ε : Type} :
    ∃ y p', Ends (PlainRef.ofAddress x : Action Process ε PlainRef) w.process (.ok y) p' ∧
      p'.segments = w.process.segments ∧ (∀ g, p'.registry = some g → g.Serves w.regions) ∧
      ∀ e : Plain, (Target.plain e).Fits y w.regions := by
  obtain ⟨g, p', hg, hseg, hserves, hreg⟩ := h.theRegistry_ends (ε := ε)
  refine ⟨⟨x, g.findOwner x⟩, p', .bind hg ?_, hseg, ?_, fun e a ha => ?_⟩
  · refine .ite_bind ?_ .pure
    split
    · exact Process.say_ends .pure
    · exact .pure
  · intro g' hg'
    obtain rfl := Option.some.inj (hreg.symm.trans hg')
    exact hserves
  · exact hserves.of_findOwner ha

/-- What a view leads to, if it leads anywhere, has the allocator of its place and is nobody's. -/
theorem seen_ends (h : w.Sound lossy) {v : View} (hv : v.Fits w.regions) :
    ∃ out p', Ends (w.seen v) w.process out p' ∧ p'.segments = w.process.segments ∧
      (∀ g, p'.registry = some g → g.Serves w.regions) ∧
      ∀ g, out = .ok (some g) → g.Fits w.regions ∧ g.handle.owner = false := by
  have hdesc {t : Target} {k : Kind} {g : Registry} (hg : g.Serves w.regions) (d : Descriptor)
      (p : Process) : ∃ out : Outcome HandleError (Option AnyHandle),
        Ends (do return some ⟨t, k, ← Handle.ofDescriptor g d⟩) p out p ∧
        ∀ g, out = .ok (some g) → g.Fits w.regions ∧ g.handle.owner = false := by
    rcases ofDescriptor_ends hg d t p with ⟨x, hx, hf⟩ | ⟨e, he⟩
    · refine ⟨_, .bind (.bind hx .pure) .pure, ?_⟩
      rintro _ ⟨⟩
      exact ⟨Target.fits_ofResolved hf, rfl⟩
    · exact ⟨_, .bind_error (.bind_error he), nofun⟩
  cases v with
  | place t k x =>
    refine ⟨_, w.process, .pure, rfl, h.registry, ?_⟩
    rintro _ ⟨⟩
    exact ⟨Target.fits_ofResolved hv, rfl⟩
  | descriptor t k g d =>
    obtain ⟨out, hx, hout⟩ := hdesc (t := t) (k := k) hv d w.process
    exact ⟨out, w.process, hx, rfl, h.registry, hout⟩
  | pointer t k d =>
    obtain ⟨g, p', hg, hseg, hserves, hreg⟩ := h.theRegistry_ends (ε := HandleError)
    obtain ⟨out, hx, hout⟩ := hdesc (t := t) (k := k) hserves d p'
    refine ⟨out, p', .bind hg hx, hseg, ?_, hout⟩
    intro g' hg'
    obtain rfl := Option.some.inj (hreg.symm.trans hg')
    exact hserves
  | value e k x =>
    obtain ⟨y, p', hy, hseg, hreg, hf⟩ := h.ofAddress_ends x (ε := HandleError)
    refine ⟨_, p', .bind (.bind hy .pure) .pure, hseg, hreg, ?_⟩
    rintro _ ⟨⟩
    refine ⟨?_, rfl⟩
    rintro _ ⟨⟩
    exact hf e
  | list e k l =>
    refine ⟨_, w.process, .pure, rfl, h.registry, ?_⟩
    rintro _ ⟨⟩
    exact ⟨Target.fits_ofResolved hv, rfl⟩
  | borrow i =>
    refine ⟨_, w.process, .pure, rfl, h.registry, fun g hg => ?_⟩
    obtain ⟨g₀, hg₀, hb⟩ := Option.bind_eq_some_iff.1 (Outcome.ok.inj hg)
    exact AnyHandle.borrow?_fits (h.fits i g₀ hg₀) hb
  | clone i =>
    refine ⟨_, w.process, .pure, rfl, h.registry, fun g hg => ?_⟩
    obtain ⟨g₀, hg₀, hc⟩ := Option.bind_eq_some_iff.1 (Outcome.ok.inj hg)
    exact AnyHandle.clone?_fits (h.fits i g₀ hg₀) hc

theorem lead (h : w.Sound lossy) (hi : w.handles i = none) {v : View} (hv : v.Fits w.regions) :
    (w.lead i v).Sound lossy ∧ ∃ p', w.lead i v = { w with process := p' } ∨
      ∃ g, g.handle.owner = false ∧ w.lead i v = { w with
        process := p'
        handles := Function.update w.handles i (some g) } := by
  obtain ⟨out, p', hrun, hseg, hreg, hout⟩ := h.seen_ends hv
  have h' := h.proceed (h.stands.congr hseg) hreg
  match out with
  | .ok (some g) =>
    obtain ⟨hf, ho⟩ := hout g rfl
    have heq : w.lead i v = { w with
        process := p'
        handles := Function.update w.handles i (some g) } := by
      simp only [World.lead, hrun.outcome, hrun.state]
    refine ⟨?_, p', .inr ⟨g, ho, heq⟩⟩
    rw [heq]
    exact h'.bind_guest hi hf ho
  | .ok none | .error e | .fault e =>
    have heq : w.lead i v = { w with process := p' } := by
      simp only [World.lead, hrun.outcome, hrun.state]
    rw [heq]
    exact ⟨h', p', .inl rfl⟩

/-! ## Runs -/

/-- Regions that lie apart are formatted one after the other. No block of them was handed out. -/
theorem formatted_estate (rest : List (AllocatorId × Region)) {p : Process} {done : List Region}
    (h : Estate p done []) (hr : (rest.map (·.2.segment)).Nodup)
    (hb : ∀ r ∈ rest.map (·.2), r.Backed p ∧ Allocator.minRegionSize ≤ r.length ∧
      p.isAligned r.base Region.alignment)
    (hne : ∀ r ∈ rest.map (·.2), ∀ r' ∈ done, r'.segment ≠ r.segment)
    (hdone : ∀ r ∈ done, Header.allocations (p.bytes r.segment) = 0) :
    Estate (formatted rest p) (done ++ rest.map (·.2)) [] ∧
      (formatted rest p).registry = p.registry ∧
      ∀ r ∈ done ++ rest.map (·.2),
        Header.allocations ((formatted rest p).bytes r.segment) = 0 := by
  induction rest generalizing p done with
  | nil =>
    rw [List.map_nil, List.append_nil]
    exact ⟨h, rfl, hdone⟩
  | cons x rest ih =>
    obtain ⟨id, r⟩ := x
    obtain ⟨hback, hlarge, hal⟩ := hb r List.mem_cons_self
    obtain ⟨b, hc, hk, -⟩ := Region.Keeps.create id hback hlarge hal
    have he := h.add hk (hne r List.mem_cons_self)
    simp only [List.map_cons, List.nodup_cons] at hr
    have hsep : ∀ r' ∈ rest.map (·.2), r.segment ≠ r'.segment := by
      intro r' hr' hs
      obtain ⟨y, hy, rfl⟩ := List.mem_map.1 hr'
      exact hr.1 (List.mem_map.2 ⟨y, hy, hs.symm⟩)
    -- formatting leaves the other segments as they are
    have hb' : ∀ r' ∈ rest.map (·.2), r'.Backed (p.setBytes r.segment b) ∧
        Allocator.minRegionSize ≤ r'.length ∧
        (p.setBytes r.segment b).isAligned r'.base Region.alignment := by
      intro r' hr'
      obtain ⟨⟨h₁, h₂, h₃⟩, hl', ha'⟩ := hb r' (List.mem_cons_of_mem _ hr')
      rw [← Process.bytes_setBytes_of_ne (b := b) (hsep r' hr')] at h₂
      rw [← Process.size_segments_setBytes p r.segment b] at h₁
      rw [← Process.isAligned_congr fun _ => Process.skew_setBytes ..] at ha'
      exact ⟨⟨h₁, h₂, h₃⟩, hl', ha'⟩
    have hne' : ∀ r' ∈ rest.map (·.2), ∀ z ∈ done ++ [r], z.segment ≠ r'.segment := by
      intro r' hr' z hz
      rcases List.mem_append.1 hz with hz | hz
      · exact hne r' (List.mem_cons_of_mem _ hr') z hz
      · obtain rfl := List.mem_singleton.1 hz
        exact hsep r' hr'
    have hdone' : ∀ z ∈ done ++ [r],
        Header.allocations ((p.setBytes r.segment b).bytes z.segment) = 0 := by
      intro z hz
      rcases List.mem_append.1 hz with hz | hz
      · rw [Process.bytes_setBytes_of_ne fun hs => hne r List.mem_cons_self z hz hs.symm]
        exact hdone z hz
      · obtain rfl := List.mem_singleton.1 hz
        exact hk.books.counters.1
    rw [formatted, hc.state, List.map_cons, List.append_cons]
    exact ih he hr.2 hb' hne' hdone'

theorem start_estate {rs : List (AllocatorId × Region)} {p : Process} (h : Ready rs p) :
    Estate (World.start rs p).process (World.start rs p).regions [] ∧
      (World.start rs p).process.registry = p.registry ∧
      ∀ r ∈ (World.start rs p).regions,
        Header.allocations ((World.start rs p).process.bytes r.segment) = 0 := by
  have h₀ : Estate p [] [] := ⟨nofun, nofun, nofun⟩
  exact formatted_estate rs h₀ h.apart
    (fun r hr => ⟨h.backed r hr, h.large r hr, h.aligned r hr⟩) nofun nofun

theorem start {rs : List (AllocatorId × Region)} {p : Process} (h : Ready rs p) :
    (World.start rs p).Sound lossy := by
  obtain ⟨he, hreg, -⟩ := start_estate h
  refine ⟨⟨[], [], ⟨he, nofun, nofun, fun a c => ⟨nofun, nofun⟩, nofun⟩, nofun⟩, fun g hg => ?_,
    nofun, nofun, nofun, ?_, nofun, trivial⟩
  · exact h.registry g (hreg.symm.trans hg)
  · rintro i j x ⟨g, hg, -⟩
    cases hg

theorem step (h : w.Sound) {act : Act} {w' : World} (hs : Step w act w') : w'.Sound := by
  cases hs with
  | allocate ha hy => exact h.allocate ha hy
  | free hb ha => exact h.free hb ha
  | write hb hi => exact h.write hb hi
  | abandon hc ho => exact h.abandon hc ho trivial
  | enroll hg => exact h.enroll hg
  | build hi ha ht k args => exact (h.make hi (h.makes_build ha ht args)).1
  | buildAt hi hb ha ht hh args => exact (h.make hi (h.makes_buildAt hb ha ht hh args)).1
  | lead hi hv => exact (h.lead hi hv).1
  | follow hi hx => exact (h.follow hi hx).1
  | init hi ha ht args => exact (h.remake hi (h.makes_build ha ht args)).1
  | initAt hi hb ha ht hh args => exact (h.remake hi (h.makes_buildAt hb ha ht hh args)).1
  | assign hij hi hj => exact (h.assign hij hi hj).1
  | set hi hl v => exact (h.set hi hl v).1
  | push hi hl v => exact (h.push hi hl v).1
  | destroy hi hd => exact (h.destroy hi hd).1
  | drop hi => exact (h.drop hi).1

theorem reachable {rs : List (AllocatorId × Region)} {p : Process} (hr : Ready rs p)
    (h : Reachable rs p w) : w.Sound := by
  induction h with
  | refl => exact start hr
  | tail _ hs ih =>
    obtain ⟨act, hs⟩ := hs
    exact ih.step hs

/-! ## What operations add to the history -/

theorem live_of_releases? (hw : w.Sound) (hi : w.handles i = some h) {x : Address}
    (hx : h.releases? = some x) : ∃ v, w.heap x = some ⟨h.target, v⟩ := by
  obtain ⟨ho, hx⟩ := AnyHandle.of_releases? hx
  obtain ⟨y, v, hy, hv⟩ := hw.named i h hi ho
  obtain rfl := Option.some.inj (hx.symm.trans hy)
  exact ⟨v, hv⟩

theorem adds_made {act : Act} {v : t.Val} {gone : Option Address} {w' : World}
    (hm : w.Made i t k v y bs gone w')
    (hg : ∀ x, gone = some x → w.Concerns act x ∧ ∃ v, w.heap x = some ⟨t, v⟩) :
    ∃ gone ds, w.Adds act w' gone ds := by
  rcases hm with ⟨p', rfl⟩ | ⟨z, p', rfl, hn, hret⟩
  · exact ⟨none, [], rfl, nofun, nofun, nofun⟩
  · refine ⟨gone, [.built (t.address z) ⟨t, v⟩], rfl, by simp, fun d hd => .inl ?_, fun x hx => ?_⟩
    · rw [List.mem_singleton.1 hd]
      exact hn
    · obtain ⟨hc, v, hv⟩ := hg x hx
      refine ⟨hc, _, hv, ?_⟩
      rintro s o rfl
      exact hret s o hx

/-- The target that a handle releases, if it does, is one that it names. -/
theorem adds_gone {act : Act} (ha : act.handle? = some i) {g : AnyHandle}
    (hi : w.handles i = some g) {gone : Option Address} {w' : World}
    (hh : w'.history = (gone.map .released).toList ++ w.history)
    (hg : ∀ x, gone = some x → g.address? = some x ∧ ∃ v, w.heap x = some ⟨g.target, v⟩)
    (hret : ∀ s o : Nat, gone = some (.place s o) → w'.process.Returned s o g.target.layout) :
    ∃ gone ds, w.Adds act w' gone ds := by
  refine ⟨gone, [], hh, nofun, nofun, fun x hx => ?_⟩
  obtain ⟨hy, v, hv⟩ := hg x hx
  refine ⟨.inl ⟨i, g, ha, hi, hy⟩, _, hv, ?_⟩
  rintro s o rfl
  exact hret s o hx

/-- What is stored through a handle is stored in a target that it names. -/
theorem adds_stored {act : Act} (ha : act.handle? = some i) {g : AnyHandle}
    (hi : w.handles i = some g) {d : Address → Deed} (hd : ∀ x, (d x).address = x)
    (hne : ∀ x y, d x ≠ .released y) {w' : World}
    (hh : w'.history = (g.address?.map d).toList ++ w.history) :
    ∃ gone ds, w.Adds act w' gone ds := by
  refine ⟨none, _, hh, fun x hx => ?_, fun e he => .inr ?_, nofun⟩
  · obtain ⟨y, -, hy⟩ := Option.map_eq_some_iff.1 (Option.mem_toList.1 hx)
    exact hne y x hy
  · obtain ⟨y, hy, rfl⟩ := Option.map_eq_some_iff.1 (Option.mem_toList.1 he)
    exact .inl ⟨i, g, ha, hi, (hd y).symm ▸ hy⟩

theorem adds (h : w.Sound) {act : Act} {w' : World} (hs : Step w act w') :
    ∃ gone ds, w.Adds act w' gone ds := by
  have hrel {i : Nat} {g : AnyHandle} (hi : w.handles i = some g) (x : Address)
      (hx : g.releases? = some x) : g.address? = some x ∧ ∃ v, w.heap x = some ⟨g.target, v⟩ :=
    ⟨(AnyHandle.of_releases? hx).2, h.live_of_releases? hi hx⟩
  cases hs with
  | allocate ha hy => exact ⟨none, [], allocate_history .., nofun, nofun, nofun⟩
  | free | write | enroll => exact ⟨none, [], rfl, nofun, nofun, nofun⟩
  | abandon hc ho =>
    refine ⟨none, [.abandoned _], rfl, by simp, fun d hd => .inr ?_, nofun⟩
    rw [List.mem_singleton.1 hd]
    exact .inr rfl
  | build hi ha ht k args => exact adds_made (h.make hi (h.makes_build ha ht args)).2 nofun
  | buildAt hi hb ha ht hh args =>
    exact adds_made (h.make hi (h.makes_buildAt hb ha ht hh args)).2 nofun
  | init hi ha ht args =>
    refine adds_made (h.remake hi (h.makes_build ha ht args)).2 fun x hx => ?_
    exact ⟨.inl ⟨_, _, rfl, hi, (hrel hi x hx).1⟩, (hrel hi x hx).2⟩
  | initAt hi hb ha ht hh args =>
    refine adds_made (h.remake hi (h.makes_buildAt hb ha ht hh args)).2 fun x hx => ?_
    exact ⟨.inl ⟨_, _, rfl, hi, (hrel hi x hx).1⟩, (hrel hi x hx).2⟩
  | lead hi hv =>
    obtain ⟨-, p', heq | ⟨g, -, heq⟩⟩ := h.lead hi hv <;> rw [heq] <;>
      exact ⟨none, [], rfl, nofun, nofun, nofun⟩
  | follow hi hx =>
    obtain ⟨-, p', heq, hret⟩ := h.follow hi hx
    rw [heq]
    exact adds_gone rfl hi rfl (hrel hi) hret
  | assign hij hi hj =>
    obtain ⟨-, p', heq, hret⟩ := h.assign hij hi hj
    rw [heq]
    exact adds_gone rfl hi rfl (hrel hi) hret
  | set hi hl v =>
    obtain ⟨-, p', heq⟩ := h.set hi hl v
    rw [heq]
    exact adds_stored rfl hi (d := (.stored · ⟨.plain _, v⟩)) (fun _ => rfl) nofun rfl
  | push hi hl v =>
    obtain ⟨-, heq | ⟨p', heq⟩⟩ := h.push hi hl v <;> rw [heq]
    · exact ⟨none, [], rfl, nofun, nofun, nofun⟩
    · exact adds_stored rfl hi (d := (.pushed · _ v)) (fun _ => rfl) nofun rfl
  | @destroy i g hi hd =>
    refine adds_gone rfl hi rfl (fun x hx => ?_) (h.destroy hi hd).2
    have haddr := AnyHandle.of_destroys? hx
    cases hown : g.isOwner with
    | false => exact ⟨haddr, (hd hown x hx).1⟩
    | true => exact ⟨haddr, (h.alone hi hown hx).1⟩
  | drop hi => exact adds_gone rfl hi rfl (hrel hi) (h.drop hi).2

end Sound

end World

end SharedHeap
