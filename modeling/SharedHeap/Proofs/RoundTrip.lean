import SharedHeap.Proofs.Resolution

/-!
# Descriptors there and back

A handle is reduced to a descriptor by turning its address into an offset, and a descriptor leads to
a target by looking its identity up and turning its offset into an address. Both ways these are
inverse to each other (`World.roundTrips_of_reachable`). From a handle and back, it is because
targets are built where a whole, aligned object has room; that remains true of the place when the
target is gone (`World.sits_of_reachable`). From a descriptor and back, it is because registries
list allocators under the identities that they have (`Handle.descriptor_of_ofDescriptor`).
-/

namespace SharedHeap

open SharedHeap.Action (Ends)

variable {p p' : Process} {g : Registry} {a b : Allocator} {r : Region} {o : Offset} {x : Address}
  {t : Target} {k k' : Kind}

/-! ## Places of targets -/

/-- A whole target can stand at the address, which is that of an offset in the region. -/
structure Target.Sits (t : Target) (x : Address) (r : Region) (o : Offset) : Prop where
  align_le : t.layout.align ≤ Region.alignment
  address : x = .place r.segment o.toNat
  isNull : o.isNull = false
  has : t.layout.Has r.length o

namespace Target.Sits

theorem of_over (h : t.Sits x r o) (ha : a.Over r) : t.Sits x a.region o where
  align_le := h.align_le
  address := by rw [h.address, ha.segment]
  isNull := h.isNull
  has := by
    rw [ha.length]
    exact h.has

/-- The place is found by its offset. -/
theorem resolve (h : t.Sits x a.region o) (ha : a.Grounded p) :
    a.resolve p o t.layout = some x := by
  have hd : t.layout.align ∣ p.skew a.region.segment := ha.dvd_skew h.align_le
  rw [Allocator.resolve_eq hd h.isNull, if_pos h.has, h.address]

end Target.Sits

/-- Live targets sit in their regions. -/
theorem Heap.Stands.sits {H : Heap} {L : Layouts} {rs : List Region} {bs : List Patch} {v : t.Val}
    (h : H.Stands L p rs bs) (hx : H x = some ⟨t, v⟩) : ∃ r ∈ rs, ∃ o, t.Sits x r o := by
  obtain ⟨r, hr, o, rfl⟩ := h.place hx
  have hnull := (h.toOffset hr (a := ⟨r⟩) ⟨rfl, rfl⟩ hx).2
  obtain ⟨items, lost, hl, -⟩ := h.focus hx
  have hsuits := (hl.lodged _ List.mem_cons_self).suits
  obtain ⟨hnat, hhas⟩ := hl.estate.has hr
    (List.mem_append_left _ (Item.plot_mem List.mem_cons_self)) hsuits
  exact ⟨r, hr, .ofNat o, hsuits.align_le, by rw [hnat], hnull, hhas⟩

namespace World

variable {w w' : World} {act : Act} {c : Cell} {i : Nat} {y : Layout} {bs : List Patch}

theorem built_made {v : t.Val} {gone : Option Address} (hm : w.Made i t k v y bs gone w')
    (hg : ∀ x, gone = some x → ∃ c, w.heap x = some c) (hb : .built x c ∈ w'.history) :
    .built x c ∈ w.history ∨ w'.heap x = some c := by
  rcases hm with ⟨p', rfl⟩ | ⟨z, p', rfl, hn, -⟩
  · exact .inl hb
  · rcases List.mem_cons.1 (mem_history_of_map .released hb nofun) with hb | hb
    · obtain ⟨rfl, rfl⟩ := Deed.built.inj hb
      exact .inr (standing_remade _ hn hg)
    · exact .inl hb

/-- What an operation builds is alive after it. -/
theorem Sound.built_step (hw : w.Sound) (hs : Step w act w') (hb : .built x c ∈ w'.history) :
    .built x c ∈ w.history ∨ w'.heap x = some c := by
  have hlive {i : Nat} {h : AnyHandle} (hi : w.handles i = some h) (x : Address)
      (hx : h.releases? = some x) : ∃ c, w.heap x = some c := by
    obtain ⟨v, hv⟩ := hw.live_of_releases? hi hx
    exact ⟨_, hv⟩
  cases hs with
  | build hi ha ht k args => exact built_made (hw.make hi (hw.makes_build ha ht args)).2 nofun hb
  | buildAt hi hm ha ht hh args =>
    exact built_made (hw.make hi (hw.makes_buildAt hm ha ht hh args)).2 nofun hb
  | init hi ha ht args =>
    exact built_made (hw.remake hi (hw.makes_build ha ht args)).2 (hlive hi) hb
  | initAt hi hm ha ht hh args =>
    exact built_made (hw.remake hi (hw.makes_buildAt hm ha ht hh args)).2 (hlive hi) hb
  | allocate ha hy =>
    rw [allocate_history] at hb
    exact .inl hb
  | free | write | enroll => exact .inl hb
  | abandon hc ho => exact .inl (mem_history_of_map .abandoned (z := some _) hb nofun)
  | lead hi hv =>
    obtain ⟨-, p', heq | ⟨h, -, heq⟩⟩ := hw.lead hi hv <;> rw [heq] at hb <;> exact .inl hb
  | follow hi hx =>
    obtain ⟨-, p', heq, -⟩ := hw.follow hi hx
    rw [heq] at hb
    exact .inl (mem_history_of_map .released hb nofun)
  | assign hij hi hj =>
    obtain ⟨-, p', heq, -⟩ := hw.assign hij hi hj
    rw [heq] at hb
    exact .inl (mem_history_of_map .released hb nofun)
  | set hi hl v =>
    obtain ⟨-, p', heq⟩ := hw.set hi hl v
    rw [heq] at hb
    exact .inl (mem_history_of_map (.stored · ⟨.plain _, v⟩) hb nofun)
  | push hi hl v =>
    obtain ⟨-, heq | ⟨p', heq⟩⟩ := hw.push hi hl v <;> rw [heq] at hb
    · exact .inl hb
    · exact .inl (mem_history_of_map (.pushed · _ v) hb nofun)
  | destroy | drop => exact .inl (mem_history_of_map .released hb nofun)

/-- Where a target was built there is room for it, also after it was released. -/
theorem sits_of_reachable {rs : List (AllocatorId × Region)} (hr : Ready rs p)
    (h : Reachable rs p w) {v : t.Val} (hb : .built x ⟨t, v⟩ ∈ w.history) :
    ∃ r ∈ w.regions, ∃ o, t.Sits x r o := by
  induction h with
  | refl => cases hb
  | tail h hs ih =>
    obtain ⟨act, hs⟩ := hs
    have hw := Sound.reachable hr h
    rcases hw.built_step hs hb with hb | hx
    · rw [regions_step hs]
      exact ih hb
    · exact (hw.step hs).stands.sits hx

end World

/-! ## From a handle to its descriptor and back -/

theorem Allocator.Over.toAddress_eq (h : b.Over a.region) : b.toAddress = a.toAddress := by
  funext o
  rw [toAddress, toAddress, Region.toAddress, Region.toAddress, h.segment, h.length]

theorem Target.address_ofResolved (t : Target) (y : Resolved) :
    t.address (t.ofResolved y) = y.address := by
  cases t <;> rfl

theorem Target.allocator?_ofResolved (t : Target) (y : Resolved) :
    t.allocator? (t.ofResolved y) = some y.allocator := by
  cases t <;> rfl

/-- A target is read by its address, and by the region that its allocator works on. -/
theorem Target.load_ofResolved {ε : Type} {y : t.Ref}
    (ha : ∀ b, t.allocator? y = some b → b.Over a.region) :
    (t.load (t.ofResolved ⟨t.address y, a⟩) : Action Process ε t.Val) = t.load y := by
  cases t with
  | plain e => rfl
  | list e =>
    have haddr : y.allocator.toAddress = a.toAddress := (ha _ rfl).toAddress_eq
    have hheader : (SharedList.ofResolved ⟨y.header, a⟩).loadHeader (ε := ε) = y.loadHeader := rfl
    change (SharedList.ofResolved ⟨y.header, a⟩).toList e = y.toList e
    rw [SharedList.toList, SharedList.toList, hheader, haddr]
    rfl

namespace Handle

variable {h : Handle t k} {h' : Handle t k'}

/-- What a handle tells of its target: the allocator's identity, and the offset of the place. -/
theorem descriptor_of_sits (hx : (AnyHandle.mk t k h).address? = some x)
    (ha : h.allocator? = some a) (hs : t.Sits x a.region o) :
    h.descriptor p = ⟨a.id p, o⟩ := by
  have ho : a.toOffset (.place a.region.segment o.toNat) = o := Resolved.offset_of_has hs.has
  rw [hs.address] at hx
  simp only [descriptor, resolved?_of_allocator? hx ha, Resolved.descriptor, ho]

theorem ofDescriptor_sits (ha : a.Grounded p) {id : AllocatorId} (hg : g.get? id = some a)
    (hs : t.Sits x a.region o) :
    Ends (ofDescriptor g ⟨id, o⟩ : Action _ _ (Handle t k)) p (.ok (.ofResolved ⟨x, a⟩)) p :=
  .bind (Resolved.ofDescriptor_found (d := ⟨id, o⟩) hs.isNull hg (hs.resolve ha)) .pure

/-- The handle is a guest at the target that another handle names. -/
structure Mirrors (h' : Handle t k') (h : Handle t k) (p : Process) : Prop where
  guest : h'.owner = false
  address : (AnyHandle.mk t k' h').address? = (AnyHandle.mk t k h).address?
  /-- Whatever is read through one of them is read through the other one. -/
  value : (h'.value : Action Process HandleError t.Val) = h.value
  descriptor : h'.descriptor p = h.descriptor p

/-- Through whatever cell the handle's descriptor goes, it leads a handle of any kind to the target,
and to the allocator. -/
def Returns (h : Handle t k) (g : Registry) (a : Allocator) (p : Process) : Prop :=
  ∀ (c : DescriptorCell) (k' : Kind), ∃ h' : Handle t k',
    Ends (ofDescriptor g (c.store (h.descriptor p)).value) p (.ok h') p ∧
      h'.allocator? = some a ∧ h'.Mirrors h p

theorem mirrors_ofResolved (hx : (AnyHandle.mk t k h).address? = some x)
    (hb : h.allocator? = some b) (hover : b.Over a.region) (hs : t.Sits x a.region o) :
    (ofResolved ⟨x, a⟩ : Handle t k').Mirrors h p := by
  obtain ⟨y, hy, rfl, hyb⟩ := exists_object hx hb
  have halloc := t.allocator?_ofResolved ⟨t.address y, a⟩
  have hx' : (AnyHandle.mk t k' (ofResolved ⟨t.address y, a⟩)).address? = some (t.address y) :=
    congrArg some (t.address_ofResolved _)
  refine ⟨rfl, hx'.trans hx.symm, ?_, ?_⟩
  · have hload := Target.load_ofResolved (a := a) (ε := HandleError) (y := y) fun b' hb' => by
      obtain rfl := Option.some.inj (hyb.symm.trans hb')
      exact hover
    rw [value, value, target, target, hy]
    exact hload
  · rw [descriptor_of_sits hx' halloc hs, descriptor_of_sits hx hb (hs.of_over hover), hover.id_eq]

/-- Handles return if the allocators of their places are registered. -/
theorem returns_of_sits (ha : a.Grounded p) (hg : g.get? (a.id p) = some a)
    (hx : (AnyHandle.mk t k h).address? = some x) (hb : h.allocator? = some b)
    (hover : b.Over a.region) (hs : t.Sits x a.region o) : h.Returns g a p := by
  intro c k'
  have hd : (c.store (h.descriptor p)).value = ⟨a.id p, o⟩ := by
    rw [← hover.id_eq]
    exact descriptor_of_sits hx hb (hs.of_over hover)
  refine ⟨.ofResolved ⟨x, a⟩, ?_, t.allocator?_ofResolved _, mirrors_ofResolved hx hb hover hs⟩
  rw [hd]
  exact ofDescriptor_sits ha hg hs

end Handle

/-! ## From a descriptor to a handle and back -/

theorem Allocator.toOffset_of_resolve {y : Layout} (h : a.resolve p o y = some x) :
    a.toOffset x = o := by
  obtain ⟨rfl, hn⟩ := of_resolve h
  have ho : ¬ (o.isNull || decide (a.region.length ≤ o.toNat)) := by
    intro ho
    rw [toAddress, Region.toAddress, if_pos ho] at hn
    cases hn
  simp only [Bool.or_eq_true, decide_eq_true_eq, not_or, Bool.not_eq_true, Nat.not_le] at ho
  exact Region.toOffset_toAddress ho.2 ho.1

theorem Resolved.of_ofDescriptor {d : Descriptor} {y : Resolved}
    (h : Ends (ofDescriptor g d t) p (.ok y) p') :
    p' = p ∧ g.get? d.id = some y.allocator ∧
      y.allocator.resolve p d.offset t.layout = some y.address := by
  cases hnull : d.isNull with
  | true => cases (h.unique (ofDescriptor_isNull hnull)).1
  | false =>
    cases hget : g.get? d.id with
    | none => cases (h.unique (ofDescriptor_absent hnull hget)).1
    | some a =>
      cases hres : a.resolve p d.offset t.layout with
      | none => cases (h.unique (ofDescriptor_outside hnull hget hres)).1
      | some x =>
        obtain ⟨ho, rfl⟩ := h.unique (ofDescriptor_found hnull hget hres)
        obtain rfl := Outcome.ok.inj ho
        exact ⟨rfl, rfl, hres⟩

/-- A handle that a descriptor leads to tells the same descriptor. -/
theorem Handle.descriptor_of_ofDescriptor {d : Descriptor} {h : Handle t k} (hg : g.Tidy p)
    (hrun : Ends (ofDescriptor g d : Action _ _ (Handle t k)) p (.ok h) p') :
    p' = p ∧ h.descriptor p = d := by
  obtain ⟨y, q, hy, hpure⟩ := hrun.of_bind_ok
  obtain ⟨hh, rfl⟩ := hpure.unique .pure
  obtain rfl := Outcome.ok.inj hh
  obtain ⟨rfl, hget, hres⟩ := Resolved.of_ofDescriptor hy
  obtain ⟨n, hn⟩ := Allocator.resolve_place hres
  have hresolved : (ofResolved y : Handle t k).resolved? = some y := by
    have hx : (AnyHandle.mk t k (ofResolved y)).address? = some y.address :=
      congrArg some (t.address_ofResolved y)
    rw [hn] at hx
    rw [resolved?_of_allocator? hx (t.allocator?_ofResolved y), ← hn]
  have hid : y.allocator.id p' = d.id := hg.id_of_get? hget
  have ho : y.allocator.toOffset y.address = d.offset := Allocator.toOffset_of_resolve hres
  refine ⟨rfl, ?_⟩
  simp only [descriptor, hresolved, Resolved.descriptor, hid, ho]

/-- Without an allocator there is no descriptor. -/
theorem Handle.descriptor_of_allocator?_eq_none {h : Handle t k} (ha : h.allocator? = none) :
    h.descriptor p = .null := by
  have hres : h.resolved? = none := by
    cases hx : h.object with
    | none => rw [resolved?, hx, Option.bind_none]
    | some y =>
      cases t with
      | plain e =>
        have hy : y.allocator = none := by
          rwa [allocator?, hx] at ha
        simp [resolved?, hx, Target.resolved?, PlainRef.resolved?, hy]
      | list e =>
        rw [allocator?, hx] at ha
        cases ha
  rw [descriptor, hres]

namespace World

variable {w : World}

/-- A target was built at the address, in the region that the allocator works on. -/
def BuiltIn (w : World) (t : Target) (x : Address) (a : Allocator) : Prop :=
  (∃ v, .built x ⟨t, v⟩ ∈ w.history) ∧ Resolved.Fits ⟨x, a⟩ w.regions

/-- Handles and descriptors are two ways to tell where a target is. -/
structure RoundTrips (w : World) (g : Registry) : Prop where
  /-- Once the allocator that a target was built in is registered, handles return that know an
  allocator, and that is one over the same region. -/
  returns : ∀ i (t : Target) (k : Kind) (h : Handle t k) x a b, w.handles i = some ⟨t, k, h⟩ →
    (AnyHandle.mk t k h).address? = some x → h.allocator? = some b → w.BuiltIn t x a →
    g.get? (a.id w.process) = some a →
      b.Over a.region ∧ h.Returns g a w.process ∧
      ∀ v, w.heap x = some ⟨t, v⟩ →
        Ends (h.value : Action Process HandleError t.Val) w.process (.ok v) w.process
  /-- So do handles to targets in slots, wherever in the region the slots are. -/
  slots : ∀ (t : Target) (k : Kind) (h : Handle t k) x a b o,
    (AnyHandle.mk t k h).address? = some x → h.allocator? = some b → b.Over a.region →
    t.Sits x a.region o → g.get? (a.id w.process) = some a → h.Returns g a w.process
  /-- Whatever a descriptor is, a handle that it leads to tells it again. -/
  retells : ∀ (c : DescriptorCell) (t : Target) (k : Kind) (h : Handle t k) p',
    Ends (Handle.ofDescriptor g c.value) w.process (.ok h) p' →
      p' = w.process ∧ ∀ c' : DescriptorCell, (c'.store (h.descriptor w.process)).value = c.value
  /-- A handle that is detached or knows no allocator tells the null descriptor. -/
  nameless : ∀ (t : Target) (k : Kind) (h : Handle t k), h.isDetached ∨ h.allocator? = none →
    h.descriptor w.process = .null
  /-- No registry resolves the null descriptor. -/
  null : ∀ (g' : Registry) (c : DescriptorCell) (t : Target) (k : Kind),
    Ends (Handle.ofDescriptor g' (c.store .null).value : Action _ _ (Handle t k)) w.process
      (.error .nullPointer) w.process

/-- Whatever was done with handles, and whatever was called on the registry. -/
theorem roundTrips_of_reachable {rs : List (AllocatorId × Region)} (hr : Ready rs p)
    (h : Reachable rs p w) (hg : Registrar.Reachable ⟨w.process, g⟩) : w.RoundTrips g := by
  have hw := Sound.reachable hr h
  have hground := Registrar.grounded_of_reachable hg
  refine ⟨?_, ?_, fun c t k h p' hrun => ?_, fun t k h hh => ?_, fun g' c t k => ?_⟩
  · intro i t k h₁ x a b hi hx hb ⟨⟨v, hbuilt⟩, r, hmem, ha, d, hd⟩ hget
    obtain ⟨r₁, hmem₁, o, hsits⟩ := sits_of_reachable hr h hbuilt
    obtain rfl := hw.stands.region_eq hmem hmem₁
      (Address.place.inj (hd.symm.trans hsits.address)).1
    have hb' : b.Over r := hw.allocator_over hmem hi (hx.trans (congrArg some hd)) hb
    have hover : b.Over a.region :=
      ⟨hb'.segment.trans ha.segment.symm, hb'.length.trans ha.length.symm⟩
    exact ⟨hover, Handle.returns_of_sits (hground _ a hget) hget hx hb hover (hsits.of_over ha),
      fun v hv => hw.reads hi hx hv⟩
  · intro t k h x a b o hx hb hover hs hget
    exact Handle.returns_of_sits (hground _ a hget) hget hx hb hover hs
  · obtain ⟨hp, hd⟩ := Handle.descriptor_of_ofDescriptor (Registrar.tidy_of_reachable hg) hrun
    exact ⟨hp, fun _ => hd⟩
  · refine Handle.descriptor_of_allocator?_eq_none ?_
    rcases hh with hh | hh
    · rw [Handle.allocator?, Option.isNone_iff_eq_none.1 hh, Option.bind_none]
    · exact hh
  · exact .bind_error (Resolved.ofDescriptor_null ..)

/-- A registry in which the allocator of the page is registered. -/
def pageRegistry : Registry := (Registry.empty .standard).insert ⟨1, 0⟩ ⟨page⟩

theorem pageRegistry_reachable (hid : (Allocator.mk page).id p = ⟨1, 0⟩)
    (hn : page.segment < p.segments.size) (ha : p.isAligned page.base Region.alignment) :
    Registrar.Reachable ⟨p, pageRegistry⟩ := by
  have h := Registrar.reachable_insert (a := ⟨page⟩) ⟨hn, ha, by decide⟩ .standard
  rwa [hid] at h

/-- A handle that is led to the list by the descriptor of its owner reads the three elements, and
tells the same descriptor. -/
theorem roundTrips_pagePushed : pagePushed.RoundTrips pageRegistry ∧
    pageList.descriptor pagePushed.process = ⟨⟨1, 0⟩, .ofNat 352⟩ ∧
    ∃ h : Handle (.list (.int .u8)) .shared,
      Ends (Handle.ofDescriptor pageRegistry ⟨⟨1, 0⟩, .ofNat 352⟩) pagePushed.process (.ok h)
        pagePushed.process ∧
      h.descriptor pagePushed.process = ⟨⟨1, 0⟩, .ofNat 352⟩ ∧
      Ends (h.value : Action Process HandleError (List (BitVec 8))) pagePushed.process
        (.ok [1#8, 2#8, 3#8]) pagePushed.process := by
  obtain ⟨⟨hr, hi, hb, hH⟩, hd, hid, hn, ha⟩ :
      (page ∈ pagePushed.regions ∧ pagePushed.handles 2 = some ⟨_, _, pageList⟩ ∧
        .built (.place 0 352) ⟨.list (.int .u8), [1#8, 2#8]⟩ ∈ pagePushed.history ∧
        pagePushed.heap (.place 0 352) = some ⟨.list (.int .u8), [1#8, 2#8, 3#8]⟩) ∧
      pageList.descriptor pagePushed.process = ⟨⟨1, 0⟩, .ofNat 352⟩ ∧
      (Allocator.mk page).id pagePushed.process = ⟨1, 0⟩ ∧
      page.segment < pagePushed.process.segments.size ∧
      pagePushed.process.isAligned page.base Region.alignment := by
    decide +kernel
  have h := roundTrips_of_reachable page_ready pagePushed_reachable
    (pageRegistry_reachable hid hn ha)
  have hbuilt : pagePushed.BuiltIn (.list (.int .u8)) (.place 0 352) ⟨page⟩ :=
    ⟨⟨_, hb⟩, page, hr, ⟨rfl, rfl⟩, 352, rfl⟩
  obtain ⟨-, hreturns, hv⟩ := h.returns 2 _ _ pageList _ ⟨page⟩ ⟨page⟩ hi rfl rfl hbuilt
    (by rw [hid]; rfl)
  obtain ⟨h', hrun, -, hm⟩ := hreturns ⟨false, .null⟩ .shared
  refine ⟨h, hd, h', ?_, hm.descriptor.trans hd, ?_⟩
  · rw [← hd]
    exact hrun
  · rw [hm.value]
    exact hv _ hH

/-- A handle that was led to a number by its address alone tells the null descriptor, though the
number is alive and the allocator that it was built in is registered. -/
theorem stray_not_returned :
    (Ready [(⟨1, 0⟩, page)] strayProcess ∧
      Reachable [(⟨1, 0⟩, page)] strayProcess strayShared ∧
      Registrar.Reachable ⟨strayShared.process, pageRegistry⟩) ∧
    (strayShared.handles 1 = some ⟨_, _, strayView⟩ ∧
      (AnyHandle.mk _ _ strayView).address? = some (.place 0 320) ∧
      strayShared.heap (.place 0 320) = some ⟨.plain (.int .u64), 10#64⟩) ∧
    (strayShared.BuiltIn (.plain (.int .u64)) (.place 0 320) ⟨page⟩ ∧
      pageRegistry.get? ((Allocator.mk page).id strayShared.process) = some ⟨page⟩) ∧
    ∀ (k : Kind) (c : DescriptorCell),
      Ends (Handle.ofDescriptor pageRegistry
          (c.store (strayView.descriptor strayShared.process)).value :
        Action _ _ (Handle (.plain (.int .u64)) k)) strayShared.process (.error .nullPointer)
        strayShared.process := by
  obtain ⟨⟨hr, hi, hb, hH⟩, hid, hn, ha⟩ :
      (page ∈ strayShared.regions ∧ strayShared.handles 1 = some ⟨_, _, strayView⟩ ∧
        .built (.place 0 320) ⟨.plain (.int .u64), 10#64⟩ ∈ strayShared.history ∧
        strayShared.heap (.place 0 320) = some ⟨.plain (.int .u64), 10#64⟩) ∧
      (Allocator.mk page).id strayShared.process = ⟨1, 0⟩ ∧
      page.segment < strayShared.process.segments.size ∧
      strayShared.process.isAligned page.base Region.alignment := by
    decide +kernel
  refine ⟨⟨stray_ready, strayShared_reachable, pageRegistry_reachable hid hn ha⟩, ⟨hi, rfl, hH⟩,
    ⟨⟨⟨_, hb⟩, page, hr, ⟨rfl, rfl⟩, 320, rfl⟩, ?_⟩, fun k c => ?_⟩
  · rw [hid]
    rfl
  · exact .bind_error (Resolved.ofDescriptor_null ..)

end World

end SharedHeap
