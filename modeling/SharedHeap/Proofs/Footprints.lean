import SharedHeap.Proofs.Confinement
import SharedHeap.Proofs.Failures

/-!
# Footprints

A target takes up the block of its stored form, and if it is a list with room for elements, the
block of these (`Target.footprint`). In a region that is used through handles only, no other block
is ever handed out: whatever was built, pushed, replaced, released, or tried in vain, the blocks of
the region are those of its live targets (`World.Accounts`), and if all targets had owners that
release them, none is left when all handles are gone.
-/

namespace SharedHeap

open SharedHeap.Action (Ends)

/-! ## What building and replacing answer -/

namespace Target

variable {t : Target} {a : Allocator} {args : t.Args} {p p' : Process} {z : t.Ref}

/-- Who builds a target knows its allocator. -/
theorem allocator?_of_build (h : Ends (t.build a args) p (.ok z) p') :
    t.allocator? z = some a := by
  cases t with
  | plain t =>
    obtain ⟨block, p₁, -, h⟩ := Ends.of_bind_ok h
    cases block with
    | ok block =>
      obtain ⟨-, p₂, -, h⟩ := Ends.of_bind_ok h
      obtain rfl := Outcome.ok.inj h.outcome
      rfl
    | error e =>
      obtain ⟨-, p₂, -, h⟩ := Ends.of_bind_ok h
      cases h.outcome
  | list e =>
    obtain ⟨block, p₁, -, h⟩ := Ends.of_bind_ok h
    obtain ⟨done, p₂, -, h⟩ := Ends.of_bind_ok h
    cases done with
    | ok _ =>
      obtain rfl := Outcome.ok.inj h.outcome
      rfl
    | error e =>
      obtain ⟨-, p₃, -, h⟩ := Ends.of_bind_ok h
      cases h.outcome

/-- A target is where it was built. -/
theorem address_of_buildAt {x : Address} (h : Ends (t.buildAt x a args) p (.ok z) p') :
    t.address z = x := by
  cases t with
  | plain t =>
    obtain ⟨-, p₁, -, h⟩ := Ends.of_bind_ok h
    obtain rfl := Outcome.ok.inj h.outcome
    rfl
  | list e =>
    obtain ⟨-, p₁, -, h⟩ := Ends.of_bind_ok h
    obtain rfl := Outcome.ok.inj h.outcome
    rfl

end Target

namespace Handle

variable {t : Target} {k : Kind} {a : Allocator} {args : t.Args} {p p' : Process} {z : t.Ref}
  {h f g : Handle t k} {ε : Type}

theorem allocator?_of_build
    (hb : Ends (build a args : Action _ _ (Handle t k)) p (.ok ⟨some z, true⟩) p') :
    t.allocator? z = some a := by
  obtain ⟨z', p₁, hb, hz⟩ := Ends.of_bind_ok hb
  cases hz.outcome
  exact Target.allocator?_of_build hb.of_mapError_ok

theorem address_of_buildAt {x : Address}
    (hb : Ends (buildAt x a args : Action _ _ (Handle t k)) p (.ok ⟨some z, true⟩) p') :
    t.address z = x := by
  obtain ⟨z', p₁, hb, hz⟩ := Ends.of_bind_ok hb
  cases hz.outcome
  exact Target.address_of_buildAt hb.of_mapError_ok

/-- A handle with a new target is the one that was made for it. -/
theorem of_renewed_ok {x : Action Process HandleError (Handle t k)} {u : Unit}
    (hx : Ends (.attempt x >>= h.renewed : Action Process ε _) p (.ok (g, .ok u)) p') :
    ∃ p₁, Ends x p (.ok g) p₁ := by
  obtain ⟨r, p₁, hx, hr⟩ := Ends.of_bind_ok hx
  cases r with
  | ok f =>
    obtain ⟨f', p₂, hrep, hg⟩ := Ends.of_bind_ok hr
    obtain ⟨-, p₃, -, hf⟩ := Ends.of_bind_ok hrep
    cases hf.outcome
    cases hg.outcome
    exact ⟨p₁, hx.of_attempt_ok⟩
  | error e => cases (hr.unique (World.Sound.renewed_error h e p₁)).1

end Handle

/-! ## Histories without building -/

/-- What is alive after a deed that builds nothing was alive before, as a target of the same
type. -/
theorem Deed.Fair.exists_before {d : Deed} {past : List Deed} {x : Address} {c : Cell}
    (hf : d.Fair (standing past)) (hd : ∀ c, d ≠ .built x c)
    (hx : standing (d :: past) x = some c) : ∃ v, standing past x = some ⟨c.target, v⟩ := by
  by_cases hxd : x = d.address
  · subst hxd
    cases d with
    | built y c => exact absurd rfl (hd c)
    | stored y c' =>
      obtain ⟨v, hv⟩ := hf
      have hstored : standing (.stored y c' :: past) y = some c' := Function.update_self ..
      obtain rfl := Option.some.inj (hstored.symm.trans hx)
      exact ⟨v, hv⟩
    | pushed y e v =>
      obtain ⟨vs, hvs⟩ := hf
      have hpushed := (congrFun (standing_pushed hvs v) y).trans (Function.update_self ..)
      obtain rfl := Option.some.inj (hpushed.symm.trans hx)
      exact ⟨vs, hvs⟩
    | released y => cases (standing_released y past).symm.trans hx
    | abandoned y =>
      have hgone : standing (.abandoned y :: past) y = none := Function.update_self ..
      cases hgone.symm.trans hx
  · exact ⟨c.value, (standing_of_ne hxd).symm.trans hx⟩

theorem Fair.exists_before {ds past : List Deed} {x : Address} {c : Cell} (hf : Fair (ds ++ past))
    (hd : ∀ c, .built x c ∉ ds) (hx : standing (ds ++ past) x = some c) :
    ∃ v, standing past x = some ⟨c.target, v⟩ := by
  induction ds generalizing c with
  | nil => exact ⟨c.value, hx⟩
  | cons d ds ih =>
    obtain ⟨v, hv⟩ := hf.1.exists_before (fun c he => hd c (he ▸ List.mem_cons_self)) hx
    exact ih (c := ⟨c.target, v⟩) hf.2 (fun c hm => hd c (List.mem_cons_of_mem _ hm)) hv

/-! ## Footprints -/

/-- The blocks that a target takes up. -/
def Target.footprint (t : Target) (b : Bytes) (o : Nat) : List Extent :=
  t.layout.extent o ::
    match t with
    | .plain _ => []
    | .list e =>
      let h := ListHeader.ofBytes b o
      if h.capacity = 0 then [] else [(h.room e).extent h.data.toNat]

theorem Target.plots_eq_footprint (t : Target) (p : Process) (s o : Nat) :
    t.plots p t.layout s o = (t.footprint (p.bytes s) o).map (Plot.mk s) := by
  cases t with
  | plain t => rfl
  | list e =>
    simp only [plots, footprint, ListHeader.rooms, List.map_cons]
    split <;> rfl

theorem Plot.within_map_mk (s : Nat) (es : List Extent) : within s (es.map (mk s)) = es := by
  simp [within, List.filterMap_map]

namespace Item

/-- A target with its place in a segment, if it is in that one. -/
def within? (s : Nat) (x : Item) : Option (Nat × Cell) :=
  if x.segment = s then some (x.offset, x.cell) else none

variable {s : Nat} {items : List Item} {p : Process}

theorem mem_within? {o : Nat} {c : Cell} :
    (o, c) ∈ items.filterMap (within? s) ↔
      ∃ x ∈ items, x.address = .place s o ∧ x.cell = c := by
  rw [List.mem_filterMap]
  refine exists_congr fun x => and_congr_right fun _ => ?_
  rw [within?, address, Address.place.injEq, Int.ofNat_inj]
  split
  · next hs => simp [hs]
  · next hs => simp [hs]

/-- The blocks of targets on blocks for their layouts, in one segment. -/
theorem within_flatMap_plots
    (h : ∀ x ∈ items, x.segment = s → x.layout = x.cell.target.layout) :
    Plot.within s (items.flatMap (plots p)) =
      (items.filterMap (within? s)).flatMap fun x => x.2.target.footprint (p.bytes s) x.1 := by
  induction items with
  | nil => rfl
  | cons x items ih =>
    have ih := ih fun z hz => h z (List.mem_cons_of_mem _ hz)
    rw [List.flatMap_cons, Plot.within_append, ih, List.filterMap_cons, within?]
    by_cases hs : x.segment = s
    · rw [if_pos hs, List.flatMap_cons, plots, h x List.mem_cons_self hs, hs,
        Target.plots_eq_footprint, Plot.within_map_mk]
    · rw [if_neg hs, Plot.within_eq_nil fun z hz => ?_, List.nil_append]
      rwa [Target.segment_plots _ hz]

end Item

namespace World

/-! ## Runs through handles -/

/-- No block of the region was asked for by hand. -/
def Bare (w : World) (r : Region) : Prop := ∀ b ∈ w.patches, b.segment ≠ r.segment

/-- An operation of a program that uses a region through handles only. Handles that targets of the
region are built for are of certain kinds, and the program ends with a fault of building there. -/
inductive Attends (r : Region) (K : Kind → Prop) (w : World) : World → Prop
  | build {i : Nat} (hi : w.handles i = none) {a : Allocator} (ha : a.Serves w.regions)
    {t : Target} (ht : t.Valid) {k : Kind} (hk : a.Over r → K k) (args : t.Args)
    (hf : a.Over r → ∀ f p',
      ¬ Ends (Handle.build a args : Action _ _ (Handle t k)) w.process (.fault f) p') :
    Attends r K w (w.build i k a args)
  | init {i : Nat} {t : Target} {k : Kind} {h : Handle t k} (hi : w.handles i = some ⟨t, k, h⟩)
    {a : Allocator} (ha : a.Serves w.regions) (ht : t.Valid) (hk : a.Over r → K k) (args : t.Args)
    (hf : a.Over r → ∀ f p',
      ¬ Ends (Handle.build a args : Action _ _ (Handle t k)) w.process (.fault f) p') :
    Attends r K w (w.init i h a args)
  | buildAt {i : Nat} (hi : w.handles i = none) {b : Patch} (hb : b ∈ w.patches) {a : Allocator}
    (ha : Resolved.Fits ⟨b.address, a⟩ w.regions) {t : Target} (ht : t.Valid) {k : Kind}
    (hh : b.Hosts t k) (args : t.Args) : Attends r K w (w.buildAt i k b a args)
  | initAt {i : Nat} {t : Target} {k : Kind} {h : Handle t k} (hi : w.handles i = some ⟨t, k, h⟩)
    {b : Patch} (hb : b ∈ w.patches) {a : Allocator}
    (ha : Resolved.Fits ⟨b.address, a⟩ w.regions) (ht : t.Valid) (hh : b.Hosts t k)
    (args : t.Args) : Attends r K w (w.initAt i h b a args)
  /-- No block of the region is asked for by hand, and no target there gives its block away. -/
  | other {act : Act} {w' : World} (hs : Step w act w')
    (ha : ∀ i, act ≠ .build i ∧ act ≠ .init i) (hb : w'.Bare r) : Attends r K w w'
  /-- The default allocator is asked for, or others are made and registered. -/
  | widen {p' : Process} {rs' : List Region} (hp : w.process.Widens p' w.regions rs')
    (hg : ∀ g, p'.registry = some g → g.Serves rs') :
    Attends r K w { w with process := p', regions := rs' }

/-- What a program that uses a region through handles only can come to. -/
abbrev Attended (r : Region) (K : Kind → Prop) (rs : List (AllocatorId × Region)) (p : Process) :
    World → Prop := Relation.ReflTransGen (Attends r K) (start rs p)

/-- Each live target of the region has an owner that will release it. -/
def Claimed (w : World) (r : Region) : Prop :=
  ∀ (o : Nat) c, w.heap (.place r.segment o) = some c →
    ∃ i h, w.handles i = some h ∧ h.releases? = some (.place r.segment o)

/-- What is true of a region that is used through handles only: no block is lost, and blocks were
asked for with the layouts of the targets that stand there. -/
structure Tended (w : World) (r : Region) (K : Kind → Prop) : Prop where
  sound : w.Sound (· ≠ r.segment)
  region : r ∈ w.regions
  bare : w.Bare r
  fitted : ∀ (o : Nat) c, w.heap (.place r.segment o) = some c →
    w.layouts (.place r.segment o) = c.target.layout
  claimed : (∀ k, K k → k = .unique) → w.Claimed r

variable {w w' : World} {r : Region} {K : Kind → Prop} {rs : List (AllocatorId × Region)}
  {p p' : Process} {i : Nat} {t : Target} {k : Kind} {a : Allocator} {b : Patch}

/-- Only an overflow makes building fault. -/
theorem Sound.build_not_fault {lossy : Nat → Prop} (h : w.Sound lossy) (ha : a.Serves w.regions)
    (ht : t.Valid) {args : t.Args} (ho : ¬ t.Overflows args) (f : Fault) (p' : Process) :
    ¬ Ends (Handle.build a args : Action _ _ (Handle t k)) w.process (.fault f) p' := by
  intro hrun
  obtain ⟨r, hr, hover⟩ := ha
  obtain ⟨out, p₁, hb, -, hout⟩ := h.stands.build hr hover ht args
  cases out with
  | ok z => cases (hrun.unique (.bind hb.mapError .pure)).1
  | error e => cases (hrun.unique (.bind_error hb.mapError)).1
  | fault f => exact ho hout.1

/-- If there is a new target, the action that was to make a handle with it answered the handle. -/
theorem make_ends {x : Action Process HandleError (Handle t k)} {v : t.Val} {y : Layout}
    {bs : List Patch} {g : Handle t k}
    (hi : (w.make i x v y bs).handles i = some ⟨t, k, g⟩)
    (hh : (w.make i x v y bs).history ≠ w.history) : ∃ p', Ends x w.process (.ok g) p' := by
  cases ho : (x w.process).outcome with
  | ok g' =>
    simp only [make, gain, ho, Function.update_self] at hi
    cases hi
    exact ⟨_, ho, rfl⟩
  | error | fault =>
    simp only [make, ho] at hh
    exact absurd rfl hh

theorem remake_ends {x : Action Process HandleError (Handle t k)} {v : t.Val} {y : Layout}
    {bs : List Patch} {gone : Option Address} {g g₀ : Handle t k}
    (hi : (w.remake i (.attempt x >>= g₀.renewed) v y bs gone).handles i = some ⟨t, k, g⟩)
    (hh : (w.remake i (.attempt x >>= g₀.renewed) v y bs gone).history ≠ w.history) :
    ∃ p', Ends x w.process (.ok g) p' := by
  generalize hrun : (Action.attempt x >>= g₀.renewed : Action Process HandleError _) = run at hi hh
  match ho : (run w.process).outcome with
  | .ok (g', .ok u) =>
    simp only [remake, gain, ho, Function.update_self] at hi
    cases hi
    subst hrun
    exact Handle.of_renewed_ok ⟨ho, rfl⟩
  | .ok (_, .error _) | .error _ | .fault _ =>
    simp only [remake, ho] at hh
    exact absurd rfl hh

/-- What was released in the end is not alive. -/
theorem heap_gone {gone : Option Address} {past : List Deed} {x : Address} (h : gone = some x) :
    standing ((gone.map .released).toList ++ past) x = none := by
  subst h
  exact standing_released ..

namespace Tended

/-- An operation that builds nothing. A target that an owner was to release still has one, or is
gone. -/
theorem advance (h : w.Tended r K) (ds : List Deed) (hs : w'.Sound (· ≠ r.segment))
    (hr : w'.regions = w.regions) (hb : w'.Bare r) (hl : w'.layouts = w.layouts)
    (hh : w'.history = ds ++ w.history) (hd : ∀ y c, .built y c ∉ ds)
    (hk : ∀ i g x, w.handles i = some g → g.releases? = some x →
      w'.heap x = none ∨ ∃ j g', w'.handles j = some g' ∧ g'.releases? = some x) :
    w'.Tended r K := by
  have hbefore {x : Address} {c : Cell} (hx : w'.heap x = some c) :
      ∃ v, w.heap x = some ⟨c.target, v⟩ := by
    have hf := hs.fair
    rw [heap, hh] at hx
    rw [hh] at hf
    exact hf.exists_before (hd x) hx
  refine ⟨hs, hr ▸ h.region, hb, fun o c hc => ?_, fun hK o c hc => ?_⟩
  · obtain ⟨v, hv⟩ := hbefore hc
    rw [hl]
    exact h.fitted o ⟨c.target, v⟩ hv
  · obtain ⟨v, hv⟩ := hbefore hc
    obtain ⟨i, g, hi, hg⟩ := h.claimed hK o _ hv
    refine (hk i g _ hi hg).resolve_left fun hn => ?_
    rw [hn] at hc
    cases hc

/-- An operation that makes a handle with a new target. If that is in the region, it is on a block
for its layout and its owner will release it. -/
theorem made (h : w.Tended r K) {x : Action Process HandleError (Handle t k)} {v : t.Val}
    {y : Layout} {bs : List Patch} {gone : Option Address}
    (hmade : ∀ g, w'.handles i = some ⟨t, k, g⟩ → w'.history ≠ w.history →
      ∃ p', Ends x w.process (.ok g) p')
    (hs : w'.Sound (· ≠ r.segment)) (hm : w.Made i t k v y bs gone w')
    (hbs : ∀ b ∈ bs, b.segment ≠ r.segment)
    (hold : ∀ g z, w.handles i = some g → g.releases? = some z → gone = some z)
    (hnew : ∀ z p', Ends x w.process (.ok ⟨some z, true⟩) p' → t.Fits z w.regions →
      ∀ o : Nat, t.address z = .place r.segment o →
        y = t.layout ∧ K k ∧ ∃ a, t.allocator? z = some a) :
    w'.Tended r K := by
  rcases hm with ⟨p', rfl⟩ | ⟨z, p', rfl, hn, -⟩
  · exact h.advance [] hs rfl h.bare rfl rfl nofun fun j g x hj hg => .inr ⟨j, g, hj, hg⟩
  obtain ⟨p₁, hrun⟩ : ∃ p₁, Ends x w.process (.ok ⟨some z, true⟩) p₁ := by
    refine hmade _ (Function.update_self ..) fun he => ?_
    have := congrArg List.length he
    simp only [List.length_append, List.length_cons] at this
    omega
  have hnew := hnew z p₁ hrun (hs.fits i _ (Function.update_self ..) z rfl)
  -- what is alive afterwards is the new target, or was alive before
  have hbefore {x : Address} {c : Cell}
      (hx : standing ((gone.map .released).toList ++ .built (t.address z) ⟨t, v⟩ :: w.history) x =
        some c) :
      (x = t.address z ∧ c.target = t) ∨
        (x ≠ t.address z ∧ ∃ v, w.heap x = some ⟨c.target, v⟩) := by
    obtain ⟨v', hv'⟩ := hs.fair.exists_before (by simp) hx
    by_cases hxz : x = t.address z
    · subst hxz
      rw [standing_built] at hv'
      exact .inl ⟨rfl, (congrArg Cell.target (Option.some.inj hv')).symm⟩
    · exact .inr ⟨hxz, v', (standing_of_ne (d := .built _ _) hxz).symm.trans hv'⟩
  refine ⟨hs, h.region, hbs, fun o c hc => ?_, fun hK o c hc => ?_⟩
  · rcases hbefore hc with ⟨hx, hct⟩ | ⟨hx, v', hv'⟩
    · rw [hx, hct]
      exact (Function.update_self ..).trans (hnew o hx.symm).1
    · exact (Function.update_of_ne hx ..).trans (h.fitted o ⟨c.target, v'⟩ hv')
  · rcases hbefore hc with ⟨hx, hct⟩ | ⟨hx, v', hv'⟩
    · obtain ⟨-, hk, a, ha⟩ := hnew o hx.symm
      obtain rfl := hK k hk
      refine ⟨i, _, Function.update_self .., ?_⟩
      simp [AnyHandle.releases?, AnyHandle.destroys?, AnyHandle.isOwner, Handle.isOwner,
        Handle.allocator?, AnyHandle.address?, Kind.unique, ha, hx]
    · obtain ⟨j, g, hj, hg⟩ := h.claimed hK o _ hv'
      have hji : j ≠ i := by
        rintro rfl
        cases (heap_gone (hold g _ hj hg)).symm.trans hc
      exact ⟨j, g, (Function.update_of_ne hji ..).trans hj, hg⟩

/-- The region that is tended has the allocators of its targets. -/
theorem allocator_over (h : w.Tended r K) {z : t.Ref} (hf : t.Fits z w.regions)
    (ha : t.allocator? z = some a) {o : Nat} (hz : t.address z = .place r.segment o) :
    a.Over r := by
  obtain ⟨r', hr', hover, d, hd⟩ := hf a ha
  rwa [h.sound.stands.region_eq h.region hr' (Address.place.inj (hz.symm.trans hd)).1]

theorem makes_build (h : w.Tended r K) (ha : a.Serves w.regions) (ht : t.Valid) (args : t.Args)
    (hf : a.Over r → ∀ f p',
      ¬ Ends (Handle.build a args : Action _ _ (Handle t k)) w.process (.fault f) p') :
    w.Makes (Handle.build a args : Action _ _ (Handle t k)) (t.initial args) t.layout w.patches
      (· ≠ r.segment) := by
  obtain ⟨r', hr', hover⟩ := ha
  refine h.sound.makes_build_of hr' hover ht args fun f p' hrun hs => ?_
  obtain rfl := h.sound.stands.region_eq hr' h.region hs
  exact hf hover f p' hrun

/-- A new target of the region has an allocator over it, so its handle is of a kind that is asked
for. -/
theorem built (h : w.Tended r K) (hk : a.Over r → K k) {args : t.Args} {z : t.Ref}
    (hz : Ends (Handle.build a args : Action _ _ (Handle t k)) w.process (.ok ⟨some z, true⟩) p')
    (hf : t.Fits z w.regions) {o : Nat} (ho : t.address z = .place r.segment o) :
    K k ∧ ∃ a, t.allocator? z = some a := by
  have ha := Handle.allocator?_of_build hz
  exact ⟨hk (h.allocator_over hf ha ho), a, ha⟩

/-- A slot is in another region, so a target that is built there is none of this one. -/
theorem builtAt (h : w.Tended r K) (hb : b ∈ w.patches) {args : t.Args} {z : t.Ref}
    (hz : Ends (Handle.buildAt b.address a args : Action _ _ (Handle t k)) w.process
      (.ok ⟨some z, true⟩) p') {o : Nat} : t.address z ≠ .place r.segment o := fun ho =>
  h.bare b hb (Address.place.inj ((Handle.address_of_buildAt hz).symm.trans ho)).1

/-- If a handle lets go of what it was to release, the other ones have what they had. -/
theorem gone_or_claimed {g : AnyHandle} (hi : w.handles i = some g) {o : Option AnyHandle}
    (hh : w'.handles = Function.update w.handles i o)
    (hg : ∀ x, g.releases? = some x → w'.heap x = none) (j : Nat) (g' : AnyHandle) (x : Address)
    (hj : w.handles j = some g') (hx : g'.releases? = some x) :
    w'.heap x = none ∨ ∃ l g', w'.handles l = some g' ∧ g'.releases? = some x := by
  by_cases hji : j = i
  · subst hji
    obtain rfl := Option.some.inj (hi.symm.trans hj)
    exact .inl (hg x hx)
  · exact .inr ⟨j, g', by rw [hh, Function.update_of_ne hji, hj], hx⟩

/-- An operation that builds no target. -/
theorem other (h : w.Tended r K) {act : Act} (hs : Step w act w')
    (ha : ∀ i, act ≠ .build i ∧ act ≠ .init i) (hb : w'.Bare r) : w'.Tended r K := by
  have hr := regions_step hs
  have hnone (y : Address) (c : Cell) : Deed.built y c ∉ [] := List.not_mem_nil
  have hkeep {w'' : World} (hh : w''.handles = w.handles) (i : Nat) (g : AnyHandle) (x : Address)
      (hi : w.handles i = some g) (hg : g.releases? = some x) :
      w''.heap x = none ∨ ∃ j g', w''.handles j = some g' ∧ g'.releases? = some x :=
    .inr ⟨i, g, hh ▸ hi, hg⟩
  cases hs with
  | build => exact absurd rfl (ha _).1
  | buildAt => exact absurd rfl (ha _).1
  | init => exact absurd rfl (ha _).2
  | initAt => exact absurd rfl (ha _).2
  | @allocate a hserves y hy =>
    have hl : (w.allocate a y).layouts = w.layouts := by
      simp only [allocate]
      split <;> rfl
    exact h.advance [] (h.sound.allocate hserves hy) hr hb hl (allocate_history ..) hnone
      (hkeep (allocate_handles ..))
  | free hmem hf => exact h.advance [] (h.sound.free hmem hf) hr hb rfl rfl hnone (hkeep rfl)
  | write hmem hi =>
    exact h.advance [] (h.sound.write hmem hi) hr hb rfl rfl hnone (hkeep rfl)
  | @abandon s o c hc ho =>
    have hne : s ≠ r.segment := hb ⟨s, o, _⟩ List.mem_cons_self
    exact h.advance [.abandoned _] (h.sound.abandon hc ho hne) hr hb rfl rfl (by simp)
      (hkeep rfl)
  | enroll hg => exact h.advance [] (h.sound.enroll hg) hr hb rfl rfl hnone (hkeep rfl)
  | @lead i hi v hv =>
    obtain ⟨hs', p', heq | ⟨g, -, heq⟩⟩ := h.sound.lead hi hv <;> rw [heq] at hs' hb hr ⊢
    · exact h.advance [] hs' hr hb rfl rfl hnone (hkeep rfl)
    · refine h.advance [] hs' hr hb rfl rfl hnone fun j g' x hj hg => .inr ⟨j, g', ?_, hg⟩
      have hji : j ≠ i := by
        rintro rfl
        cases hi.symm.trans hj
      exact (Function.update_of_ne hji ..).trans hj
  | @follow i t k g hi x hx =>
    obtain ⟨hs', p', heq, -⟩ := h.sound.follow hi hx
    rw [heq] at hs' hb hr ⊢
    exact h.advance _ hs' hr hb rfl rfl (by simp) (gone_or_claimed hi rfl fun _ => heap_gone)
  | @assign i j hij t k g other hi hj =>
    obtain ⟨hs', p', heq, -⟩ := h.sound.assign hij hi hj
    rw [heq] at hs' hb hr ⊢
    refine h.advance _ hs' hr hb rfl rfl (by simp) fun l g' x hl hg => ?_
    by_cases hli : l = i
    · subst hli
      obtain rfl := Option.some.inj (hi.symm.trans hl)
      exact .inl (heap_gone hg)
    · -- what the other handle had is now the first one's
      by_cases hlj : l = j
      · subst hlj
        obtain rfl := Option.some.inj (hj.symm.trans hl)
        exact .inr ⟨i, _, (Function.update_of_ne hij ..).trans (Function.update_self ..), hg⟩
      · exact .inr ⟨l, g', (Function.update_of_ne hlj ..).trans
          ((Function.update_of_ne hli ..).trans hl), hg⟩
  | set hi hl v =>
    obtain ⟨hs', p', heq⟩ := h.sound.set hi hl v
    rw [heq] at hs' hb hr ⊢
    exact h.advance _ hs' hr hb rfl rfl (by simp) (hkeep rfl)
  | push hi hl v =>
    obtain ⟨hs', heq | ⟨p', heq⟩⟩ := h.sound.push hi hl v
    · rwa [heq]
    · rw [heq] at hs' hb hr ⊢
      exact h.advance _ hs' hr hb rfl rfl (by simp) (hkeep rfl)
  | @destroy i g hi hd =>
    refine h.advance _ (h.sound.destroy hi hd).1 hr hb rfl rfl (by simp)
      (gone_or_claimed hi rfl fun x hx => heap_gone ?_)
    rw [AnyHandle.releases?] at hx
    split at hx
    · exact hx
    · cases hx
  | @drop i g hi =>
    exact h.advance _ (h.sound.drop hi).1 hr hb rfl rfl (by simp)
      (gone_or_claimed hi rfl fun _ => heap_gone)

theorem step (h : w.Tended r K) (hs : Attends r K w w') : w'.Tended r K := by
  have hbare (b : Patch) : ∀ b' ∈ w.patches.erase b, b'.segment ≠ r.segment :=
    fun b' hb' => h.bare b' (List.mem_of_mem_erase hb')
  cases hs with
  | @build i hi a ha t ht k hk args hf =>
    obtain ⟨hs', hm⟩ := h.sound.make hi (h.makes_build (k := k) ha ht args hf)
    refine h.made (fun _ => make_ends) hs' hm h.bare (fun g z hg => ?_) fun z p' hz hfits o ho => ?_
    · cases hi.symm.trans hg
    · exact ⟨rfl, h.built hk hz hfits ho⟩
  | @init i t k g hi a ha ht hk args hf =>
    obtain ⟨hs', hm⟩ := h.sound.remake hi (h.makes_build ha ht args hf)
    refine h.made (fun _ => remake_ends) hs' hm h.bare (fun g' z hg hz => ?_)
      fun z p' hz hfits o ho => ?_
    · obtain rfl := Option.some.inj (hi.symm.trans hg)
      exact hz
    · exact ⟨rfl, h.built hk hz hfits ho⟩
  | @buildAt i hi b hb a ha t ht k hh args =>
    obtain ⟨hs', hm⟩ := h.sound.make hi (h.sound.makes_buildAt_of hb ha ht hh args (h.bare b hb))
    refine h.made (fun _ => make_ends) hs' hm (hbare b) (fun g z hg => ?_) fun z p' hz _ o ho => ?_
    · cases hi.symm.trans hg
    · exact absurd ho (h.builtAt hb hz)
  | @initAt i t k g hi b hb a ha ht hh args =>
    obtain ⟨hs', hm⟩ := h.sound.remake hi (h.sound.makes_buildAt_of hb ha ht hh args (h.bare b hb))
    refine h.made (fun _ => remake_ends) hs' hm (hbare b) (fun g' z hg hz => ?_)
      fun z p' hz _ o ho => ?_
    · obtain rfl := Option.some.inj (hi.symm.trans hg)
      exact hz
    · exact absurd ho (h.builtAt hb hz)
  | other hs ha hb => exact h.other hs ha hb
  | widen hp hg =>
    exact ⟨h.sound.widen hp hg, hp.regions h.region, h.bare, h.fitted, h.claimed⟩

theorem attended (hr : Ready rs p) (hmem : r ∈ rs.map (·.2)) (h : Attended r K rs p w) :
    w.Tended r K := by
  induction h with
  | refl => exact ⟨.start hr, hmem, nofun, nofun, fun _ => nofun⟩
  | tail _ hs ih => exact ih.step hs

end Tended

/-! ## What is handed out -/

/-- The blocks of some targets in the region. -/
def footprints (w : World) (r : Region) (targets : List (Nat × Cell)) : List Extent :=
  targets.flatMap fun x => x.2.target.footprint (w.process.bytes r.segment) x.1

/-- The live targets of the region account for all blocks that are handed out there. -/
structure Accounts (w : World) (r : Region) (targets : List (Nat × Cell)) : Prop where
  nodup : targets.Nodup
  mem_iff : ∀ (o : Nat) c, (o, c) ∈ targets ↔ w.heap (.place r.segment o) = some c
  /-- No two blocks have a byte in common. -/
  apart : (w.footprints r targets).Pairwise Extent.Apart
  live : ∃ l, r.Keeps w.process l ∧ l.live.Perm (w.footprints r targets)
  counted : ∀ a : Allocator, a.Over r →
    (a.stats w.process).allocations - (a.stats w.process).frees =
        .ofNat (w.footprints r targets).length ∧
      (a.stats w.process).bytesInUse = .ofNat ((w.footprints r targets).map Extent.size).sum

theorem Tended.accounts (h : w.Tended r K) : ∃ targets, w.Accounts r targets := by
  obtain ⟨items, lost, hl, hlost⟩ := h.sound.stands
  refine ⟨items.filterMap (Item.within? r.segment), ?_⟩
  have hfit (x : Item) (hx : x ∈ items) (hs : x.segment = r.segment) :
      x.layout = x.cell.target.layout := by
    have hH : w.heap (.place r.segment x.offset) = some x.cell := by
      rw [← hs]
      exact (hl.madeOf _ _).2 ⟨x, hx, rfl, rfl⟩
    rw [← h.fitted x.offset x.cell hH, ← hs]
    exact (hl.lodged x hx).layout.symm
  have hrest : ∀ x ∈ w.patches.map Patch.plot ++ lost, x.segment ≠ r.segment := by
    refine List.forall_mem_append.2 ⟨fun x hx => ?_, hlost⟩
    obtain ⟨b, hb, rfl⟩ := List.mem_map.1 hx
    exact h.bare b hb
  have hwithin : Plot.within r.segment (items.flatMap (Item.plots w.process) ++
      (w.patches.map Patch.plot ++ lost)) =
        w.footprints r (items.filterMap (Item.within? r.segment)) := by
    rw [Plot.within_append, Item.within_flatMap_plots hfit, Plot.within_eq_nil hrest,
      List.append_nil, footprints]
  obtain ⟨l, hk, hlive⟩ := hl.estate.ledgers r h.region
  have hcounted (a : Allocator) (ha : a.Over r) := hl.estate.counted h.region ha
  rw [hwithin] at hlive hcounted
  have hapart := hk.sound.live_apart.perm hlive fun h => h.symm
  refine ⟨?_, fun o c => ?_, hapart, ⟨l, hk, hlive⟩, hcounted⟩
  · have hnodup := (List.nodup_flatMap.1 (hapart.imp Extent.Apart.ne)).2
    refine hnodup.imp fun {x y} hxy he => ?_
    subst he
    exact hxy List.mem_cons_self List.mem_cons_self
  · rw [Item.mem_within?]
    exact (hl.madeOf _ _).symm

/-- The counters of an allocator without blocks. -/
theorem Accounts.none_live (h : w.Accounts r []) (ha : a.Over r) {ε : Type} :
    Ends ((a.stats w.process).live : Action Process ε Nat) w.process (.ok 0) w.process ∧
      (a.stats w.process).bytesInUse = 0 := by
  obtain ⟨hcount, hbytes⟩ := h.counted a ha
  refine ⟨?_, hbytes⟩
  have heq : (a.stats w.process).allocations = (a.stats w.process).frees := by
    rw [← UInt64.sub_add_cancel (a.stats w.process).allocations (a.stats w.process).frees, hcount]
    exact UInt64.zero_add _
  refine .bind (.require (by rw [heq]; exact UInt64.le_refl _)) ?_
  rw [heq, Nat.sub_self]
  exact .pure

/-- In a region that is used through handles only, the blocks that are handed out are at any time
those of the live targets. If all of these were built for unique handles, none is left when there
are no handles any more. -/
theorem accounts_of_attended (hr : Ready rs p) (hmem : r ∈ rs.map (·.2))
    (h : Attended r K rs p w) : ∃ targets, w.Accounts r targets ∧
      ((∀ k, K k → k = .unique) → (∀ i, w.handles i = none) → ∀ a : Allocator, a.Over r →
        Ends ((a.stats w.process).live : Action Process MemoryError Nat) w.process (.ok 0)
            w.process ∧ (a.stats w.process).bytesInUse = 0) := by
  have ht := Tended.attended hr hmem h
  obtain ⟨targets, hacc⟩ := ht.accounts
  refine ⟨targets, hacc, fun hK hnone a ha => ?_⟩
  obtain rfl : targets = [] := List.eq_nil_iff_forall_not_mem.2 fun x hx => by
    obtain ⟨i, g, hi, -⟩ := ht.claimed hK x.1 x.2 ((hacc.mem_iff ..).1 hx)
    cases (hnone i).symm.trans hi
  exact hacc.none_live ha

/-- The owner of a list in a page. -/
def pageRow : Handle (.list (.int .u8)) .unique := ⟨some ⟨.place 0 320, ⟨page⟩, false⟩, true⟩

/-- A list is built in the page. -/
@[irreducible] def pageBuilt : World :=
  (start [(⟨1, 0⟩, page)] pageProcess).build (t := .list (.int .u8)) 0 .unique ⟨page⟩
    (.elements [1#8, 2#8, 3#8, 4#8])

/-- The list outgrows its block. -/
@[irreducible] def pageGrown : World := pageBuilt.push pageRow 5#8

/-- Its owner goes. -/
@[irreducible] def pageVacated : World := pageGrown.drop 0 ⟨_, _, pageRow⟩

theorem pageBuilt_attended :
    Attended page (· = .unique) [(⟨1, 0⟩, page)] pageProcess pageBuilt := by
  have hs : Allocator.Serves ⟨page⟩ [page] := page_serves List.mem_cons_self
  have hsound : (start [(⟨1, 0⟩, page)] pageProcess).Sound := .start page_ready
  have ho : ¬ (Target.list (.int .u8)).Overflows (.elements [1#8, 2#8, 3#8, 4#8]) := by
    simp only [Target.Overflows, Plain.Overflows, not_or, not_and, Nat.not_lt]
    exact ⟨by decide, by decide⟩
  unfold pageBuilt
  refine .single (.build (K := (· = .unique)) rfl hs (by decide) (fun _ => rfl) _ fun _ => ?_)
  exact hsound.build_not_fault hs (by decide) ho

theorem pageGrown_attended :
    Attended page (· = .unique) [(⟨1, 0⟩, page)] pageProcess pageGrown := by
  have h : pageBuilt.handles 0 = some ⟨_, _, pageRow⟩ ∧
      pageBuilt.heap (.place 0 320) = some ⟨.list (.int .u8), [1#8, 2#8, 3#8, 4#8]⟩ ∧
      (pageBuilt.push pageRow 5#8).patches = [] := by
    decide +kernel
  unfold pageGrown
  refine pageBuilt_attended.tail (.other (.push h.1 ?_ _) (fun _ => ⟨nofun, nofun⟩) ?_)
  · rintro x ⟨⟩
    exact ⟨_, h.2.1⟩
  · rw [Bare, h.2.2]
    nofun

theorem pageVacated_attended :
    Attended page (· = .unique) [(⟨1, 0⟩, page)] pageProcess pageVacated := by
  have h : pageGrown.handles 0 = some ⟨_, _, pageRow⟩ ∧
      (pageGrown.drop 0 ⟨_, _, pageRow⟩).patches = [] := by
    decide +kernel
  unfold pageVacated
  refine pageGrown_attended.tail (.other (.drop h.1) (fun _ => ⟨nofun, nofun⟩) ?_)
  rw [Bare, h.2]
  nofun

/-- While the list is there its blocks are handed out, and in the end none is. -/
theorem accounts_pageVacated :
    (∃ targets, pageGrown.Accounts page targets ∧
      (320, ⟨.list (.int .u8), [1#8, 2#8, 3#8, 4#8, 5#8]⟩) ∈ targets) ∧
    ∃ targets, pageVacated.Accounts page targets ∧
      Ends ((Allocator.stats ⟨page⟩ pageVacated.process).live : Action Process MemoryError Nat)
        pageVacated.process (.ok 0) pageVacated.process ∧
      (Allocator.stats ⟨page⟩ pageVacated.process).bytesInUse = 0 := by
  have hmem : page ∈ [((⟨1, 0⟩ : AllocatorId), page)].map (·.2) := List.mem_cons_self
  have hheap : pageGrown.heap (.place 0 320) =
      some ⟨.list (.int .u8), [1#8, 2#8, 3#8, 4#8, 5#8]⟩ := by
    decide +kernel
  have hnone (i : Nat) : pageVacated.handles i = none := by
    have hgrown : pageGrown.handles = pageBuilt.handles := by
      unfold pageGrown
      exact push_handles ..
    have hvacated : pageVacated.handles = Function.update pageGrown.handles 0 none := by
      unfold pageVacated
      rfl
    by_cases hi : i = 0
    · rw [hvacated, hi, Function.update_self]
    · rw [hvacated, Function.update_of_ne hi, hgrown]
      unfold pageBuilt
      exact build_handles_of_ne (start _ _) hi ..
  obtain ⟨targets, hgrown, -⟩ := accounts_of_attended page_ready hmem pageGrown_attended
  obtain ⟨targets', hvacated, hzero⟩ := accounts_of_attended page_ready hmem pageVacated_attended
  exact ⟨⟨targets, hgrown, (hgrown.mem_iff ..).2 hheap⟩, targets', hvacated,
    hzero (fun _ => id) hnone ⟨page⟩ ⟨rfl, rfl⟩⟩

end World

end SharedHeap
