import SharedHeap.Proofs.Confinement
import SharedHeap.Proofs.Refinement

/-!
# Descriptors outlive copying

A copy of a region holds the same targets, at the same offsets, on blocks of its own
(`World.twin`): nothing that is stored in a region depends on where the region is. So a descriptor
leads to the copied target once an allocator of the copy is registered, and since nobody stores in
segments that are not their own, original and copy go separate ways from then on
(`World.Relocates`).
-/

namespace SharedHeap

open SharedHeap.Action (Ends)

/-! ## Histories by one deed -/

namespace Deed

/-- What becomes of the target that a deed is about. -/
def after : Deed → Option Cell → Option Cell
  | built _ c, _ | stored _ c, _ => some c
  | pushed _ e v, c => c.map (Cell.push e v)
  | released _, _ | abandoned _, _ => none

/-- The same deed, about the target at another address. -/
def about (x : Address) : Deed → Deed
  | built _ c => built x c
  | stored _ c => stored x c
  | pushed _ e v => pushed x e v
  | released _ => released x
  | abandoned _ => abandoned x

@[simp] theorem address_about (d : Deed) (x : Address) : (d.about x).address = x := by
  cases d <;> rfl

@[simp] theorem after_about (d : Deed) (x : Address) : (d.about x).after = d.after := by
  cases d <;> rfl

theorem fair_about {H H' : Heap} {d : Deed} {x : Address} (h : H' x = H d.address) (hf : d.Fair H) :
    (d.about x).Fair H' := by
  cases d <;> simp only [Fair, about, address, h] at * <;> exact hf

end Deed

theorem standing_cons (d : Deed) (past : List Deed) (x : Address) :
    standing (d :: past) x =
      if x = d.address then d.after (standing past d.address) else standing past x := by
  cases d <;> exact Function.update_apply ..

/-! ## Moving to another segment -/

/-- The place at the same distance in another segment. -/
def Address.moved (s s' : Nat) : Address → Option Address
  | .null => none
  | .place i d => if i = s then some (.place s' d) else none

theorem Address.moved_eq_some_iff {s s' : Nat} {x z : Address} :
    x.moved s s' = some z ↔ ∃ d, x = .place s d ∧ z = .place s' d := by
  cases x with
  | null => simp [moved]
  | place i d =>
    rw [moved]
    split
    · next hi =>
      subst hi
      simp [eq_comm]
    · next hi => simp [hi]

/-- Moving back is moving the other way. -/
theorem Address.moved_comm {s s' : Nat} {x z : Address} :
    x.moved s s' = some z ↔ z.moved s' s = some x := by
  simp only [moved_eq_some_iff, and_comm]

/-- What was done in one segment, as done in another one. -/
def Deed.moved (s s' : Nat) (d : Deed) : Option Deed := (d.address.moved s s').map d.about

/-- The targets that deeds leave behind move with the deeds. -/
theorem standing_moved (s s' : Nat) (past : List Deed) (x : Address) :
    standing (past.filterMap (Deed.moved s s')) x = (x.moved s' s).bind (standing past) := by
  induction past generalizing x with
  | nil =>
    cases x.moved s' s <;> rfl
  | cons d past ih =>
    have hx : (x.moved s' s).bind (standing (d :: past)) =
        if x.moved s' s = some d.address then d.after (standing past d.address)
        else (x.moved s' s).bind (standing past) := by
      cases hz : x.moved s' s with
      | none => rfl
      | some z => simp only [Option.bind_some, standing_cons, Option.some.injEq]
    rw [hx]
    cases hd : d.address.moved s s' with
    | none =>
      have hne : x.moved s' s ≠ some d.address := by
        intro he
        rw [Address.moved_comm, hd] at he
        cases he
      rw [List.filterMap_cons_none (by rw [Deed.moved, hd]; rfl), ih, if_neg hne]
    | some z =>
      have hz := Address.moved_comm.1 hd
      rw [List.filterMap_cons_some (by rw [Deed.moved, hd]; rfl), standing_cons, Deed.address_about,
        Deed.after_about, ih z, ih x, hz]
      by_cases hxz : x = z
      · rw [if_pos hxz, hxz, if_pos hz]
        rfl
      · rw [if_neg hxz, if_neg fun he => hxz ?_]
        rw [Address.moved_comm, hd] at he
        exact (Option.some.inj he).symm

theorem Fair.moved {past : List Deed} (h : Fair past) (s s' : Nat) :
    Fair (past.filterMap (Deed.moved s s')) := by
  induction past with
  | nil => trivial
  | cons d past ih =>
    cases hd : d.address.moved s s' with
    | none =>
      rw [List.filterMap_cons_none (by rw [Deed.moved, hd]; rfl)]
      exact ih h.2
    | some z =>
      rw [List.filterMap_cons_some (by rw [Deed.moved, hd]; rfl)]
      refine ⟨Deed.fair_about ?_ h.1, ih h.2⟩
      rw [standing_moved, Address.moved_comm.1 hd]
      rfl

namespace Plot

def moved (s s' : Nat) (x : Plot) : Option Plot :=
  if x.segment = s then some { x with segment := s' } else none

theorem within_moved (s s' : Nat) (xs : List Plot) :
    within s' (xs.filterMap (moved s s')) = within s xs := by
  rw [within, within, List.filterMap_filterMap]
  refine List.filterMap_congr fun x _ => ?_
  by_cases hx : x.segment = s <;> simp [moved, hx]

end Plot

def Patch.moved (s s' : Nat) (b : Patch) : Option Patch :=
  if b.segment = s then some { b with segment := s' } else none

theorem Patch.map_plot_moved (s s' : Nat) (bs : List Patch) :
    (bs.filterMap (moved s s')).map plot = (bs.map plot).filterMap (Plot.moved s s') := by
  rw [List.map_filterMap, List.filterMap_map]
  refine List.filterMap_congr fun b _ => ?_
  by_cases hb : b.segment = s <;> simp [moved, Plot.moved, plot, Layout.plot, hb]

namespace Item

def moved (s s' : Nat) (x : Item) : Option Item :=
  if x.segment = s then some { x with segment := s' } else none

variable {p q : Process} {s s' : Nat} {items : List Item} {L : Layouts}

theorem mem_moved {z : Item} : z ∈ items.filterMap (moved s s') ↔
    ∃ x ∈ items, x.segment = s ∧ z = { x with segment := s' } := by
  simp only [List.mem_filterMap, moved]
  constructor
  · rintro ⟨x, hx, h⟩
    split at h
    · next hs => exact ⟨x, hx, hs, (Option.some.inj h).symm⟩
    · cases h
  · rintro ⟨x, hx, hs, rfl⟩
    exact ⟨x, hx, if_pos hs⟩

/-- The blocks of targets in a segment, where another segment holds the same bytes. -/
theorem flatMap_moved (hl : ∀ x ∈ items, x.Lodged L)
    (hbc : ∀ x ∈ items, x.segment = s → ∀ i, x.plot.extent.Covers i →
      (q.bytes s').get i = (p.bytes s).get i) :
    (items.filterMap (moved s s')).flatMap (plots q) =
      (items.flatMap (plots p)).filterMap (Plot.moved s s') := by
  induction items with
  | nil => rfl
  | cons x items ih =>
    have ih := ih (fun z hz => hl z (List.mem_cons_of_mem _ hz)) fun z hz =>
      hbc z (List.mem_cons_of_mem _ hz)
    rw [List.flatMap_cons, List.filterMap_append, ← ih]
    by_cases hx : x.segment = s
    · have hm : x.moved s s' = some { x with segment := s' } := if_pos hx
      rw [List.filterMap_cons_some hm, List.flatMap_cons]
      congr 1
      have hcarry := Target.plots_carry (hl x List.mem_cons_self).room
        (hbc x List.mem_cons_self hx)
      rw [plots, plots, hcarry, hx, ← List.filterMap_eq_map]
      refine List.filterMap_congr fun z hz => ?_
      exact (if_pos (Target.segment_plots _ hz)).symm
    · have hm : x.moved s s' = none := if_neg hx
      rw [List.filterMap_cons_none hm]
      have hnil : (x.plots p).filterMap (Plot.moved s s') = [] := by
        refine List.filterMap_eq_nil_iff.2 fun z hz => if_neg ?_
        rwa [Target.segment_plots _ hz]
      rw [hnil, List.nil_append]

end Item

namespace Heap

/-- The targets of one segment, in another one. -/
def twin (H : Heap) (s s' : Nat) : Heap := fun x => (x.moved s' s).bind H

end Heap

def Layouts.twin (L : Layouts) (s s' : Nat) : Layouts :=
  fun x => ((x.moved s' s).map L).getD default

namespace Heap

variable {H : Heap} {L : Layouts} {p p' : Process} {rs : List Region} {bs : List Patch}
  {items : List Item} {lost : List Plot} {r r' : Region}

theorem MadeOf.twin (h : H.MadeOf items) (s s' : Nat) :
    (H.twin s s').MadeOf (items.filterMap (Item.moved s s')) := by
  intro x c
  simp only [Heap.twin, Option.bind_eq_some_iff, Address.moved_eq_some_iff]
  constructor
  · rintro ⟨z, ⟨d, rfl, rfl⟩, hc⟩
    obtain ⟨y, hy, hyz, rfl⟩ := (h _ _).1 hc
    obtain ⟨rfl, rfl⟩ := Address.place.inj hyz
    exact ⟨_, Item.mem_moved.2 ⟨y, hy, rfl, rfl⟩, rfl, rfl⟩
  · rintro ⟨y, hy, rfl, rfl⟩
    obtain ⟨z, hz, rfl, rfl⟩ := Item.mem_moved.1 hy
    exact ⟨z.address, ⟨_, rfl, rfl⟩, (h _ _).2 ⟨z, hz, rfl, rfl⟩⟩

/-- The targets of a region stand in a copy, too. -/
theorem Laid.twin (h : H.Laid L p rs bs items lost) (hr : r ∈ rs) (hc : r.Copied p r' p')
    (hn : r'.length = r.length) :
    (H.twin r.segment r'.segment).Laid (L.twin r.segment r'.segment) p' [r']
      (bs.filterMap (Patch.moved r.segment r'.segment))
      (items.filterMap (Item.moved r.segment r'.segment))
      (lost.filterMap (Plot.moved r.segment r'.segment)) := by
  obtain ⟨l, hk, hlive⟩ := h.estate.ledgers r hr
  have hsame (e : Extent) (he : ⟨r.segment, e⟩ ∈ items.flatMap (Item.plots p) ++
      (bs.map Patch.plot ++ lost)) (i : Nat) (hi : e.Covers i) :
      (p'.bytes r'.segment).get i = (p.bytes r.segment).get i := by
    have hstop := hk.stop_le (hlive.mem_iff.2 (Plot.mem_within_iff.2 he))
    have hcap := hk.capacity
    refine ((hc.agree_ledger hk hn).same i ?_).symm
    exact Nat.lt_of_lt_of_le hi.2 (by omega)
  have hplots (x : Item) (hx : x ∈ items) (hs : x.segment = r.segment) (z : Plot)
      (hz : z ∈ x.plots p) (i : Nat) (hi : z.extent.Covers i) :
      (p'.bytes r'.segment).get i = (p.bytes r.segment).get i := by
    refine hsame z.extent (List.mem_append_left _ (List.mem_flatMap.2 ⟨x, hx, ?_⟩)) i hi
    rwa [← hs, ← Target.segment_plots _ hz]
  have hxs : (items.filterMap (Item.moved r.segment r'.segment)).flatMap (Item.plots p') ++
      ((bs.filterMap (Patch.moved r.segment r'.segment)).map Patch.plot ++
        lost.filterMap (Plot.moved r.segment r'.segment)) =
      (items.flatMap (Item.plots p) ++ (bs.map Patch.plot ++ lost)).filterMap
        (Plot.moved r.segment r'.segment) := by
    rw [List.filterMap_append, List.filterMap_append, Patch.map_plot_moved,
      Item.flatMap_moved h.lodged fun x hx hs => hplots x hx hs _ (Target.plot_mem ..)]
  refine ⟨⟨?_, ?_, ?_⟩, fun x hx => ?_, fun x hx => ?_, h.madeOf.twin _ _, fun b hb => ?_⟩
  · intro r₀ hr₀
    obtain rfl := List.mem_singleton.1 hr₀
    refine ⟨l, hc.keeps hk hn, ?_⟩
    rw [hxs, Plot.within_moved]
    exact hlive
  · intro r₁ h₁ r₂ h₂ _
    rw [List.mem_singleton.1 h₁, List.mem_singleton.1 h₂]
  · intro x hx
    rw [hxs] at hx
    obtain ⟨z, -, hz⟩ := List.mem_filterMap.1 hx
    rw [Plot.moved] at hz
    split at hz
    · obtain rfl := Option.some.inj hz
      exact ⟨r', List.mem_cons_self, rfl⟩
    · cases hz
  · obtain ⟨z, hz, hs, rfl⟩ := Item.mem_moved.1 hx
    refine ⟨?_, (h.lodged z hz).served, (h.lodged z hz).suits⟩
    have hback : Address.moved r'.segment r.segment (.place r'.segment z.offset) =
        some z.address := by
      rw [Address.moved, if_pos rfl, ← hs]
      rfl
    rw [Layouts.twin, Item.address, hback]
    exact (h.lodged z hz).layout
  · obtain ⟨z, hz, hs, rfl⟩ := Item.mem_moved.1 hx
    refine Target.Stored.carry (h.stored z hz) (h.lodged z hz).room fun x hx i hi => ?_
    rw [hs]
    exact hplots z hz hs x hx i hi
  · obtain ⟨z, hz, hm⟩ := List.mem_filterMap.1 hb
    rw [Patch.moved] at hm
    split at hm
    · obtain rfl := Option.some.inj hm
      exact h.patches z hz
    · cases hm

theorem Stands.twin (h : H.Stands L p rs bs) (hr : r ∈ rs) (hc : r.Copied p r' p')
    (hn : r'.length = r.length) :
    (H.twin r.segment r'.segment).Stands (L.twin r.segment r'.segment) p' [r']
      (bs.filterMap (Patch.moved r.segment r'.segment)) := by
  obtain ⟨items, lost, h, -⟩ := h
  exact ⟨_, _, h.twin hr hc hn, fun _ _ => trivial⟩

end Heap

namespace World

/-- A copy of a region, and what is known of it. Nobody has handles there yet. -/
def twin (w : World) (r r' : Region) (q : Process) : World where
  process := q
  regions := [r']
  patches := w.patches.filterMap (Patch.moved r.segment r'.segment)
  layouts := w.layouts.twin r.segment r'.segment
  handles := fun _ => none
  history := w.history.filterMap (Deed.moved r.segment r'.segment)

variable {w w' u u' : World} {r r' : Region} {p p' q : Process}

theorem heap_twin (w : World) (r r' : Region) (q : Process) :
    (w.twin r r' q).heap = w.heap.twin r.segment r'.segment :=
  funext (standing_moved r.segment r'.segment w.history)

theorem Sound.twin (h : w.Sound) (hr : r ∈ w.regions) (hc : r.Copied w.process r' p')
    (hn : r'.length = r.length) (hq : q.segments = p'.segments)
    (hg : ∀ g, q.registry = some g → g.Serves [r']) : (w.twin r r' q).Sound where
  stands := by
    rw [heap_twin]
    exact (h.stands.twin hr hc hn).congr hq
  registry := hg
  fits := nofun
  attached := nofun
  named := nofun
  unique := by
    rintro _ _ _ ⟨g, hi, -⟩
    cases hi
  suited := nofun
  fair := h.fair.moved ..

end World

/-! ## Descriptors -/

namespace Target

variable {t : Target} {x : t.Ref} {a : Allocator} {p : Process} {s o : Nat} {v : t.Val}

theorem Stored.valid (h : t.Stored p s o v) : t.layout.Valid := by
  cases t with
  | plain t => exact h.1
  | list e => exact show listHeader.Valid by decide

theorem resolved?_of_allocator? (ha : t.allocator? x = some a) {d : Int}
    (hx : t.address x = .place s d) : t.resolved? x = some ⟨.place s d, a⟩ := by
  cases t with
  | plain t =>
    have hx : x.address = .place s d := hx
    have ha : x.allocator = some a := ha
    simp [resolved?, PlainRef.resolved?, hx, ha, Address.isNull]
  | list e =>
    obtain rfl := Option.some.inj ha
    have hx : x.header = .place s d := hx
    rw [← hx]
    rfl

end Target

namespace Handle

variable {t : Target} {k : Kind} {h : Handle t k} {x : Address} {a : Allocator} {s : Nat} {d : Int}

/-- The reference behind a handle that knows an allocator. -/
theorem exists_object (hx : (AnyHandle.mk t k h).address? = some x) (ha : h.allocator? = some a) :
    ∃ y, h.object = some y ∧ t.address y = x ∧ t.allocator? y = some a := by
  obtain ⟨y, hy, hyx⟩ := Option.map_eq_some_iff.1 hx
  rw [allocator?, hy] at ha
  exact ⟨y, hy, hyx, ha⟩

theorem resolved?_of_allocator? (hx : (AnyHandle.mk t k h).address? = some (.place s d))
    (ha : h.allocator? = some a) : h.resolved? = some ⟨.place s d, a⟩ := by
  obtain ⟨y, hy, hyx, hya⟩ := exists_object hx ha
  rw [resolved?, hy]
  exact Target.resolved?_of_allocator? hya hyx

end Handle

theorem Resolved.ofDescriptor_found {g : Registry} {d : Descriptor} {t : Target} {p : Process}
    {a : Allocator} {x : Address} (hd : d.isNull = false) (hg : g.get? d.id = some a)
    (hx : a.resolve p d.offset t.layout = some x) :
    Ends (Resolved.ofDescriptor g d t) p (.ok ⟨x, a⟩) p := by
  rw [Resolved.ofDescriptor, if_neg (by simp [hd])]
  simp only [hg]
  refine .bind .get ?_
  simp only [hx]
  exact .bind (Process.say_ends .pure) .pure

theorem Resolved.ofDescriptor_null (g : Registry) (t : Target) (p : Process) :
    Ends (Resolved.ofDescriptor g .null t) p (.error .nullPointer) p := .throw

namespace Estate

variable {p : Process} {rs : List Region} {xs : List Plot} {r : Region} {a : Allocator}

theorem toOffset (h : Estate p rs xs) (hr : r ∈ rs) (ha : a.Over r) {e : Extent}
    (hx : ⟨r.segment, e⟩ ∈ xs) :
    a.toOffset (.place r.segment e.offset) = .ofNat e.offset ∧
      (Offset.ofNat e.offset).isNull = false := by
  obtain ⟨r₁, hr₁, hs, l, hk, hlive⟩ := h.live hx
  obtain rfl := h.distinct r₁ hr₁ r hr hs
  exact hk.toOffset_live ha hlive

/-- What can stand in a block is aligned at its offset, and has room there. -/
theorem has (h : Estate p rs xs) (hr : r ∈ rs) {y z : Layout} {o : Nat}
    (hx : y.plot r.segment o ∈ xs) (hy : y.Suits z o) :
    (Offset.ofNat o).toNat = o ∧ z.Has r.length (.ofNat o) := by
  obtain ⟨r₁, hr₁, hs, l, hk, hlive⟩ := h.live hx
  obtain rfl := h.distinct r₁ hr₁ r hr hs
  have hnat : (Offset.ofNat o).toNat = o := hk.toNat_live hlive
  have h₁ : (y.extent o).stop ≤ r₁.length := hk.stop_le hlive
  have h₂ : o + z.size ≤ (y.extent o).stop := hy.room.le_stop r₁.segment o
  have h₃ := (y.extent o).sixteen_le_size
  have h₄ : (y.extent o).stop = o + (y.extent o).size := rfl
  refine ⟨hnat, ?_⟩
  rw [Layout.Has, hnat]
  exact ⟨hy.align_dvd, by omega⟩

/-- What can stand in a block is found at its offset. -/
theorem resolve (h : Estate p rs xs) (hr : r ∈ rs) (ha : a.Over r) {y z : Layout} {o : Nat}
    (hx : y.plot r.segment o ∈ xs) (hy : y.Suits z o) (hz : z.Valid)
    (hp : SizeClass.maxAlign ∣ p.skew r.segment) :
    a.resolve p (.ofNat o) z = some (.place r.segment o) := by
  obtain ⟨hnat, hhas⟩ := h.has hr hx hy
  have hskew : z.align ∣ p.skew a.region.segment :=
    ha.segment ▸ Nat.dvd_trans (hz.align_dvd hy.align_le).1 hp
  have hnull : (Offset.ofNat o).isNull = false := (h.toOffset hr ha hx).2
  rw [← ha.length] at hhas
  rw [Allocator.resolve_eq hskew hnull, if_pos hhas, hnat, ha.segment]

end Estate

namespace Heap.Stands

variable {H : Heap} {L : Layouts} {p : Process} {rs : List Region} {bs : List Patch} {r : Region}
  {a : Allocator} {o : Nat} {t : Target} {v : t.Val}

/-- A live target is found at its offset, by any allocator over its region. -/
theorem resolve (h : H.Stands L p rs bs) (hr : r ∈ rs) (ha : a.Over r)
    (hp : SizeClass.maxAlign ∣ p.skew r.segment) (hH : H (.place r.segment o) = some ⟨t, v⟩) :
    a.resolve p (.ofNat o) t.layout = some (.place r.segment o) := by
  obtain ⟨items, lost, hl, -⟩ := h.focus hH
  exact hl.estate.resolve hr ha (List.mem_append_left _ (Item.plot_mem List.mem_cons_self))
    (hl.lodged _ List.mem_cons_self).suits (hl.stored _ List.mem_cons_self).valid hp

theorem toOffset (h : H.Stands L p rs bs) (hr : r ∈ rs) (ha : a.Over r) {c : Cell}
    (hH : H (.place r.segment o) = some c) :
    a.toOffset (.place r.segment o) = .ofNat o ∧ (Offset.ofNat o).isNull = false := by
  obtain ⟨items, lost, hl, -⟩ := h.focus (t := c.target) (v := c.value) hH
  exact hl.estate.toOffset hr ha (List.mem_append_left _ (Item.plot_mem List.mem_cons_self))

end Heap.Stands

namespace World

variable {w w' u u' : World} {r r' : Region} {p p' q : Process} {t : Target} {k : Kind}

/-- The allocator that a handle knows works on the region of the handle's target. -/
theorem Sound.allocator_over (hw : w.Sound) (hr : r ∈ w.regions) {i : Nat} {h : Handle t k}
    (hi : w.handles i = some ⟨t, k, h⟩) {d : Int}
    (hx : (AnyHandle.mk t k h).address? = some (.place r.segment d)) {a : Allocator}
    (ha : h.allocator? = some a) : a.Over r := by
  obtain ⟨y, hy, hyx, hya⟩ := Handle.exists_object hx ha
  obtain ⟨r', hr', hover, d', hd'⟩ := hw.fits i _ hi y hy a hya
  obtain rfl := hw.stands.region_eq hr hr' (Address.place.inj (hyx.symm.trans hd')).1
  exact hover

/-- What a handle tells of its target to others: whose it is, and at what offset. -/
theorem Sound.descriptor_eq (hw : w.Sound) (hr : r ∈ w.regions) {i : Nat} {h : Handle t k}
    (hi : w.handles i = some ⟨t, k, h⟩) (ha : h.allocator?.isSome) {o : Nat} {v : t.Val}
    (hx : (AnyHandle.mk t k h).address? = some (.place r.segment o))
    (hv : w.heap (.place r.segment o) = some ⟨t, v⟩) :
    h.descriptor w.process = ⟨(Allocator.mk r).id w.process, .ofNat o⟩ := by
  obtain ⟨a, ha⟩ := Option.isSome_iff_exists.1 ha
  have hover := hw.allocator_over hr hi hx ha
  have hid : a.id w.process = (Allocator.mk r).id w.process := Allocator.Over.id_eq hover
  simp only [Handle.descriptor, Handle.resolved?_of_allocator? hx ha, Resolved.descriptor, hid,
    (hw.stands.toOffset hr hover hv).1]

/-- The same world, after others have stored in the memory. -/
def seeing (w : World) (p : Process) : World :=
  { w with process := { w.process with segments := p.segments } }

theorem Sound.seeing (h : w.Sound) (hp : ∀ z ∈ w.regions, w.process.Retains p z.segment) :
    (w.seeing p).Sound :=
  h.proceed (h.stands.retains fun z hz => (hp z hz).trans (Process.retains_of_segments rfl))
    h.registry

/-- Two worlds on the same memory take turns. -/
inductive Alongside : World × World → World × World → Prop
  | left {w w' u : World} {act : Act} (h : Step w act w') :
    Alongside (w, u) (w', u.seeing w'.process)
  | right {w u u' : World} {act : Act} (h : Step u act u') :
    Alongside (w, u) (w.seeing u'.process, u')

/-- A copy of a region holds what the region holds, and keeps it. -/
structure Relocates (w : World) (r r' : Region) (p' : Process) : Prop where
  attach : Ends (Allocator.attach r') p' (.ok ⟨r'⟩) p'
  id : (Allocator.mk r').id p' = (Allocator.mk r).id w.process
  /-- Once an allocator of the copy is registered, the descriptor of a target leads to a target of
  the same value at the same offset. -/
  resolves : ∀ g : Registry, g.get? ((Allocator.mk r').id p') = none →
    ∃ g', Ends (Registrar.register ⟨r'⟩) ⟨p', g⟩ (.ok ()) ⟨p', g'⟩ ∧
      ∀ i (t : Target) (k k' : Kind) (h : Handle t k) (o : Nat) v,
        w.handles i = some ⟨t, k, h⟩ → h.allocator?.isSome →
        (AnyHandle.mk t k h).address? = some (.place r.segment o) →
        w.heap (.place r.segment o) = some ⟨t, v⟩ →
          ∃ h' : Handle t k',
            Ends (Handle.ofDescriptor g' (h.descriptor w.process)) p' (.ok h') p' ∧
            (AnyHandle.mk t k' h').address? = some (.place r'.segment o) ∧
            Ends (h'.value : Action Process HandleError t.Val) p' (.ok v) p'
  /-- Whatever was done on both sides, what is done on one side next changes no byte of the other
  side. -/
  apart : (∀ z ∈ w.regions, z.segment ≠ r'.segment ∧ w.process.Retains p' z.segment) →
    ∀ q : Process, q.segments = p'.segments → (∀ g, q.registry = some g → g.Serves [r']) →
    ∀ w₁ u₁, Relation.ReflTransGen Alongside (w.seeing p', w.twin r r' q) (w₁, u₁) →
      (∀ w₂, w₁.Runs w₂ → w₂.process.bytes r'.segment = w₁.process.bytes r'.segment) ∧
      ∀ u₂, u₁.Runs u₂ → ∀ s ≠ r'.segment, u₂.process.bytes s = u₁.process.bytes s

/-- Two worlds on the same memory with regions of their own. -/
structure Beside (w u : World) : Prop where
  left : w.Sound
  right : u.Sound
  segments : u.process.segments = w.process.segments
  apart : ∀ r ∈ w.regions, ∀ r' ∈ u.regions, r.segment ≠ r'.segment

theorem Beside.symm (h : w.Beside u) : u.Beside w :=
  ⟨h.right, h.left, h.segments.symm, fun r hr r' hr' he => h.apart r' hr' r hr he.symm⟩

theorem Beside.not_among (h : w.Beside u) (hr : r ∈ u.regions) :
    ¬ Region.Among w.regions r.segment := by
  rintro ⟨z, hz, he⟩
  exact h.apart z hz r hr he

/-- What one side does next leaves the other one as it is. -/
theorem Beside.step (h : w.Beside u) {act : Act} (hs : Step w act w') :
    w'.Beside (u.seeing w'.process) where
  left := h.left.step hs
  right := by
    refine h.right.seeing fun z hz => ?_
    have := h.left.retains_step hs (h.not_among hz)
    exact (Process.retains_of_segments h.segments.symm).trans this
  segments := rfl
  apart := by
    rw [regions_step hs]
    exact h.apart

theorem Beside.run (h : w.Beside u) {v : World × World}
    (hr : Relation.ReflTransGen Alongside (w, u) v) :
    v.1.Beside v.2 ∧ v.1.regions = w.regions ∧ v.2.regions = u.regions := by
  induction hr with
  | refl => exact ⟨h, rfl, rfl⟩
  | tail _ hs ih =>
    obtain ⟨ih, hw, hu⟩ := ih
    cases hs with
    | left hs => exact ⟨ih.step hs, (regions_step hs).trans hw, hu⟩
    | right hs => exact ⟨(ih.symm.step hs).symm, hw, (regions_step hs).trans hu⟩

/-- Whatever was done with handles, a copy of a region relocates its targets. -/
theorem relocates_of_reachable {rs : List (AllocatorId × Region)} {p : Process} (hr : Ready rs p)
    (h : Reachable rs p w) (hmem : r ∈ w.regions) (hc : r.Copied w.process r' p')
    (hn : r'.length = r.length) : w.Relocates r r' p' := by
  obtain ⟨hw, hrs⟩ := (Sound.start hr).run h
  obtain ⟨items, lost, hl, -⟩ := hw.stands
  obtain ⟨l, hk, -⟩ := hl.estate.ledgers r hmem
  have hid : (Allocator.mk r').id p' = (Allocator.mk r).id w.process := by
    have := (hc.agree_ledger hk hn).fields (Bytes.Agree.header_le hk.sound)
    exact (congrArg Header.Fields.id this).symm
  refine ⟨?_, hid, fun g hg => ⟨_, Registrar.register_free hg, ?_⟩, ?_⟩
  · have hmin := hr.large r (show r ∈ (start rs p).regions from hrs ▸ hmem)
    have hatt := hc.attach_ends hk
    rwa [if_neg (by omega), if_pos hn] at hatt
  · intro i t k k' h o v hi ha hx hv
    have hd := hw.descriptor_eq hmem hi ha hx hv
    have hs := hw.stands.twin hmem hc hn
    have hv' : w.heap.twin r.segment r'.segment (.place r'.segment o) = some ⟨t, v⟩ := by
      rw [Heap.twin, Address.moved, if_pos rfl]
      exact hv
    have hres := hs.resolve List.mem_cons_self (a := ⟨r'⟩) ⟨rfl, rfl⟩ hc.dvd_skew hv'
    have hnull := (hw.stands.toOffset hmem (a := ⟨r⟩) ⟨rfl, rfl⟩ hv).2
    refine ⟨.ofResolved ⟨.place r'.segment o, ⟨r'⟩⟩, ?_, ?_, ?_⟩
    · rw [hd]
      refine .bind (Resolved.ofDescriptor_found hnull ?_ hres) .pure
      rw [Registry.get?_insert _ _ hg, if_pos hid.symm]
    · cases t <;> rfl
    · have htarget : Ends (pure (t.ofResolved ⟨.place r'.segment o, ⟨r'⟩⟩) :
          Action Process HandleError t.Ref) p' (.ok (t.ofResolved _)) p' := .pure
      refine .bind htarget ?_
      refine hs.load (r := r') (o := o) List.mem_cons_self ⟨?_, ?_⟩ ?_
      · cases t <;> rfl
      · cases t <;> rintro a ⟨⟩ <;> exact ⟨rfl, rfl⟩
      · cases t <;> exact hv'
  · intro hsep q hq hg w₁ u₁ hrun
    have hb : (w.seeing p').Beside (w.twin r r' q) := by
      refine ⟨hw.seeing fun z hz => (hsep z hz).2, hw.twin hmem hc hn hq hg, hq, ?_⟩
      intro z hz z' hz'
      rw [List.mem_singleton.1 hz']
      exact (hsep z hz).1
    obtain ⟨hb₁, hw₁, hu₁⟩ := hb.run hrun
    refine ⟨fun w₂ h₂ => (hb₁.left.retains_run h₂ ?_).bytes,
      fun u₂ h₂ s hs => (hb₁.right.retains_run h₂ ?_).bytes⟩
    · refine hb₁.not_among ?_
      rw [hu₁]
      exact List.mem_cons_self
    · rintro ⟨z, hz, rfl⟩
      rw [hu₁] at hz
      exact hs (congrArg Region.segment (List.mem_singleton.1 hz))

/-- The page with a number and a list, and a copy of it. -/
def pageBeside : Process :=
  (Region.ofBytes ((page.bytes pagePushed.process).resize 4096) pagePushed.process).state

/-- In the copy, the list has its three elements. -/
theorem relocates_pagePushed : pagePushed.Relocates page ⟨1, 4096, true⟩ pageBeside ∧
    ∃ (g : Registry) (h : Handle (.list (.int .u8)) .shared),
      Ends (Handle.ofDescriptor g (pageList.descriptor pagePushed.process)) pageBeside (.ok h)
        pageBeside ∧
      Ends (h.value : Action Process HandleError (List (BitVec 8))) pageBeside
        (.ok [1#8, 2#8, 3#8]) pageBeside := by
  have hw : page ∈ pagePushed.regions ∧ pagePushed.handles 2 = some ⟨_, _, pageList⟩ ∧
      pagePushed.heap (.place 0 352) = some ⟨.list (.int .u8), [1#8, 2#8, 3#8]⟩ ∧
      pagePushed.process.segments.size = 1 := by
    decide +kernel
  obtain ⟨p', hrun, hc, -⟩ := Region.copied_ofBytes page pagePushed.process (n := 4096) (by decide)
    (by decide) (by decide +kernel)
  rw [hw.2.2.2, ← hrun.state] at hc
  have h := relocates_of_reachable page_ready pagePushed_reachable hw.1 hc rfl
  obtain ⟨g, -, hg⟩ := h.resolves (.empty .standard) rfl
  obtain ⟨h', hd, -, hv⟩ := hg 2 _ _ .shared pageList 352 _ hw.2.1 rfl rfl hw.2.2.1
  exact ⟨h, g, h', hd, hv⟩

/-! ## Handles without an allocator -/

/-- A page whose allocator nobody has registered. -/
def strayProcess : Process := { pageProcess with registry := none }

theorem stray_ready : Ready [(⟨1, 0⟩, page)] strayProcess := by
  refine ⟨by simp, ?_, ?_, ?_, nofun⟩ <;> intro r hr <;> rw [List.mem_singleton.1 hr]
  · exact ⟨by decide, by decide, by decide⟩
  · decide
  · decide

/-- A handle to a number that was found by its address. -/
def strayView : Handle (.plain (.int .u64)) .borrowed := ⟨some ⟨.place 0 320, none⟩, false⟩

/-- A handle owns a number in the page, and another one is led to the number by its address. -/
@[irreducible] def strayShared : World :=
  ((start [(⟨1, 0⟩, page)] strayProcess).build (t := .plain (.int .u64)) 0 .unique ⟨page⟩
    10#64).lead 1 (.value (.int .u64) .borrowed (.place 0 320))

def strayCopy : Process :=
  (Region.ofBytes ((page.bytes strayShared.process).resize 4096) strayShared.process).state

theorem strayShared_reachable : Reachable [(⟨1, 0⟩, page)] strayProcess strayShared := by
  unfold strayShared
  refine .tail (.single ⟨_, .build rfl (page_serves List.mem_cons_self) (by decide) ..⟩)
    ⟨_, .lead ?_ trivial⟩
  decide +kernel

/-- The descriptor of such a handle leads nowhere, though the number is alive and the copy's
allocator is registered. -/
theorem stray_not_resolved :
    (Ready [(⟨1, 0⟩, page)] strayProcess ∧
      Reachable [(⟨1, 0⟩, page)] strayProcess strayShared ∧ page ∈ strayShared.regions ∧
      page.Copied strayShared.process ⟨1, 4096, true⟩ strayCopy) ∧
    (strayShared.handles 1 = some ⟨_, _, strayView⟩ ∧
      (AnyHandle.mk _ _ strayView).address? = some (.place 0 320) ∧
      strayShared.heap (.place 0 320) = some ⟨.plain (.int .u64), 10#64⟩) ∧
    ∃ g, Ends (Registrar.register ⟨⟨1, 4096, true⟩⟩) ⟨strayCopy, .empty .standard⟩ (.ok ())
        ⟨strayCopy, g⟩ ∧
      ∀ k, Ends (Handle.ofDescriptor g (strayView.descriptor strayShared.process) :
        Action _ _ (Handle (.plain (.int .u64)) k)) strayCopy (.error .nullPointer) strayCopy := by
  have hw : page ∈ strayShared.regions ∧ strayShared.handles 1 = some ⟨_, _, strayView⟩ ∧
      strayShared.heap (.place 0 320) = some ⟨.plain (.int .u64), 10#64⟩ ∧
      strayShared.process.segments.size = 1 := by
    decide +kernel
  obtain ⟨p', hrun, hc, -⟩ := Region.copied_ofBytes page strayShared.process (n := 4096)
    (by decide) (by decide) (by decide +kernel)
  rw [hw.2.2.2, ← hrun.state] at hc
  exact ⟨⟨stray_ready, strayShared_reachable, hw.1, hc⟩, ⟨hw.2.1, rfl, hw.2.2.1⟩, _,
    Registrar.register_free rfl, fun k => .bind_error (Resolved.ofDescriptor_null ..)⟩

end World

end SharedHeap
