import Mathlib.Logic.Function.Basic
import SharedHeap.Proofs.Targets

/-!
# A typed heap on the blocks of regions

Live targets make up a heap: a map from addresses to values of known types. `Heap.Stands` says that
the blocks which regions have handed out are those of the live targets, blocks that hold no target
(`Patch`), and blocks that nobody will ever return; and that each target stores the value that the
heap says. Each operation changes the heap at its own target and nowhere else. A target may stand on
a block that was asked for with another layout than its own (`Layouts`), as long as there is room.
-/

namespace SharedHeap

open SharedHeap.Action (Ends)

instance : (t : Target) → DecidableEq t.Val
  | .plain e => inferInstanceAs (DecidableEq e.Val)
  | .list e => inferInstanceAs (DecidableEq (List e.Val))

/-- A target and its value. -/
structure Cell where
  target : Target
  value : target.Val
deriving DecidableEq

/-- Which targets are alive, and their values. -/
abbrev Heap := Address → Option Cell

/-- The layouts that the blocks of targets were asked for with. -/
abbrev Layouts := Address → Layout

/-- A block as it was asked for, which holds no target. -/
structure Patch where
  segment : Nat
  offset : Nat
  layout : Layout
deriving DecidableEq, Repr

namespace Patch

def address (b : Patch) : Address := .place b.segment b.offset

def plot (b : Patch) : Plot := b.layout.plot b.segment b.offset

theorem plot_perm {b : Patch} {bs : List Patch} (hb : b ∈ bs) (xs zs : List Plot) :
    (b.plot :: (xs ++ ((bs.erase b).map plot ++ zs))).Perm (xs ++ (bs.map plot ++ zs)) := by
  refine List.perm_middle.symm.trans (List.Perm.append_left xs ?_)
  exact (((List.perm_cons_erase hb).map plot).append_right zs).symm

end Patch

theorem Plot.perm_behind (ws xs ys zs : List Plot) :
    (ws ++ (xs ++ (ys ++ zs))).Perm (xs ++ (ys ++ (ws ++ zs))) :=
  (List.perm_append_comm_assoc ..).trans ((List.perm_append_comm_assoc ..).append_left xs)

/-- A live target at its place, and the layout that its block was asked for with. -/
structure Item where
  segment : Nat
  offset : Nat
  layout : Layout
  cell : Cell

namespace Item

def address (x : Item) : Address := .place x.segment x.offset

def plot (x : Item) : Plot := x.layout.plot x.segment x.offset

def plots (p : Process) (x : Item) : List Plot :=
  x.cell.target.plots p x.layout x.segment x.offset

/-- The block is one of those for the layout, and the target can stand there. -/
structure Lodged (L : Layouts) (x : Item) : Prop where
  layout : L x.address = x.layout
  served : x.layout.Served
  suits : x.layout.Suits x.cell.target.layout x.offset

theorem Lodged.room {L : Layouts} {x : Item} (h : x.Lodged L) :
    x.layout.HasRoom x.cell.target.layout.size := h.suits.room

def Stored (p : Process) (x : Item) : Prop :=
  x.cell.target.Stored p x.segment x.offset x.cell.value

variable {p p' : Process} {items : List Item} {zs : List Plot} {x : Item}

theorem plot_mem (hx : x ∈ items) : x.plot ∈ items.flatMap (plots p) :=
  List.mem_flatMap.2 ⟨x, hx, x.cell.target.plot_mem ..⟩

theorem spares (hp : p.Spares p' (items.flatMap (plots p) ++ zs)) (hx : x ∈ items) :
    p.Spares p' (x.plots p) :=
  hp.mono fun _ hz => List.mem_append_left _ (List.mem_flatMap.2 ⟨x, hx, hz⟩)

/-- Targets that are spared stay where they are. -/
theorem flatMap_plots {L : Layouts} (hl : ∀ x ∈ items, x.Lodged L)
    (hp : p.Spares p' (items.flatMap (plots p) ++ zs)) :
    items.flatMap (plots p') = items.flatMap (plots p) := by
  refine List.flatMap_congr fun x hx => ?_
  exact Target.plots_spares (hl x hx).room (spares hp hx)

end Item

namespace Heap

/-- The heap is made of these items. -/
def MadeOf (H : Heap) (items : List Item) : Prop :=
  ∀ a c, H a = some c ↔ ∃ x ∈ items, x.address = a ∧ x.cell = c

namespace MadeOf

variable {H : Heap} {items : List Item} {x : Item}

theorem eq_none (h : H.MadeOf items) {a : Address} (ha : ∀ z ∈ items, z.address ≠ a) :
    H a = none := by
  cases hH : H a with
  | none => rfl
  | some c =>
    obtain ⟨z, hz, hza, -⟩ := (h a c).1 hH
    exact absurd hza (ha z hz)

theorem insert (h : H.MadeOf items) (hx : ∀ z ∈ items, z.address ≠ x.address) :
    MadeOf (Function.update H x.address (some x.cell)) (x :: items) := by
  intro a c
  rw [Function.update_apply]
  by_cases ha : a = x.address
  · rw [if_pos ha]
    constructor
    · rintro ⟨⟩
      exact ⟨x, List.mem_cons_self, ha.symm, rfl⟩
    · rintro ⟨z, hz, hza, rfl⟩
      rcases List.mem_cons.1 hz with rfl | hz
      · rfl
      · exact absurd (hza.trans ha) (hx z hz)
  · rw [if_neg ha, h a c]
    constructor
    · rintro ⟨z, hz, hza⟩
      exact ⟨z, List.mem_cons_of_mem _ hz, hza⟩
    · rintro ⟨z, hz, hza, hc⟩
      rcases List.mem_cons.1 hz with rfl | hz
      · exact absurd hza.symm ha
      · exact ⟨z, hz, hza, hc⟩

theorem remove (h : H.MadeOf (x :: items)) (hx : ∀ z ∈ items, z.address ≠ x.address) :
    MadeOf (Function.update H x.address none) items := by
  intro a c
  rw [Function.update_apply]
  by_cases ha : a = x.address
  · rw [if_pos ha]
    constructor
    · nofun
    · rintro ⟨z, hz, hza, -⟩
      exact absurd (hza.trans ha) (hx z hz)
  · rw [if_neg ha, h a c]
    constructor
    · rintro ⟨z, hz, hza, hc⟩
      rcases List.mem_cons.1 hz with rfl | hz
      · exact absurd hza.symm ha
      · exact ⟨z, hz, hza, hc⟩
    · rintro ⟨z, hz, hza⟩
      exact ⟨z, List.mem_cons_of_mem _ hz, hza⟩

end MadeOf

/-- The heap lies on the blocks of regions, besides blocks without targets and lost ones. -/
structure Laid (H : Heap) (L : Layouts) (p : Process) (rs : List Region) (bs : List Patch)
    (items : List Item) (lost : List Plot) : Prop where
  estate : Estate p rs (items.flatMap (Item.plots p) ++ (bs.map Patch.plot ++ lost))
  lodged : ∀ x ∈ items, x.Lodged L
  stored : ∀ x ∈ items, x.Stored p
  madeOf : H.MadeOf items
  patches : ∀ b ∈ bs, b.layout.Served

namespace Laid

variable {H : Heap} {L : Layouts} {p p' : Process} {rs : List Region} {bs bs' : List Patch}
  {items : List Item} {lost lost' zs : List Plot} {x : Item}

theorem perm {items' : List Item} (h : H.Laid L p rs bs items lost) (hp : items.Perm items') :
    H.Laid L p rs bs items' lost where
  estate := h.estate.perm ((hp.flatMap_right _).append_right _)
  lodged x hx := h.lodged x (hp.mem_iff.2 hx)
  stored x hx := h.stored x (hp.mem_iff.2 hx)
  madeOf a c := by
    rw [h.madeOf a c]
    exact exists_congr fun x => and_congr_left' hp.mem_iff
  patches := h.patches

theorem address_ne {l : List Item} {xs : List Plot} (he : Estate p rs (x.plots p' ++ xs))
    (hxs : ∀ z ∈ l, z.plot ∈ xs) : ∀ z ∈ l, z.address ≠ x.address := by
  intro z hz ha
  have hap := List.rel_of_pairwise_cons he.apart (List.mem_append_right _ (hxs z hz))
  obtain ⟨h₁, h₂⟩ := Address.place.inj ha
  exact (hap h₁.symm).offset_ne (Int.ofNat.inj h₂).symm

/-- The process goes on, and the targets are spared. -/
theorem move (h : H.Laid L p rs bs items lost)
    (hp : p.Spares p' (items.flatMap (Item.plots p) ++ zs))
    (he : Estate p' rs (items.flatMap (Item.plots p) ++ (bs'.map Patch.plot ++ lost')))
    (hb : ∀ b ∈ bs', b ∈ bs ∨ b.layout.Served) :
    H.Laid L p' rs bs' items lost' where
  estate := by
    rw [Item.flatMap_plots h.lodged hp]
    exact he
  lodged := h.lodged
  stored x hx := (h.stored x hx).spares (h.lodged x hx).room (Item.spares hp hx)
  madeOf := h.madeOf
  patches b hb' := (hb b hb').elim (h.patches b) id

/-- The same, and there is a target more. -/
theorem insert (h : H.Laid L p rs bs items lost)
    (hp : p.Spares p' (items.flatMap (Item.plots p) ++ zs))
    (he : Estate p' rs
      (x.plots p' ++ (items.flatMap (Item.plots p) ++ (bs'.map Patch.plot ++ lost'))))
    (hx : x.Stored p') (hs : x.layout.Served)
    (hy : x.layout.Suits x.cell.target.layout x.offset) (hb : ∀ b ∈ bs', b ∈ bs) :
    H x.address = none ∧
      Laid (Function.update H x.address (some x.cell)) (Function.update L x.address x.layout) p' rs
        bs' (x :: items) lost' := by
  -- its block lies apart from those of all others, so the address was free
  have hne := address_ne (l := items) he fun z hz => List.mem_append_left _ (Item.plot_mem hz)
  refine ⟨h.madeOf.eq_none hne, ?_, ?_, ?_, h.madeOf.insert hne,
    fun b hb' => h.patches b (hb b hb')⟩
  · rw [List.flatMap_cons, Item.flatMap_plots h.lodged hp, List.append_assoc]
    exact he
  · intro z hz
    rcases List.mem_cons.1 hz with rfl | hz
    · exact ⟨Function.update_self .., hs, hy⟩
    · obtain ⟨hl, hs', hy'⟩ := h.lodged z hz
      exact ⟨(Function.update_of_ne (hne z hz) ..).trans hl, hs', hy'⟩
  · intro z hz
    rcases List.mem_cons.1 hz with rfl | hz
    · exact hx
    · exact (h.stored z hz).spares (h.lodged z hz).room (Item.spares hp hz)

/-- A target is dead, and its blocks are nobody's. -/
theorem remove (h : H.Laid L p rs bs (x :: items) lost) :
    Laid (Function.update H x.address none) L p rs bs items (x.plots p ++ lost) := by
  have he := h.estate
  rw [List.flatMap_cons, List.append_assoc] at he
  have hne := address_ne (l := items) he fun z hz => List.mem_append_left _ (Item.plot_mem hz)
  exact ⟨he.perm (Plot.perm_behind ..), fun z hz => h.lodged z (List.mem_cons_of_mem _ hz),
    fun z hz => h.stored z (List.mem_cons_of_mem _ hz), h.madeOf.remove hne, h.patches⟩

/-- A target has another value. -/
theorem renew {y : Item} (h : H.Laid L p rs bs (x :: items) lost) (ha : y.address = x.address)
    (ho : y.offset = x.offset) (hl : y.layout = x.layout) (ht : y.cell.target = x.cell.target)
    (hp : p.Spares p' (items.flatMap (Item.plots p) ++ zs))
    (he : Estate p' rs
      (y.plots p' ++ (items.flatMap (Item.plots p) ++ (bs.map Patch.plot ++ lost))))
    (hx : y.Stored p') :
    Laid (Function.update H x.address (some y.cell)) L p' rs bs (y :: items) lost := by
  obtain ⟨hlayout, hserved, hsuits⟩ := h.lodged x List.mem_cons_self
  rw [← hl, ← ht, ← ho] at hsuits
  obtain ⟨-, hlaid⟩ := h.remove.insert hp he hx (hl ▸ hserved) hsuits fun _ => id
  rwa [ha, hl, ← hlayout, Function.update_idem, Function.update_eq_self] at hlaid

/-- One of the blocks without targets, seen by itself. -/
theorem patch (h : H.Laid L p rs bs items lost) {b : Patch} (hb : b ∈ bs) :
    Estate p rs (b.plot :: (items.flatMap (Item.plots p) ++
      ((bs.erase b).map Patch.plot ++ lost))) :=
  h.estate.perm (Patch.plot_perm hb ..).symm

end Laid

/-- The heap stands in the regions. Blocks that nobody will ever return are in lossy segments. -/
def Stands (H : Heap) (L : Layouts) (p : Process) (rs : List Region) (bs : List Patch)
    (lossy : Nat → Prop := fun _ => True) : Prop :=
  ∃ items lost, H.Laid L p rs bs items lost ∧ ∀ x ∈ lost, lossy x.segment

namespace Stands

variable {H : Heap} {L : Layouts} {p p' : Process} {rs : List Region} {bs : List Patch} {r : Region}
  {lossy : Nat → Prop} {o : Nat} {t : Target} {v : t.Val} {a : Allocator} {x : t.Ref} {b : Patch}
  {ε : Type}

/-- Segments without regions do not matter, and there may be other regions afterwards, as long as no
block of theirs is handed out. -/
theorem widen (h : H.Stands L p rs bs lossy) (hp : ∀ r ∈ rs, p.Retains p' r.segment)
    {rs' : List Region} (he : ∀ xs, Estate p rs xs → Estate p' rs' xs) :
    H.Stands L p' rs' bs lossy := by
  obtain ⟨items, lost, h, hlost⟩ := h
  have hb (z : Item) (hz : z ∈ items) : p'.bytes z.segment = p.bytes z.segment := by
    obtain ⟨r, hr, hs⟩ := h.estate.placed _ (List.mem_append_left _ (Item.plot_mem hz))
    have hs : r.segment = z.segment := hs
    rw [← hs]
    exact (hp r hr).bytes
  have hplots : items.flatMap (Item.plots p') = items.flatMap (Item.plots p) :=
    List.flatMap_congr fun z hz => by simp only [Item.plots, Target.plots, hb z hz]
  refine ⟨items, lost, ⟨?_, h.lodged, fun z hz => ?_, h.madeOf, h.patches⟩, hlost⟩
  · rw [hplots]
    exact he _ h.estate
  · have := h.stored z hz
    unfold Item.Stored Target.Stored at this ⊢
    simpa only [hb z hz] using this

theorem retains (h : H.Stands L p rs bs lossy) (hp : ∀ r ∈ rs, p.Retains p' r.segment) :
    H.Stands L p' rs bs lossy := h.widen hp fun _ he => he.retains hp

theorem congr (h : H.Stands L p rs bs lossy) (hs : p'.segments = p.segments) :
    H.Stands L p' rs bs lossy := h.retains fun _ _ => Process.retains_of_segments hs

/-- A live target, seen by itself. -/
theorem focus (h : H.Stands L p rs bs lossy) {s : Nat} (ha : H (.place s o) = some ⟨t, v⟩) :
    ∃ items lost, H.Laid L p rs bs (⟨s, o, L (.place s o), t, v⟩ :: items) lost ∧
      ∀ x ∈ lost, lossy x.segment := by
  obtain ⟨items, lost, h, hlost⟩ := h
  obtain ⟨⟨s', o', y, c⟩, hx, hxa, rfl⟩ := (h.madeOf _ _).1 ha
  obtain ⟨rfl, ho⟩ := Address.place.inj hxa
  obtain rfl := Int.ofNat.inj ho
  obtain rfl : L (.place s' o') = y := (h.lodged _ hx).layout
  obtain ⟨before, after, rfl⟩ := List.append_of_mem hx
  exact ⟨before ++ after, lost, h.perm List.perm_middle, hlost⟩

theorem place (h : H.Stands L p rs bs lossy) {y : Address} {c : Cell} (hy : H y = some c) :
    ∃ r ∈ rs, ∃ o : Nat, y = .place r.segment o := by
  obtain ⟨items, lost, h, -⟩ := h
  obtain ⟨x, hx, rfl, -⟩ := (h.madeOf _ _).1 hy
  obtain ⟨r, hr, hs⟩ := h.estate.placed _ (List.mem_append_left _ (Item.plot_mem hx))
  refine ⟨r, hr, x.offset, ?_⟩
  rw [hs]
  rfl

/-- No two regions share a segment. -/
theorem region_eq (h : H.Stands L p rs bs lossy) {r' : Region} (hr : r ∈ rs) (hr' : r' ∈ rs)
    (hs : r.segment = r'.segment) : r = r' := by
  obtain ⟨items, lost, hl, -⟩ := h
  exact hl.estate.distinct r hr r' hr' hs

/-- The block of a live target is on no chain of free blocks. -/
theorem holds (h : H.Stands L p rs bs lossy) {s : Nat} {c : Cell} (ha : H (.place s o) = some c) :
    p.Holds s o := by
  obtain ⟨items, lost, hl, -⟩ := h.focus (t := c.target) (v := c.value) ha
  exact hl.estate.holds (List.mem_append_left _ (Item.plot_mem List.mem_cons_self))

/-! ## Reading -/

theorem load (h : H.Stands L p rs bs lossy) (hr : r ∈ rs) (hx : t.Leads x r o)
    (ha : H (t.address x) = some ⟨t, v⟩) : Ends (t.load x : Action Process ε _) p (.ok v) p := by
  rw [hx.address] at ha
  obtain ⟨items, lost, hl, -⟩ := h.focus ha
  have he := hl.estate
  rw [List.flatMap_cons, List.append_assoc] at he
  exact Target.load_ends hr hx (hl.lodged _ List.mem_cons_self).room he
    (hl.stored _ List.mem_cons_self)

/-! ## Blocks without targets -/

/-- Taking a block leaves all targets alone. -/
theorem allocate (h : H.Stands L p rs bs lossy) (hr : r ∈ rs) (ha : a.Over r) {y : Layout}
    (hy : y.Valid) :
    (∃ (o : Nat) (p' : Process), Ends (a.allocate y) p (.ok (.place r.segment o, .ofNat o)) p' ∧
      H.Stands L p' rs (⟨r.segment, o, y⟩ :: bs) lossy ∧ p'.registry = p.registry ∧
      (Offset.ofNat o).toNat = o) ∨
    ∃ e, Ends (a.allocate y) p (.error e) p := by
  obtain ⟨items, lost, h, hlost⟩ := h
  rcases h.estate.allocate hr ha hy with ⟨o, p', hal, he, hsp, ho, hle⟩ | ⟨e, hal⟩
  · refine .inl ⟨o, p', hal, ⟨items, lost, h.move hsp (he.perm List.perm_middle.symm) ?_, hlost⟩,
      hsp.registry, ho⟩
    intro b hb
    rcases List.mem_cons.1 hb with rfl | hb
    · exact .inr ⟨hy, hle⟩
    · exact .inl hb
  · exact .inr ⟨e, hal⟩

/-- Returning a block leaves all targets alone. -/
theorem free (h : H.Stands L p rs bs lossy) (hr : r ∈ rs) (ha : a.Over r) (hb : b ∈ bs)
    (hs : b.segment = r.segment) :
    ∃ p', Ends (a.free b.address b.layout : Action Process ε Unit) p (.ok ()) p' ∧
      H.Stands L p' rs (bs.erase b) lossy ∧ p'.registry = p.registry := by
  obtain ⟨items, lost, h, hlost⟩ := h
  obtain ⟨hv, hle⟩ := h.patches b hb
  obtain ⟨s, o, y⟩ := b
  obtain rfl : s = r.segment := hs
  obtain ⟨p', hf, he, hsp, -⟩ := Estate.free (ε := ε) (h.patch hb) hr ha hle hv
  exact ⟨p', hf, ⟨items, lost, h.move hsp he fun _ hb' => .inl (List.mem_of_mem_erase hb'), hlost⟩,
    hsp.registry⟩

/-- Storing in a block leaves all targets alone. -/
theorem write (h : H.Stands L p rs bs lossy) (hb : b ∈ bs) {i : Nat} (vs : List UInt8)
    (hi : i + vs.length ≤ b.plot.extent.size) :
    ∃ p', Ends (Process.store (b.address.add i) vs : Action Process ε Unit) p (.ok ()) p' ∧
      H.Stands L p' rs bs lossy ∧ p'.registry = p.registry := by
  obtain ⟨items, lost, h, hlost⟩ := h
  have hstop : b.plot.extent.stop = b.offset + b.plot.extent.size := rfl
  have hoff : b.plot.extent.offset = b.offset := rfl
  have he : Estate p rs (⟨b.segment, b.plot.extent⟩ :: _) := h.patch hb
  obtain ⟨p', hst, he', hsp, -⟩ := he.store (ε := ε) (i := b.offset + i) vs (by omega) (by omega)
  rw [Int.natCast_add] at hst
  exact ⟨p', hst, ⟨items, lost, h.move hsp (he'.perm (Patch.plot_perm hb ..)) fun _ => .inl, hlost⟩,
    hsp.registry⟩

/-! ## Targets -/

/-- A target is built in new blocks, or none is. After a fault some blocks may be lost. -/
theorem build (h : H.Stands L p rs bs lossy) (hr : r ∈ rs) (ha : a.Over r) (ht : t.Valid)
    (args : t.Args) :
    ∃ out p', Ends (t.build a args) p out p' ∧ p'.registry = p.registry ∧
      match out with
      | .ok x => ∃ o, t.Leads x r o ∧ H (t.address x) = none ∧
        Stands (Function.update H (t.address x) (some ⟨t, t.initial args⟩))
          (Function.update L (t.address x) t.layout) p' rs bs lossy
      | .error _ => H.Stands L p' rs bs lossy
      | .fault _ => t.Overflows args ∧ (lossy r.segment → H.Stands L p' rs bs lossy) := by
  obtain ⟨items, lost, h, hlost⟩ := h
  obtain ⟨out, p', hb, hsp, hout⟩ := Target.build_ends hr ha ht h.estate args
  refine ⟨out, p', hb, hsp.registry, ?_⟩
  cases out with
  | ok x =>
    obtain ⟨o, hx, hserved, he, hs, -⟩ := hout
    have hsuits := he.suits hserved (List.mem_append_left _ (t.plot_mem ..))
    obtain ⟨hn, hl⟩ := h.insert (x := ⟨r.segment, o, t.layout, t, t.initial args⟩) hsp he hs
      hserved hsuits fun _ => id
    refine ⟨o, hx, ?_⟩
    rw [hx.address]
    exact ⟨hn, _, _, hl, hlost⟩
  | error e => exact ⟨items, lost, h.move hsp hout.1 fun _ => .inl, hlost⟩
  | fault f =>
    obtain ⟨hover, more, he, hmore, -⟩ := hout
    have hmoved := h.move hsp (he.perm (Plot.perm_behind ..)) fun _ => .inl
    exact ⟨hover, fun hr => ⟨items, more ++ lost, hmoved,
      List.forall_mem_append.2 ⟨fun x hx => (hmore x hx).symm ▸ hr, hlost⟩⟩⟩

/-- A target is built in a block that holds none, or none is. -/
theorem buildAt (h : H.Stands L p rs bs lossy) (hr : r ∈ rs) (ha : a.Over r) (ht : t.Valid)
    (hb : b ∈ bs) (hs : b.segment = r.segment) (hy : b.layout.Suits t.layout b.offset)
    (args : t.Args) :
    ∃ out p', Ends (t.buildAt b.address a args) p out p' ∧ p'.registry = p.registry ∧
      match out with
      | .ok x => t.Leads x r b.offset ∧ H (t.address x) = none ∧
        Stands (Function.update H (t.address x) (some ⟨t, t.initial args⟩))
          (Function.update L (t.address x) b.layout) p' rs (bs.erase b) lossy
      | .error _ => H.Stands L p' rs bs lossy
      | .fault _ => t.Overflows args ∧ (lossy r.segment → H.Stands L p' rs bs lossy) := by
  obtain ⟨items, lost, h, hlost⟩ := h
  have he := h.patch hb
  have hserved := h.patches b hb
  have hperm := Patch.plot_perm hb (items.flatMap (Item.plots p))
  obtain ⟨s, o, y⟩ := b
  obtain rfl : s = r.segment := hs
  obtain ⟨out, p', hba, hsp, hout⟩ := Target.buildAt_ends hr ha ht hy.room he args
  refine ⟨out, p', hba, hsp.registry, ?_⟩
  cases out with
  | ok x =>
    obtain ⟨hx, he, hs, -⟩ := hout
    obtain ⟨hn, hl⟩ := h.insert (x := ⟨r.segment, o, y, t, t.initial args⟩) hsp he hs hserved hy
      fun _ => List.mem_of_mem_erase
    refine ⟨hx, ?_⟩
    rw [hx.address]
    exact ⟨hn, _, _, hl, hlost⟩
  | error e => exact ⟨items, lost, h.move hsp (Estate.perm hout (hperm _)) fun _ => .inl, hlost⟩
  | fault f =>
    obtain ⟨hover, more, he, hmore, -⟩ := hout
    refine ⟨hover, fun hr => ⟨items, more ++ lost, h.move hsp ?_ fun _ => .inl,
      List.forall_mem_append.2 ⟨fun x hx => (hmore x hx).symm ▸ hr, hlost⟩⟩⟩
    exact he.perm (((Plot.perm_behind ..).cons _).trans (hperm _))

theorem replace {t : Plain} {x : PlainRef} {v₀ : t.Val} (h : H.Stands L p rs bs lossy)
    (hx : (Target.plain t).Leads x r o) (ha : H x.address = some ⟨.plain t, v₀⟩) (v : t.Val) :
    ∃ p', Ends (x.replace t v : Action Process ε Unit) p (.ok ()) p' ∧
      p'.registry = p.registry ∧
      Stands (Function.update H x.address (some ⟨.plain t, v⟩)) L p' rs bs lossy := by
  have haddr : x.address = .place r.segment o := hx.address
  rw [haddr] at ha
  obtain ⟨items, lost, hl, hlost⟩ := h.focus ha
  have he := hl.estate
  rw [List.flatMap_cons, List.append_assoc] at he
  obtain ⟨p', hrep, he', hs', hsp⟩ := Target.replace_ends (ε := ε) haddr
    (hl.lodged _ List.mem_cons_self).room he (hl.stored _ List.mem_cons_self).1 v
  refine ⟨p', hrep, hsp.registry, ?_⟩
  rw [haddr]
  exact ⟨_, _, hl.renew (y := ⟨r.segment, o, _, .plain t, v⟩) rfl rfl rfl rfl hsp he' hs', hlost⟩

theorem push {e : Plain} {l : SharedList} {vs : List e.Val} (h : H.Stands L p rs bs lossy)
    (hr : r ∈ rs) (hl : (Target.list e).Leads l r o) (ha : H l.header = some ⟨.list e, vs⟩)
    (v : e.Val) :
    (∃ p', Ends (l.push e v) p (.ok ()) p' ∧ p'.registry = p.registry ∧
      Stands (Function.update H l.header (some ⟨.list e, vs ++ [v]⟩)) L p' rs bs lossy) ∨
    SharedList.Fails (l.push e v) p (l.Refused e p)
      (e.Overflows (vs.length + 1)) := by
  have haddr : l.header = .place r.segment o := hl.address
  rw [haddr] at ha
  obtain ⟨items, lost, hlaid, hlost⟩ := h.focus ha
  have he := hlaid.estate
  rw [List.flatMap_cons, List.append_assoc] at he
  rcases Target.push_ends hr hl (hlaid.lodged _ List.mem_cons_self).room he
    (hlaid.stored _ List.mem_cons_self) v with ⟨p', hp, he', hs', hsp⟩ | hf
  · refine .inl ⟨p', hp, hsp.registry, ?_⟩
    rw [haddr]
    exact ⟨_, _, hlaid.renew (y := ⟨r.segment, o, _, .list e, vs ++ [v]⟩) rfl rfl rfl rfl hsp he'
      hs', hlost⟩
  · exact .inr hf

theorem destroy (h : H.Stands L p rs bs lossy) (hr : r ∈ rs) (hx : t.Leads x r o)
    (ha : t.allocator? x = some a) (hH : H (t.address x) = some ⟨t, v⟩)
    (hy : (L (t.address x)).Shares t.layout) :
    ∃ x' p', Ends (t.destroy x true : Action Process ε _) p (.ok x') p' ∧
      p'.registry = p.registry ∧ Stands (Function.update H (t.address x) none) L p' rs bs lossy ∧
      p'.Returned r.segment o t.layout := by
  rw [hx.address] at hH hy ⊢
  obtain ⟨items, lost, hl, hlost⟩ := h.focus hH
  have he := hl.estate
  rw [List.flatMap_cons, List.append_assoc] at he
  obtain ⟨x', p', hd, he', hsp, hret, -⟩ := Target.destroy_ends (ε := ε) hr hx ha hy
    (hl.lodged _ List.mem_cons_self).suits.align_le he (hl.stored _ List.mem_cons_self)
  exact ⟨x', p', hd, hsp.registry, ⟨items, lost, hl.remove.move hsp he' fun _ => .inl, hlost⟩, hret⟩

/-- Whoever knows that nobody uses a target may have its block as one without a target. Other
blocks of the target are lost. -/
theorem abandon (h : H.Stands L p rs bs lossy) {s : Nat} (hH : H (.place s o) = some ⟨t, v⟩)
    (hs : lossy s) :
    Stands (Function.update H (.place s o) none) L p rs (⟨s, o, L (.place s o)⟩ :: bs) lossy := by
  obtain ⟨items, lost, hl, hlost⟩ := h.focus hH
  obtain ⟨rest, hp, hrest⟩ : ∃ rest, Item.plots p ⟨s, o, L (.place s o), t, v⟩ =
      (L (.place s o)).plot s o :: rest ∧ ∀ x ∈ rest, x.segment = s :=
    ⟨_, rfl, fun x hx => t.segment_plots (y := L (.place s o)) (List.mem_cons_of_mem _ hx)⟩
  have he := hl.remove.estate
  rw [hp] at he
  refine ⟨items, rest ++ lost, hl.remove.move (.refl p (_ ++ []))
    (he.perm (List.perm_middle.append_left _)) fun b hb => ?_, ?_⟩
  · rcases List.mem_cons.1 hb with rfl | hb
    · exact .inr (hl.lodged _ List.mem_cons_self).served
    · exact .inl hb
  · exact List.forall_mem_append.2 ⟨fun x hx => (hrest x hx).symm ▸ hs, hlost⟩

end Stands

end Heap

end SharedHeap
