import SharedHeap.Proofs.Counters
import SharedHeap.Proofs.Turnover

/-!
# Numbers that stay in range

Sizes, offsets and counters are words, and nothing that is computed with them may leave the range of
a word. The bounds come from many sides: no layout is larger than an object may be, the cursor stays
below a capacity that leaves room for rounding it up, the bytes in use are those of blocks that lie
apart, and a block is far too small for a list in it to be doubled out of range. `Region.InRange`
puts together what holds of a region with an allocator, `Tenancy.InRange` and `World.InRange` what
holds of the blocks and the lists in it. Only elements without a size escape: there is room for any
number of them, and `World.pageCrowd` is a list that no word can count after its next growth.
-/

namespace SharedHeap

open SharedHeap.Action (Ends)

namespace Action

variable {σ ε ε' α β : Type}

/-- The action ends with an answer or with an error. -/
def Faultless (x : Action σ ε α) (s : σ) : Prop := ∀ f, (x s).outcome ≠ .fault f

namespace Faultless

variable {x : Action σ ε α} {f : α → Action σ ε β} {s s' : σ} {a : α} {e : ε} {o : Outcome ε α}

theorem of_ends (hx : Ends x s o s') (ho : ∀ f, o ≠ .fault f) : Faultless x s :=
  fun f hf => ho f (hx.outcome.symm.trans hf)

theorem of_ok (hx : Ends x s (.ok a) s') : Faultless x s := of_ends hx nofun

theorem of_error (hx : Ends x s (.error e) s') : Faultless x s := of_ends hx nofun

theorem bind (hx : Faultless x s) (hf : ∀ a s', Ends x s (.ok a) s' → Faultless (f a) s') :
    Faultless (x >>= f) s := by
  intro y hy
  rcases Ends.of_bind ⟨hy, rfl⟩ with ⟨a, s₁, hx₁, hf₁⟩ | ⟨e, he, -⟩ | ⟨y', -, hx₁⟩
  · exact hf a s₁ hx₁ y hf₁.outcome
  · cases he
  · exact hx y' hx₁.outcome

theorem mapError {g : ε → ε'} (hx : Faultless x s) : Faultless (x.mapError g) s := by
  have hrun : Ends (x.mapError g) s ((x s).outcome.mapError g) (x s).state :=
    Ends.mapError ⟨rfl, rfl⟩
  refine of_ends hrun fun y hy => ?_
  cases ho : (x s).outcome with
  | ok | error =>
    rw [ho] at hy
    cases hy
  | fault y' => exact hx y' ho

end Faultless

end Action

open SharedHeap.Action (Faultless)

/-! ## Layouts -/

/-- The block for a layout has a size that is a word, of a class that there is. -/
structure Layout.InRange (y : Layout) : Prop where
  need_le : SizeClass.need y ≤ 2 ^ 63
  power_lt : 2 ^ ceilLog2 (SizeClass.need y) < 2 ^ 64
  four_le : 4 ≤ ceilLog2 (SizeClass.need y)

theorem Layout.Valid.inRange {y : Layout} (hy : y.Valid) : y.InRange where
  need_le := hy.need_le
  power_lt := Nat.pow_lt_pow_right (by decide) (Nat.lt_succ_of_le (ceilLog2_le hy.need_le))
  four_le := SizeClass.four_le_ceilLog2_need y

namespace Plain

/-- A list can have `n` elements of the type. Types have sizes below `2 ^ 61` and alignments up to
`2 ^ 29`, and of elements without a size there are at most `2 ^ 63`. -/
structure Admits (e : Plain) (n : Nat) : Prop where
  size_lt : e.size < 2 ^ 61
  align_le : e.align ≤ 2 ^ 29
  length_le : e.size = 0 → n ≤ 2 ^ 63

namespace Admits

variable {e : Plain} {n : Nat}

/-- Four elements of any type have a layout. -/
theorem four (h : e.Admits n) : e.layout.array? 4 ≠ none := by
  obtain ⟨k, hk⟩ := e.align_eq
  have hdvd : e.align ∣ 2 ^ 61 - e.size := by
    refine Nat.dvd_sub ?_ e.align_dvd_size
    rw [hk]
    refine Nat.pow_dvd_pow 2 ((Nat.pow_le_pow_iff_right (a := 2) (by decide)).1 ?_)
    rw [← hk]
    exact Nat.le_trans h.align_le (by decide)
  have hle := Nat.le_of_dvd (Nat.sub_pos_of_lt h.size_lt) hdvd
  have hlt := h.size_lt
  have hv : (Layout.mk (e.size * 4) e.align).Valid := by
    refine ⟨?_, ?_⟩
    · simp only [Layout.isPowerOfTwo, hk, Nat.log2_two_pow, Nat.two_pow_pos, decide_true,
        beq_self_eq_true, Bool.and_self]
    · simp only [maxObjectSize]
      omega
  have hlay : e.layout.array? 4 = some ⟨e.size * 4, e.align⟩ := if_pos hv
  rw [hlay]
  exact Option.some_ne_none _

theorem not_overflows (h : e.Admits n) : ¬ e.Overflows n := by
  rintro (hfour | ⟨hsize, hn⟩)
  · exact h.four hfour
  · exact absurd (h.length_le hsize) (Nat.not_le.2 hn)

end Admits

end Plain

/-- A target can be built from the arguments, if there is room. -/
def Target.Admits : (t : Target) → t.Args → Prop
  | .plain _, _ => True
  | .list e, args => e.Admits args.toList.length

theorem Target.Admits.not_overflows {t : Target} {args : t.Args} (h : t.Admits args) :
    ¬ t.Overflows args := by
  cases t with
  | plain e => exact id
  | list e => exact Plain.Admits.not_overflows h

/-! ## Regions -/

namespace Region

variable {r : Region} {p : Process} {l : Ledger} {a : Allocator} {y : Layout}

/-- What an allocator over the region computes stays in range. -/
structure InRange (r : Region) (p : Process) : Prop where
  /-- The difference is what remains. -/
  cursor_le : (Header.cursor (p.bytes r.segment)).toNat ≤
    (Header.capacity (p.bytes r.segment)).toNat
  /-- The cursor can be rounded up for any class of blocks. -/
  rounding : ∀ c : SizeClass, (Header.cursor (p.bytes r.segment)).toNat + c.blockAlign < 2 ^ 64
  remaining : ∀ a : Allocator, a.Over r →
    Faultless (a.remaining : Action Process MemoryError Nat) p
  allocate : ∀ (a : Allocator) (y : Layout), a.Over r → y.Valid → Faultless (a.allocate y) p
  ignored : ∀ (a : Allocator) x (y : Layout), a.Over r → y.Valid → Tenancy.Ignored a x y →
    Faultless (a.free x y : Action Process MemoryError Unit) p

/-- A block that was handed out for a layout can be returned: its class has a chain, and its bytes
are among those that are in use. -/
structure TakesBack (r : Region) (p : Process) (x : Address) (y : Layout) : Prop where
  class_lt : (SizeClass.ofLayout y).index < Header.classCount
  size_le : (SizeClass.ofLayout y).blockSize ≤ (Header.bytesInUse (p.bytes r.segment)).toNat
  free : ∀ a : Allocator, a.Over r → Faultless (a.free x y : Action Process MemoryError Unit) p

namespace Keeps

theorem allocate_faultless (h : r.Keeps p l) (ha : a.Over r) (hy : y.Valid) :
    Faultless (a.allocate y) p := by
  cases hl : l.allocate y with
  | error e => exact .of_error (h.refuse ha hy hl)
  | ok q => exact .of_ok (h.allocate ha hy hl rfl).1

theorem inRange (h : r.Keeps p l) : r.InRange p where
  cursor_le := by
    rw [h.books.cursor h.sound, h.books.capacity h.sound]
    exact h.sound.cursor_le
  rounding c := by
    rw [h.books.cursor h.sound]
    have h₁ := h.sound.cursor_le
    have h₂ := h.sound.capacity_lt
    have h₃ := c.blockAlign_le
    omega
  remaining a ha := by
    intro f hf
    rw [h.remaining ha] at hf
    cases hf
  allocate a y ha hy := h.allocate_faultless ha hy
  ignored a x y _ hy hx := .of_ok (Tenancy.free_ignored hy hx p)

theorem takesBack (h : r.Keeps p l) {o : Nat} (hy : y.Served) (he : y.extent o ∈ l.live) :
    r.TakesBack p (.place r.segment o) y where
  class_lt := (h.sound.fits _ (h.sound.mem_carved_of_live he)).2.2.2
  size_le := by
    have hsum := ((List.perm_cons_erase he).map Extent.size).sum_eq
    rw [List.map_cons, List.sum_cons] at hsum
    rw [h.toNat_bytesInUse, hsum]
    exact Nat.le_add_right ..
  free a ha := .of_ok (h.free ha hy.align_le hy.valid he).1

end Keeps

end Region

/-! ## Blocks of one region -/

namespace Tenancy

variable {t : Tenancy} {l : Ledger}

/-- Nothing that is done with the blocks of the region leaves the range of a word. -/
structure InRange (t : Tenancy) : Prop where
  region : t.region.InRange t.process
  leases : ∀ x ∈ t.leases, t.region.TakesBack t.process x.address x.layout
  allocators : ∀ a ∈ t.allocators, a.Over t.region
  live : taken t.history < 2 ^ 64 → ∀ a ∈ t.allocators,
    Ends ((a.stats t.process).live : Action Process MemoryError Nat) t.process
      (.ok t.leases.length) t.process

theorem Kept.inRange (h : t.Kept l) (hb : t.Balanced l) : t.InRange where
  region := h.keeps.inRange
  leases x hx := by
    obtain ⟨hy, hal, hx'⟩ := h.leases x hx
    rw [hx']
    exact h.keeps.takesBack ⟨hy, hal⟩ (h.mem_live hx)
  allocators := h.allocators
  live hn a ha := by
    have hlive := h.keeps.live_ends (hb.allocations ▸ hn) (h.allocators a ha)
    rwa [h.live.length_eq, List.length_map] at hlive

end Tenancy

/-! ## Handles and lists -/

/-- Several blocks of a region can be returned one after the other. -/
theorem Estate.sum_le {p : Process} {rs : List Region} {r : Region} {ws xs : List Plot}
    (h : Estate p rs (ws ++ xs)) (hr : r ∈ rs) (hw : ∀ x ∈ ws, x.segment = r.segment) :
    (ws.map fun x => x.extent.size).sum ≤ (Header.bytesInUse (p.bytes r.segment)).toNat := by
  obtain ⟨l, hk, hl⟩ := h.ledgers r hr
  have hsum := (hl.map Extent.size).sum_eq
  rw [Plot.within_append, Plot.within_of_forall hw, List.map_append, List.sum_append,
    List.map_map] at hsum
  rw [hk.toNat_bytesInUse, hsum]
  exact Nat.le_add_right ..

theorem Estate.takesBack {p : Process} {rs : List Region} {xs : List Plot}
    (h : Estate p rs xs) {s o : Nat} {y : Layout} (hy : y.Served) (hx : y.plot s o ∈ xs) :
    ∃ r ∈ rs, r.segment = s ∧ r.TakesBack p (.place s o) y := by
  obtain ⟨r, hr, hs, l, hk, hl⟩ := h.live hx
  obtain rfl : r.segment = s := hs
  exact ⟨r, hr, rfl, hk.takesBack hy hl⟩

namespace World

variable {w : World} {i : Nat} {t : Target} {k : Kind} {e : Plain}

/-- Nothing that is done with blocks, handles and lists leaves the range of a word, after `n s`
blocks of each segment `s` were handed out. -/
structure InRange (w : World) (n : Nat → Nat) : Prop where
  regions : ∀ r ∈ w.regions, r.InRange w.process
  live : ∀ r ∈ w.regions, n r.segment < 2 ^ 64 → ∃ l, r.Keeps w.process l ∧
    ∀ a : Allocator, a.Over r →
      Ends ((a.stats w.process).live : Action Process MemoryError Nat) w.process
        (.ok l.live.length) w.process
  patches : ∀ b ∈ w.patches, ∃ r ∈ w.regions, r.segment = b.segment ∧
    r.TakesBack w.process b.address b.layout
  targets : ∀ (s o : Nat) c, w.heap (.place s o) = some c → ∃ r ∈ w.regions, r.segment = s ∧
    r.TakesBack w.process (.place s o) (w.layouts (.place s o))
  /-- Both blocks of a list can be returned, one after the other. -/
  rooms : ∀ (s o : Nat) (e : Plain) vs, w.heap (.place s o) = some ⟨.list e, vs⟩ →
    (w.headerAt s o).capacity ≠ 0 → ∃ r ∈ w.regions, r.segment = s ∧
      e.layout.array? (w.headerAt s o).capacity.toNat = some ((w.headerAt s o).room e) ∧
      r.TakesBack w.process (.place s (w.headerAt s o).data.toNat) ((w.headerAt s o).room e) ∧
      (SizeClass.ofLayout (w.layouts (.place s o))).blockSize +
          (SizeClass.ofLayout ((w.headerAt s o).room e)).blockSize ≤
        (Header.bytesInUse (w.process.bytes s)).toNat
  /-- A full list can grow. -/
  growth : ∀ (s o : Nat) (e : Plain) vs, w.heap (.place s o) = some ⟨.list e, vs⟩ →
    e.Admits (vs.length + 1) → (w.headerAt s o).length = (w.headerAt s o).capacity →
      2 * (w.headerAt s o).capacity.toNat < 2 ^ 64 ∧
        e.layout.array? (max (2 * (w.headerAt s o).capacity.toNat) 4) ≠ none
  push : ∀ i (e : Plain) (k : Kind) (h : Handle (.list e) k) x vs (v : e.Val),
    w.handles i = some ⟨.list e, k, h⟩ → (AnyHandle.mk _ k h).address? = some x →
    w.heap x = some ⟨.list e, vs⟩ → e.Admits (vs.length + 1) → Faultless (h.push v) w.process
  reads : ∀ (l : SharedList) (e : Plain) (vs : List e.Val), l.resolved.Fits w.regions →
    w.heap l.header = some ⟨.list e, vs⟩ → l.Shows w.process e vs
  build : ∀ (t : Target) (k : Kind) a (args : t.Args), a.Serves w.regions → t.Valid →
    t.Admits args → Faultless (Handle.build a args : Action _ _ (Handle t k)) w.process
  buildAt : ∀ (t : Target) (k : Kind) b a (args : t.Args), b ∈ w.patches →
    Resolved.Fits ⟨b.address, a⟩ w.regions → t.Valid → b.Hosts t k → t.Admits args →
      Faultless (Handle.buildAt b.address a args : Action _ _ (Handle t k)) w.process
  init : ∀ i (t : Target) (k : Kind) (h : Handle t k) a (args : t.Args),
    w.handles i = some ⟨t, k, h⟩ → a.Serves w.regions → t.Valid → t.Admits args →
      Faultless (h.init a args : Action Process HandleError _) w.process
  initAt : ∀ i (t : Target) (k : Kind) (h : Handle t k) b a (args : t.Args),
    w.handles i = some ⟨t, k, h⟩ → b ∈ w.patches → Resolved.Fits ⟨b.address, a⟩ w.regions →
    t.Valid → b.Hosts t k → t.Admits args →
      Faultless (h.initAt b.address a args : Action Process HandleError _) w.process
  replace : ∀ i (t : Target) (k : Kind) (h f : Handle t k), w.handles i = some ⟨t, k, h⟩ →
    Faultless (h.replace f : Action Process HandleError _) w.process
  assign : ∀ i (t : Target) (k : Kind) (h f : Handle t k), w.handles i = some ⟨t, k, h⟩ →
    Faultless (h.assign f : Action Process HandleError _) w.process
  drop : ∀ i h, w.handles i = some h →
    Faultless (h.handle.drop : Action Process HandleError Unit) w.process
  /-- What is released without an owner is alive, has no owner, and is on a block for its layout. -/
  destroy : ∀ i h, w.handles i = some h →
    (h.isOwner = false → ∀ x, h.destroys? = some x → (∃ v, w.heap x = some ⟨h.target, v⟩) ∧
      (w.layouts x).Shares h.target.layout ∧ ∀ j, ¬ w.Owns j x) →
    Faultless (h.handle.destroy : Action Process HandleError Unit) w.process

namespace Sound

theorem takesBack_patch (hw : w.Sound) {b : Patch} (hb : b ∈ w.patches) :
    ∃ r ∈ w.regions, r.segment = b.segment ∧ r.TakesBack w.process b.address b.layout := by
  obtain ⟨items, lost, hlaid, -⟩ := hw.stands
  exact (hlaid.patch hb).takesBack (hlaid.patches b hb) List.mem_cons_self

theorem takesBack_target (hw : w.Sound) {s o : Nat} {c : Cell}
    (hx : w.heap (.place s o) = some c) :
    ∃ r ∈ w.regions, r.segment = s ∧
      r.TakesBack w.process (.place s o) (w.layouts (.place s o)) := by
  obtain ⟨items, lost, hlaid, -⟩ := hw.stands.focus (t := c.target) (v := c.value) hx
  refine hlaid.estate.takesBack (hlaid.lodged _ List.mem_cons_self).served ?_
  exact List.mem_append_left _ (Item.plot_mem List.mem_cons_self)

theorem takesBack_room (hw : w.Sound) {s o : Nat} {vs : List e.Val}
    (hx : w.heap (.place s o) = some ⟨.list e, vs⟩) (hc : (w.headerAt s o).capacity ≠ 0) :
    ∃ r ∈ w.regions, r.segment = s ∧
      e.layout.array? (w.headerAt s o).capacity.toNat = some ((w.headerAt s o).room e) ∧
      r.TakesBack w.process (.place s (w.headerAt s o).data.toNat) ((w.headerAt s o).room e) ∧
      (SizeClass.ofLayout (w.layouts (.place s o))).blockSize +
          (SizeClass.ofLayout ((w.headerAt s o).room e)).blockSize ≤
        (Header.bytesInUse (w.process.bytes s)).toNat := by
  obtain ⟨items, lost, hlaid, -⟩ := hw.stands.focus hx
  obtain ⟨hstores, -⟩ := hlaid.stored _ List.mem_cons_self
  have hserved : ((w.headerAt s o).room e).Served := hstores.served hc
  have hplots : Item.plots w.process ⟨s, o, w.layouts (.place s o), .list e, vs⟩ =
      [(w.layouts (.place s o)).plot s o,
        ((w.headerAt s o).room e).plot s (w.headerAt s o).data.toNat] :=
    congrArg (_ :: ·) (ListHeader.rooms_of_ne hc)
  have he := hlaid.estate
  rw [List.flatMap_cons, List.append_assoc, hplots] at he
  obtain ⟨r, hr, hs, hback⟩ := he.takesBack (o := (w.headerAt s o).data.toNat) (s := s) hserved
    (List.mem_cons_of_mem _ List.mem_cons_self)
  have hsum := he.sum_le hr (List.forall_mem_cons.2 ⟨hs.symm, List.forall_mem_singleton.2 hs.symm⟩)
  rw [hs] at hsum
  simp only [List.map_cons, List.map_nil, List.sum_cons, List.sum_nil, Nat.add_zero] at hsum
  exact ⟨r, hr, hs, if_pos hserved.valid, hback, hsum⟩

/-- The list that a full list grows into has a capacity that is a word, and its elements have a
layout. -/
theorem growth (hw : w.Sound) {s o : Nat} {vs : List e.Val}
    (hx : w.heap (.place s o) = some ⟨.list e, vs⟩) (he : e.Admits (vs.length + 1))
    (hfull : (w.headerAt s o).length = (w.headerAt s o).capacity) :
    2 * (w.headerAt s o).capacity.toNat < 2 ^ 64 ∧
      e.layout.array? (max (2 * (w.headerAt s o).capacity.toNat) 4) ≠ none := by
  obtain ⟨r, -, rfl, l, y, xs, hheld, -⟩ := hw.held hx
  have hlen : (w.headerAt r.segment o).capacity.toNat = vs.length := by
    rw [← hfull]
    exact hheld.stores.length
  have hdouble : 2 * (w.headerAt r.segment o).capacity.toNat < 2 ^ 64 := by
    by_cases hsize : e.size = 0
    · have := he.length_le hsize
      omega
    · exact hheld.double_lt hsize
  have hv := hheld.valid_next hdouble he.four
  rw [SharedList.toNat_nextCapacity _ hdouble] at hv
  have hlay : e.layout.array? (max (2 * (w.headerAt r.segment o).capacity.toNat) 4) = some _ :=
    if_pos hv
  refine ⟨hdouble, ?_⟩
  rw [hlay]
  exact Option.some_ne_none _

theorem push_faultless (hw : w.Sound) {h : Handle (.list e) k} {x : Address} {vs : List e.Val}
    (hi : w.handles i = some ⟨.list e, k, h⟩) (hx : (AnyHandle.mk _ k h).address? = some x)
    (hvs : w.heap x = some ⟨.list e, vs⟩) (he : e.Admits (vs.length + 1)) (v : e.Val) :
    Faultless (h.push v) w.process := by
  obtain ⟨l, hl, rfl⟩ := Option.map_eq_some_iff.1 hx
  obtain ⟨r, hr, o, hlead⟩ := (hw.fits i _ hi l hl).leads hw.stands hvs
  obtain ⟨y, xs, hheld, -⟩ := hw.stands.held hr hlead hvs
  rw [Handle.push_eq hl]
  refine .mapError ?_
  rcases hheld.push v with ⟨p', hd', hp, -⟩ | ⟨-, out, -, -, hhazard, hp⟩
  · exact .of_ok hp
  · exact .of_ends hp fun f hf => he.not_overflows (hhazard f hf)

/-! ### Making and giving up handles -/

theorem build_faultless (hw : w.Sound) {a : Allocator} (ha : a.Serves w.regions) (ht : t.Valid)
    {args : t.Args} (hargs : t.Admits args) :
    Faultless (Handle.build a args : Action _ _ (Handle t k)) w.process :=
  fun f hf => hw.build_not_fault ha ht hargs.not_overflows f _ ⟨hf, rfl⟩

theorem buildAt_faultless (hw : w.Sound) {b : Patch} (hb : b ∈ w.patches) {a : Allocator}
    (ha : Resolved.Fits ⟨b.address, a⟩ w.regions) (ht : t.Valid) (hh : b.Hosts t k)
    {args : t.Args} (hargs : t.Admits args) :
    Faultless (Handle.buildAt b.address a args : Action _ _ (Handle t k)) w.process := by
  obtain ⟨r, hr, hover, d, hd⟩ := ha
  obtain ⟨out, p', hrun, -, hout⟩ := hw.stands.buildAt hr hover ht hb (Address.place.inj hd).1 hh.1
    args
  refine .bind (.mapError (.of_ends hrun fun f hf => ?_)) fun x s _ => .of_ok .pure
  subst hf
  exact hargs.not_overflows hout.1

theorem replace_faultless (hw : w.Sound) {h : Handle t k} (hi : w.handles i = some ⟨t, k, h⟩)
    (f : Handle t k) : Faultless (h.replace f : Action Process HandleError _) w.process := by
  obtain ⟨p', hrel, -⟩ := hw.release (ε := HandleError) hi
  exact .of_ok (replace_ends hrel)

/-- Whoever makes a new target without a fault gives the old one up without a fault. -/
theorem remake_faultless (hw : w.Sound) {h : Handle t k} (hi : w.handles i = some ⟨t, k, h⟩)
    {x : Action Process HandleError (Handle t k)} {v : t.Val} {y : Layout} {bs : List Patch}
    (hm : w.Makes x v y bs) (hx : Faultless x w.process) :
    Faultless (.attempt x >>= h.renewed : Action Process HandleError _) w.process := by
  obtain ⟨-, out, p₁, hrun, hreg, hout⟩ := hm
  cases out with
  | ok g =>
    obtain ⟨z, rfl, hf, hn, hs⟩ := hout
    obtain ⟨p₂, hrel, -⟩ := (hw.built hn hs hreg).release (ε := HandleError) hi
    exact .of_ok (hrun.attempt.bind (renewed_ends hrel))
  | error e => exact .of_ok (hrun.attempt_error.bind (renewed_error h e p₁))
  | fault f => exact absurd hrun.outcome (hx f)

theorem inRange (hw : w.Sound) {n : Nat → Nat}
    (hlive : ∀ r ∈ w.regions, n r.segment < 2 ^ 64 → ∃ l, r.Keeps w.process l ∧
      ∀ a : Allocator, a.Over r →
        Ends ((a.stats w.process).live : Action Process MemoryError Nat) w.process
          (.ok l.live.length) w.process) : w.InRange n where
  regions r hr := by
    obtain ⟨xs, he⟩ := hw.estate
    obtain ⟨l, hk, -⟩ := he.ledgers r hr
    exact hk.inRange
  live := hlive
  patches b hb := hw.takesBack_patch hb
  targets s o c hx := hw.takesBack_target hx
  rooms s o e vs hx hc := hw.takesBack_room hx hc
  growth s o e vs hx he hfull := hw.growth hx he hfull
  push i e k h x vs v hi hx hvs he := hw.push_faultless hi hx hvs he v
  reads l e vs hl hx := hw.views hl hx
  build t k a args ha ht hargs := hw.build_faultless ha ht hargs
  buildAt t k b a args hb ha ht hh hargs := hw.buildAt_faultless hb ha ht hh hargs
  init i t k h a args hi ha ht hargs :=
    hw.remake_faultless hi (hw.makes_build ha ht args) (hw.build_faultless ha ht hargs)
  initAt i t k h b a args hi hb ha ht hh hargs :=
    hw.remake_faultless hi (hw.makes_buildAt hb ha ht hh args)
      (hw.buildAt_faultless hb ha ht hh hargs)
  replace i t k h f hi := hw.replace_faultless hi f
  assign i t k h f hi := .bind (hw.replace_faultless hi f) fun _ _ _ => .of_ok .pure
  drop i h hi := by
    obtain ⟨p', hrel, -⟩ := hw.release (ε := HandleError) hi
    exact .of_ok (drop_ends hrel)
  destroy i h hi hd := by
    obtain ⟨p', hrun, -⟩ := hw.destroy_ends (ε := HandleError) hi hd
    exact .of_ok hrun

end Sound

end World

/-- Whatever is done with the blocks of a region, and with handles and lists, nothing leaves the
range of a word. -/
theorem inRange_of_reachable :
    (∀ y : Layout, y.Valid → y.InRange) ∧
    (∀ (id : AllocatorId) (r : Region) (p : Process) (t : Tenancy), r.Backed p →
      Allocator.minRegionSize ≤ r.length → p.isAligned r.base Region.alignment →
      Tenancy.Attained id r p t → t.InRange) ∧
    ∀ (rs : List (AllocatorId × Region)) (p : Process) (w : World) (n : Nat → Nat),
      World.Ready rs p → World.Tally rs p w n → w.InRange n := by
  refine ⟨fun y hy => hy.inRange, ?_, ?_⟩
  · intro id r p t hb hn ha ht
    obtain ⟨l, hk, hl⟩ := Tenancy.Balanced.reachable hb hn ha ht.reachable
    exact hk.inRange hl
  · intro rs p w n hrs hw
    exact (World.Sound.reachable hrs hw.reachable).inRange fun r hr => hw.live_ends hrs hr

theorem inRange_pageBuilt : Layout.InRange ⟨17, 1⟩ ∧ Tenancy.pageUse.InRange ∧
    ∃ n, (∀ s, n s < 2 ^ 64) ∧ World.pageBuilt.InRange n := by
  obtain ⟨hlayouts, htenancies, hworlds⟩ := inRange_of_reachable
  refine ⟨hlayouts _ (by decide), ?_, _, fun s => ?_,
    hworlds _ _ _ _ World.page_ready (.step .start World.pageBuilt_step)⟩
  · exact htenancies _ _ _ _ Tenancy.page_backed (by decide) (by decide)
      Tenancy.pageUse_reachable.attained
  · rw [Nat.zero_add]
    exact Process.handed_lt ..

namespace World

/-! ## Elements without a size -/

/-- What a block for any number of units is asked for with. -/
def unitRoom : Layout := ⟨0, 1⟩

/-- A view of a list whose header is in the first block of the page. -/
def crowdView : SharedList := ⟨.place 0 320, ⟨page⟩, false⟩

/-- The first block of the page is handed out, and a header stands there. -/
structure Heads (p : Process) (l : Ledger) (hd : ListHeader) : Prop where
  keeps : page.Keeps p l
  live : Target.listHeader.extent 320 ∈ l.live
  found : ListHeader.ofBytes (p.bytes 0) 320 = hd

namespace Heads

variable {p p' : Process} {l l' : Ledger} {hd : ListHeader} {ε : Type}

theorem size_le (h : Heads p l hd) : 320 + 24 ≤ (p.bytes 0).size :=
  Nat.le_trans (by decide) h.keeps.length_le

theorem load (h : Heads p l hd) :
    Ends (crowdView.loadHeader : Action Process ε _) p (.ok hd) p := by
  refine .bind (Process.load_ends (s := 0) (i := 320) h.size_le) ?_
  rw [← h.found, ← ListHeader.decode_read]
  exact .pure

/-- Other bytes may change. -/
theorem carry (h : Heads p l hd) {b : Bytes} (hk : page.Keeps (p.setBytes page.segment b) l')
    (hl : Target.listHeader.extent 320 ∈ l'.live)
    (hget : ∀ i, 320 ≤ i → i < 320 + 24 → b.get i = (p.bytes page.segment).get i) :
    Heads (p.setBytes page.segment b) l' hd := by
  refine ⟨hk, hl, ?_⟩
  have hb : (p.setBytes page.segment b).bytes 0 = b :=
    Process.bytes_setBytes_self h.keeps.segment_lt
  rw [hb, ← h.found]
  exact ListHeader.ofBytes_congr hget

theorem storeWord (h : Heads p l hd) {i : Nat} (hi : i + 8 ≤ 24) (w : UInt64) :
    ∃ p', Ends (crowdView.storeWord i w : Action Process ε Unit) p (.ok ()) p' ∧
      Heads p' l (.ofBytes ((p.bytes 0).setWord (320 + i) w) 320) := by
  have hstop : (Target.listHeader.extent 320).stop = 352 := by decide
  obtain ⟨hst, hk⟩ := h.keeps.store (ε := ε) h.live (i := 320 + i) (bytesOfWord w)
    (Nat.le_add_right ..) (by
      rw [length_bytesOfWord]
      omega)
  exact ⟨_, hst, hk, h.live,
    congrArg (ListHeader.ofBytes · 320) (Process.bytes_setBytes_self h.keeps.segment_lt)⟩

theorem storeEmpty (hk : page.Keeps p l) (hl : Target.listHeader.extent 320 ∈ l.live) :
    ∃ p', Ends (crowdView.storeHeader .empty : Action Process ε Unit) p (.ok ()) p' ∧
      Heads p' l .empty := by
  obtain ⟨hst, hk'⟩ := hk.store (ε := ε) hl (i := 320) ListHeader.empty.encode (Nat.le_refl _)
    (by decide)
  have hbytes := Process.bytes_setBytes_self (p := p)
    (b := (p.bytes page.segment).write 320 ListHeader.empty.encode) hk.segment_lt
  refine ⟨_, hst, hk', hl, (congrArg (ListHeader.ofBytes · 320) hbytes).trans ?_⟩
  exact ListHeader.ofBytes_write _ (Nat.le_trans (by decide) hk.length_le)

/-- One more block for units is handed out. -/
theorem take (h : Heads p l hd)
    (hroom : l.cursor ≤ 368 ∨ l.free (SizeClass.ofLayout unitRoom) ≠ []) :
    ∃ (o : Nat) (p' : Process) (l' : Ledger),
      Ends (Allocator.allocate ⟨page⟩ unitRoom) p (.ok (.place 0 o, .ofNat o)) p' ∧
      Heads p' l' hd ∧ (Offset.ofNat o).toNat = o ∧ l'.live = unitRoom.extent o :: l.live ∧
      l'.allocations = l.allocations + 1 ∧ (l.cursor ≤ 352 → l'.cursor ≤ 368) := by
  have hcap : l.capacity = 4096 := h.keeps.capacity
  have hcls : SizeClass.ofLayout unitRoom = ⟨0⟩ := by decide
  have hnext : (l.next (SizeClass.ofLayout unitRoom)).stop = roundUp l.cursor 16 + 16 := by
    rw [hcls]
    rfl
  have hround := @roundUp_lt_add l.cursor 16 (by decide)
  obtain ⟨o, l', hl, hcur⟩ : ∃ o l', l.allocate unitRoom = .ok (o, l') ∧
      (l.cursor ≤ 352 → l'.cursor ≤ 368) := by
    cases hf : l.free (SizeClass.ofLayout unitRoom) with
    | cons o rest =>
      refine ⟨_, _, Ledger.allocate_of_cons (by decide) (by decide) hf, fun hc => ?_⟩
      exact Nat.le_trans hc (by decide)
    | nil =>
      have hc : l.cursor ≤ 368 := hroom.resolve_right (not_not_intro hf)
      refine ⟨_, _, Ledger.allocate_of_nil (by decide) (by decide) hf (by omega), fun hc => ?_⟩
      have hdvd := dvd_roundUp l.cursor 16
      have hstop : (l.carve (SizeClass.ofLayout unitRoom)).cursor = roundUp l.cursor 16 + 16 :=
        hnext
      omega
  obtain ⟨hrun, hk, -, hget⟩ := h.keeps.allocate (a := ⟨page⟩) ⟨rfl, rfl⟩ (by decide) hl rfl
  have hlive := Ledger.live_of_allocate hl
  have hmem : unitRoom.extent o ∈ l'.live := hlive ▸ List.mem_cons_self
  have hheads := h.carry hk (hlive ▸ List.mem_cons_of_mem _ h.live) fun i hi _ =>
    hget i (Nat.le_trans (by decide) hi)
  refine ⟨o, _, l', hrun, hheads, hk.toNat_live hmem, hlive, ?_, hcur⟩
  obtain ⟨-, -, ⟨rest, -, rfl⟩ | ⟨-, -, -, rfl⟩⟩ := Ledger.allocate_cases hl
  · rfl
  · rfl

theorem giveBack (h : Heads p l hd) {d : Nat} (hlive : unitRoom.extent d ∈ l.live) :
    ∃ p', Ends (Allocator.free ⟨page⟩ (.place 0 d) unitRoom : Action Process ε Unit) p (.ok ()) p' ∧
      Heads p' (l.release (unitRoom.extent d)) hd := by
  have hcls : SizeClass.ofLayout Target.listHeader ≠ SizeClass.ofLayout unitRoom := by decide
  have hne : Target.listHeader.extent 320 ≠ unitRoom.extent d :=
    fun he => hcls (congrArg Extent.cls he)
  have hap := h.keeps.sound.live_apart.forall h.live hlive hne
  have hstop : (Target.listHeader.extent 320).stop = 352 := by decide
  have hsize : (unitRoom.extent d).stop = d + 16 := rfl
  obtain ⟨hrun, hk⟩ := h.keeps.free (ε := ε) (a := ⟨page⟩) ⟨rfl, rfl⟩ (by decide) (by decide) hlive
  refine ⟨_, hrun, h.carry hk ((List.mem_erase_of_ne hne).2 h.live) fun i hi hlt => ?_⟩
  have hidx : (SizeClass.ofLayout unitRoom).index < Header.classCount := by decide
  -- the link lies in the block that is returned, and not in the header
  refine Bytes.Keeps.get_released hidx (Nat.le_trans (by decide) hi) ?_
  simp only [Extent.Apart, hstop, hsize, Layout.extent_offset] at hap ⊢
  omega

end Heads

/-- A list of units in the page. It has not grown yet, or its capacity tells how often it has; from
then on there is always a block to grow into, the one that it left the last time. -/
structure Crowd (p : Process) (l : Ledger) (hd : ListHeader) : Prop extends Heads p l hd where
  length_le : hd.length.toNat ≤ hd.capacity.toNat
  room : (hd.capacity = 0 ∧ hd.data = .null ∧ l.allocations = 1 ∧ l.cursor ≤ 352) ∨
    (unitRoom.extent hd.data.toNat ∈ l.live ∧ hd.capacity.toNat = 2 ^ l.allocations ∧
      (l.cursor ≤ 368 ∨ l.free (SizeClass.ofLayout unitRoom) ≠ []))

namespace Crowd

variable {p p' : Process} {l : Ledger} {hd : ListHeader} {ε : Type}

/-- Blocks for units all have one layout. -/
theorem dataLayout_ends (c : UInt64) :
    Ends (SharedList.dataLayout .unit c : Action Process ε _) p (.ok unitRoom) p := by
  have hroom : Layout.mk (Plain.unit.size * c.toNat) Plain.unit.align = unitRoom :=
    congrArg (Layout.mk · 1) (Nat.zero_mul _)
  have hlay : Ends (SharedList.dataLayout .unit c : Action Process ε _) p
      (.ok ⟨Plain.unit.size * c.toNat, Plain.unit.align⟩) p := by
    refine SharedList.dataLayout_ends ?_
    rw [hroom]
    decide
  rwa [hroom] at hlay

/-- The block that the units were in is returned, if there was one, and can be taken next time. -/
theorem leave (h : Heads p l hd) {o : Nat} (ho : unitRoom.extent o ∈ l.live)
    (hroom : hd.data = .null ∧ l.cursor ≤ 368 ∨
      unitRoom.extent hd.data.toNat ∈ l.live ∧ o ≠ hd.data.toNat) :
    ∃ p' l', Ends (if !hd.data.isNull then do
        let old ← Process.load (Allocator.toAddress ⟨page⟩ hd.data)
          (hd.length.toNat * Plain.unit.size)
        Process.store (.place 0 o) old
        crowdView.freeData .unit (← crowdView.loadHeader)
      else pure () : Action Process ε Unit) p (.ok ()) p' ∧
      Heads p' l' hd ∧ unitRoom.extent o ∈ l'.live ∧ l'.allocations = l.allocations ∧
      (l'.cursor ≤ 368 ∨ l'.free (SizeClass.ofLayout unitRoom) ≠ []) := by
  rcases hroom with ⟨hnull, hcur⟩ | ⟨hlive, hne⟩
  · refine ⟨p, l, ?_, h, ho, rfl, .inl hcur⟩
    rw [hnull]
    exact .pure
  · obtain ⟨hnull, haddr⟩ := h.keeps.toAddress_live (a := ⟨page⟩) ⟨rfl, rfl⟩ hlive rfl
    obtain ⟨p', hfree, h'⟩ := h.giveBack (ε := ε) hlive
    have hdata : Ends (crowdView.freeData .unit hd : Action Process ε Unit) p (.ok ()) p' := by
      have haddr' : crowdView.allocator.toAddress hd.data = .place 0 hd.data.toNat := haddr
      simp only [SharedList.freeData, haddr', Address.isNull]
      exact .bind (dataLayout_ends _) hfree
    refine ⟨p', _, ?_, h', ?_, rfl, .inr ?_⟩
    · rw [hnull]
      -- units have no bytes that could be moved
      exact .bind .pure (.bind .pure (.bind h.load hdata))
    · refine (List.mem_erase_of_ne fun he => hne ?_).2 ho
      exact congrArg Extent.offset he
    · have hfree : (l.release (unitRoom.extent hd.data.toNat)).free (SizeClass.ofLayout unitRoom) =
          hd.data.toNat :: l.free (SizeClass.ofLayout unitRoom) :=
        Function.update_self (SizeClass.ofLayout unitRoom) _ l.free
      rw [hfree]
      exact List.cons_ne_nil _ _

/-- The capacity after a list has grown to another block. -/
theorem toNat_next (h : Crowd p l hd) (hc : 2 * hd.capacity.toNat < 2 ^ 64) :
    (max (2 * hd.capacity) 4).toNat = 2 ^ (l.allocations + 1) := by
  rw [SharedList.toNat_nextCapacity _ hc]
  rcases h.room with ⟨h₀, -, hn, -⟩ | ⟨-, hcap, -⟩
  · rw [h₀, hn]
    rfl
  · have hpos := List.length_pos_of_mem h.live
    have heq := h.keeps.sound.allocations_eq
    have hfour : 2 ^ 2 ≤ 2 ^ (l.allocations + 1) := Nat.pow_le_pow_right (by decide) (by omega)
    rw [hcap, ← Nat.pow_succ']
    exact Nat.max_eq_left hfour

theorem grow (h : Crowd p l hd) (hc : 2 * hd.capacity.toNat < 2 ^ 64) :
    ∃ p' l' hd', Ends (crowdView.grow .unit) p (.ok ()) p' ∧ Crowd p' l' hd' ∧
      hd'.length = hd.length ∧ hd.capacity.toNat < hd'.capacity.toNat := by
  have hnext : Ends (SharedList.nextCapacity hd.capacity : Action Process MemoryError _) p
      (.ok (max (2 * hd.capacity) 4)) p := .bind (.require hc) .pure
  have hlt : hd.capacity.toNat < (max (2 * hd.capacity) 4).toNat := by
    rw [SharedList.toNat_nextCapacity _ hc]
    omega
  have hfree : l.cursor ≤ 368 ∨ l.free (SizeClass.ofLayout unitRoom) ≠ [] := by
    rcases h.room with ⟨-, -, -, hcur⟩ | ⟨-, -, hfree⟩
    · exact .inl (Nat.le_trans hcur (by decide))
    · exact hfree
  obtain ⟨o, p₁, l₁, hal, h₁, ho, hlive, hn₁, hcur₁⟩ := h.take hfree
  have hnodup := h₁.keeps.sound.live_nodup
  rw [hlive, List.nodup_cons] at hnodup
  have hroom : hd.data = .null ∧ l₁.cursor ≤ 368 ∨
      unitRoom.extent hd.data.toNat ∈ l₁.live ∧ o ≠ hd.data.toNat := by
    rcases h.room with ⟨-, hnull, -, hcur⟩ | ⟨hmem, -, -⟩
    · exact .inl ⟨hnull, hcur₁ hcur⟩
    · refine .inr ⟨hlive ▸ List.mem_cons_of_mem _ hmem, ?_⟩
      rintro rfl
      exact hnodup.1 hmem
  obtain ⟨p₂, l₂, hmv, h₂, hmem, hn₂, hfree₂⟩ := leave (ε := MemoryError) h₁
    (hlive ▸ List.mem_cons_self) hroom
  obtain ⟨p₃, hst₃, h₃⟩ := h₂.storeWord (ε := MemoryError) (i := ListHeader.dataAt) (by decide)
    (Offset.ofNat o).word
  rw [ListHeader.ofBytes_setData _ h₂.size_le, h₂.found] at h₃
  obtain ⟨p₄, hst₄, h₄⟩ := h₃.storeWord (ε := MemoryError) (i := ListHeader.capacityAt)
    (by decide) (max (2 * hd.capacity) 4)
  rw [ListHeader.ofBytes_setCapacity _ h₃.size_le, h₃.found] at h₄
  have hrest := hmv.ite_bind (k := fun _ => do
    crowdView.storeWord ListHeader.dataAt (Offset.ofNat o).word
    crowdView.storeWord ListHeader.capacityAt (max (2 * hd.capacity) 4)) (.bind hst₃ hst₄)
  simp only [bind_assoc] at hrest
  refine ⟨p₄, l₂, _, .bind h.load (.bind hnext (.bind (dataLayout_ends _) (.bind hal
    (.bind h₁.load hrest)))), ⟨h₄, ?_, .inr ⟨?_, ?_, hfree₂⟩⟩, rfl, hlt⟩
  · exact Nat.le_trans h.length_le (Nat.le_of_lt hlt)
  · rw [show (Offset.mk (Offset.ofNat o).word).toNat = o from ho]
    exact hmem
  · rw [h.toNat_next hc, hn₂, hn₁]

/-- With room for one more unit, only the length changes. -/
theorem append (h : Crowd p l hd) (hlt : hd.length.toNat < hd.capacity.toNat) :
    ∃ p', Ends (do
        let h ← crowdView.loadHeader
        let block := crowdView.allocator.toAddress h.data
        Process.store (block.nth Plain.unit.size h.length.toNat) (Plain.unit.encode ())
        let length := (← crowdView.loadHeader).length
        .require (length.toNat + 1 < 2 ^ 64) .overflow
        crowdView.storeWord ListHeader.lengthAt (length + 1) : Action Process ε Unit) p (.ok ())
        p' ∧
      Crowd p' l { hd with length := hd.length + 1 } := by
  have hcap := hd.capacity.toNat_lt
  have hlen : (hd.length + 1).toNat = hd.length.toNat + 1 := by
    rw [UInt64.toNat_add]
    exact Nat.mod_eq_of_lt (by simp only [UInt64.toNat_one]; omega)
  obtain ⟨p', hst, h'⟩ := h.storeWord (ε := ε) (i := ListHeader.lengthAt) (by decide)
    (hd.length + 1)
  rw [ListHeader.ofBytes_setLength _ h.size_le, h.found] at h'
  refine ⟨p', .bind h.load (.bind .pure (.bind h.load (.bind (.require (by omega)) hst))), h', ?_,
    h.room⟩
  rw [hlen]
  exact hlt

theorem push (h : Crowd p l hd) (hn : hd.length.toNat < 2 ^ 63) :
    ∃ p' l' hd', Ends (crowdView.push .unit ()) p (.ok ()) p' ∧ Crowd p' l' hd' ∧
      hd'.length.toNat = hd.length.toNat + 1 := by
  have hlen {hd' : ListHeader} (he : hd'.length = hd.length) :
      (hd'.length + 1).toNat = hd.length.toNat + 1 := by
    rw [he, UInt64.toNat_add]
    exact Nat.mod_eq_of_lt (by simp only [UInt64.toNat_one]; omega)
  by_cases hfull : hd.length = hd.capacity
  · obtain ⟨p₁, l₁, hd₁, hg, h₁, hlen₁, hlt⟩ := h.grow (by rw [← hfull]; omega)
    obtain ⟨p₂, ha, h₂⟩ := h₁.append (ε := MemoryError) (by rw [hlen₁, hfull]; exact hlt)
    refine ⟨p₂, l₁, _, .bind h.load ?_, h₂, hlen hlen₁⟩
    rw [if_pos hfull]
    exact .bind hg ha
  · have hlt : hd.length.toNat < hd.capacity.toNat :=
      Nat.lt_of_le_of_ne h.length_le fun he => hfull (UInt64.toNat_inj.1 he)
    obtain ⟨p₁, ha, h₁⟩ := h.append (ε := MemoryError) hlt
    refine ⟨p₁, l, _, .bind h.load ?_, h₁, hlen rfl⟩
    rw [if_neg hfull]
    exact ha

/-- Units are pushed one after the other, up to the number that no word can double. -/
theorem pushAll (h : Crowd p l hd) (us : List Unit) (hn : hd.length.toNat + us.length ≤ 2 ^ 63) :
    ∃ p' l' hd', Ends (crowdView.pushAll .unit us) p (.ok ()) p' ∧ Crowd p' l' hd' ∧
      hd'.length.toNat = hd.length.toNat + us.length := by
  -- each push leaves another process, ledger and header
  induction us generalizing p l hd with
  | nil => exact ⟨p, l, hd, .pure, h, rfl⟩
  | cons u us ih =>
    rw [List.length_cons] at hn ⊢
    obtain ⟨p₁, l₁, hd₁, hp, h₁, hlen₁⟩ := h.push (by omega)
    obtain ⟨p₂, l₂, hd₂, hps, h₂, hlen₂⟩ := ih h₁ (by omega)
    exact ⟨p₂, l₂, hd₂, .bind hp hps, h₂, by omega⟩

/-- Then the list is full, and the next unit finds no capacity that is a word. -/
theorem push_fault (h : Crowd p l hd) (hn : hd.length.toNat = 2 ^ 63) :
    l.allocations = 63 ∧ Ends (crowdView.push .unit ()) p (.fault .overflow) p := by
  have hle := h.length_le
  have hlt := hd.capacity.toNat_lt
  have hcap : hd.capacity.toNat = 2 ^ l.allocations := by
    rcases h.room with ⟨h₀, -⟩ | ⟨-, hcap, -⟩
    · rw [h₀, hn, UInt64.toNat_zero] at hle
      omega
    · exact hcap
  rw [hn, hcap] at hle
  rw [hcap] at hlt
  have h₁ := (Nat.pow_le_pow_iff_right (a := 2) (by decide)).1 hle
  have h₂ := (Nat.pow_lt_pow_iff_right (a := 2) (by decide)).1 hlt
  have hallocs : l.allocations = 63 := by omega
  rw [hallocs] at hcap
  have hfull : hd.length = hd.capacity := UInt64.toNat_inj.1 (hn.trans hcap.symm)
  have hover : ¬ 2 * hd.capacity.toNat < 2 ^ 64 := by omega
  refine ⟨hallocs, .bind h.load ?_⟩
  rw [if_pos hfull]
  exact .bind_fault (.bind h.load (.bind_fault (.bind_fault (.require_fault hover))))

/-- A list that was just begun in an unused page. -/
theorem begin : ∃ p₁ p₂ l, Ends (Allocator.allocate ⟨page⟩ Target.listHeader)
      (World.start [(⟨1, 0⟩, page)] pageProcess).process (.ok (.place 0 320, .ofNat 320)) p₁ ∧
    Ends (crowdView.storeHeader .empty : Action Process ε Unit) p₁ (.ok ()) p₂ ∧
    Crowd p₂ l .empty := by
  obtain ⟨b, hc, hk, -⟩ := Region.Keeps.create ⟨1, 0⟩ (r := page) (p := pageProcess)
    (page_ready.backed _ List.mem_cons_self) (page_ready.large _ List.mem_cons_self)
    (page_ready.aligned _ List.mem_cons_self)
  have hstart : (World.start [(⟨1, 0⟩, page)] pageProcess).process =
      pageProcess.setBytes page.segment b := by
    simp only [World.start, formatted, hc.state]
  have hl : (Ledger.fresh ⟨1, 0⟩ page.length).allocate Target.listHeader =
      .ok (320, (Ledger.fresh ⟨1, 0⟩ page.length).carve (SizeClass.ofLayout Target.listHeader)) :=
    Ledger.allocate_of_nil (by decide) (by decide) rfl (by decide)
  obtain ⟨hal, hk₁, -⟩ := hk.allocate (a := ⟨page⟩) ⟨rfl, rfl⟩ (by decide) hl rfl
  obtain ⟨p₂, hst, hheads⟩ := Heads.storeEmpty (ε := ε) hk₁
    (Ledger.live_of_allocate hl ▸ List.mem_cons_self)
  rw [hstart]
  exact ⟨_, p₂, _, hal, hst, hheads, Nat.le_refl _, .inl ⟨rfl, rfl, rfl, by decide⟩⟩

end Crowd

/-- A list of units is built in the page. -/
@[irreducible] def pageCrowd (us : List Unit) : World :=
  (start [(⟨1, 0⟩, page)] pageProcess).build (t := .list .unit) 0 .unique ⟨page⟩ (.elements us)

def crowdHandle : Handle (.list .unit) .unique := ⟨some crowdView, true⟩

theorem build_crowd {us : List Unit} (hus : us.length = 2 ^ 63) :
    ∃ p l hd, Crowd p l hd ∧ hd.length.toNat = 2 ^ 63 ∧
      Ends (Handle.build ⟨page⟩ (.elements us) : Action _ _ (Handle (.list .unit) .unique))
        (start [(⟨1, 0⟩, page)] pageProcess).process (.ok crowdHandle) p := by
  obtain ⟨p₁, p₂, l₀, hal, hst, hcrowd⟩ := Crowd.begin (ε := MemoryError)
  have hzero : ListHeader.empty.length.toNat = 0 := rfl
  obtain ⟨p₃, l, hd, hps, h, hlen⟩ := hcrowd.pushAll us (by omega)
  have hb : Ends (crowdView.build .unit us) p₁ (.ok ()) p₃ := .bind hst (.bind hps.attempt .pure)
  have hrun : Ends (Target.build (.list .unit) ⟨page⟩ (.elements us))
      (start [(⟨1, 0⟩, page)] pageProcess).process (.ok crowdView) p₃ :=
    .bind hal (.bind hb.attempt .pure)
  exact ⟨p₃, l, hd, h, by omega, .bind hrun.mapError .pure⟩

/-- A list of `2 ^ 63` units is built with 63 blocks. It is full then, and to push one more unit its
capacity would have to be doubled to a number that is no word. -/
theorem pageCrowd_push {us : List Unit} (hus : us.length = 2 ^ 63) :
    (∃ n, Tally [(⟨1, 0⟩, page)] pageProcess (pageCrowd us) n ∧ n 0 = 63) ∧
    (pageCrowd us).handles 0 = some ⟨_, _, crowdHandle⟩ ∧
    (pageCrowd us).heap (.place 0 320) = some ⟨.list .unit, us⟩ ∧
    (crowdHandle.push () (pageCrowd us).process).outcome = .fault .overflow := by
  obtain ⟨p, l, hd, h, hlen, hrun⟩ := build_crowd hus
  obtain ⟨hallocs, hpush⟩ := h.push_fault hlen
  have hprocess : (pageCrowd us).process = p := by
    unfold pageCrowd
    simp only [build, make, gain, hrun.outcome, hrun.state]
  have hhandle : (pageCrowd us).handles 0 = some ⟨_, _, crowdHandle⟩ := by
    unfold pageCrowd
    simp only [build, make, gain, hrun.outcome, Function.update_self]
  have hheap : (pageCrowd us).heap (.place 0 320) = some ⟨.list .unit, us⟩ := by
    unfold pageCrowd
    simp only [heap, build, make, gain, hrun.outcome]
    exact standing_built ..
  have hstep : Step (start [(⟨1, 0⟩, page)] pageProcess) (.build 0) (pageCrowd us) := by
    unfold pageCrowd
    exact .build rfl (page_serves List.mem_cons_self) (by decide) ..
  have hnone : Header.allocations ((start [(⟨1, 0⟩, page)] pageProcess).process.bytes 0) = 0 :=
    (Sound.start_estate page_ready).2.2 page List.mem_cons_self
  have hcount : Header.allocations (p.bytes 0) = .ofNat l.allocations := h.keeps.books.counters.1
  refine ⟨⟨_, .step .start hstep, ?_⟩, hhandle, hheap, ?_⟩
  · rw [hprocess, Process.handed, hcount, hallocs, hnone]
    rfl
  · rw [hprocess, Handle.push_eq (l := crowdView) rfl]
    exact hpush.mapError.outcome

/-- Half as many units as a word has values. -/
@[irreducible] def units : List Unit := List.replicate (2 ^ 63) ()

theorem pageCrowd_overflows :
    (∃ n, Tally [(⟨1, 0⟩, page)] pageProcess (pageCrowd units) n ∧ n 0 = 63) ∧
    (pageCrowd units).handles 0 = some ⟨_, _, crowdHandle⟩ ∧
    (pageCrowd units).heap (.place 0 320) = some ⟨.list .unit, units⟩ ∧
    (crowdHandle.push () (pageCrowd units).process).outcome = .fault .overflow := by
  refine pageCrowd_push ?_
  unfold units
  exact List.length_replicate

end World

end SharedHeap
