import SharedHeap.Proofs.RoundTrip

/-!
# Handles over values that are there

Whoever has the address of a plain value may have a handle to it. Which allocator the value is from
is not told by the address, so the process-wide registry is scanned for a region that holds it. If
no two registered regions overlap, there is at most one, in whatever order they are scanned and
wherever they lie, be it side by side (`Registry.findOwner_perm`, `Registry.findOwnerAt_eq`). The
handle then is one like that of the value's owner, save that it does not own
(`World.recovers_of_reachable`). A value in none of the regions can be read and written, but it is
never released (`Handle.strays_ofAddress`). A view of a list knows its allocator by itself.
-/

namespace SharedHeap

open SharedHeap.Action (Ends)

variable {p p' q : Process} {g : Registry} {a : Allocator} {id : AllocatorId} {x : Address}
  {e : Plain} {k : Kind} {ε : Type}

/-! ## Looking for owners -/

namespace Registry

/-- The first registered allocator over a region that passes a test. -/
def scan (g : Registry) (test : Region → Bool) : Option Allocator :=
  (g.entries.find? fun e => test e.2.region).map (·.2)

/-- No address is in the regions of two entries. -/
def Disjoint (g : Registry) : Prop :=
  g.entries.Pairwise fun e f => ∀ x, ¬ (e.2.region.contains x ∧ f.2.region.contains x)

variable {test : Region → Bool} {es : List (AllocatorId × Allocator)}

/-- If no two regions pass, the one that does is found. -/
theorem scan_eq_some_iff
    (hg : g.entries.Pairwise fun e f => ¬ (test e.2.region ∧ test f.2.region)) :
    g.scan test = some a ↔ ∃ id, (id, a) ∈ g.entries ∧ test a.region := by
  constructor
  · intro h
    obtain ⟨f, hf, rfl⟩ := Option.map_eq_some_iff.1 h
    have hpass := List.find?_some hf
    exact ⟨f.1, List.mem_of_find?_eq_some hf, hpass⟩
  · rintro ⟨id, hmem, ha⟩
    obtain ⟨before, after, he⟩ := List.append_of_mem hmem
    -- those that are scanned before it do not pass
    have hbefore : ∀ f ∈ before, !test f.2.region := by
      intro f hf
      rw [he, List.pairwise_append] at hg
      simpa [ha] using hg.2.2 f hf (id, a) List.mem_cons_self
    have hfind : (g.entries.find? fun f => test f.2.region) = some (id, a) :=
      List.find?_eq_some_iff_append.2 ⟨ha, before, after, he, hbefore⟩
    rw [scan, hfind, Option.map_some]

theorem scan_eq_none (h : ∀ e ∈ g.entries, test e.2.region = false) : g.scan test = none := by
  have hfind : (g.entries.find? fun f => test f.2.region) = none :=
    List.find?_eq_none.2 fun f hf => by simp [h f hf]
  rw [scan, hfind, Option.map_none]

/-- If no two regions pass, the order does not matter. -/
theorem scan_perm (hg : g.entries.Pairwise fun e f => ¬ (test e.2.region ∧ test f.2.region))
    (hp : es.Perm g.entries) : { g with entries := es : Registry }.scan test = g.scan test := by
  have hes : es.Pairwise fun e f => ¬ (test e.2.region ∧ test f.2.region) :=
    hg.perm hp.symm fun h hs => h hs.symm
  refine Option.ext fun a => ?_
  rw [scan_eq_some_iff hg, scan_eq_some_iff hes]
  exact exists_congr fun id => and_congr_left' hp.mem_iff

theorem findOwner_eq_scan (g : Registry) (x : Address) :
    g.findOwner x = g.scan fun r => r.contains x := rfl

theorem Disjoint.unique (hd : g.Disjoint) (x : Address) : g.entries.Pairwise fun e f =>
    ¬ (e.2.region.contains x ∧ f.2.region.contains x) := List.Pairwise.imp (fun h => h x) hd

theorem findOwner_eq_some (hd : g.Disjoint) (ha : (id, a) ∈ g.entries) (hx : a.region.contains x) :
    g.findOwner x = some a := by
  rw [findOwner_eq_scan, scan_eq_some_iff (hd.unique x)]
  exact ⟨id, ha, hx⟩

theorem findOwner_perm (hd : g.Disjoint) (hp : es.Perm g.entries) (x : Address) :
    { g with entries := es : Registry }.findOwner x = g.findOwner x := by
  rw [findOwner_eq_scan, findOwner_eq_scan, scan_perm (hd.unique x) hp]

end Registry

/-! ## On a machine -/

/-- Whether an address is in the region, which begins at the address `base`. -/
def Region.containsAt (r : Region) (base y : UInt64) : Bool :=
  decide (base ≤ y) && decide (y < base + .ofNat r.length)

theorem Region.Placed.containsAt_iff {r : Region} {base y : UInt64} (hr : r.Placed base) :
    r.containsAt base y ↔ base.toNat ≤ y.toNat ∧ y.toNat < base.toNat + r.length := by
  rw [containsAt, Bool.and_eq_true, decide_eq_true_iff, decide_eq_true_iff,
    UInt64.le_iff_toNat_le, UInt64.lt_iff_toNat_lt, hr.toNat_end]

namespace Registry

variable {base : Nat → UInt64}

/-- The registered allocator whose region holds an address, where segments begin at the addresses
that `base` says. -/
def findOwnerAt (g : Registry) (base : Nat → UInt64) (y : UInt64) : Option Allocator :=
  g.scan fun r => r.containsAt (base r.segment) y

/-- The registered regions lie apart from each other. One may begin where another one ends. -/
structure Spread (g : Registry) (base : Nat → UInt64) : Prop where
  placed : ∀ e ∈ g.entries, e.2.region.Placed (base e.2.region.segment)
  apart : g.entries.Pairwise fun e f =>
    (base e.2.region.segment).toNat + e.2.region.length ≤ (base f.2.region.segment).toNat ∨
    (base f.2.region.segment).toNat + f.2.region.length ≤ (base e.2.region.segment).toNat

theorem Spread.unique (h : g.Spread base) (y : UInt64) : g.entries.Pairwise fun e f =>
    ¬ (e.2.region.containsAt (base e.2.region.segment) y ∧
      f.2.region.containsAt (base f.2.region.segment) y) := by
  refine h.apart.imp_of_mem fun {e f} he hf hap => ?_
  rw [(h.placed e he).containsAt_iff, (h.placed f hf).containsAt_iff]
  omega

/-- Every byte of a registered region, from the first to the last, leads to its allocator. -/
theorem findOwnerAt_eq (h : g.Spread base) (ha : (id, a) ∈ g.entries) {o : Nat}
    (ho : o < a.region.length) :
    g.findOwnerAt base (base a.region.segment + .ofNat o) = some a := by
  refine (scan_eq_some_iff (h.unique _)).2 ⟨id, ha, ?_⟩
  have hr : a.region.Placed (base a.region.segment) := h.placed _ ha
  have hend := hr.end_lt
  rw [hr.containsAt_iff, UInt64.toNat_add, UInt64.toNat_ofNat']
  omega

/-- An address before or behind each of the regions leads to none. -/
theorem findOwnerAt_eq_none (h : g.Spread base) {y : UInt64}
    (hy : ∀ e ∈ g.entries, y.toNat < (base e.2.region.segment).toNat ∨
      (base e.2.region.segment).toNat + e.2.region.length ≤ y.toNat) :
    g.findOwnerAt base y = none := by
  refine scan_eq_none fun e he => Bool.eq_false_iff.2 fun hc => ?_
  have := (h.placed e he).containsAt_iff.1 hc
  have := hy e he
  omega

/-- The scan answers the same on a machine and in whatever order, and what it answers is where the
address is. -/
structure Locates (g : Registry) : Prop where
  order : ∀ es, es.Perm g.entries → ∀ x,
    { g with entries := es : Registry }.findOwner x = g.findOwner x
  inside : ∀ base, g.Spread base → ∀ id a, (id, a) ∈ g.entries → ∀ o < a.region.length,
    g.findOwner (.place a.region.segment o) = some a ∧
      g.findOwnerAt base (base a.region.segment + .ofNat o) = some a
  outside : ∀ base, g.Spread base → ∀ y : UInt64,
    (∀ e ∈ g.entries, y.toNat < (base e.2.region.segment).toNat ∨
      (base e.2.region.segment).toNat + e.2.region.length ≤ y.toNat) →
    g.findOwnerAt base y = none
  machine : ∀ base, g.Spread base → ∀ es, es.Perm g.entries → ∀ y,
    { g with entries := es : Registry }.findOwnerAt base y = g.findOwnerAt base y

theorem locates_of_disjoint (hd : g.Disjoint) : g.Locates where
  order _ hp := findOwner_perm hd hp
  inside base h id a ha o ho := by
    refine ⟨findOwner_eq_some hd ha ?_, findOwnerAt_eq h ha ho⟩
    rw [Region.contains_place_iff]
    omega
  outside _ h _ := findOwnerAt_eq_none h
  machine _ h _ hp y := scan_perm (h.unique y) hp

end Registry

/-! ## Values that nobody vouches for -/

theorem Plain.encode_eq_nil (h : e.size = 0) (v : e.Val) : e.encode v = [] :=
  List.eq_nil_of_length_eq_zero ((e.length_encode v).trans h)

/-- A value stands at an address, in whatever memory. One without bytes stands anywhere. -/
def Process.Shows (p : Process) (e : Plain) (x : Address) (v : e.Val) : Prop :=
  e.size = 0 ∨ ∃ s i : Nat, x = .place s i ∧ i + e.size ≤ (p.bytes s).size ∧
    (p.bytes s).read i e.size = e.encode v

namespace Process.Shows

variable {v : e.Val}

theorem load (h : p.Shows e x v) :
    Ends (Process.load x e.size : Action Process ε _) p (.ok (e.encode v)) p := by
  rcases h with hsize | ⟨s, i, rfl, hi, hread⟩
  · rw [Process.load, if_pos hsize, Plain.encode_eq_nil hsize]
    exact .pure
  · rw [← hread]
    exact Process.load_ends hi

/-- Another value takes its place. -/
theorem store (h : p.Shows e x v) (v' : e.Val) :
    ∃ p', Ends (Process.store x (e.encode v') : Action Process ε _) p (.ok ()) p' ∧
      p'.Shows e x v' := by
  by_cases hsize : e.size = 0
  · refine ⟨p, ?_, .inl hsize⟩
    rw [Process.store, Plain.encode_eq_nil hsize]
    exact .pure
  · obtain ⟨s, i, rfl, hi, -⟩ := h.resolve_left hsize
    have hs : s < p.segments.size := by
      refine Nat.not_le.1 fun hs => ?_
      rw [Process.bytes, Array.getElem?_eq_none hs] at hi
      have hnone : i + e.size ≤ 0 := hi
      omega
    have hlen : i + (e.encode v').length ≤ (p.bytes s).size := by rwa [Plain.length_encode]
    refine ⟨_, Process.store_ends _ hlen, .inr ⟨s, i, rfl, ?_, ?_⟩⟩
    · rwa [Process.bytes_setBytes_self hs, Bytes.size_write]
    · rw [Process.bytes_setBytes_self hs]
      exact Bytes.read_write_of_length (Plain.length_encode e v') hi

end Process.Shows

/-- No registered region holds the address. -/
def Process.Unclaimed (p : Process) (x : Address) : Prop :=
  ∀ g, p.registry = some g → ∀ e ∈ g.entries, e.2.region.contains x = false

namespace Handle

/-- The handle is a guest at a value whose allocator it does not know: it reads and writes the value
and has no name for it, and whatever becomes of the handle, memory and registries stay as they are
and no value is finalized. -/
structure Strays (h : Handle (.plain e) k) (x : Address) : Prop where
  guest : h.owner = false
  address : (AnyHandle.mk _ k h).address? = some x
  resolved? : h.resolved? = none
  borrow? : h.borrow? = none
  descriptor : ∀ (p : Process) (c : DescriptorCell), (c.store (h.descriptor p)).value = .null
  reads : ∀ (p : Process) (v : e.Val), p.Shows e x v →
    Ends (h.value : Action Process HandleError e.Val) p (.ok v) p
  /-- The value that was there is finalized, and no other byte is written. -/
  writes : ∀ (p : Process) (v v' : e.Val), p.Shows e x v → ∃ p',
    Ends (h.set v' : Action Process HandleError Unit) p (.ok ()) p' ∧
    Ends (Process.store x (e.encode v') : Action Process HandleError Unit)
      (p.finalizing e.finalizers) (.ok ()) p' ∧
    p'.Shows e x v'
  drop : ∀ p, Ends (h.drop : Action Process HandleError Unit) p (.ok ()) p
  destroy : ∀ p, Ends (h.destroy : Action Process HandleError Unit) p (.ok ()) p

theorem strays (e : Plain) (k : Kind) (x : Address) :
    (⟨some ⟨x, none⟩, false⟩ : Handle (.plain e) k).Strays x where
  guest := rfl
  address := rfl
  resolved? := by simp [Handle.resolved?, Target.resolved?, PlainRef.resolved?]
  borrow? := by simp [Handle.borrow?, Handle.resolved?, Target.resolved?, PlainRef.resolved?]
  descriptor p c := descriptor_of_allocator?_eq_none rfl
  reads p v h := by
    have hload : Ends (PlainRef.load ⟨x, none⟩ e : Action Process HandleError e.Val) p
        (.ok (e.decode (e.encode v))) p := .bind h.load .pure
    rw [Plain.decode_encode] at hload
    exact .bind .pure hload
  writes p v v' h := by
    have hf : (p.finalizing e.finalizers).Shows e x v := h
    obtain ⟨p', hst, hshows⟩ := hf.store (ε := HandleError) v'
    exact ⟨p', .bind .pure (.bind (Process.finalize_ends ..) hst), hst, hshows⟩
  drop p := by
    rw [Handle.drop, if_neg (by simp [isOwner])]
    exact .pure
  destroy p := by
    obtain ⟨x', hd⟩ := Target.destroy_ends_of_not (t := .plain e) (x := ⟨x, none⟩)
      (d := k.isDestructible) (ε := HandleError) (.inr rfl) p
    exact .bind hd.onFault .pure

theorem ofAddress_ends (hg : Ends (Process.theRegistry : Action Process ε Registry) p (.ok g) p')
    (x : Address) : Ends (ofAddress x : Action Process ε (Handle (.plain e) k)) p
      (.ok ⟨some ⟨x, g.findOwner x⟩, false⟩) p' := by
  have htold : Ends (if (g.findOwner x).isNone then
      Process.say .trace PlainRef.speaker
        (pure s!"{Address.text} is not in a registered region")
      else pure () : Action Process ε Unit) p' (.ok ()) p' := by
    split
    · exact Process.say_ends .pure
    · exact .pure
  exact .bind (.bind hg (.ite_bind htold .pure)) .pure

/-- The handle is led to the address of a value without an allocator. If nobody has asked for the
process-wide registry before, there is an empty one afterwards, and the environment may have named
another level. -/
theorem strays_ofAddress (h : p.Unclaimed x) : ∃ (g : Registry) (l : Log.Level)
    (h : Handle (.plain e) k),
    Ends (ofAddress x : Action Process ε (Handle (.plain e) k)) p (.ok h)
      { p with level := l, registry := some g } ∧
    (p.registry = some g ∧ l = p.level ∨ p.registry = none ∧ g.entries = []) ∧ h.Strays x := by
  rcases p.theRegistry_cases (ε := ε) with ⟨g, hreg, hrun⟩ | ⟨config, l, hreg, hrun⟩
  · have hnone : g.findOwner x = none := by
      rw [Registry.findOwner_eq_scan, Registry.scan_eq_none (h g hreg)]
    have hrun := ofAddress_ends (e := e) (k := k) hrun x
    rw [hnone] at hrun
    refine ⟨g, p.level, _, ?_, .inl ⟨hreg, rfl⟩, strays e k x⟩
    rwa [← hreg]
  · exact ⟨.empty config, l, _, ofAddress_ends hrun x, .inr ⟨hreg, rfl⟩, strays e k x⟩

/-- The handle is a guest at the list that a view is of. Registries have no part in that. -/
structure Echoes (h : Handle (.list e) k) (l : SharedList) : Prop where
  guest : h.owner = false
  address : (AnyHandle.mk _ k h).address? = some l.header
  allocator? : h.allocator? = some l.allocator
  resolved? : h.resolved? = some l.resolved
  descriptor : ∀ (p : Process) (r : Option Registry),
    h.descriptor { p with registry := r } = l.resolved.descriptor p

theorem echoes_ofView (l : SharedList) : (ofView l : Handle (.list e) k).Echoes l :=
  ⟨rfl, rfl, rfl, rfl, fun _ _ => rfl⟩

end Handle

/-! ## Values of allocators -/

theorem Region.Keeps.over {r : Region} {l : Ledger} (h : r.Keeps p l) (ha : a.Over r) :
    a.region.Keeps p l :=
  h.transfer ha.length (ha.segment ▸ h.segment_lt) (ha.segment ▸ h.books)

/-- To destroy a value is to finalize it and to return its block. -/
theorem Heap.Stands.destroy_plain {H : Heap} {L : Layouts} {rs : List Region} {bs : List Patch}
    {r : Region} {o : Nat} {v : e.Val} (h : H.Stands L p rs bs) (hr : r ∈ rs) (ha : a.Over r)
    (hH : H (.place r.segment o) = some ⟨.plain e, v⟩)
    (hy : (L (.place r.segment o)).Shares e.layout) :
    ∃ b l, Ends (PlainRef.destroy ⟨.place r.segment o, some a⟩ e true : Action Process ε PlainRef) p
        (.ok ⟨.null, some a⟩) ((p.finalizing e.finalizers).setBytes r.segment b) ∧
      r.Keeps p l ∧ e.layout.extent o ∈ l.live ∧
      r.Keeps ((p.finalizing e.finalizers).setBytes r.segment b)
        (l.release (e.layout.extent o)) := by
  obtain ⟨items, lost, hl, -⟩ := h.focus hH
  obtain ⟨r', hr', hs, l, hk, hlive⟩ :=
    hl.estate.live (List.mem_append_left _ (Item.plot_mem List.mem_cons_self))
  obtain rfl : r' = r := hl.estate.distinct r' hr' r hr hs
  have hplot : Item.plot ⟨r'.segment, o, L (.place r'.segment o), .plain e, v⟩ =
      e.layout.plot r'.segment o := hy.plot_eq ..
  rw [hplot] at hlive
  have hk' : r'.Keeps (p.finalizing e.finalizers) l := hk.transfer rfl hk.segment_lt hk.books
  obtain ⟨hf, hkf⟩ := hk'.free (ε := ε) ha (hl.lodged _ List.mem_cons_self).suits.align_le
    (hl.stored _ List.mem_cons_self).1 hlive
  exact ⟨_, l, .bind (Process.say_ends (.bind .get .pure))
    (.bind (Process.finalize_ends ..) (.bind hf .pure)), hk,
    hlive, hkf⟩

namespace World

variable {w : World}

/-- The handle is one to the live value `v` at an address, and the allocator `a` is the value's. -/
structure Recovered (rs : List (AllocatorId × Region)) (p : Process) (w : World) (g : Registry)
    (x : Address) (v : e.Val) (a : Allocator) (h : Handle (.plain e) k) : Prop where
  guest : h.owner = false
  address : (AnyHandle.mk _ k h).address? = some x
  allocator? : h.allocator? = some a
  reads : Ends (h.value : Action Process HandleError e.Val) (w.enroll g).process (.ok v)
    (w.enroll g).process
  /-- Whichever handle has named the value at any time and knew an allocator, that of its builder
  among them, tells the same descriptor. -/
  mirrors : ∀ (w₁ : World) i k₁ (h₁ : Handle (.plain e) k₁) b, Reachable rs p w₁ → w₁.Runs w →
    w₁.handles i = some ⟨.plain e, k₁, h₁⟩ → (AnyHandle.mk _ k₁ h₁).address? = some x →
    h₁.allocator? = some b → h.Mirrors h₁ (w.enroll g).process
  /-- The descriptor leads back to the address and the allocator. -/
  returns : h.Returns g a (w.enroll g).process
  /-- Of all blocks that are handed out, the value's is returned, to that allocator. The other
  targets stay, as do the other segments and the registry. -/
  destroy : k.isDestructible → (w.layouts x).Shares e.layout → ∃ (o : Nat) (b : Bytes) (l : Ledger),
    let p' := ((w.enroll g).process.finalizing e.finalizers).setBytes a.region.segment b
    Ends (h.destroy : Action Process HandleError Unit) (w.enroll g).process (.ok ()) p' ∧
    x = .place a.region.segment o ∧ a.region.Keeps (w.enroll g).process l ∧
    e.layout.extent o ∈ l.live ∧ a.region.Keeps p' (l.release (e.layout.extent o)) ∧
    Heap.Stands (Function.update w.heap x none) w.layouts p' w.regions w.patches

/-- A handle over a value or a view that is there has the allocator of the value or of the view. -/
structure Recovers (rs : List (AllocatorId × Region)) (p : Process) (w : World) (g : Registry) :
    Prop where
  locates : g.Locates
  /-- The allocator is registered, and works on the region that the live value is in. -/
  claimed : ∀ (e : Plain) (k : Kind) x (v : e.Val) id a, w.heap x = some ⟨.plain e, v⟩ →
    (id, a) ∈ g.entries → Resolved.Fits ⟨x, a⟩ w.regions → ∃ h : Handle (.plain e) k,
      Ends (Handle.ofAddress x : Action Process HandleError _) (w.enroll g).process (.ok h)
        (w.enroll g).process ∧ Recovered rs p w g x v a h
  /-- The value is in no registered region, wherever it is. -/
  unclaimed : ∀ (e : Plain) (k : Kind) x (q : Process), q.Unclaimed x →
    ∃ (g' : Registry) (l : Log.Level) (h : Handle (.plain e) k),
      Ends (Handle.ofAddress x : Action Process HandleError _) q (.ok h)
        { q with level := l, registry := some g' } ∧
      (q.registry = some g' ∧ l = q.level ∨ q.registry = none ∧ g'.entries = []) ∧ h.Strays x
  views : ∀ (e : Plain) (k : Kind) (l : SharedList), (Handle.ofView l : Handle (.list e) k).Echoes l

theorem recovered {rs : List (AllocatorId × Region)} (hr : Ready rs p) (h : Reachable rs p w)
    (hg : g.Tidy (w.enroll g).process) {v : e.Val} (hH : w.heap x = some ⟨.plain e, v⟩)
    (ha : (id, a) ∈ g.entries) (hx : Resolved.Fits ⟨x, a⟩ w.regions) :
    a.region.contains x ∧ Recovered rs p w g x v a (.ofResolved ⟨x, a⟩ : Handle (.plain e) k) := by
  have hw := Sound.reachable hr h
  have hs : w.heap.Stands w.layouts (w.enroll g).process w.regions w.patches := hw.stands.congr rfl
  obtain ⟨r, hmem, hover, d, hd⟩ := hx
  obtain ⟨r₁, hmem₁, o, hsits⟩ := hs.sits hH
  obtain rfl := hs.region_eq hmem hmem₁ (Address.place.inj (hd.symm.trans hsits.address)).1
  have hsits := hsits.of_over hover
  have hget : g.get? (a.id (w.enroll g).process) = some a := by
    rw [hg.id_eq _ ha]
    exact hg.get?_iff.2 ha
  refine ⟨?_, rfl, rfl, rfl, ?_, ?_, ?_, ?_⟩
  · have hfits : o.toNat + max e.layout.size 1 ≤ a.region.length := hsits.has.2
    rw [hsits.address, Region.contains_place_iff]
    refine ⟨rfl, Int.natCast_nonneg _, ?_⟩
    show (o.toNat : Int) < a.region.length
    omega
  · have hx : (Target.plain e).Leads ⟨x, some a⟩ r o.toNat := by
      refine ⟨hsits.address.trans (by rw [hover.segment]), ?_⟩
      rintro b ⟨⟩
      exact hover
    exact .bind .pure (hs.load hmem hx hH)
  · intro w₁ i k₁ h₁ b hreach hrun hi hx₁ hb
    have hw₁ := Sound.reachable hr hreach
    have hmem₁ : r ∈ w₁.regions := (hw₁.run hrun).2 ▸ hmem
    have hb' := hw₁.allocator_over hmem₁ hi (hx₁.trans (congrArg some hd)) hb
    exact Handle.mirrors_ofResolved hx₁ hb
      ⟨hb'.segment.trans hover.segment.symm, hb'.length.trans hover.length.symm⟩ hsits
  · exact Handle.returns_of_sits (hg.grounded _ ha) hget rfl rfl ⟨rfl, rfl⟩ hsits
  · intro hk hy
    have haddr : x = .place r.segment o.toNat := by rw [hsits.address, hover.segment]
    subst haddr
    obtain ⟨b, l, hd, hkeeps, hlive, hkeeps'⟩ :=
      hs.destroy_plain (ε := HandleError) hmem hover hH hy
    have hx : (Target.plain e).Leads ⟨.place r.segment o.toNat, some a⟩ r o.toNat := by
      refine ⟨rfl, ?_⟩
      rintro b ⟨⟩
      exact hover
    obtain ⟨x', p', hd', -, hs', -⟩ := hs.destroy (ε := HandleError) hmem hx rfl hH hy
    obtain ⟨-, rfl⟩ := hd'.unique hd
    rw [← hover.segment] at hd hkeeps' hs' ⊢
    refine ⟨o.toNat, b, l, ?_, rfl, hkeeps.over hover, hlive, hkeeps'.over hover, hs'⟩
    have hdestroy : Ends ((Target.plain e).destroy ⟨.place a.region.segment o.toNat, some a⟩
        k.isDestructible : Action Process HandleError _) (w.enroll g).process _ _ := hk ▸ hd
    exact .bind hdestroy.onFault .pure

/-- Whatever was done with handles, and whatever was called on the registry, as long as no two of
the registered regions overlap. -/
theorem recovers_of_reachable {rs : List (AllocatorId × Region)} (hr : Ready rs p)
    (h : Reachable rs p w) (hg : Registrar.Reachable ⟨(w.enroll g).process, g⟩)
    (hd : g.Disjoint) : Recovers rs p w g where
  locates := Registry.locates_of_disjoint hd
  claimed e k x v id a hH ha hx := by
    obtain ⟨hc, hrec⟩ := recovered (k := k) hr h (Registrar.tidy_of_reachable hg) hH ha hx
    have hrun := Handle.ofAddress_ends (ε := HandleError) (e := e) (k := k)
      (Process.theRegistry_known (p := (w.enroll g).process) rfl) x
    rw [Registry.findOwner_eq_some hd ha hc] at hrun
    exact ⟨_, hrun, hrec⟩
  unclaimed _ _ _ _ := Handle.strays_ofAddress
  views _ _ := Handle.echoes_ofView

/-- A handle over the number in the page tells what its owner tells, and reads the number. -/
theorem recovers_pagePushed : Recovers [(⟨1, 0⟩, page)] pageProcess pagePushed pageRegistry ∧
    ∃ h : Handle (.plain (.int .u64)) .shared,
      Ends (Handle.ofAddress (.place 0 320) : Action Process HandleError _)
        (pagePushed.enroll pageRegistry).process (.ok h)
        (pagePushed.enroll pageRegistry).process ∧
      h.descriptor (pagePushed.enroll pageRegistry).process = ⟨⟨1, 0⟩, .ofNat 320⟩ ∧
      Ends (h.value : Action Process HandleError (BitVec 64))
        (pagePushed.enroll pageRegistry).process (.ok 42#64)
        (pagePushed.enroll pageRegistry).process := by
  obtain ⟨⟨hmem, hi, hH⟩, hd, hid, hn, ha⟩ :
      (page ∈ pagePushed.regions ∧ pagePushed.handles 0 = some ⟨_, _, pageNumber⟩ ∧
        pagePushed.heap (.place 0 320) = some ⟨.plain (.int .u64), 42#64⟩) ∧
      pageNumber.descriptor (pagePushed.enroll pageRegistry).process = ⟨⟨1, 0⟩, .ofNat 320⟩ ∧
      (Allocator.mk page).id (pagePushed.enroll pageRegistry).process = ⟨1, 0⟩ ∧
      page.segment < (pagePushed.enroll pageRegistry).process.segments.size ∧
      (pagePushed.enroll pageRegistry).process.isAligned page.base Region.alignment := by
    decide +kernel
  have h := recovers_of_reachable page_ready pagePushed_reachable (g := pageRegistry)
    (pageRegistry_reachable hid hn ha) (List.pairwise_singleton ..)
  obtain ⟨h', hrun, hrec⟩ := h.claimed (.int .u64) .shared _ _ ⟨1, 0⟩ ⟨page⟩ hH
    List.mem_cons_self ⟨page, hmem, ⟨rfl, rfl⟩, 320, rfl⟩
  have hm := hrec.mirrors pagePushed 0 _ pageNumber ⟨page⟩ pagePushed_reachable .refl hi rfl rfl
  exact ⟨h, h', hrun, hm.descriptor.trans hd, hrec.reads⟩

end World

end SharedHeap
