import SharedHeap.Proofs.Registration
import SharedHeap.Proofs.Relocation

/-!
# Resolving descriptors

Descriptors come from other processes, so their identity and their offset may be anything. Those
that name an aligned object inside a region as a whole are resolved, and no others
(`Registry.exact_of_grounded`). What decides is the offset, the layout of the object and the length
of the region, and not where the region begins, although alignment is a matter of addresses: regions
begin on a page. A machine that adds up addresses modulo `2 ^ 64` comes to the same answer
(`Region.resolveAt_eq`).
-/

namespace SharedHeap

open SharedHeap.Action (Ends)

variable {p p' : Process} {g g' : Registry} {a : Allocator} {r : Region} {o : Offset} {y : Layout}

/-! ## Alignments -/

theorem Target.align_eq (t : Target) : ∃ k, t.layout.align = 2 ^ k := by
  cases t with
  | plain t => exact t.align_eq
  | list e => exact ⟨3, rfl⟩

/-- Up to a page, alignments divide each other. -/
theorem Target.align_dvd {t : Target} (h : t.layout.align ≤ Region.alignment) :
    t.layout.align ∣ Region.alignment := by
  obtain ⟨k, hk⟩ := t.align_eq
  have hpage : Region.alignment = 2 ^ 12 := rfl
  rw [hk, hpage] at h ⊢
  exact Nat.pow_dvd_pow 2 ((Nat.pow_le_pow_iff_right (by decide)).1 h)

/-- A region that an allocator stands in begins as objects are aligned. -/
theorem Allocator.Grounded.dvd_skew (ha : a.Grounded p) {t : Target}
    (ht : t.layout.align ≤ Region.alignment) : t.layout.align ∣ p.skew a.region.segment :=
  Nat.dvd_trans (Target.align_dvd ht) (Process.isAligned_base_iff.1 ha.aligned)

/-! ## On a machine -/

/-- The address of an object at an offset, in a region that begins at the address `base`. Addresses
are words and wrap; that the end of the object does is found out by comparing it with the start. -/
def Region.resolveAt (r : Region) (base : UInt64) (o : Offset) (y : Layout) : Option UInt64 :=
  if o.isNull ∨ r.length ≤ o.toNat then none
  else
    let start := base + o.word
    let last := start + .ofNat (y.size - 1)
    if start = 0 ∨ start.toNat % y.align ≠ 0 then none
    else if last < start ∨ ¬ (base ≤ last ∧ last < base + .ofNat r.length) then none
    else some start

/-- Where a region may begin: on a page, and so that it ends before the addresses do. -/
structure Region.Placed (r : Region) (base : UInt64) : Prop where
  pos : 0 < base.toNat
  aligned : Region.alignment ∣ base.toNat
  end_lt : base.toNat + r.length < 2 ^ 64

namespace Region

variable {base : UInt64}

/-- The start of an object does not wrap, since it lies in the region. -/
theorem Placed.toNat_start (hr : r.Placed base) (ho : o.toNat < r.length) :
    (base + o.word).toNat = base.toNat + o.toNat := by
  have hend := hr.end_lt
  have hword : o.word.toNat = o.toNat := rfl
  rw [UInt64.toNat_add, hword]
  omega

theorem Placed.toNat_end (hr : r.Placed base) :
    (base + .ofNat r.length).toNat = base.toNat + r.length := by
  have hend := hr.end_lt
  rw [UInt64.toNat_add, UInt64.toNat_ofNat']
  omega

/-- The last byte is compared with both ends of the region, and with the start in case that it
wrapped. -/
theorem Placed.fits_iff (hr : r.Placed base) (ho : o.toNat < r.length) {n : Nat} (hn : n < 2 ^ 64) :
    (let start := base + o.word
     let last := start + .ofNat (n - 1)
     last < start ∨ ¬ (base ≤ last ∧ last < base + .ofNat r.length)) ↔
      ¬ o.toNat + max n 1 ≤ r.length := by
  have hend := hr.end_lt
  have hlast : (base + o.word + .ofNat (n - 1)).toNat =
      (base.toNat + o.toNat + (n - 1)) % 2 ^ 64 := by
    rw [UInt64.toNat_add, hr.toNat_start ho, UInt64.toNat_ofNat']
    omega
  simp only [UInt64.lt_iff_toNat_lt, UInt64.le_iff_toNat_le, hlast, hr.toNat_start ho, hr.toNat_end]
  omega

/-- Aligned addresses have aligned offsets, and none of them is null. -/
theorem Placed.aligned_iff (hr : r.Placed base) (hd : y.align ∣ alignment)
    (ho : o.toNat < r.length) :
    base + o.word = 0 ∨ (base + o.word).toNat % y.align ≠ 0 ↔ ¬ y.align ∣ o.toNat := by
  have hstart := hr.toNat_start ho
  have hzero : base + o.word ≠ 0 := by
    intro h
    have hpos := hr.pos
    rw [h, UInt64.toNat_zero] at hstart
    omega
  rw [or_iff_right hzero, hstart, ne_eq, ← Nat.dvd_iff_mod_eq_zero]
  exact not_congr (Nat.dvd_add_right (Nat.dvd_trans hd hr.aligned))

/-- A machine finds the same objects, wherever the region begins. -/
theorem resolveAt_eq (hr : r.Placed base) (hs : y.size < 2 ^ 64) (hd : y.align ∣ alignment)
    (ho : o.isNull = false) :
    r.resolveAt base o y = if y.Has r.length o then some (base + o.word) else none := by
  by_cases hlen : o.toNat < r.length
  · have hnull : ¬ (o.isNull ∨ r.length ≤ o.toNat) := by simp [ho, hlen]
    simp only [resolveAt, if_neg hnull, hr.aligned_iff hd hlen, hr.fits_iff hlen hs, Layout.Has]
    by_cases hal : y.align ∣ o.toNat <;> by_cases hroom : o.toNat + max y.size 1 ≤ r.length <;>
      simp only [hal, hroom, not_true, not_false_iff, if_true, if_false, and_self, and_false,
        and_true]
  · have hno : ¬ y.Has r.length o := fun h => by
      have := h.2
      omega
    rw [if_neg hno, resolveAt, if_pos (.inr (Nat.not_lt.1 hlen))]

end Region

/-! ## Descriptors -/

namespace Resolved

/-- What a descriptor resolves to. -/
def verdict (g : Registry) (d : Descriptor) (y : Layout) : Outcome HandleError Resolved :=
  if d.offset.toNat = 2 ^ 64 - 1 then .error .nullPointer
  else
    match g.get? d.id with
    | none => .error (.allocatorNotFound d.id)
    | some a =>
      if y.Has a.region.length d.offset then .ok ⟨.place a.region.segment d.offset.toNat, a⟩
      else .error (.offsetOutOfRange d.id d.offset)

variable {d : Descriptor} {t : Target}

theorem ofDescriptor_isNull (hd : d.isNull) :
    Ends (ofDescriptor g d t) p (.error .nullPointer) p := by
  rw [ofDescriptor, if_pos hd]
  exact .throw

theorem ofDescriptor_absent (hd : d.isNull = false) (hg : g.get? d.id = none) :
    Ends (ofDescriptor g d t) p (.error (.allocatorNotFound d.id)) p := by
  rw [ofDescriptor, if_neg (by simp [hd])]
  simp only [hg]
  exact .bind (Process.say_ends .pure) .throw

theorem ofDescriptor_outside (hd : d.isNull = false) (hg : g.get? d.id = some a)
    (hx : a.resolve p d.offset t.layout = none) :
    Ends (ofDescriptor g d t) p (.error (.offsetOutOfRange d.id d.offset)) p := by
  rw [ofDescriptor, if_neg (by simp [hd])]
  simp only [hg]
  refine .bind .get ?_
  simp only [hx]
  exact .bind (Process.say_ends .pure) .throw

theorem ofDescriptor_ends (hg : g.Grounded p)
    (ht : t.layout.align ≤ Region.alignment) (d : Descriptor) :
    Ends (ofDescriptor g d t) p (verdict g d t.layout) p := by
  rw [verdict]
  by_cases hnull : d.offset.toNat = 2 ^ 64 - 1
  · rw [if_pos hnull]
    exact ofDescriptor_isNull (Offset.isNull_iff.2 hnull)
  · have hn : d.isNull = false := Bool.eq_false_iff.2 (mt Offset.isNull_iff.1 hnull)
    rw [if_neg hnull]
    cases hget : g.get? d.id with
    | none => exact ofDescriptor_absent hn hget
    | some a =>
      have hres := Allocator.resolve_eq ((hg _ a hget).dvd_skew ht) hn
      simp only
      by_cases hfit : t.layout.Has a.region.length d.offset
      · rw [if_pos hfit] at hres ⊢
        exact ofDescriptor_found hn hget hres
      · rw [if_neg hfit] at hres ⊢
        exact ofDescriptor_outside hn hget hres

theorem verdict_eq_ok {x : Resolved} (h : verdict g d y = .ok x) :
    ∃ a, g.get? d.id = some a ∧ y.Has a.region.length d.offset ∧
      x = ⟨.place a.region.segment d.offset.toNat, a⟩ := by
  rw [verdict] at h
  split at h
  · cases h
  · split at h
    · cases h
    · next a hget =>
      split at h
      · next hfit => exact ⟨a, hget, hfit, (Outcome.ok.inj h).symm⟩
      · cases h

/-- The offset of what was found. -/
def offset (x : Resolved) : Offset := x.allocator.toOffset x.address

theorem offset_of_has (h : y.Has a.region.length o) :
    offset ⟨.place a.region.segment o.toNat, a⟩ = o := by
  have hroom := h.2
  have hin : a.region.contains (.place a.region.segment o.toNat) := by
    rw [Region.contains_place_iff]
    omega
  simp [offset, Allocator.toOffset, Region.toOffset, hin]

/-- What becomes of a descriptor is a matter of the length of the region. -/
theorem verdict_congr
    (h : (g'.get? d.id).map (·.region.length) = (g.get? d.id).map (·.region.length)) :
    (verdict g' d y).map offset = (verdict g d y).map offset := by
  rw [verdict, verdict]
  split
  · rfl
  · cases hget : g.get? d.id with
    | none =>
      rw [hget, Option.map_none, Option.map_eq_none_iff] at h
      rw [h]
    | some a =>
      rw [hget, Option.map_some] at h
      obtain ⟨a', hget', hlen⟩ := Option.map_eq_some_iff.1 h
      rw [hget']
      dsimp only
      rw [hlen]
      split
      · next hfit =>
        have hfit' : y.Has a'.region.length d.offset := hlen ▸ hfit
        rw [Outcome.map, Outcome.map, offset_of_has hfit, offset_of_has hfit']
      · rfl

end Resolved

/-- Just the descriptors of whole, aligned objects are resolved. -/
structure Registry.Exact (g : Registry) (p : Process) : Prop where
  verdict : ∀ (c : DescriptorCell) (t : Target), t.layout.align ≤ Region.alignment →
    Ends (Resolved.ofDescriptor g c.value t) p (Resolved.verdict g c.value t.layout) p
  /-- What is found is aligned, and all its bytes lie in the region. -/
  whole : ∀ (c : DescriptorCell) (t : Target) x p', t.layout.align ≤ Region.alignment →
    Ends (Resolved.ofDescriptor g c.value t) p (.ok x) p' →
    p.isAligned x.address t.layout.align ∧
      ∀ i < t.layout.size, x.allocator.contains (x.address.add i)
  /-- Wherever else there are regions of the same lengths, the same is found. -/
  based : ∀ (c : DescriptorCell) (t : Target) g' p', t.layout.align ≤ Region.alignment →
    g'.Grounded p' →
    (g'.get? c.value.id).map (·.region.length) = (g.get? c.value.id).map (·.region.length) →
    (Resolved.ofDescriptor g' c.value t p').outcome.map Resolved.offset =
      (Resolved.ofDescriptor g c.value t p).outcome.map Resolved.offset
  /-- A machine whose addresses wrap finds the same. -/
  machine : ∀ (c : DescriptorCell) (t : Target) a base, t.layout.align ≤ Region.alignment →
    t.layout.size < 2 ^ 64 → c.value.isNull = false → g.get? c.value.id = some a →
    a.region.Placed base →
    a.region.resolveAt base c.value.offset t.layout =
      (a.resolve p c.value.offset t.layout).map fun _ => base + c.value.offset.word

/-- Allocators stand on pages, so every registry resolves that way. -/
theorem Registry.exact_of_grounded (hg : g.Grounded p) :
    g.Exact p := by
  refine ⟨fun c t ht => Resolved.ofDescriptor_ends hg ht _, fun c t x p' ht hx => ?_,
    fun c t g' p' ht hg' hlen => ?_, fun c t a base ht hs hn hget hbase => ?_⟩
  · obtain ⟨ho, -⟩ := (Resolved.ofDescriptor_ends hg ht c.value).unique hx
    obtain ⟨a, hget, hfit, rfl⟩ := Resolved.verdict_eq_ok ho
    refine ⟨(Process.isAligned_place_iff ((hg _ a hget).dvd_skew ht)).2 hfit.1, fun i hi => ?_⟩
    have hroom := hfit.2
    rw [Allocator.contains, Address.add, Region.contains_place_iff]
    dsimp only
    refine ⟨rfl, ?_, ?_⟩ <;> omega
  · rw [(Resolved.ofDescriptor_ends hg' ht c.value).outcome,
      (Resolved.ofDescriptor_ends hg ht c.value).outcome]
    exact Resolved.verdict_congr hlen
  · rw [Region.resolveAt_eq hbase hs (Target.align_dvd ht) hn,
      Allocator.resolve_eq ((hg _ a hget).dvd_skew ht) hn]
    split <;> rfl

/-- In a page, the last word is found, and so is nothing in the last byte. -/
theorem Registry.exact_pageAgain :
    Registrar.pageAgain.registry.Exact Registrar.pageAgain.process ∧
    let found o t := (Resolved.verdict Registrar.pageAgain.registry ⟨⟨1, 0⟩, .ofNat o⟩
      (Plain.layout t)).toOption.map Resolved.address
    found 4088 (.int .u64) = some (.place 0 4088) ∧ found 4092 (.int .u64) = none ∧
      found 4095 .unit = some (.place 0 4095) ∧ found 4096 .unit = none := by
  refine ⟨exact_of_grounded ?_, by decide +kernel⟩
  exact Registrar.grounded_of_reachable Registrar.pageAgain_reachable

end SharedHeap
