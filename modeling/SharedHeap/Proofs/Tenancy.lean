import Mathlib.Logic.Relation
import SharedHeap.Proofs.Region

/-!
# Whoever uses the blocks of one region

A region is formatted, and from then on any number of allocators over its bytes hand out blocks and
take them back, in any order, while those who hold blocks write into them what they like. In every
state that is reached the region keeps a ledger that agrees with what was handed out
(`Tenancy.Kept`), and so the blocks are safe (`Tenancy.Safe`).
-/

namespace SharedHeap

open SharedHeap.Action (Ends)

/-- A block as it was handed out for a layout. -/
structure Lease where
  address : Address
  offset : Offset
  layout : Layout
deriving DecidableEq, Repr

/-- The bytes that were handed out. -/
def Lease.extent (x : Lease) : Extent := x.layout.extent x.offset.toNat

@[simp] theorem Lease.extent_offset (x : Lease) : x.extent.offset = x.offset.toNat := rfl

theorem Lease.extent_cls (x : Lease) : x.extent.cls = SizeClass.ofLayout x.layout := rfl

inductive Dealing
  | took (x : Lease)
  | returned (x : Lease)

/-- The blocks of a class that were returned and not handed out again since, the one returned last
first. Histories begin with what happened last. -/
def waiting (c : SizeClass) : List Dealing → List Nat
  | [] => []
  | .took x :: past =>
    if x.extent.cls = c then (waiting c past).filter (· ≠ x.offset.toNat) else waiting c past
  | .returned x :: past =>
    if x.extent.cls = c then x.offset.toNat :: waiting c past else waiting c past

/-- A region in use. -/
structure Tenancy where
  process : Process
  region : Region
  /-- All allocators that work on the bytes of the region. -/
  allocators : List Allocator
  /-- The blocks that are handed out, the last one first. -/
  leases : List Lease
  history : List Dealing

namespace Tenancy

/-- A region that has just been formatted. -/
def start (id : AllocatorId) (r : Region) (p : Process) : Tenancy where
  process := (Allocator.create id r p).state
  region := r
  allocators := [⟨r⟩]
  leases := []
  history := []

/-- One more allocator attaches, if it can. -/
def attach (t : Tenancy) (r : Region) : Tenancy :=
  let run := Allocator.attach r t.process
  { t with
    process := run.state
    allocators := run.outcome.toOption.toList ++ t.allocators }

/-- An allocator hands out a block, if it can. -/
def allocate (t : Tenancy) (a : Allocator) (y : Layout) : Tenancy :=
  let run := a.allocate y t.process
  match run.outcome with
  | .ok (x, o) =>
    { t with
      process := run.state
      leases := ⟨x, o, y⟩ :: t.leases
      history := .took ⟨x, o, y⟩ :: t.history }
  | _ => { t with process := run.state }

/-- An allocator takes a block back. -/
def free (t : Tenancy) (a : Allocator) (x : Lease) : Tenancy :=
  { t with
    process := ((a.free x.address x.layout : Action Process MemoryError Unit) t.process).state
    leases := t.leases.erase x
    history := .returned x :: t.history }

/-- Whoever holds a block stores bytes at a distance from its start. -/
def write (t : Tenancy) (x : Lease) (i : Nat) (vs : List UInt8) : Tenancy :=
  { t with
    process :=
      ((Process.store (x.address.add i) vs : Action Process MemoryError Unit) t.process).state }

/-- What may happen next. Blocks are returned once, with the layout that they were asked for with,
and written only where they are. -/
inductive Step (t : Tenancy) : Tenancy → Prop
  | attach {r : Region} (h : r.segment = t.region.segment) : Step t (t.attach r)
  | allocate {a : Allocator} (ha : a ∈ t.allocators) {y : Layout} (hy : y.Valid) :
    Step t (t.allocate a y)
  | free {a : Allocator} (ha : a ∈ t.allocators) {x : Lease} (hx : x ∈ t.leases) :
    Step t (t.free a x)
  | write {x : Lease} (hx : x ∈ t.leases) {i : Nat} {vs : List UInt8}
    (h : i + vs.length ≤ x.extent.size) : Step t (t.write x i vs)

/-- The states that a region can come to. -/
abbrev Reachable (id : AllocatorId) (r : Region) (p : Process) : Tenancy → Prop :=
  Relation.ReflTransGen Step (start id r p)

/-- The region keeps a ledger that agrees with what was handed out and returned. -/
structure Kept (t : Tenancy) (l : Ledger) : Prop where
  keeps : t.region.Keeps t.process l
  allocators : ∀ a ∈ t.allocators, a.Over t.region
  live : l.live.Perm (t.leases.map Lease.extent)
  chains : ∀ c, l.free c = waiting c t.history
  leases : ∀ x ∈ t.leases, x.layout.Valid ∧ x.layout.align ≤ SizeClass.maxAlign ∧
    x.address = .place t.region.segment x.offset.toNat
  aligned : SizeClass.maxAlign ∣ t.process.skew t.region.segment

namespace Kept

variable {t : Tenancy} {l : Ledger} {a : Allocator} {x : Lease}

theorem mem_live (h : t.Kept l) (hx : x ∈ t.leases) : x.extent ∈ l.live :=
  h.live.mem_iff.2 (List.mem_map_of_mem hx)

theorem start {id : AllocatorId} {r : Region} {p : Process} (hb : r.Backed p)
    (hn : Allocator.minRegionSize ≤ r.length) (ha : p.isAligned r.base Region.alignment) :
    (Tenancy.start id r p).Kept (.fresh id r.length) := by
  obtain ⟨b, hp, hk, -⟩ := Region.Keeps.create id hb hn ha
  refine ⟨?_, ?_, .nil, fun _ => rfl, fun x hx => (nomatch hx), ?_⟩
  · simpa only [Tenancy.start, hp.state] using hk
  · intro a hmem
    rw [List.mem_singleton.1 hmem]
    exact ⟨rfl, rfl⟩
  · simp only [Tenancy.start, hp.state, Process.skew_setBytes]
    exact Process.isAligned_base_iff.1 ha

theorem attach (h : t.Kept l) {r : Region} (hr : r.segment = t.region.segment) :
    (t.attach r).Kept l := by
  have hstate : (Allocator.attach r t.process).state = t.process := by
    rcases Allocator.attach_cases r t.process with ⟨e, he⟩ | ⟨hok, -⟩
    · exact he.state
    · exact hok.state
  refine ⟨?_, ?_, h.live, h.chains, h.leases, ?_⟩
  · simpa only [Tenancy.attach, hstate] using h.keeps
  · intro a ha
    rcases List.mem_append.1 ha with ha | ha
    · refine h.keeps.over_of_attach hr ?_
      cases ho : (Allocator.attach r t.process).outcome <;> simp_all [Outcome.toOption]
    · exact h.allocators a ha
  · simpa only [Tenancy.attach, hstate] using h.aligned

theorem allocate_refused (h : t.Kept l) (ha : a ∈ t.allocators) {y : Layout} (hy : y.Valid)
    {e : MemoryError} (hl : l.allocate y = .error e) : (t.allocate a y).Kept l := by
  have hr := h.keeps.refuse (h.allocators a ha) hy hl
  simp only [Tenancy.allocate, hr.outcome, hr.state]
  exact h

theorem waiting_took {c : SizeClass} {past : List Dealing} {o : Nat} {rest : List Nat}
    (hw : waiting c past = o :: rest) (hn : (waiting c past).Nodup) (hc : x.extent.cls = c)
    (ho : x.offset.toNat = o) : waiting c (.took x :: past) = rest := by
  rw [hw, List.nodup_cons] at hn
  rw [waiting, if_pos hc, hw, ho, List.filter_cons_of_neg (by simp)]
  refine List.filter_eq_self.2 fun q hq => ?_
  simp only [ne_eq, decide_eq_true_eq]
  rintro rfl
  exact hn.1 hq

theorem waiting_took_of_nil {c : SizeClass} {past : List Dealing} (hw : waiting c past = []) :
    waiting c (.took x :: past) = [] := by
  rw [waiting, hw]
  exact ite_self _

theorem waiting_took_of_ne {c : SizeClass} {past : List Dealing} (hc : x.extent.cls ≠ c) :
    waiting c (.took x :: past) = waiting c past := by
  rw [waiting, if_neg hc]

theorem stacks_took (h : t.Kept l) {y : Layout} {o : Nat} {l' : Ledger}
    (hl : l.allocate y = .ok (o, l')) (hy : x.layout = y) (ho : x.offset.toNat = o)
    (c : SizeClass) : l'.free c = waiting c (.took x :: t.history) := by
  have hcls : x.extent.cls = SizeClass.ofLayout y := by rw [Lease.extent_cls, hy]
  -- a block is popped, or it is carved while its stack is empty
  obtain ⟨-, -, ⟨rest, hf, rfl⟩ | ⟨hf, -, -, rfl⟩⟩ := Ledger.allocate_cases hl
  · simp only [Ledger.reuse, Function.update_apply, Layout.extent_cls]
    by_cases hc : c = SizeClass.ofLayout y
    · have hn := h.keeps.sound.free_nodup (SizeClass.ofLayout y)
      rw [h.chains] at hn hf
      rw [hc, if_pos rfl]
      exact (waiting_took hf hn hcls ho).symm
    · rw [if_neg hc, waiting_took_of_ne fun he => hc (he.symm.trans hcls), h.chains]
  · by_cases hc : c = SizeClass.ofLayout y
    · have hw : waiting c t.history = [] := by rw [hc, ← h.chains, hf]
      exact ((h.chains c).trans hw).trans (waiting_took_of_nil hw).symm
    · rw [waiting_took_of_ne fun he => hc (he.symm.trans hcls)]
      exact h.chains c

theorem allocate (h : t.Kept l) (ha : a ∈ t.allocators) {y : Layout} (hy : y.Valid) {o : Nat}
    {l' : Ledger} (hl : l.allocate y = .ok (o, l')) :
    (t.allocate a y).Kept l' ∧
      (t.allocate a y).leases = ⟨.place t.region.segment o, .ofNat o, y⟩ :: t.leases := by
  obtain ⟨hr, hk, -, -⟩ := h.keeps.allocate (h.allocators a ha) hy hl rfl
  have hlive := Ledger.live_of_allocate hl
  have ho : (Offset.ofNat o).toNat = o :=
    hk.toNat_live (e := y.extent o) (hlive ▸ List.mem_cons_self)
  simp only [Tenancy.allocate, hr.outcome, hr.state]
  refine ⟨⟨hk, h.allocators, ?_, fun c => ?_, fun x hx => ?_, ?_⟩, trivial⟩
  · rw [hlive, List.map_cons, Lease.extent, ho]
    exact h.live.cons _
  · exact h.stacks_took hl rfl ho c
  · rcases List.mem_cons.1 hx with rfl | hx
    · refine ⟨hy, (Ledger.allocate_cases hl).1, ?_⟩
      rw [ho]
    · exact h.leases x hx
  · simpa using h.aligned

theorem free (h : t.Kept l) (ha : a ∈ t.allocators) (hx : x ∈ t.leases) :
    (t.free a x).Kept (l.release x.extent) := by
  obtain ⟨hy, hal, hx'⟩ := h.leases x hx
  obtain ⟨hr, hk⟩ := h.keeps.free (ε := MemoryError) (h.allocators a ha) hal hy (h.mem_live hx)
  rw [← hx'] at hr
  refine ⟨?_, h.allocators, ?_, fun c => ?_, fun z hz => h.leases z (List.mem_of_mem_erase hz), ?_⟩
  · simp only [Tenancy.free, hr.state]
    exact hk
  · refine (List.perm_cons x.extent).1 ?_
    refine (List.perm_cons_erase (h.mem_live hx)).symm.trans (h.live.trans ?_)
    exact (List.perm_cons_erase hx).map Lease.extent
  · simp only [Ledger.release, Tenancy.free, Function.update_apply, waiting]
    by_cases hc : c = x.extent.cls
    · rw [if_pos hc, if_pos hc.symm, ← hc, h.chains]
      rfl
    · rw [if_neg hc, if_neg fun he => hc he.symm, h.chains]
  · simpa only [Tenancy.free, hr.state, Process.skew_setBytes] using h.aligned

theorem write (h : t.Kept l) (hx : x ∈ t.leases) {i : Nat} {vs : List UInt8}
    (hi : i + vs.length ≤ x.extent.size) : (t.write x i vs).Kept l := by
  obtain ⟨-, -, hx'⟩ := h.leases x hx
  have hdef : x.extent.stop = x.extent.offset + x.extent.size := rfl
  obtain ⟨hr, hk⟩ := h.keeps.store (ε := MemoryError) (h.mem_live hx)
    (i := x.offset.toNat + i) vs (Nat.le_add_right ..) (by
      have : x.extent.offset = x.offset.toNat := rfl
      omega)
  have hadd : x.address.add i = .place t.region.segment ↑(x.offset.toNat + i) := by
    rw [hx', Address.add, Int.natCast_add]
  rw [← hadd] at hr
  refine ⟨?_, h.allocators, h.live, h.chains, h.leases, ?_⟩
  · simpa only [Tenancy.write, hr.state] using hk
  · simpa only [Tenancy.write, hr.state, Process.skew_setBytes] using h.aligned

theorem step {t' : Tenancy} (h : t.Kept l) (hs : Step t t') : ∃ l', t'.Kept l' := by
  cases hs with
  | attach hr => exact ⟨l, h.attach hr⟩
  | @allocate a ha y hy =>
    cases hl : l.allocate y with
    | error e => exact ⟨l, h.allocate_refused ha hy hl⟩
    | ok r => exact ⟨r.2, (h.allocate ha hy hl).1⟩
  | free ha hx => exact ⟨_, h.free ha hx⟩
  | write hx hi => exact ⟨l, h.write hx hi⟩

theorem reachable {id : AllocatorId} {r : Region} {p : Process} (hb : r.Backed p)
    (hn : Allocator.minRegionSize ≤ r.length) (ha : p.isAligned r.base Region.alignment)
    {t : Tenancy} (h : Reachable id r p t) : ∃ l, t.Kept l := by
  induction h with
  | refl => exact ⟨_, start hb hn ha⟩
  | tail _ hs ih =>
    obtain ⟨l, hl⟩ := ih
    exact hl.step hs

end Kept

/-- The bytes of the region, with whatever lies behind them. -/
def bytes (t : Tenancy) : Bytes := t.process.bytes t.region.segment

/-- Blocks that are handed out are what was asked for, where nobody else is. -/
structure Safe (t : Tenancy) : Prop where
  cursor_le : (Header.cursor t.bytes).toNat ≤ (Header.capacity t.bytes).toNat
  inside : ∀ x ∈ t.leases, Header.dataStart ≤ x.offset.toNat ∧
    x.offset.toNat + x.extent.size ≤ (Header.cursor t.bytes).toNat
  size_le : ∀ x ∈ t.leases, x.layout.size ≤ x.extent.size
  /-- The address is that of the offset, and as aligned as was asked for. -/
  address : ∀ x ∈ t.leases, x.address = .place t.region.segment x.offset.toNat ∧
    t.process.isAligned x.address x.layout.align
  /-- No two blocks share a byte. -/
  apart : t.leases.Pairwise fun x z => ∀ i, x.extent.Covers i → ¬ z.extent.Covers i
  /-- Nobody who writes into a block reaches the header. -/
  header : ∀ x ∈ t.leases, ∀ i vs, i + vs.length ≤ x.extent.size →
    ∀ j < Header.size, (t.write x i vs).bytes.get j = t.bytes.get j

namespace Kept

variable {t : Tenancy} {l : Ledger} {x : Lease}

theorem isAligned (h : t.Kept l) (hx : x ∈ t.leases) :
    t.process.isAligned x.address x.layout.align := by
  obtain ⟨hy, hal, hx'⟩ := h.leases x hx
  obtain ⟨h₁, h₂⟩ := hy.align_dvd hal
  have hfit := h.keeps.sound.fits _ (h.keeps.sound.mem_carved_of_live (h.mem_live hx))
  have h₃ : x.layout.align ∣ x.offset.toNat := Nat.dvd_trans h₂ hfit.2.2.1
  rw [hx']
  exact (Process.isAligned_place_iff (Nat.dvd_trans h₁ h.aligned)).2 h₃

theorem get_write (h : t.Kept l) (hx : x ∈ t.leases) {i : Nat} {vs : List UInt8}
    (hi : i + vs.length ≤ x.extent.size) {j : Nat} (hj : j < Header.size) :
    (t.write x i vs).bytes.get j = t.bytes.get j := by
  obtain ⟨-, -, hx'⟩ := h.leases x hx
  have h₁ := h.keeps.stop_le (h.mem_live hx)
  have h₂ := h.keeps.length_le
  have h₃ := (h.keeps.sound.fits _ (h.keeps.sound.mem_carved_of_live (h.mem_live hx))).1
  have h₄ := Header.size_le_dataStart
  have h₅ : x.extent.stop = x.offset.toNat + x.extent.size := rfl
  have hadd : x.address.add i = .place t.region.segment ↑(x.offset.toNat + i) := by
    rw [hx', Address.add, Int.natCast_add]
  have hs := Process.store_ends (ε := MemoryError) (p := t.process) (s := t.region.segment)
    (i := x.offset.toNat + i) vs (by omega)
  rw [← hadd] at hs
  simp only [Tenancy.bytes, Tenancy.write, hs.state]
  rw [Process.bytes_setBytes_self h.keeps.segment_lt]
  simp only [Lease.extent_offset] at h₃
  exact Bytes.get_write_of_lt (by omega)

theorem safe (h : t.Kept l) : t.Safe where
  cursor_le := by
    rw [Tenancy.bytes, h.keeps.books.cursor h.keeps.sound, h.keeps.books.capacity h.keeps.sound]
    exact h.keeps.sound.cursor_le
  inside x hx := by
    rw [Tenancy.bytes, h.keeps.books.cursor h.keeps.sound]
    have := h.keeps.sound.fits _ (h.keeps.sound.mem_carved_of_live (h.mem_live hx))
    exact ⟨this.1, this.2.1⟩
  size_le x _ := x.layout.size_le_blockSize
  address x hx := ⟨(h.leases x hx).2.2, h.isAligned hx⟩
  apart := by
    have := h.keeps.sound.live_apart.perm h.live fun h => h.symm
    refine (List.pairwise_map.1 this).imp ?_
    intro x z hap i hi
    exact hap.not_covers hi
  header x hx i vs hi j hj := h.get_write hx hi hj

end Kept

/-- However a region is used from when it is formatted on, its blocks are safe. -/
theorem safe_of_reachable {id : AllocatorId} {r : Region} {p : Process} (hb : r.Backed p)
    (hn : Allocator.minRegionSize ≤ r.length) (ha : p.isAligned r.base Region.alignment)
    {t : Tenancy} (h : Reachable id r p t) : t.Safe := by
  obtain ⟨l, hl⟩ := Kept.reachable hb hn ha h
  exact hl.safe

/-- A page of memory. -/
def page : Region := ⟨0, 4096, true⟩

def pageProcess : Process := .single (.zeros 4096)

theorem page_backed : page.Backed pageProcess := ⟨by decide, by decide, by decide⟩

/-- The other allocator over the page. -/
def pageView : Region := ⟨0, 4096, false⟩

def firstLease : Lease := ⟨.place 0 320, .ofNat 320, ⟨24, 8⟩⟩

def secondLease : Lease := ⟨.place 0 384, .ofNat 384, ⟨100, 4⟩⟩

/-- One of two allocators takes a block from a page. -/
@[irreducible] def pageFirst : Tenancy :=
  ((start ⟨1, 0⟩ page pageProcess).attach pageView).allocate ⟨page⟩ ⟨24, 8⟩

/-- Something is written into the block, and the other allocator takes a second one. -/
@[irreducible] def pageSecond : Tenancy :=
  (pageFirst.write firstLease 8 [1, 2, 3]).allocate ⟨pageView⟩ ⟨100, 4⟩

/-- The first block is returned to the other allocator and taken again. -/
@[irreducible] def pageThird : Tenancy :=
  (pageSecond.free ⟨pageView⟩ firstLease).allocate ⟨page⟩ ⟨17, 1⟩

theorem pageFirst_leases :
    pageFirst.leases = [firstLease] ∧ pageFirst.allocators = [⟨pageView⟩, ⟨page⟩] := by
  decide +kernel

theorem pageSecond_leases : pageSecond.leases = [secondLease, firstLease] ∧
    pageSecond.allocators = [⟨pageView⟩, ⟨page⟩] := by
  decide +kernel

theorem pageThird_leases :
    pageThird.leases = [⟨.place 0 320, .ofNat 320, ⟨17, 1⟩⟩, secondLease] ∧
      pageThird.allocators = [⟨pageView⟩, ⟨page⟩] := by
  decide +kernel

theorem pageFirst_reachable : Reachable ⟨1, 0⟩ page pageProcess pageFirst := by
  unfold pageFirst
  have h : Reachable ⟨1, 0⟩ page pageProcess _ := .tail .refl (.attach (r := pageView) rfl)
  exact h.tail (.allocate (by simp [attach, start]) (by decide))

theorem pageSecond_reachable : Reachable ⟨1, 0⟩ page pageProcess pageSecond := by
  unfold pageSecond
  obtain ⟨hl, ha⟩ := pageFirst_leases
  have h := pageFirst_reachable.tail (@Step.write _ firstLease (by simp [hl]) 8 [1, 2, 3]
    (by decide))
  exact h.tail (.allocate (by simp [ha, write]) (by decide))

theorem pageThird_reachable : Reachable ⟨1, 0⟩ page pageProcess pageThird := by
  unfold pageThird
  obtain ⟨hl, ha⟩ := pageSecond_leases
  have h := pageSecond_reachable.tail (.free (a := ⟨pageView⟩) (x := firstLease)
    (by simp [ha]) (by simp [hl]))
  exact h.tail (.allocate (by simp [ha, free]) (by decide))

/-- The second block is returned. -/
def pageUse : Tenancy := pageThird.free ⟨page⟩ secondLease

theorem pageUse_reachable : Reachable ⟨1, 0⟩ page pageProcess pageUse := by
  obtain ⟨hl, ha⟩ := pageThird_leases
  exact pageThird_reachable.tail (.free (by simp [ha]) (by simp [hl]))

theorem safe_pageUse : pageUse.leases = [⟨.place 0 320, .ofNat 320, ⟨17, 1⟩⟩] ∧ pageUse.Safe := by
  refine ⟨?_, safe_of_reachable page_backed (by decide) (by decide) pageUse_reachable⟩
  simp only [pageUse, free, pageThird_leases.1]
  rfl

end Tenancy

end SharedHeap
