import SharedHeap.Proofs.Copies
import SharedHeap.Proofs.Tenancy

/-!
# Copies go on where regions stood

Attaching to a copy of a region in use succeeds if and only if the copy is as long as the region.
From then on region and copy answer the same requests alike: blocks are found at the same offsets,
what fails fails for the same reason, the counters are the same after each request, and in the end
the bytes are (`Tenancy.Continues`).
-/

namespace SharedHeap

open SharedHeap.Action (Ends)

/-- What is asked of an allocator. Blocks are told apart by offset and layout, so the same can be
asked wherever the region is. -/
inductive Request
  | allocate (y : Layout)
  | free (o : Offset) (y : Layout)
  /-- Bytes are stored in a block, at a distance from its start. -/
  | write (o : Offset) (y : Layout) (i : Nat) (vs : List UInt8)

/-- What is seen of a request: how it ended, with an offset if a block was handed out, and the
counters afterwards. -/
structure Reply where
  outcome : Outcome MemoryError (Option Offset)
  stats : Allocator.Stats
  remaining : Outcome MemoryError Nat

namespace Ledger

/-- The books after a request. What is written into blocks is not in the books. -/
def serve (l : Ledger) : Request → Ledger
  | .allocate y =>
    match l.allocate y with
    | .ok (_, l') => l'
    | .error _ => l
  | .free o y => l.release (y.extent o.toNat)
  | .write .. => l

/-- How a request ends by the books. -/
def outcome (l : Ledger) : Request → Outcome MemoryError (Option Offset)
  | .allocate y =>
    match l.allocate y with
    | .ok (o, _) => .ok (some (.ofNat o))
    | .error e => .error e
  | .free .. | .write .. => .ok none

def reply (l : Ledger) (q : Request) : Reply where
  outcome := l.outcome q
  stats := (l.serve q).stats
  remaining := .ok (l.serve q).remaining

end Ledger

namespace Tenancy

def lease (t : Tenancy) (o : Offset) (y : Layout) : Lease :=
  ⟨.place t.region.segment o.toNat, o, y⟩

def serve (t : Tenancy) (a : Allocator) : Request → Tenancy
  | .allocate y => t.allocate a y
  | .free o y => t.free a (t.lease o y)
  | .write o y i vs => t.write (t.lease o y) i vs

def outcome (t : Tenancy) (a : Allocator) : Request → Outcome MemoryError (Option Offset)
  | .allocate y => (a.allocate y t.process).outcome.map fun x => some x.2
  | .free o y => ((a.free (t.lease o y).address y : Action _ _ _) t.process).outcome.map
    fun _ => none
  | .write o y i vs =>
    (Process.store ((t.lease o y).address.add i) vs t.process).outcome.map fun _ => none

def reply (t : Tenancy) (a : Allocator) (q : Request) : Reply where
  outcome := t.outcome a q
  stats := a.stats (t.serve a q).process
  remaining := (a.remaining (t.serve a q).process).outcome

/-- Blocks are returned once, and written only where they are. -/
def Allows (t : Tenancy) : Request → Prop
  | .allocate y => y.Valid
  | .free o y => t.lease o y ∈ t.leases
  | .write o y i vs => t.lease o y ∈ t.leases ∧ i + vs.length ≤ (y.extent o.toNat).size

/-- The allocators of a region answer requests, one after the other. Before each of them, other
segments of the process may have changed. -/
inductive Serves : Tenancy → List (Request × Reply) → Tenancy → Prop
  | done (t : Tenancy) : Serves t [] t
  | next {t t' : Tenancy} {p : Process} (hp : t.process.Retains p t.region.segment)
    {a : Allocator} (ha : a ∈ t.allocators) {q : Request} (hq : t.Allows q)
    {log : List (Request × Reply)} (h : Serves (serve { t with process := p } a q) log t') :
    Serves t ((q, reply { t with process := p } a q) :: log) t'

/-- A copy of the region in use, where an allocator has been attached. Its blocks are the same, at
other addresses. -/
def twin (t : Tenancy) (r : Region) (p : Process) : Tenancy where
  process := p
  region := r
  allocators := [⟨r⟩]
  leases := t.leases.map fun x => ⟨.place r.segment x.offset.toNat, x.offset, x.layout⟩
  history := t.history

variable {t t' : Tenancy} {a a' : Allocator} {o o' : Offset} {y y' : Layout} {q : Request}
  {l : Ledger}

theorem lease_inj : t.lease o y = t.lease o' y' ↔ o = o' ∧ y = y' := by
  constructor
  · intro h
    exact ⟨congrArg Lease.offset h, congrArg Lease.layout h⟩
  · rintro ⟨rfl, rfl⟩
    rfl

theorem region_allocate (t : Tenancy) (a : Allocator) (y : Layout) :
    (t.allocate a y).region = t.region ∧ (t.allocate a y).allocators = t.allocators := by
  simp only [allocate]
  split <;> exact ⟨rfl, rfl⟩

@[simp] theorem region_serve (t : Tenancy) (a : Allocator) (q : Request) :
    (t.serve a q).region = t.region := by
  cases q with
  | allocate y => exact (region_allocate t a y).1
  | free | write => rfl

@[simp] theorem allocators_serve (t : Tenancy) (a : Allocator) (q : Request) :
    (t.serve a q).allocators = t.allocators := by
  cases q with
  | allocate y => exact (region_allocate t a y).2
  | free | write => rfl

theorem mem_allocators_of_reachable {id : AllocatorId} {r : Region} {p : Process}
    (h : Reachable id r p t) : ⟨r⟩ ∈ t.allocators := by
  induction h with
  | refl => exact List.mem_cons_self
  | tail _ hs ih =>
    cases hs with
    | attach => exact List.mem_append_right _ ih
    | allocate => rwa [(region_allocate ..).2]
    | free | write => exact ih

theorem region_of_reachable {id : AllocatorId} {r : Region} {p : Process}
    (h : Reachable id r p t) : t.region = r := by
  induction h with
  | refl => rfl
  | tail _ hs ih =>
    rw [← ih]
    cases hs with
    | allocate ha hy => exact (region_allocate ..).1
    | attach | free | write => rfl

namespace Kept

/-- Other segments do not matter. -/
theorem retains (h : t.Kept l) {p : Process} (hp : t.process.Retains p t.region.segment) :
    Kept { t with process := p } l where
  keeps := h.keeps.transfer rfl (Nat.lt_of_lt_of_le h.keeps.segment_lt hp.segments)
    (hp.bytes ▸ h.keeps.books)
  allocators := h.allocators
  live := h.live
  chains := h.chains
  leases := h.leases
  aligned := by
    rw [hp.skew]
    exact h.aligned

theorem leases_nodup (h : t.Kept l) : t.leases.Nodup :=
  .of_map Lease.extent ((h.live.nodup_iff).1 h.keeps.sound.live_nodup)

theorem lease_eq (h : t.Kept l) {x : Lease} (hx : x ∈ t.leases) :
    x = t.lease x.offset x.layout := by
  rw [lease, ← (h.leases x hx).2.2]

theorem stats_eq (h : t.Kept l) (ha : a ∈ t.allocators) : a.stats t.process = l.stats :=
  h.keeps.stats (h.allocators a ha)

theorem remaining_eq (h : t.Kept l) (ha : a ∈ t.allocators) :
    (a.remaining t.process : Ran Process MemoryError Nat).outcome = .ok l.remaining :=
  h.keeps.remaining (h.allocators a ha)

/-! ## Bytes after requests -/

theorem bytes_allocate (h : t.Kept l) (ha : a ∈ t.allocators) (hy : y.Valid) {o : Nat}
    {l' : Ledger} (hl : l.allocate y = .ok (o, l')) :
    (t.allocate a y).bytes = Bytes.Keeps.taken t.bytes l (SizeClass.ofLayout y) := by
  obtain ⟨hr, -⟩ := h.keeps.allocate (h.allocators a ha) hy hl rfl
  simp only [bytes, (region_allocate t a y).1]
  simp only [Tenancy.allocate, hr.outcome, hr.state]
  exact Process.bytes_setBytes_self h.keeps.segment_lt

theorem free_ends (h : t.Kept l) (ha : a ∈ t.allocators) {x : Lease} (hx : x ∈ t.leases) :
    Ends (a.free x.address x.layout : Action Process MemoryError Unit) t.process (.ok ())
      (t.process.setBytes t.region.segment (Bytes.Keeps.released t.bytes x.extent)) := by
  obtain ⟨hy, hal, hx'⟩ := h.leases x hx
  rw [hx']
  exact (h.keeps.free (h.allocators a ha) hal hy (h.mem_live hx)).1

theorem bytes_free (h : t.Kept l) (ha : a ∈ t.allocators) {x : Lease} (hx : x ∈ t.leases) :
    (t.free a x).bytes = Bytes.Keeps.released t.bytes x.extent := by
  simp only [bytes, Tenancy.free, (h.free_ends ha hx).state]
  exact Process.bytes_setBytes_self h.keeps.segment_lt

theorem store_ends (h : t.Kept l) {x : Lease} (hx : x ∈ t.leases) {i : Nat} {vs : List UInt8}
    (hi : i + vs.length ≤ x.extent.size) :
    Ends (Process.store (x.address.add i) vs : Action Process MemoryError Unit) t.process (.ok ())
      (t.process.setBytes t.region.segment (t.bytes.write (x.offset.toNat + i) vs)) := by
  have hstop : x.extent.stop = x.offset.toNat + x.extent.size := rfl
  have hle := Nat.le_trans (h.keeps.stop_le (h.mem_live hx)) h.keeps.length_le
  rw [(h.leases x hx).2.2, Address.add, ← Int.natCast_add]
  exact Process.store_ends vs (by omega)

theorem bytes_write (h : t.Kept l) {x : Lease} (hx : x ∈ t.leases) {i : Nat} {vs : List UInt8}
    (hi : i + vs.length ≤ x.extent.size) :
    (t.write x i vs).bytes = t.bytes.write (x.offset.toNat + i) vs := by
  simp only [bytes, Tenancy.write, (h.store_ends hx hi).state]
  exact Process.bytes_setBytes_self h.keeps.segment_lt

/-! ## Requests by the books -/

theorem serve (h : t.Kept l) (ha : a ∈ t.allocators) (hq : t.Allows q) :
    (t.serve a q).Kept (l.serve q) := by
  cases q with
  | allocate y =>
    simp only [Tenancy.serve, Ledger.serve]
    cases hl : l.allocate y with
    | error e => exact h.allocate_refused ha hq hl
    | ok r => exact (h.allocate ha hq hl).1
  | free o y => exact h.free ha hq
  | write o y i vs => exact h.write hq.1 hq.2

theorem outcome_eq (h : t.Kept l) (ha : a ∈ t.allocators) (hq : t.Allows q) :
    t.outcome a q = l.outcome q := by
  cases q with
  | allocate y =>
    simp only [outcome, Ledger.outcome]
    cases hl : l.allocate y with
    | error e =>
      rw [(h.keeps.refuse (h.allocators a ha) hq hl).outcome]
      rfl
    | ok r =>
      rw [(h.keeps.allocate (h.allocators a ha) hq hl rfl).1.outcome]
      rfl
  | free o y => exact congrArg (Outcome.map fun _ => none) (h.free_ends ha hq).outcome
  | write o y i vs =>
    exact congrArg (Outcome.map fun _ => none) (h.store_ends hq.1 hq.2).outcome

theorem reply_eq (h : t.Kept l) (ha : a ∈ t.allocators) (hq : t.Allows q) :
    t.reply a q = l.reply q := by
  have h' := h.serve ha hq
  have hmem : a ∈ (t.serve a q).allocators := by simpa using ha
  rw [reply, Ledger.reply, h.outcome_eq ha hq, h'.stats_eq hmem, h'.remaining_eq hmem]

/-- Requests change the segment of the region and no other one. -/
theorem retains_serve (h : t.Kept l) (ha : a ∈ t.allocators) (hq : t.Allows q) {s : Nat}
    (hs : s ≠ t.region.segment) : t.process.Retains (t.serve a q).process s := by
  cases q with
  | allocate y =>
    simp only [Tenancy.serve, Tenancy.allocate]
    cases hl : l.allocate y with
    | error e =>
      have hr := h.keeps.refuse (h.allocators a ha) hq hl
      simp only [hr.outcome, hr.state]
      exact .refl ..
    | ok r =>
      obtain ⟨hr, -⟩ := h.keeps.allocate (h.allocators a ha) hq hl rfl
      simp only [hr.outcome, hr.state]
      exact Process.retains_setBytes hs.symm
  | free o y =>
    simp only [Tenancy.serve, Tenancy.free, (h.free_ends ha hq).state]
    exact Process.retains_setBytes hs.symm
  | write o y i vs =>
    simp only [Tenancy.serve, Tenancy.write, (h.store_ends hq.1 hq.2).state]
    exact Process.retains_setBytes hs.symm

theorem lease_mem_erase (h : t.Kept l) {x : Lease} :
    t.lease o y ∈ t.leases.erase x ↔ t.lease o y ≠ x ∧ t.lease o y ∈ t.leases :=
  h.leases_nodup.mem_erase_iff

/-- A new block is the one that the books say. -/
theorem lease_mem_allocate (h : t.Kept l) (ha : a ∈ t.allocators) (hy : y.Valid) {n : Nat}
    {l' : Ledger} (hl : l.allocate y = .ok (n, l')) :
    t.lease o' y' ∈ (t.allocate a y).leases ↔
      o' = .ofNat n ∧ y' = y ∨ t.lease o' y' ∈ t.leases := by
  obtain ⟨h', hleases⟩ := h.allocate ha hy hl
  have hn : (Offset.ofNat n).toNat = n := by
    refine h'.keeps.toNat_live (e := y.extent n) ?_
    rw [Ledger.live_of_allocate hl]
    exact List.mem_cons_self
  have hnew : (⟨.place t.region.segment n, .ofNat n, y⟩ : Lease) = t.lease (.ofNat n) y := by
    rw [lease, hn]
  rw [hleases, List.mem_cons, hnew, lease_inj]

end Kept

/-- Two regions that keep the same ledger and have handed out the same blocks. -/
structure Alike (t t' : Tenancy) (l : Ledger) : Prop where
  left : t.Kept l
  right : t'.Kept l
  leases : ∀ o y, t.lease o y ∈ t.leases ↔ t'.lease o y ∈ t'.leases

namespace Alike

theorem allows (h : t.Alike t' l) (hq : t.Allows q) : t'.Allows q := by
  cases q with
  | allocate y => exact hq
  | free o y => exact (h.leases o y).1 hq
  | write o y i vs => exact ⟨(h.leases o y).1 hq.1, hq.2⟩

theorem retains (h : t.Alike t' l) {p p' : Process}
    (hp : t.process.Retains p t.region.segment) (hp' : t'.process.Retains p' t'.region.segment) :
    Alike { t with process := p } { t' with process := p' } l :=
  ⟨h.left.retains hp, h.right.retains hp', h.leases⟩

theorem serve (h : t.Alike t' l) (ha : a ∈ t.allocators) (ha' : a' ∈ t'.allocators)
    (hq : t.Allows q) : (t.serve a q).Alike (t'.serve a' q) (l.serve q) := by
  have hq' := h.allows hq
  refine ⟨h.left.serve ha hq, h.right.serve ha' hq', fun o' y' => ?_⟩
  have hlease (u : Tenancy) (b : Allocator) : (u.serve b q).lease o' y' = u.lease o' y' := by
    rw [lease, region_serve]
    rfl
  rw [hlease, hlease]
  cases q with
  | allocate y =>
    simp only [Tenancy.serve]
    cases hl : l.allocate y with
    | error e =>
      have h₁ := h.left.keeps.refuse (h.left.allocators a ha) hq hl
      have h₂ := h.right.keeps.refuse (h.right.allocators a' ha') hq hl
      simp only [Tenancy.allocate, h₁.outcome, h₂.outcome]
      exact h.leases o' y'
    | ok r =>
      rw [h.left.lease_mem_allocate ha hq hl, h.right.lease_mem_allocate ha' hq hl, h.leases]
  | free o y =>
    have h₁ := h.left.lease_mem_erase (o := o') (y := y') (x := t.lease o y)
    have h₂ := h.right.lease_mem_erase (o := o') (y := y') (x := t'.lease o y)
    rw [ne_eq, lease_inj] at h₁ h₂
    exact h₁.trans ((and_congr_right' (h.leases o' y')).trans h₂.symm)
  | write o y i vs => exact h.leases o' y'

theorem reply_eq (h : t.Alike t' l) (ha : a ∈ t.allocators) (ha' : a' ∈ t'.allocators)
    (hq : t.Allows q) : t.reply a q = t'.reply a' q :=
  (h.left.reply_eq ha hq).trans (h.right.reply_eq ha' (h.allows hq)).symm

end Alike

/-- Two regions that keep the same ledger, hold the same bytes and have handed out the same blocks.
-/
structure Twins (t t' : Tenancy) (l : Ledger) : Prop where
  left : t.Kept l
  right : t'.Kept l
  agree : Bytes.Agree l.capacity t.bytes t'.bytes
  leases : ∀ o y, t.lease o y ∈ t.leases ↔ t'.lease o y ∈ t'.leases

namespace Twins

theorem alike (h : t.Twins t' l) : t.Alike t' l := ⟨h.left, h.right, h.leases⟩

theorem symm (h : t.Twins t' l) : t'.Twins t l :=
  ⟨h.right, h.left, ⟨h.agree.right, h.agree.left, fun i hi => (h.agree.same i hi).symm⟩,
    fun o y => (h.leases o y).symm⟩

theorem retains (h : t.Twins t' l) {p p' : Process}
    (hp : t.process.Retains p t.region.segment) (hp' : t'.process.Retains p' t'.region.segment) :
    Twins { t with process := p } { t' with process := p' } l where
  left := h.left.retains hp
  right := h.right.retains hp'
  agree := by
    have := h.agree
    rwa [bytes, bytes, ← hp.bytes, ← hp'.bytes] at this
  leases := h.leases

/-- Requests leave bytes that agree. -/
theorem agree_serve (h : t.Twins t' l) (ha : a ∈ t.allocators) (ha' : a' ∈ t'.allocators)
    (hq : t.Allows q) :
    Bytes.Agree (l.serve q).capacity (t.serve a q).bytes (t'.serve a' q).bytes := by
  have hq' := h.alike.allows hq
  cases q with
  | allocate y =>
    simp only [Tenancy.serve, Ledger.serve]
    cases hl : l.allocate y with
    | error e =>
      have h₁ := h.left.keeps.refuse (h.left.allocators a ha) hq hl
      have h₂ := h.right.keeps.refuse (h.right.allocators a' ha') hq hl
      simp only [Tenancy.allocate, h₁.outcome, h₁.state, h₂.outcome, h₂.state]
      exact h.agree
    | ok r =>
      rw [h.left.bytes_allocate ha hq hl, h.right.bytes_allocate ha' hq' hl]
      simp only [Ledger.capacity_of_allocate hl]
      exact h.agree.taken h.left.keeps.sound _
  | free o y =>
    obtain ⟨-, -, -, hc⟩ := h.left.keeps.sound.fits _
      (h.left.keeps.sound.mem_carved_of_live (h.left.mem_live hq))
    simp only [Tenancy.serve, h.left.bytes_free ha hq, h.right.bytes_free ha' hq']
    exact h.agree.released (Bytes.Agree.header_le h.left.keeps.sound) hc
  | write o y i vs =>
    simp only [Tenancy.serve, h.left.bytes_write hq.1 hq.2, h.right.bytes_write hq'.1 hq'.2]
    exact h.agree.write ..

theorem serve (h : t.Twins t' l) (ha : a ∈ t.allocators) (ha' : a' ∈ t'.allocators)
    (hq : t.Allows q) : (t.serve a q).Twins (t'.serve a' q) (l.serve q) :=
  have hs := h.alike.serve ha ha' hq
  ⟨hs.left, hs.right, h.agree_serve ha ha' hq, hs.leases⟩

/-! ## Runs -/

/-- Those who are asked the same answer the same, and are alike in the end. -/
theorem serves (h : t.Twins t' l) {log log' : List (Request × Reply)} {t₁ t₂ : Tenancy}
    (hr : t.Serves log t₁) (hr' : t'.Serves log' t₂)
    (hlog : log.map (·.1) = log'.map (·.1)) : log = log' ∧ ∃ l', t₁.Twins t₂ l' := by
  induction hr generalizing t' l log' with
  | done t =>
    cases hr' with
    | done => exact ⟨rfl, l, h⟩
    | next => cases hlog
  | next hp ha hq _ ih =>
    cases hr' with
    | done => cases hlog
    | next hp' ha' hq' hr' =>
      simp only [List.map_cons, List.cons.injEq] at hlog
      obtain ⟨rfl, hlog⟩ := hlog
      have h₁ := h.retains hp hp'
      obtain ⟨rfl, h₃⟩ := ih (h₁.serve ha ha' hq) hr' hlog
      rw [h₁.alike.reply_eq ha ha' hq]
      exact ⟨rfl, h₃⟩

/-- Whatever one side was asked, the other one can be asked. -/
theorem follow (h : t.Twins t' l) (ha' : a' ∈ t'.allocators) {log : List (Request × Reply)}
    {t₁ : Tenancy} (hr : t.Serves log t₁) : ∃ t₂, t'.Serves log t₂ := by
  induction hr generalizing t' l with
  | done t => exact ⟨t', .done t'⟩
  | next hp ha hq _ ih =>
    have h₁ := h.retains hp (.refl t'.process _)
    obtain ⟨t₂, hr₂⟩ := ih (h₁.serve ha ha' hq) (by simpa using ha')
    rw [h₁.alike.reply_eq ha ha' hq]
    exact ⟨t₂, .next (.refl ..) ha' (h₁.alike.allows hq) hr₂⟩

theorem bytes_eq (h : t.Twins t' l) : t.region.bytes t.process = t'.region.bytes t'.process := by
  rw [Region.bytes, Region.bytes, ← h.left.keeps.capacity, ← h.right.keeps.capacity]
  exact h.agree.resize

end Twins

theorem Kept.twin (h : t.Kept l) {r : Region} {p : Process}
    (hc : t.region.Copied t.process r p) (hn : r.length = t.region.length) :
    t.Twins (t.twin r p) l where
  left := h
  right := by
    refine ⟨hc.keeps h.keeps hn, fun a ha => ?_, ?_, h.chains, fun x hx => ?_, hc.dvd_skew⟩
    · rw [List.mem_singleton.1 ha]
      exact ⟨rfl, rfl⟩
    · rw [Tenancy.twin, List.map_map]
      exact h.live
    · obtain ⟨z, hz, rfl⟩ := List.mem_map.1 hx
      exact ⟨(h.leases z hz).1, (h.leases z hz).2.1, rfl⟩
  agree := hc.agree_ledger h.keeps hn
  leases o y := by
    constructor
    · intro hx
      exact List.mem_map.2 ⟨_, hx, rfl⟩
    · intro hx
      obtain ⟨z, hz, hzx⟩ := List.mem_map.1 hx
      obtain ⟨-, rfl, rfl⟩ := Lease.mk.inj hzx
      exact h.lease_eq hz ▸ hz

/-- A copy of the region, whatever its length, and whoever attaches to it. -/
structure Continues (t : Tenancy) (r : Region) (p : Process) : Prop where
  /-- Attaching succeeds only on a copy as long as the region. -/
  attach : Ends (Allocator.attach r) p (
    if r.length = (Header.capacity t.bytes).toNat then .ok ⟨r⟩
    else if r.length < Allocator.minRegionSize then
      .error (.regionTooSmall r.length Allocator.minRegionSize)
    else .error .invalidRegion) p
  /-- Region and copy may be in one process: requests to one change nothing elsewhere. -/
  elsewhere : ∀ a ∈ t.allocators, ∀ q, t.Allows q → ∀ s ≠ t.region.segment,
    t.process.Retains (t.serve a q).process s
  /-- Whatever is asked of one side can be asked of the other one. -/
  follows : r.length = (Header.capacity t.bytes).toNat →
    ∀ log, (∃ t₁, t.Serves log t₁) ↔ ∃ t₂, (t.twin r p).Serves log t₂
  /-- The same requests get the same replies, and leave the same bytes. -/
  alike : r.length = (Header.capacity t.bytes).toNat →
    ∀ log log' t₁ t₂, t.Serves log t₁ → (t.twin r p).Serves log' t₂ →
      log.map (·.1) = log'.map (·.1) →
        log = log' ∧ t₁.region.bytes t₁.process = t₂.region.bytes t₂.process

/-- However a region was used, a copy goes on where the region stands. -/
theorem continues_of_reachable {id : AllocatorId} {r : Region} {p : Process} (hb : r.Backed p)
    (hn : Allocator.minRegionSize ≤ r.length) (ha : p.isAligned r.base Region.alignment)
    (h : Reachable id r p t) {r' : Region} {p' : Process}
    (hc : t.region.Copied t.process r' p') : t.Continues r' p' := by
  obtain ⟨l, hl⟩ := Kept.reachable hb hn ha h
  have hcap : (Header.capacity t.bytes).toNat = t.region.length :=
    (hl.keeps.books.capacity hl.keeps.sound).trans hl.keeps.capacity
  have hlen : t.region.length = r.length := congrArg Region.length (region_of_reachable h)
  refine ⟨?_, fun a ha q hq s hs => hl.retains_serve ha hq hs, fun hm log => ?_,
    fun hm log log' t₁ t₂ hr hr' hlog => ?_⟩
  · rw [hcap]
    have hatt := hc.attach_ends hl.keeps
    by_cases hm : r'.length = t.region.length
    · rw [if_neg (by omega), if_pos hm] at hatt
      rwa [if_pos hm]
    · simpa only [if_neg hm] using hatt
  · have htw := hl.twin hc (hm.trans hcap)
    constructor
    · rintro ⟨t₁, hr⟩
      exact htw.follow List.mem_cons_self hr
    · rintro ⟨t₂, hr⟩
      exact htw.symm.follow (mem_allocators_of_reachable h) hr
  · obtain ⟨rfl, l', htw⟩ := (hl.twin hc (hm.trans hcap)).serves hr hr' hlog
    exact ⟨rfl, htw.bytes_eq⟩

/-- The page in use, and next to it a copy. -/
def pageCopy : Process :=
  (Region.ofBytes ((page.bytes pageUse.process).resize 4096) pageUse.process).state

theorem pageUse_region : pageUse.region = page := region_of_reachable pageUse_reachable

theorem pageCopy_copied : page.Copied pageUse.process ⟨1, 4096, true⟩ pageCopy := by
  obtain ⟨p', hrun, hc, -⟩ := Region.copied_ofBytes page pageUse.process (n := 4096) (by decide)
    (by decide) (by decide +kernel)
  have hsize : pageUse.process.segments.size = 1 := by decide +kernel
  rw [hsize] at hc
  rw [pageCopy, hrun.state]
  exact hc

theorem continues_pageUse : pageUse.Continues ⟨1, 4096, true⟩ pageCopy ∧
    (pageUse.twin ⟨1, 4096, true⟩ pageCopy).leases =
      [⟨.place 1 320, .ofNat 320, ⟨17, 1⟩⟩] := by
  refine ⟨continues_of_reachable page_backed (by decide) (by decide) pageUse_reachable ?_, ?_⟩
  · rw [pageUse_region]
    exact pageCopy_copied
  · simp only [twin, pageUse, free, pageThird_leases.1]
    rfl

end Tenancy

end SharedHeap
