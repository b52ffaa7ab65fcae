import Mathlib.Algebra.BigOperators.Group.Finset.Basic
import SharedHeap.Proofs.Stacks

/-!
# What the counters of a region say

A region counts how many blocks were handed out and returned, and how many bytes are in use. The
counters change on their own, after the chains and the cursor did, and a block that is returned is
counted by the size that its layout asks for. Yet they agree with the blocks in every state
(`Tenancy.Counted`): each byte up to the cursor is in use, on a chain, or skipped for alignment.
-/

namespace SharedHeap

open SharedHeap.Action (Ends)

/-- How many blocks were handed out. -/
def taken : List Dealing → Nat
  | [] => 0
  | .took _ :: past => taken past + 1
  | .returned _ :: past => taken past

/-- How many blocks were returned. -/
def returned : List Dealing → Nat
  | [] => 0
  | .took _ :: past => returned past
  | .returned _ :: past => returned past + 1

/-- Where the block ends that was carved last. A block is carved if none of its class waits. -/
def edge : List Dealing → Nat
  | [] => Header.dataStart
  | .took x :: past =>
    if waiting x.extent.cls past = [] then
      Block.carveStart x.extent.cls (edge past) + x.extent.size
    else edge past
  | .returned _ :: past => edge past

/-- How many bytes were skipped so far, since carved blocks are aligned. -/
def gaps : List Dealing → Nat
  | [] => 0
  | .took x :: past =>
    if waiting x.extent.cls past = [] then
      gaps past + (Block.carveStart x.extent.cls (edge past) - edge past)
    else gaps past
  | .returned _ :: past => gaps past

/-- The bytes of all blocks on the stacks of the classes. -/
def stacked (f : SizeClass → List Nat) : Nat :=
  ∑ i ∈ Finset.range Header.classCount, (f ⟨i⟩).length * (SizeClass.mk i).blockSize

theorem stacked_nil : stacked (fun _ => []) = 0 :=
  Finset.sum_eq_zero fun _ _ => Nat.zero_mul _

/-- A stack that changes takes its part of the sum along. -/
theorem stacked_update {f : SizeClass → List Nat} {c : SizeClass}
    (hc : c.index < Header.classCount) (xs : List Nat) :
    stacked (Function.update f c xs) + (f c).length * c.blockSize =
      stacked f + xs.length * c.blockSize := by
  cases c with
  | mk n =>
    let bytes (f : SizeClass → List Nat) (i : Nat) := (f ⟨i⟩).length * (SizeClass.mk i).blockSize
    have hmem : n ∈ Finset.range Header.classCount := Finset.mem_range.2 hc
    have h₁ := Finset.add_sum_erase _ (bytes (Function.update f ⟨n⟩ xs)) hmem
    have h₂ := Finset.add_sum_erase _ (bytes f) hmem
    have h₃ : ∑ i ∈ (Finset.range Header.classCount).erase n, bytes (Function.update f ⟨n⟩ xs) i =
        ∑ i ∈ (Finset.range Header.classCount).erase n, bytes f i := by
      refine Finset.sum_congr rfl fun i hi => ?_
      have hne : SizeClass.mk i ≠ ⟨n⟩ :=
        fun he => Finset.ne_of_mem_erase hi (congrArg SizeClass.index he)
      simp only [bytes, Function.update_of_ne hne]
    simp only [bytes, Function.update_self] at h₁ h₂ h₃
    simp only [stacked]
    omega

namespace Ledger

variable {l : Ledger}

/-- The bytes of the blocks that are handed out. -/
def inUse (l : Ledger) : Nat := (l.live.map Extent.size).sum

theorem stacked_reuse {e : Extent} {rest : List Nat} (hc : e.cls.index < Header.classCount)
    (hf : l.free e.cls = e.offset :: rest) :
    (l.reuse e rest).inUse + stacked (l.reuse e rest).free = l.inUse + stacked l.free := by
  have h := stacked_update (f := l.free) hc rest
  rw [hf, List.length_cons, Nat.add_mul] at h
  simp only [inUse, reuse, List.map_cons, List.sum_cons, Extent.size]
  omega

theorem inUse_carve (c : SizeClass) : (l.carve c).inUse = c.blockSize + l.inUse := by
  simp only [inUse, carve, List.map_cons, List.sum_cons]
  rfl

theorem stacked_release {e : Extent} (hc : e.cls.index < Header.classCount) (he : e ∈ l.live) :
    (l.release e).inUse + stacked (l.release e).free = l.inUse + stacked l.free := by
  have h := stacked_update (f := l.free) hc (e.offset :: l.free e.cls)
  have hsum := ((List.perm_cons_erase he).map Extent.size).sum_eq
  rw [List.map_cons, List.sum_cons, Extent.size] at hsum
  rw [List.length_cons, Nat.add_mul] at h
  simp only [inUse, release]
  omega

end Ledger

namespace Tenancy

variable {t t' : Tenancy} {l : Ledger} {a : Allocator} {x : Lease}

/-- The books agree with the history: every byte up to the cursor is accounted for. -/
structure Balanced (t : Tenancy) (l : Ledger) : Prop where
  allocations : l.allocations = taken t.history
  frees : l.frees = returned t.history
  cursor : l.cursor = edge t.history
  bytes : l.inUse + stacked l.free + gaps t.history + Header.dataStart = l.cursor

namespace Balanced

theorem start (id : AllocatorId) (r : Region) (p : Process) :
    (Tenancy.start id r p).Balanced (.fresh id r.length) where
  allocations := rfl
  frees := rfl
  cursor := rfl
  bytes := by
    have h : stacked (Ledger.fresh id r.length).free = 0 := stacked_nil
    rw [h]
    rfl

theorem took (h : t.Balanced l) (hk : t.Kept l) {y : Layout} {o : Nat} {l' : Ledger}
    (hl : l.allocate y = .ok (o, l')) {x : Lease} (hy : x.layout = y) {p : Process}
    {leases : List Lease} :
    Balanced ⟨p, t.region, t.allocators, leases, .took x :: t.history⟩ l' := by
  have hcls : x.extent.cls = SizeClass.ofLayout y := by rw [Lease.extent_cls, hy]
  have hsize : x.extent.size = (SizeClass.ofLayout y).blockSize := by rw [Extent.size, hcls]
  have hch := hk.chains (SizeClass.ofLayout y)
  have hb := h.bytes
  have hcur := h.cursor
  obtain ⟨-, hc, ⟨rest, hf, rfl⟩ | ⟨hf, -, -, rfl⟩⟩ := Ledger.allocate_cases hl
  · -- the block waited, so nothing is carved
    have hw : waiting x.extent.cls t.history ≠ [] := by
      rw [hcls, ← hch, hf]
      exact List.cons_ne_nil _ _
    have hs := Ledger.stacked_reuse (e := y.extent o) hc hf
    refine ⟨congrArg (· + 1) h.allocations, h.frees, ?_, ?_⟩
    · rw [edge, if_neg hw]
      exact hcur
    · rw [gaps, if_neg hw, hs]
      exact hb
  · have hw : waiting x.extent.cls t.history = [] := by rw [hcls, ← hch, hf]
    have hle := Ledger.Sound.le_next_offset l (SizeClass.ofLayout y)
    have hnext : (l.next (SizeClass.ofLayout y)).offset =
      Block.carveStart (SizeClass.ofLayout y) (edge t.history) := by rw [← hcur]; rfl
    have hstop : (l.carve (SizeClass.ofLayout y)).cursor =
      (l.next (SizeClass.ofLayout y)).offset + (SizeClass.ofLayout y).blockSize := rfl
    have hfree : (l.carve (SizeClass.ofLayout y)).free = l.free := rfl
    refine ⟨congrArg (· + 1) h.allocations, h.frees, ?_, ?_⟩
    · rw [edge, if_pos hw, hstop, hnext, hcls, hsize]
    · rw [gaps, if_pos hw, hstop, hcls, Ledger.inUse_carve, hfree, ← hnext]
      omega

theorem free (h : t.Balanced l) (hk : t.Kept l) (hx : x ∈ t.leases) :
    (t.free a x).Balanced (l.release x.extent) where
  allocations := h.allocations
  frees := congrArg (· + 1) h.frees
  cursor := h.cursor
  bytes := by
    have hlive := hk.mem_live hx
    have hfit := hk.keeps.sound.fits _ (hk.keeps.sound.mem_carved_of_live hlive)
    rw [Ledger.stacked_release hfit.2.2.2 hlive]
    exact h.bytes

/-- Whatever is done, the books that are kept go on agreeing with the history. -/
theorem step (h : t.Balanced l) (hk : t.Kept l) (hs : Step t t') :
    ∃ l', t'.Kept l' ∧ t'.Balanced l' := by
  cases hs with
  | attach hr => exact ⟨l, hk.attach hr, h.allocations, h.frees, h.cursor, h.bytes⟩
  | @allocate a ha y hy =>
    cases hl : l.allocate y with
    | error e =>
      have hr := hk.keeps.refuse (hk.allocators a ha) hy hl
      refine ⟨l, hk.allocate_refused ha hy hl, ?_⟩
      simp only [Tenancy.allocate, hr.outcome]
      exact ⟨h.allocations, h.frees, h.cursor, h.bytes⟩
    | ok q =>
      obtain ⟨hr, -⟩ := hk.keeps.allocate (hk.allocators a ha) hy hl rfl
      refine ⟨q.2, (hk.allocate ha hy hl).1, ?_⟩
      simp only [Tenancy.allocate, hr.outcome]
      exact h.took hk hl rfl
  | free ha hx => exact ⟨_, hk.free ha hx, h.free hk hx⟩
  | write hx hi => exact ⟨l, hk.write hx hi, h.allocations, h.frees, h.cursor, h.bytes⟩

theorem reachable {id : AllocatorId} {r : Region} {p : Process} (hb : r.Backed p)
    (hn : Allocator.minRegionSize ≤ r.length) (ha : p.isAligned r.base Region.alignment)
    (h : Reachable id r p t) : ∃ l, t.Kept l ∧ t.Balanced l := by
  induction h with
  | refl => exact ⟨_, Kept.start hb hn ha, start id r p⟩
  | tail _ hs ih =>
    obtain ⟨l, hk, hl⟩ := ih
    exact hl.step hk hs

end Balanced

/-! ## Blocks that are not taken back -/

/-- No block was ever handed out that could be returned so: its alignment is beyond a page, or it
lies outside the region. -/
def Ignored (a : Allocator) (x : Address) (y : Layout) : Prop :=
  SizeClass.maxAlign < y.align ∨ a.contains x = false

theorem free_ignored {x : Address} {y : Layout} (hy : y.Valid) (h : Ignored a x y) (p : Process) :
    Ends (a.free x y : Action Process MemoryError Unit) p (.ok ()) p := by
  by_cases hal : SizeClass.maxAlign < y.align
  · exact .bind (.attempt_error (SizeClass.request_refused hal)) (Process.say_ends .pure)
  · have hin : a.contains x = false := h.resolve_left hal
    have ho : a.toOffset x = .null := Region.toOffset_of_contains_eq_false hin
    refine .bind (.attempt (SizeClass.request_ends (Nat.not_lt.1 hal) hy.need_le)) ?_
    simp only [ho]
    exact Process.say_ends (.bind .get .pure)

/-- Somebody returns what an allocator ignores. -/
def ignore (t : Tenancy) (a : Allocator) (x : Address) (y : Layout) : Tenancy :=
  { t with process := ((a.free x y : Action Process MemoryError Unit) t.process).state }

theorem ignore_eq {x : Address} {y : Layout} (hy : y.Valid) (h : Ignored a x y) :
    t.ignore a x y = t := by
  rw [ignore, (free_ignored hy h t.process).state]

/-- What may happen next, if also blocks are returned that are ignored. -/
inductive Move (t : Tenancy) : Tenancy → Prop
  | step {t' : Tenancy} (h : Step t t') : Move t t'
  | ignore {a : Allocator} (ha : a ∈ t.allocators) {x : Address} {y : Layout} (hy : y.Valid)
    (h : Ignored a x y) : Move t (t.ignore a x y)

/-- The states that a region can come to by moves. -/
abbrev Attained (id : AllocatorId) (r : Region) (p : Process) : Tenancy → Prop :=
  Relation.ReflTransGen Move (start id r p)

/-- What is ignored leads nowhere. -/
theorem Attained.reachable {id : AllocatorId} {r : Region} {p : Process}
    (h : Attained id r p t) : Reachable id r p t := by
  induction h with
  | refl => exact .refl
  | tail _ hm ih =>
    cases hm with
    | step hs => exact ih.tail hs
    | ignore _ hy hi =>
      rw [ignore_eq hy hi]
      exact ih

theorem Reachable.attained {id : AllocatorId} {r : Region} {p : Process}
    (h : Reachable id r p t) : Attained id r p t :=
  Relation.ReflTransGen.mono (fun _ _ => Move.step) _ _ h

/-! ## Counters -/

/-- What an allocator says of the counters agrees with the blocks. -/
structure Counted (t : Tenancy) (a : Allocator) : Prop where
  allocations : (a.stats t.process).allocations.toNat = taken t.history
  frees : (a.stats t.process).frees.toNat = returned t.history
  live : Ends ((a.stats t.process).live : Action Process MemoryError Nat) t.process
    (.ok t.leases.length) t.process
  bytesInUse : (a.stats t.process).bytesInUse.toNat = (t.leases.map fun x => x.layout.room).sum
  remaining : Ends (a.remaining : Action Process MemoryError Nat) t.process
    (.ok (t.capacity - t.cursor)) t.process
  cursor_le : t.cursor ≤ t.capacity
  /-- The blocks on the chains are those that were returned and not handed out again. -/
  chain : ∀ c : SizeClass, c.index < Header.classCount →
    t.bytes.Chain (Header.freeHead t.bytes c.index) (t.stack c)
  cursor : t.cursor = edge t.history
  balance : (a.stats t.process).bytesInUse.toNat + stacked t.stack + gaps t.history =
    t.cursor - Header.dataStart
  ignored : ∀ x y, y.Valid → Ignored a x y →
    Ends (a.free x y : Action Process MemoryError Unit) t.process (.ok ()) t.process
  refused : ∀ y, y.Valid → ∀ e, (a.allocate y t.process).outcome = .error e →
    Ends (a.allocate y) t.process (.error e) t.process

namespace Kept

theorem sum_room (h : t.Kept l) : (t.leases.map fun x => x.layout.room).sum = l.inUse := by
  have hp := (h.live.map Extent.size).sum_eq
  rw [List.map_map] at hp
  exact hp.symm

theorem stack_eq (h : t.Kept l) : t.stack = l.free := funext fun c => (h.chains c).symm

theorem remaining_ends (h : t.Kept l) (ha : a ∈ t.allocators) :
    Ends (a.remaining : Action Process MemoryError Nat) t.process
      (.ok (t.capacity - t.cursor)) t.process := by
  have hrun := Process.onBytes_ends (x := fun _ => Block.remaining)
    (Block.remaining_ends (ε := MemoryError) h.safe.cursor_le)
  rw [Process.setBytes_bytes] at hrun
  rw [Allocator.remaining, (h.allocators a ha).segment]
  exact hrun

theorem counted (h : t.Kept l) (hb : t.Balanced l) (hn : taken t.history < 2 ^ 64)
    (ha : a ∈ t.allocators) : t.Counted a := by
  have hstats := h.keeps.stats (h.allocators a ha)
  have hle := h.keeps.sound.cursor_le
  have hcap := h.keeps.sound.capacity_lt
  have hbytes := hb.bytes
  have heq := h.keeps.sound.allocations_eq
  have hallocs := hb.allocations
  have hlen : l.live.length = t.leases.length := by rw [h.live.length_eq, List.length_map]
  -- the cursor bounds the bytes in use, and the history the other two counters
  have hw₁ : (UInt64.ofNat l.allocations).toNat = l.allocations := toNat_word (by omega)
  have hw₂ : (UInt64.ofNat l.frees).toNat = l.frees := toNat_word (by omega)
  have hw₃ : (UInt64.ofNat l.inUse).toNat = l.inUse := toNat_word (by omega)
  have hused : (a.stats t.process).bytesInUse.toNat = l.inUse := by
    rw [hstats]
    exact hw₃
  refine
    { allocations := ?_, frees := ?_, live := ?_, bytesInUse := ?_
      remaining := h.remaining_ends ha, cursor_le := ?_, chain := h.actsAsStacks.chain
      cursor := h.cursor_eq.trans hb.cursor, balance := ?_
      ignored := fun x y hy hi => free_ignored hy hi t.process, refused := ?_ }
  · rw [hstats, ← hb.allocations]
    exact hw₁
  · rw [hstats, ← hb.frees]
    exact hw₂
  · rw [← hlen]
    exact h.keeps.live_ends (by omega) (h.allocators a ha)
  · rw [hused, h.sum_room]
  · rw [h.cursor_eq, h.capacity_eq]
    exact hle
  · rw [hused, h.stack_eq, h.cursor_eq]
    omega
  · intro y hy e he
    have hl := (h.outcome_eq_error_iff ha hy).1 he
    exact h.keeps.refuse (h.allocators a ha) hy hl

end Kept

/-- However a region is used from when it is formatted on, its counters agree with its blocks as
long as the count of blocks handed out fits a word. -/
theorem counted_of_attained {id : AllocatorId} {r : Region} {p : Process} (hb : r.Backed p)
    (hn : Allocator.minRegionSize ≤ r.length) (ha : p.isAligned r.base Region.alignment)
    (h : Attained id r p t) (ht : taken t.history < 2 ^ 64) : ∀ a ∈ t.allocators, t.Counted a := by
  intro a hmem
  obtain ⟨l, hk, hl⟩ := Balanced.reachable hb hn ha h.reachable
  exact hk.counted hl ht hmem

/-- A block is returned with an alignment that no block has, and one that lies elsewhere. -/
def pageIdle : Tenancy :=
  (pageUse.ignore ⟨page⟩ (.place 0 320) ⟨17, 8192⟩).ignore ⟨pageView⟩ (.place 7 64) ⟨64, 8⟩

theorem pageIdle_attained : Attained ⟨1, 0⟩ page pageProcess pageIdle := by
  have ha : pageUse.allocators = [⟨pageView⟩, ⟨page⟩] := pageThird_leases.2
  have h := pageUse_reachable.attained.tail
    (.ignore (a := ⟨page⟩) (x := .place 0 320) (y := ⟨17, 8192⟩) (by simp [ha]) (by decide)
      (.inl (by decide)))
  exact h.tail (.ignore (a := ⟨pageView⟩) (by simp [ha, ignore]) (by decide) (.inr (by decide)))

theorem counted_pageIdle : (taken pageIdle.history = 3 ∧ returned pageIdle.history = 2 ∧
    edge pageIdle.history = 512 ∧ gaps pageIdle.history = 32 ∧ stacked pageIdle.stack = 128) ∧
      pageIdle.Counted ⟨page⟩ := by
  have hsums : taken pageIdle.history = 3 ∧ returned pageIdle.history = 2 ∧
      edge pageIdle.history = 512 ∧ gaps pageIdle.history = 32 ∧ stacked pageIdle.stack = 128 := by
    decide +kernel
  have ha : pageIdle.allocators = [⟨pageView⟩, ⟨page⟩] := pageThird_leases.2
  refine ⟨hsums, ?_⟩
  exact counted_of_attained page_backed (by decide) (by decide) pageIdle_attained
    (by rw [hsums.1]; decide) _ (by simp [ha])

end Tenancy

end SharedHeap
