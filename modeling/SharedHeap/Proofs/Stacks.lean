import Mathlib.Order.Bounds.Basic
import SharedHeap.Proofs.Tenancy

/-!
# A region is a cursor and stacks of free blocks

An allocator that has paper needs a cursor and, for each size class, a stack of the offsets of free
blocks. Whatever was done to a region, its bytes amount to just that (`Tenancy.ActsAsStacks`): the
chain of a class is the stack of what was returned and not handed out again, and how an allocation
ends can be told from the cursor and the stack of one class (`Tenancy.Takes`).
-/

namespace SharedHeap

open SharedHeap.Action (Ends)

/-- The block was returned, and was not handed out after that. -/
def Waits (e : Extent) (past : List Dealing) : Prop :=
  ∃ recent x older, past = recent ++ .returned x :: older ∧ x.extent = e ∧
    ∀ z, .took z ∈ recent → z.extent ≠ e

theorem waits_cons_iff {e : Extent} {d : Dealing} {past : List Dealing} :
    Waits e (d :: past) ↔
      (∃ x, d = .returned x ∧ x.extent = e) ∨
        (Waits e past ∧ ∀ z, d = .took z → z.extent ≠ e) := by
  constructor
  · rintro ⟨recent, x, older, hpast, hx, hz⟩
    cases recent with
    | nil =>
      cases hpast
      exact .inl ⟨x, rfl, hx⟩
    | cons d' recent =>
      cases hpast
      refine .inr ⟨⟨recent, x, older, rfl, hx, fun z hmem => ?_⟩, fun z hd => ?_⟩
      · exact hz z (List.mem_cons_of_mem _ hmem)
      · exact hz z (hd ▸ List.mem_cons_self)
  · rintro (⟨x, rfl, hx⟩ | ⟨⟨recent, x, older, rfl, hx, hz⟩, hd⟩)
    · exact ⟨[], x, past, rfl, hx, fun z hz => (nomatch hz)⟩
    · refine ⟨d :: recent, x, older, rfl, hx, fun z hmem => ?_⟩
      rcases List.mem_cons.1 hmem with he | hmem
      · exact hd z he.symm
      · exact hz z hmem

theorem Lease.extent_eq_iff {x : Lease} {e : Extent} :
    x.extent = e ↔ x.extent.cls = e.cls ∧ x.offset.toNat = e.offset :=
  ⟨fun h => h ▸ ⟨rfl, rfl⟩, fun h => Extent.ext h.2 h.1⟩

/-- The stack of a class holds the blocks that wait. -/
theorem mem_waiting_iff {c : SizeClass} {past : List Dealing} {o : Nat} :
    o ∈ waiting c past ↔ Waits ⟨o, c⟩ past := by
  induction past with
  | nil => simp [waiting, Waits]
  | cons d past ih =>
    rw [waits_cons_iff, ← ih]
    cases d with
    | took z =>
      rw [waiting]
      split
      · next hc => simp [Lease.extent_eq_iff, hc, eq_comm (a := o)]
      · next hc => simp [Lease.extent_eq_iff, hc]
    | returned x =>
      rw [waiting]
      split
      · next hc => simp [Lease.extent_eq_iff, hc, eq_comm (a := o)]
      · next hc => simp [Lease.extent_eq_iff, hc]

namespace Ledger

variable {l : Ledger} {y : Layout}

theorem allocate_eq_invalid_iff {n : Nat} :
    l.allocate y = .error (.invalidAlignment n) ↔ SizeClass.maxAlign < y.align ∧ n = y.align := by
  simp only [allocate]
  split
  · next h => simp [h, eq_comm]
  · next h =>
    have : ¬ (SizeClass.maxAlign < y.align ∧ n = y.align) := fun h' => h h'.1
    simp only [this, iff_false]
    split
    · simp
    · split
      · simp
      · split <;> simp

theorem allocate_eq_full_iff (ha : y.align ≤ SizeClass.maxAlign) :
    l.allocate y = .error (.outOfMemory (SizeClass.ofLayout y).blockSize l.remaining) ↔
      Header.classCount ≤ (SizeClass.ofLayout y).index ∨
        (l.free (SizeClass.ofLayout y) = [] ∧
          l.capacity < (l.next (SizeClass.ofLayout y)).stop) := by
  simp only [allocate]
  rw [if_neg (by omega)]
  split
  · next h => simp [h]
  · next h =>
    split
    · next hf => simp [h, hf]
    · next hf => split <;> simp_all

theorem allocate_of_cons (ha : y.align ≤ SizeClass.maxAlign)
    (hc : (SizeClass.ofLayout y).index < Header.classCount) {o : Nat} {rest : List Nat}
    (hf : l.free (SizeClass.ofLayout y) = o :: rest) :
    l.allocate y = .ok (o, l.reuse (y.extent o) rest) := by
  simp only [allocate]
  rw [if_neg (by omega), if_neg (by omega), hf]
  rfl

theorem allocate_of_nil (ha : y.align ≤ SizeClass.maxAlign)
    (hc : (SizeClass.ofLayout y).index < Header.classCount)
    (hf : l.free (SizeClass.ofLayout y) = [])
    (hroom : (l.next (SizeClass.ofLayout y)).stop ≤ l.capacity) :
    l.allocate y =
      .ok ((l.next (SizeClass.ofLayout y)).offset, l.carve (SizeClass.ofLayout y)) := by
  simp only [allocate]
  rw [if_neg (by omega), if_neg (by omega), hf]
  exact if_neg (by omega)

end Ledger

namespace Layout

/-- The size of the blocks that serve a layout. -/
def room (y : Layout) : Nat := (SizeClass.ofLayout y).blockSize

theorem room_least (y : Layout) :
    IsLeast {n | (∃ k, n = 2 ^ k) ∧ max (max y.size y.align) 16 ≤ n} y.room := by
  refine ⟨⟨⟨_, rfl⟩, SizeClass.need_le_blockSize y⟩, ?_⟩
  rintro n ⟨⟨k, rfl⟩, hn⟩
  exact SizeClass.blockSize_le hn

theorem room_lt_iff (y : Layout) :
    2 ^ 31 < y.room ↔ Header.classCount ≤ (SizeClass.ofLayout y).index := by
  rw [room, SizeClass.blockSize, Nat.pow_lt_pow_iff_right (by decide), Header.classCount]
  omega

end Layout

namespace Tenancy

def cursor (t : Tenancy) : Nat := (Header.cursor t.bytes).toNat

def capacity (t : Tenancy) : Nat := (Header.capacity t.bytes).toNat

/-- The free blocks of a class, the one returned last first. -/
def stack (t : Tenancy) (c : SizeClass) : List Nat := waiting c t.history

/-- Where a new block for a layout begins. -/
def behind (t : Tenancy) (y : Layout) : Nat := roundUp t.cursor (min y.room 4096)

/-- A request for a block goes by the cursor and the stack of one class. -/
structure Takes (t : Tenancy) (a : Allocator) (y : Layout) : Prop where
  room_least : IsLeast {n | (∃ k, n = 2 ^ k) ∧ max (max y.size y.align) 16 ≤ n} y.room
  invalid_iff : (a.allocate y t.process).outcome = .error (.invalidAlignment y.align) ↔
    4096 < y.align
  full_iff : y.align ≤ 4096 →
    ((a.allocate y t.process).outcome =
        .error (.outOfMemory y.room (t.capacity - t.cursor)) ↔
      2 ^ 31 < y.room ∨
        (t.stack (SizeClass.ofLayout y) = [] ∧ t.capacity < t.behind y + y.room))
  pop : y.align ≤ 4096 → y.room ≤ 2 ^ 31 →
    ∀ o rest, t.stack (SizeClass.ofLayout y) = o :: rest →
      (a.allocate y t.process).outcome = .ok (.place t.region.segment o, .ofNat o) ∧
        (t.allocate a y).cursor = t.cursor ∧
        (t.allocate a y).stack (SizeClass.ofLayout y) = rest
  carve : y.align ≤ 4096 → y.room ≤ 2 ^ 31 → t.stack (SizeClass.ofLayout y) = [] →
    t.behind y + y.room ≤ t.capacity →
      (a.allocate y t.process).outcome =
          .ok (.place t.region.segment (t.behind y), .ofNat (t.behind y)) ∧
        (t.allocate a y).cursor = t.behind y + y.room ∧
        (t.allocate a y).stack (SizeClass.ofLayout y) = []
  others : ∀ d ≠ SizeClass.ofLayout y, (t.allocate a y).stack d = t.stack d
  /-- A request that fails changes nothing. -/
  refused : ∀ e, (a.allocate y t.process).outcome = .error e → t.allocate a y = t

/-- A block that is returned goes on top of the stack of its class. -/
structure Returns (t : Tenancy) (a : Allocator) (x : Lease) : Prop where
  outcome : (a.free x.address x.layout t.process).outcome = (.ok () : Outcome MemoryError Unit)
  cursor : (t.free a x).cursor = t.cursor
  stack : (t.free a x).stack x.extent.cls = x.offset.toNat :: t.stack x.extent.cls
  others : ∀ d ≠ x.extent.cls, (t.free a x).stack d = t.stack d

/-- The region acts as a cursor and stacks of free blocks. -/
structure ActsAsStacks (t : Tenancy) : Prop where
  lock : Header.lock t.bytes = 0
  chain : ∀ c : SizeClass, c.index < Header.classCount →
    t.bytes.Chain (Header.freeHead t.bytes c.index) (t.stack c)
  nodup : ∀ c, (t.stack c).Nodup
  mem_iff : ∀ c o, o ∈ t.stack c ↔ Waits ⟨o, c⟩ t.history
  apart_leases : ∀ x ∈ t.leases, ∀ c, ∀ o ∈ t.stack c, x.extent.Apart ⟨o, c⟩
  apart : ∀ c d, ∀ o ∈ t.stack c, ∀ q ∈ t.stack d, Extent.mk o c ≠ ⟨q, d⟩ →
    Extent.Apart ⟨o, c⟩ ⟨q, d⟩
  takes : ∀ a ∈ t.allocators, ∀ y : Layout, y.Valid → t.Takes a y
  returns : ∀ a ∈ t.allocators, ∀ x ∈ t.leases, t.Returns a x

namespace Kept

variable {t : Tenancy} {l : Ledger} {a : Allocator} {x : Lease} {y : Layout}

theorem cursor_eq (h : t.Kept l) : t.cursor = l.cursor := h.keeps.books.cursor h.keeps.sound

theorem capacity_eq (h : t.Kept l) : t.capacity = l.capacity :=
  h.keeps.books.capacity h.keeps.sound

theorem behind_eq (h : t.Kept l) (y : Layout) :
    t.behind y = (l.next (SizeClass.ofLayout y)).offset := by
  rw [behind, h.cursor_eq]
  rfl

theorem outcome_allocate (h : t.Kept l) (ha : a ∈ t.allocators) (hy : y.Valid) :
    (a.allocate y t.process).outcome = match l.allocate y with
      | .error e => .error e
      | .ok (o, _) => .ok (.place t.region.segment o, .ofNat o) := by
  cases hl : l.allocate y with
  | error e => exact (h.keeps.refuse (h.allocators a ha) hy hl).outcome
  | ok r =>
    obtain ⟨hr, -⟩ := h.keeps.allocate (h.allocators a ha) hy hl rfl
    exact hr.outcome

theorem outcome_eq_error_iff (h : t.Kept l) (ha : a ∈ t.allocators) (hy : y.Valid)
    {e : MemoryError} :
    (a.allocate y t.process).outcome = .error e ↔ l.allocate y = .error e := by
  rw [h.outcome_allocate ha hy]
  cases l.allocate y with
  | error e' => simp
  | ok r => simp

theorem takes (h : t.Kept l) (ha : a ∈ t.allocators) (hy : y.Valid) : t.Takes a y where
  room_least := y.room_least
  invalid_iff := by
    rw [h.outcome_eq_error_iff ha hy, Ledger.allocate_eq_invalid_iff]
    exact and_iff_left rfl
  full_iff hal := by
    rw [h.outcome_eq_error_iff ha hy, h.capacity_eq, h.cursor_eq, h.behind_eq, y.room_lt_iff,
      stack, ← h.chains]
    exact Ledger.allocate_eq_full_iff hal
  pop hal hroom o rest hs := by
    rw [stack, ← h.chains] at hs
    have hc := (not_congr y.room_lt_iff).1 (Nat.not_lt.2 hroom)
    have hl := Ledger.allocate_of_cons hal (Nat.not_le.1 hc) hs
    obtain ⟨hk, -⟩ := h.allocate ha hy hl
    rw [h.outcome_allocate ha hy, hl, hk.cursor_eq, h.cursor_eq, stack, ← hk.chains]
    exact ⟨rfl, rfl, Function.update_self ..⟩
  carve hal hroom hs hcap := by
    rw [h.behind_eq, h.capacity_eq] at hcap
    rw [stack, ← h.chains] at hs
    have hc := (not_congr y.room_lt_iff).1 (Nat.not_lt.2 hroom)
    have hl := Ledger.allocate_of_nil hal (Nat.not_le.1 hc) hs hcap
    obtain ⟨hk, -⟩ := h.allocate ha hy hl
    rw [h.outcome_allocate ha hy, hl, hk.cursor_eq, h.behind_eq, stack, ← hk.chains]
    exact ⟨rfl, rfl, hs⟩
  others d hd := by
    cases hl : l.allocate y with
    | error e =>
      have hk := h.allocate_refused ha hy hl
      rw [stack, ← hk.chains, h.chains, stack]
    | ok r =>
      obtain ⟨o, l'⟩ := r
      have hk := (h.allocate ha hy hl).1
      rw [stack, ← hk.chains, stack, ← h.chains]
      obtain ⟨-, -, ⟨rest, -, rfl⟩ | ⟨-, -, -, rfl⟩⟩ := Ledger.allocate_cases hl
      · exact Function.update_of_ne hd ..
      · rfl
  refused e he := by
    have hr := h.keeps.refuse (h.allocators a ha) hy ((h.outcome_eq_error_iff ha hy).1 he)
    simp only [Tenancy.allocate, hr.outcome, hr.state]

theorem returns (h : t.Kept l) (ha : a ∈ t.allocators) (hx : x ∈ t.leases) : t.Returns a x where
  outcome := by
    obtain ⟨hy, hal, hx'⟩ := h.leases x hx
    rw [hx']
    exact (h.keeps.free (h.allocators a ha) hal hy (h.mem_live hx)).1.outcome
  cursor := by
    rw [(h.free ha hx).cursor_eq, h.cursor_eq]
    rfl
  stack := by
    simp only [Tenancy.stack, Tenancy.free, waiting, if_true]
  others d hd := by
    simp only [Tenancy.stack, Tenancy.free, waiting]
    exact if_neg fun he => hd he.symm

theorem actsAsStacks (h : t.Kept l) : t.ActsAsStacks where
  lock := h.keeps.books.lock
  chain c hc := by
    rw [stack, ← h.chains]
    exact h.keeps.books.chain c hc
  nodup c := by
    rw [stack, ← h.chains]
    exact h.keeps.sound.free_nodup c
  mem_iff _ _ := mem_waiting_iff
  apart_leases x hx c o ho := by
    rw [stack, ← h.chains] at ho
    exact h.keeps.sound.live_apart_free (h.mem_live hx) ho
  apart c d o ho q hq hne := by
    rw [stack, ← h.chains] at ho hq
    exact h.keeps.sound.free_apart ho hq hne
  takes a ha y hy := h.takes ha hy
  returns a ha x hx := h.returns ha hx

end Kept

/-- However a region is used from when it is formatted on, it acts as a cursor and stacks. -/
theorem actsAsStacks_of_reachable {id : AllocatorId} {r : Region} {p : Process} (hb : r.Backed p)
    (hn : Allocator.minRegionSize ≤ r.length) (ha : p.isAligned r.base Region.alignment)
    {t : Tenancy} (h : Reachable id r p t) : t.ActsAsStacks := by
  obtain ⟨l, hl⟩ := Kept.reachable hb hn ha h
  exact hl.actsAsStacks

theorem actsAsStacks_pageUse : pageUse.stack ⟨3⟩ = [384] ∧ pageUse.ActsAsStacks :=
  ⟨by decide +kernel,
    actsAsStacks_of_reachable page_backed (by decide) (by decide) pageUse_reachable⟩

end Tenancy

end SharedHeap
