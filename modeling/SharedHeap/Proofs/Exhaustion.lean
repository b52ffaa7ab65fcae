import Mathlib.Data.List.Range
import SharedHeap.Allocator.Fill
import SharedHeap.Proofs.Continuation
import SharedHeap.Proofs.Stacks

/-!
# How much a region still has to give

Asking for blocks of one layout until there is none gives out the blocks on the chain of its class,
then those that fit behind the cursor, and ends with the error that says what is left
(`Tenancy.Exhausts`). Only the first block behind the cursor has to be aligned: where it ends the
next one begins.
-/

namespace SharedHeap

open SharedHeap.Action (Ends)

theorem roundUp_of_dvd {n align : Nat} (h₀ : 0 < align) (h : align ∣ n) : roundUp n align = n := by
  have h₁ := le_roundUp n h₀
  have h₂ := roundUp_lt_add n h₀
  have h₃ := Nat.eq_zero_of_dvd_of_lt (Nat.dvd_sub (dvd_roundUp n align) h) (by omega)
  omega

theorem SizeClass.blockAlign_dvd_blockSize (c : SizeClass) : c.blockAlign ∣ c.blockSize := by
  have hmax : SizeClass.maxAlign = 2 ^ 12 := rfl
  rw [blockAlign, blockSize, hmax]
  rcases Nat.le_total (2 ^ (c.index + 4)) (2 ^ 12) with h | h
  · simp only [Nat.min_eq_left h, Nat.dvd_refl]
  · rw [Nat.min_eq_right h]
    exact Nat.pow_dvd_pow 2 ((Nat.pow_le_pow_iff_right (by decide)).1 h)

theorem Layout.room_pos (y : Layout) : 0 < y.room :=
  Nat.lt_of_lt_of_le (by decide) (SizeClass.ofLayout y).sixteen_le_blockSize

namespace Allocator

variable {a : Allocator} {y : Layout} {p q q' : Process} {e e' : MemoryError}
  {xs xs' : List (Address × Offset)}

/-- Asking for blocks until there is an error gets these blocks, one after the other. -/
inductive Drains (a : Allocator) (y : Layout) :
    Process → List (Address × Offset) → MemoryError → Process → Prop
  | refused {p q : Process} {e : MemoryError} (h : Ends (a.allocate y) p (.error e) q) :
    Drains a y p [] e q
  | granted {p p' q : Process} {x : Address × Offset} {xs : List (Address × Offset)}
    {e : MemoryError} (h : Ends (a.allocate y) p (.ok x) p') (hs : Drains a y p' xs e q) :
    Drains a y p (x :: xs) e q

namespace Drains

theorem unique (h : a.Drains y p xs e q) (h' : a.Drains y p xs' e' q') :
    xs = xs' ∧ e = e' ∧ q = q' := by
  induction h generalizing xs' with
  | refused h =>
    cases h' with
    | refused h' =>
      obtain ⟨he, hq⟩ := h.unique h'
      exact ⟨rfl, Outcome.error.inj he, hq⟩
    | granted h' => cases (h.unique h').1
  | granted h _ ih =>
    cases h' with
    | refused h' => cases (h.unique h').1
    | granted h' hs' =>
      obtain ⟨ho, rfl⟩ := h.unique h'
      obtain ⟨rfl, rest⟩ := ih hs'
      exact ⟨congrArg (· :: _) (Outcome.ok.inj ho), rest⟩

/-- Filling gets the same blocks, as many as it was told to get at most. -/
theorem fill_ends {ε : Type} (h : a.Drains y p xs e q) (n : Nat) :
    ∃ q', Ends (a.fill y n : Action Process ε _) p
      (.ok (min n xs.length, if xs.length < n then some e else none)) q' := by
  induction h generalizing n with
  | refused h =>
    cases n with
    | zero => exact ⟨_, rfl, rfl⟩
    | succ n =>
      rw [fill_succ]
      exact ⟨_, .bind h.attempt_error .pure⟩
  | granted h _ ih =>
    cases n with
    | zero => exact ⟨_, rfl, rfl⟩
    | succ n =>
      obtain ⟨q', hq⟩ := ih n
      rw [fill_succ]
      refine ⟨q', .bind h.attempt ?_⟩
      simpa only [List.length_cons, Nat.add_lt_add_iff_right, Nat.add_min_add_right] using hq.map

end Drains

end Allocator

namespace Tenancy

variable {id : AllocatorId} {r : Region} {p : Process} {t : Tenancy} {l : Ledger} {a : Allocator}
  {y : Layout}

/-- How many blocks for a layout fit behind the cursor. -/
def fitting (t : Tenancy) (y : Layout) : Nat := (t.capacity - t.behind y) / y.room

/-- The offsets of blocks that lie one behind the other. -/
def row (start size count : Nat) : List Nat := (List.range count).map fun i => start + i * size

/-- What is answered when the block at an offset is handed out. -/
def found (t : Tenancy) (o : Nat) : Address × Offset := (.place t.region.segment o, .ofNat o)

/-- Where the cursor is when no block for a layout is left. -/
def limit (t : Tenancy) (y : Layout) : Nat :=
  if t.fitting y = 0 then t.cursor else t.behind y + t.fitting y * y.room

/-- Allocation goes on until the chain of the class is empty and the region is full. -/
structure Exhausts (t : Tenancy) (a : Allocator) (y : Layout) : Prop where
  room_least : IsLeast {n | (∃ k, n = 2 ^ k) ∧ max (max y.size y.align) 16 ≤ n} y.room
  chain : t.bytes.Chain (Header.freeHead t.bytes (SizeClass.ofLayout y).index)
    (t.stack (SizeClass.ofLayout y))
  drains : ∃ q, (Header.cursor (q.bytes t.region.segment)).toNat = t.limit y ∧
    ∀ xs e q', a.Drains y t.process xs e q' ↔
      xs = (t.stack (SizeClass.ofLayout y) ++ row (t.behind y) y.room (t.fitting y)).map t.found ∧
        e = .outOfMemory y.room (t.capacity - t.limit y) ∧ q' = q
  /-- So filling the region ends after as many blocks. -/
  fill : ∀ n, (a.fill y n t.process : Ran Process MemoryError _).outcome =
    .ok (min n ((t.stack (SizeClass.ofLayout y)).length + t.fitting y),
      if (t.stack (SizeClass.ofLayout y)).length + t.fitting y < n then
        some (.outOfMemory y.room (t.capacity - t.limit y)) else none)

theorem row_succ (start size count : Nat) :
    row start size (count + 1) = start :: row (start + size) size count := by
  rw [row, List.range_succ_eq_map, List.map_cons, List.map_map, row]
  refine congrArg₂ _ (by omega) (List.map_congr_left fun i _ => ?_)
  simp only [Function.comp_apply, Nat.succ_eq_add_one, Nat.add_mul]
  omega

@[simp] theorem process_allocate (t : Tenancy) (a : Allocator) (y : Layout) :
    (t.allocate a y).process = (a.allocate y t.process).state := by
  rw [allocate]
  split <;> rfl

theorem found_allocate (t : Tenancy) (a : Allocator) (y : Layout) :
    (t.allocate a y).found = t.found := by
  funext o
  rw [found, found, (region_allocate t a y).1]

theorem row_zero (start size : Nat) : row start size 0 = [] := rfl

namespace Kept

theorem capacity_allocate (h : t.Kept l) (ha : a ∈ t.allocators) (hy : y.Valid) :
    (t.allocate a y).capacity = t.capacity := by
  obtain ⟨l', h'⟩ := h.step (.allocate ha hy)
  rw [h.capacity_eq, h'.capacity_eq, h.keeps.capacity, h'.keeps.capacity,
    (region_allocate t a y).1]

/-- A request for a block ends on the state that comes next. -/
theorem ends (t : Tenancy) (a : Allocator) (y : Layout) :
    Ends (a.allocate y) t.process (a.allocate y t.process).outcome (t.allocate a y).process :=
  ⟨rfl, (process_allocate t a y).symm⟩

/-- After a block was carved the next one lies right behind it, and there is room for one less. -/
theorem carved (h : t.Kept l) (ha : a ∈ t.allocators) (hy : y.Valid) (hal : y.align ≤ 4096)
    (hroom : y.room ≤ 2 ^ 31) (hs : t.stack (SizeClass.ofLayout y) = [])
    (hfit : t.behind y + y.room ≤ t.capacity) :
    (t.allocate a y).behind y = t.behind y + y.room ∧
      t.fitting y = (t.allocate a y).fitting y + 1 ∧ (t.allocate a y).limit y = t.limit y := by
  have hcur := ((h.takes ha hy).carve hal hroom hs hfit).2.1
  have hcap := h.capacity_allocate ha hy
  have hbehind : (t.allocate a y).behind y = t.behind y + y.room := by
    rw [behind, hcur]
    refine roundUp_of_dvd (SizeClass.ofLayout y).blockAlign_pos ?_
    exact Nat.dvd_add (dvd_roundUp ..) (SizeClass.ofLayout y).blockAlign_dvd_blockSize
  have hfitting : t.fitting y = (t.allocate a y).fitting y + 1 := by
    rw [fitting, fitting, hcap, hbehind, Nat.sub_add_eq]
    exact Nat.div_eq_sub_div y.room_pos (by omega)
  refine ⟨hbehind, hfitting, ?_⟩
  rw [limit, limit, hfitting, if_neg (Nat.succ_ne_zero _), hbehind, hcur, Nat.add_mul]
  split
  · next hk => rw [hk]; omega
  · omega

/-- How a run goes on behind a block that was handed out. -/
theorem granted (h : t.Kept l) (ha : a ∈ t.allocators) (hy : y.Valid) {o : Nat}
    (ho : (a.allocate y t.process).outcome = .ok (t.found o))
    (hlimit : (t.allocate a y).limit y = t.limit y) {os : List Nat} {q : Process}
    (hd : a.Drains y (t.allocate a y).process (os.map (t.allocate a y).found)
      (.outOfMemory y.room ((t.allocate a y).capacity - (t.allocate a y).limit y)) q) :
    a.Drains y t.process ((o :: os).map t.found)
      (.outOfMemory y.room (t.capacity - t.limit y)) q := by
  rw [found_allocate, h.capacity_allocate ha hy, hlimit] at hd
  have hends := ends t a y
  rw [ho] at hends
  exact .granted hends hd

/-- With no block on the chain, the blocks that fit behind the cursor are what there is. -/
theorem drains_row (h : t.Kept l) (ha : a ∈ t.allocators) (hy : y.Valid)
    (hal : y.align ≤ 4096) (hroom : y.room ≤ 2 ^ 31)
    (hs : t.stack (SizeClass.ofLayout y) = []) :
    ∃ q, a.Drains y t.process ((row (t.behind y) y.room (t.fitting y)).map t.found)
        (.outOfMemory y.room (t.capacity - t.limit y)) q ∧
      (Header.cursor (q.bytes t.region.segment)).toNat = t.limit y := by
  obtain ⟨k, hk⟩ : ∃ k, t.fitting y = k := ⟨_, rfl⟩
  induction k generalizing t l with
  | zero =>
    have hfull : t.capacity < t.behind y + y.room := by
      have := (Nat.div_eq_zero_iff_lt y.room_pos).1 hk
      omega
    have ho := ((h.takes ha hy).full_iff hal).2 (.inr ⟨hs, hfull⟩)
    have hends := ends t a y
    rw [ho, (h.takes ha hy).refused _ ho] at hends
    rw [limit, if_pos hk, hk, row_zero]
    exact ⟨_, .refused hends, rfl⟩
  | succ k ih =>
    have hfit : t.behind y + y.room ≤ t.capacity := by
      have := (Nat.le_div_iff_mul_le y.room_pos).1 (Nat.le_of_eq hk.symm)
      rw [Nat.add_mul] at this
      have := y.room_pos
      omega
    obtain ⟨ho, -, hs'⟩ := (h.takes ha hy).carve hal hroom hs hfit
    obtain ⟨hbehind, hfitting, hlimit⟩ := h.carved ha hy hal hroom hs hfit
    obtain ⟨hr, has⟩ := region_allocate t a y
    obtain ⟨l', h'⟩ := h.step (.allocate ha hy)
    obtain ⟨q, hd, hq⟩ := ih h' (has ▸ ha) hs' (by omega)
    rw [hfitting, row_succ, ← hbehind]
    exact ⟨q, h.granted ha hy ho hlimit hd, by rw [← hlimit, ← hr, hq]⟩

/-- First the chain is used up, and neither the cursor nor what lies behind it changes. -/
theorem drains (h : t.Kept l) (ha : a ∈ t.allocators) (hy : y.Valid) (hal : y.align ≤ 4096)
    (hroom : y.room ≤ 2 ^ 31) :
    ∃ q, a.Drains y t.process
        ((t.stack (SizeClass.ofLayout y) ++ row (t.behind y) y.room (t.fitting y)).map t.found)
        (.outOfMemory y.room (t.capacity - t.limit y)) q ∧
      (Header.cursor (q.bytes t.region.segment)).toNat = t.limit y := by
  obtain ⟨os, hs⟩ : ∃ os, t.stack (SizeClass.ofLayout y) = os := ⟨_, rfl⟩
  induction os generalizing t l with
  | nil =>
    rw [hs, List.nil_append]
    exact h.drains_row ha hy hal hroom hs
  | cons o os ih =>
    obtain ⟨ho, hcur, hs'⟩ := (h.takes ha hy).pop hal hroom o os hs
    have hcap := h.capacity_allocate ha hy
    have hbehind : (t.allocate a y).behind y = t.behind y := by rw [behind, behind, hcur]
    have hfitting : (t.allocate a y).fitting y = t.fitting y := by
      rw [fitting, fitting, hcap, hbehind]
    have hlimit : (t.allocate a y).limit y = t.limit y := by
      rw [limit, limit, hfitting, hbehind, hcur]
    obtain ⟨hr, has⟩ := region_allocate t a y
    obtain ⟨l', h'⟩ := h.step (.allocate ha hy)
    obtain ⟨q, hd, hq⟩ := ih h' (has ▸ ha) hs'
    rw [hs', hfitting, hbehind] at hd
    rw [hs, List.cons_append]
    exact ⟨q, h.granted ha hy ho hlimit hd, by rw [← hlimit, ← hr, hq]⟩

end Kept

/-- However a region is used from when it is formatted on, it can be told how much it still has to
give. -/
theorem exhausts_of_reachable (hb : r.Backed p) (hn : Allocator.minRegionSize ≤ r.length)
    (ha : p.isAligned r.base Region.alignment) (h : Reachable id r p t) (hmem : a ∈ t.allocators)
    (hy : y.Valid) (hal : y.align ≤ 4096) (hroom : y.room ≤ 2 ^ 31) : t.Exhausts a y := by
  obtain ⟨l, hl⟩ := Kept.reachable hb hn ha h
  obtain ⟨q, hd, hq⟩ := hl.drains hmem hy hal hroom
  refine ⟨y.room_least, ?_, ⟨q, hq, fun xs e q' => ⟨fun h' => h'.unique hd, ?_⟩⟩, fun n => ?_⟩
  · refine hl.actsAsStacks.chain _ ?_
    exact Nat.not_le.1 ((not_congr y.room_lt_iff).1 (Nat.not_lt.2 hroom))
  · rintro ⟨rfl, rfl, rfl⟩
    exact hd
  · obtain ⟨q', hfill⟩ := hd.fill_ends (ε := MemoryError) n
    rw [hfill.outcome, List.length_map, List.length_append, row, List.length_map,
      List.length_range]

/-- The page gives out the block that was returned last, and 28 more. -/
theorem exhausts_pageUse :
    pageUse.stack ⟨3⟩ = [384] ∧ pageUse.behind ⟨100, 4⟩ = 512 ∧ pageUse.fitting ⟨100, 4⟩ = 28 ∧
      pageUse.Exhausts ⟨page⟩ ⟨100, 4⟩ := by
  refine ⟨by decide +kernel, by decide +kernel, by decide +kernel, ?_⟩
  refine exhausts_of_reachable page_backed (by decide) (by decide) pageUse_reachable ?_
    (by decide) (by decide) (by decide)
  simp [pageUse, free, pageThird_leases.2]

end Tenancy

end SharedHeap
