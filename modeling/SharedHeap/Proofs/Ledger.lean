import Mathlib.Algebra.Ring.Nat
import Mathlib.Data.List.Nodup
import Mathlib.Data.List.Pairwise
import Mathlib.Logic.Function.Basic
import SharedHeap.Allocator.Block

/-!
# Ledgers

The books that an allocator could keep if it had paper and no bytes: a cursor, a stack of free
blocks for each size class, and the blocks that are handed out. `Ledger.allocate` and
`Ledger.release` are the rules that blocks are taken and returned by; that the bytes of a region
follow them is shown in `SharedHeap.Proofs.Books`.

Every block was carved once and is ever after either handed out or free (`Ledger.Sound.split`), and
carved blocks lie apart (`Ledger.Sound.apart`). All that is known of blocks follows from these two.
-/

namespace SharedHeap

theorem SizeClass.eq_of_index {c d : SizeClass} (h : c.index = d.index) : c = d := by
  cases c
  cases d
  cases h
  rfl

/-- A block of a class at an offset. -/
@[ext] structure Extent where
  offset : Nat
  cls : SizeClass
deriving DecidableEq, Repr

namespace Extent

def size (e : Extent) : Nat := e.cls.blockSize

/-- Where the block ends. -/
def stop (e : Extent) : Nat := e.offset + e.size

/-- The blocks have no byte in common. -/
def Apart (e f : Extent) : Prop := e.stop ≤ f.offset ∨ f.stop ≤ e.offset

/-- The position is one of the block's. -/
def Covers (e : Extent) (i : Nat) : Prop := e.offset ≤ i ∧ i < e.stop

theorem Apart.symm {e f : Extent} (h : e.Apart f) : f.Apart e := Or.symm h

instance : Std.Symm Apart := ⟨fun _ _ => Apart.symm⟩

theorem sixteen_le_size (e : Extent) : 16 ≤ e.size := e.cls.sixteen_le_blockSize

theorem Apart.offset_ne {e f : Extent} (h : e.Apart f) : e.offset ≠ f.offset := by
  have h₁ := e.sixteen_le_size
  have h₂ := f.sixteen_le_size
  have h₃ : e.stop = e.offset + e.size := rfl
  have h₄ : f.stop = f.offset + f.size := rfl
  rcases h with h | h <;> omega

theorem Apart.ne {e f : Extent} (h : e.Apart f) : e ≠ f :=
  fun he => h.offset_ne (congrArg offset he)

theorem Apart.not_covers {e f : Extent} (h : e.Apart f) {i : Nat} (hi : e.Covers i) :
    ¬ f.Covers i := by
  rintro ⟨h₁, h₂⟩
  obtain ⟨h₃, h₄⟩ := hi
  rcases h with h | h <;> omega

/-- Blocks that lie apart between two positions have no more bytes than there are between them. -/
theorem sum_size_le {es : List Extent} {lo hi : Nat} (h : es.Pairwise Apart) (hle : lo ≤ hi)
    (hin : ∀ e ∈ es, lo ≤ e.offset ∧ e.stop ≤ hi) : lo + (es.map size).sum ≤ hi := by
  induction hn : es.length using Nat.strongRecOn generalizing es lo hi with
  | ind n ih =>
    cases es with
    | nil => exact hle
    | cons e es =>
      -- the others lie before the first one or behind it
      obtain ⟨hfirst, hrest⟩ := List.pairwise_cons.1 h
      obtain ⟨h₁, h₂⟩ := hin e List.mem_cons_self
      have hstop : e.stop = e.offset + e.size := rfl
      have hlen (q : Extent → Bool) : (es.filter q).length < n := by
        have := List.length_filter_le q es
        rw [List.length_cons] at hn
        omega
      have hbefore := ih _ (hlen fun f => f.stop ≤ e.offset) (hrest.filter _) h₁ (fun f hf => by
        obtain ⟨hf, hle⟩ := List.mem_filter.1 hf
        exact ⟨(hin f (List.mem_cons_of_mem _ hf)).1, of_decide_eq_true hle⟩) rfl
      have hbehind := ih _ (hlen fun f => !decide (f.stop ≤ e.offset)) (hrest.filter _) h₂
        (fun f hf => by
          obtain ⟨hf, hnot⟩ := List.mem_filter.1 hf
          have hnot' : ¬ f.stop ≤ e.offset := by simpa using hnot
          exact ⟨(hfirst f hf).resolve_right hnot', (hin f (List.mem_cons_of_mem _ hf)).2⟩) rfl
      have hsum := ((List.filter_append_perm (fun f : Extent => f.stop ≤ e.offset) es).map
        size).sum_nat
      rw [List.map_append, List.sum_append_nat] at hsum
      rw [List.map_cons, List.sum_cons]
      omega

theorem length_le_sum_size (es : List Extent) : 16 * es.length ≤ (es.map size).sum := by
  induction es with
  | nil => exact Nat.le_refl _
  | cons e es ih =>
    have := e.sixteen_le_size
    rw [List.map_cons, List.sum_cons, List.length_cons]
    omega

end Extent

/-- The block that serves a layout at an offset. -/
def Layout.extent (y : Layout) (offset : Nat) : Extent := ⟨offset, SizeClass.ofLayout y⟩

@[simp] theorem Layout.extent_offset (y : Layout) (o : Nat) : (y.extent o).offset = o := rfl

@[simp] theorem Layout.extent_cls (y : Layout) (o : Nat) :
    (y.extent o).cls = SizeClass.ofLayout y := rfl

theorem Layout.size_le_blockSize (y : Layout) : y.size ≤ (SizeClass.ofLayout y).blockSize :=
  Nat.le_trans (Nat.le_trans (Nat.le_max_left ..) (Nat.le_max_left ..))
    (SizeClass.need_le_blockSize y)

structure Ledger where
  id : AllocatorId
  /-- The length of the region. -/
  capacity : Nat
  /-- The end of the block that was carved last. -/
  cursor : Nat
  /-- How many blocks were handed out so far. -/
  allocations : Nat
  /-- How many blocks were returned so far. -/
  frees : Nat
  /-- All blocks that were carved, the last one first. -/
  carved : List Extent
  /-- The offsets of the free blocks of each class, the one returned last first. -/
  free : SizeClass → List Nat
  /-- The blocks that are handed out, the last one first. -/
  live : List Extent

namespace Ledger

/-- The books of a region in which no block was carved. -/
def fresh (id : AllocatorId) (capacity : Nat) : Ledger where
  id := id
  capacity := capacity
  cursor := Header.dataStart
  allocations := 0
  frees := 0
  carved := []
  free _ := []
  live := []

/-- Hands out the free block at the top of the stack of its class; the others remain. -/
def reuse (l : Ledger) (e : Extent) (rest : List Nat) : Ledger :=
  { l with
    allocations := l.allocations + 1
    free := Function.update l.free e.cls rest
    live := e :: l.live }

/-- The next block of a class behind the cursor. -/
def next (l : Ledger) (c : SizeClass) : Extent := ⟨Block.carveStart c l.cursor, c⟩

/-- Carves a block behind the cursor and hands it out. -/
def carve (l : Ledger) (c : SizeClass) : Ledger :=
  { l with
    cursor := (l.next c).stop
    allocations := l.allocations + 1
    carved := l.next c :: l.carved
    live := l.next c :: l.live }

/-- How many bytes lie behind the cursor. -/
def remaining (l : Ledger) : Nat := l.capacity - l.cursor

/-- Takes a block for a layout. Without one, the books stay as they are. -/
def allocate (l : Ledger) (y : Layout) : Except MemoryError (Nat × Ledger) :=
  let c := SizeClass.ofLayout y
  if SizeClass.maxAlign < y.align then .error (.invalidAlignment y.align)
  else if Header.classCount ≤ c.index then .error (.outOfMemory c.blockSize l.remaining)
  else
    match l.free c with
    | o :: rest => .ok (o, l.reuse ⟨o, c⟩ rest)
    | [] =>
      if l.capacity < (l.next c).stop then .error (.outOfMemory c.blockSize l.remaining)
      else .ok ((l.next c).offset, l.carve c)

/-- Returns a block. -/
def release (l : Ledger) (e : Extent) : Ledger :=
  { l with
    frees := l.frees + 1
    free := Function.update l.free e.cls (e.offset :: l.free e.cls)
    live := l.live.erase e }

/-- How a block can come to be handed out. -/
theorem allocate_cases {l l' : Ledger} {y : Layout} {o : Nat} (h : l.allocate y = .ok (o, l')) :
    y.align ≤ SizeClass.maxAlign ∧ (SizeClass.ofLayout y).index < Header.classCount ∧
      ((∃ rest, l.free (SizeClass.ofLayout y) = o :: rest ∧ l' = l.reuse (y.extent o) rest) ∨
        (l.free (SizeClass.ofLayout y) = [] ∧ (l.next (SizeClass.ofLayout y)).stop ≤ l.capacity ∧
          o = (l.next (SizeClass.ofLayout y)).offset ∧ l' = l.carve (SizeClass.ofLayout y))) := by
  simp only [allocate] at h
  split at h
  · cases h
  · next ha =>
    split at h
    · cases h
    · next hc =>
      refine ⟨by omega, by omega, ?_⟩
      split at h
      · next o' rest hf =>
        cases h
        exact .inl ⟨rest, hf, rfl⟩
      · next hf =>
        split at h
        · cases h
        · next hroom =>
          cases h
          exact .inr ⟨hf, by omega, rfl, rfl⟩

/-- What holds of the books at all times. -/
structure Sound (l : Ledger) : Prop where
  start_le : Header.dataStart ≤ l.cursor
  cursor_le : l.cursor ≤ l.capacity
  /-- Rounding the cursor up stays within 64 bits. -/
  capacity_lt : l.capacity + SizeClass.maxAlign < 2 ^ 64
  fits : ∀ e ∈ l.carved, Header.dataStart ≤ e.offset ∧ e.stop ≤ l.cursor ∧
    e.cls.blockAlign ∣ e.offset ∧ e.cls.index < Header.classCount
  apart : l.carved.Pairwise Extent.Apart
  /-- Every carved block is either handed out or free. -/
  split : ∀ e, l.live.count e + (l.free e.cls).count e.offset = l.carved.count e
  allocations_eq : l.allocations = l.frees + l.live.length

namespace Sound

variable {l : Ledger}

theorem fresh {id : AllocatorId} {capacity : Nat} (h₁ : Header.dataStart ≤ capacity)
    (h₂ : capacity + SizeClass.maxAlign < 2 ^ 64) : (Ledger.fresh id capacity).Sound where
  start_le := Nat.le_refl _
  cursor_le := h₁
  capacity_lt := h₂
  fits _ h := nomatch h
  apart := .nil
  split _ := rfl
  allocations_eq := rfl

/-! ## Blocks of sound books -/

theorem carved_nodup (h : l.Sound) : l.carved.Nodup := h.apart.imp Extent.Apart.ne

theorem count_le_one (h : l.Sound) (e : Extent) :
    l.live.count e + (l.free e.cls).count e.offset ≤ 1 := by
  rw [h.split]
  exact List.nodup_iff_count_le_one.1 h.carved_nodup e

theorem live_nodup (h : l.Sound) : l.live.Nodup :=
  List.nodup_iff_count_le_one.2 fun e => Nat.le_trans (Nat.le_add_right ..) (h.count_le_one e)

theorem free_nodup (h : l.Sound) (c : SizeClass) : (l.free c).Nodup :=
  List.nodup_iff_count_le_one.2 fun o =>
    Nat.le_trans (Nat.le_add_left ..) (h.count_le_one ⟨o, c⟩)

theorem mem_carved_of_live (h : l.Sound) {e : Extent} (he : e ∈ l.live) : e ∈ l.carved := by
  have h₁ := List.count_pos_iff.2 he
  have h₂ := h.split e
  exact List.count_pos_iff.1 (by omega)

theorem mem_carved_of_free (h : l.Sound) {e : Extent} (he : e.offset ∈ l.free e.cls) :
    e ∈ l.carved := by
  have h₁ := List.count_pos_iff.2 he
  have h₂ := h.split e
  exact List.count_pos_iff.1 (by omega)

theorem not_free_of_live (h : l.Sound) {e : Extent} (he : e ∈ l.live) :
    e.offset ∉ l.free e.cls := by
  intro hf
  have h₁ := List.count_pos_iff.2 he
  have h₂ := List.count_pos_iff.2 hf
  have h₃ := h.count_le_one e
  omega

theorem apart_of_carved (h : l.Sound) {e f : Extent} (he : e ∈ l.carved) (hf : f ∈ l.carved)
    (hne : e ≠ f) : e.Apart f := h.apart.forall he hf hne

theorem live_apart (h : l.Sound) : l.live.Pairwise Extent.Apart := by
  refine h.live_nodup.imp_of_mem fun he hf hne => ?_
  exact h.apart_of_carved (h.mem_carved_of_live he) (h.mem_carved_of_live hf) hne

theorem live_apart_free (h : l.Sound) {e f : Extent} (he : e ∈ l.live)
    (hf : f.offset ∈ l.free f.cls) : e.Apart f := by
  refine h.apart_of_carved (h.mem_carved_of_live he) (h.mem_carved_of_free hf) ?_
  rintro rfl
  exact h.not_free_of_live he hf

theorem free_apart (h : l.Sound) {e f : Extent} (he : e.offset ∈ l.free e.cls)
    (hf : f.offset ∈ l.free f.cls) (hne : e ≠ f) : e.Apart f :=
  h.apart_of_carved (h.mem_carved_of_free he) (h.mem_carved_of_free hf) hne

/-- The blocks that are handed out lie between the header and the cursor. -/
theorem sum_live_le (h : l.Sound) :
    Header.dataStart + (l.live.map Extent.size).sum ≤ l.cursor := by
  refine Extent.sum_size_le h.live_apart h.start_le fun e he => ?_
  obtain ⟨h₁, h₂, -⟩ := h.fits e (h.mem_carved_of_live he)
  exact ⟨h₁, h₂⟩

theorem length_live_le (h : l.Sound) :
    l.live.length ≤ (l.capacity - Header.dataStart) / 16 := by
  have h₁ := h.sum_live_le
  have h₂ := h.cursor_le
  have h₃ := Extent.length_le_sum_size l.live
  omega

/-! ## Preservation -/

theorem reuse (h : l.Sound) {e : Extent} {rest : List Nat} (hf : l.free e.cls = e.offset :: rest) :
    (l.reuse e rest).Sound where
  start_le := h.start_le
  cursor_le := h.cursor_le
  capacity_lt := h.capacity_lt
  fits := h.fits
  apart := h.apart
  split f := by
    have hs := h.split f
    simp only [Ledger.reuse, List.count_cons, Function.update_apply]
    by_cases hc : f.cls = e.cls
    · rw [hc, hf, List.count_cons] at hs
      rw [if_pos hc]
      by_cases ho : e.offset = f.offset
      · have he : e = f := Extent.ext ho hc.symm
        simp only [he, beq_self_eq_true, if_true] at hs ⊢
        omega
      · have hne : e ≠ f := fun he => ho (congrArg Extent.offset he)
        simp only [beq_iff_eq, ho, hne, if_false] at hs ⊢
        omega
    · have hne : e ≠ f := fun he => hc (congrArg Extent.cls he).symm
      simp only [beq_iff_eq, hne, hc, if_false]
      omega
  allocations_eq := by
    have := h.allocations_eq
    simp only [Ledger.reuse, List.length_cons]
    omega

theorem le_next_offset (l : Ledger) (c : SizeClass) : l.cursor ≤ (l.next c).offset :=
  le_roundUp _ c.blockAlign_pos

theorem carve (h : l.Sound) {c : SizeClass} (hc : c.index < Header.classCount)
    (hroom : (l.next c).stop ≤ l.capacity) : (l.carve c).Sound where
  start_le := by
    have h₁ := h.start_le
    have h₂ := le_next_offset l c
    have h₃ : (l.next c).stop = (l.next c).offset + (l.next c).size := rfl
    simp only [Ledger.carve]
    omega
  cursor_le := hroom
  capacity_lt := h.capacity_lt
  fits e he := by
    have h₁ := le_next_offset l c
    have h₂ : (l.next c).stop = (l.next c).offset + (l.next c).size := rfl
    rcases List.mem_cons.1 he with rfl | he
    · exact ⟨Nat.le_trans h.start_le h₁, Nat.le_refl _, dvd_roundUp .., hc⟩
    · obtain ⟨h₃, h₄, h₅⟩ := h.fits e he
      refine ⟨h₃, ?_, h₅⟩
      simp only [Ledger.carve]
      omega
  apart := by
    refine List.pairwise_cons.2 ⟨fun e he => .inr ?_, h.apart⟩
    exact Nat.le_trans (h.fits e he).2.1 (le_next_offset l c)
  split e := by
    have hs := h.split e
    simp only [Ledger.carve, List.count_cons]
    omega
  allocations_eq := by
    have := h.allocations_eq
    simp only [Ledger.carve, List.length_cons]
    omega

theorem release (h : l.Sound) {e : Extent} (he : e ∈ l.live) : (l.release e).Sound where
  start_le := h.start_le
  cursor_le := h.cursor_le
  capacity_lt := h.capacity_lt
  fits := h.fits
  apart := h.apart
  split f := by
    have hs := h.split f
    have hpos := List.count_pos_iff.2 he
    simp only [Ledger.release, List.count_erase, Function.update_apply]
    by_cases hc : f.cls = e.cls
    · rw [if_pos hc, List.count_cons, ← hc]
      by_cases ho : e.offset = f.offset
      · have hef : e = f := Extent.ext ho hc.symm
        simp only [hef, beq_self_eq_true, if_true] at hpos ⊢
        omega
      · have hne : e ≠ f := fun he => ho (congrArg Extent.offset he)
        simp only [beq_iff_eq, ho, hne, if_false]
        omega
    · have hne : e ≠ f := fun he => hc (congrArg Extent.cls he).symm
      simp only [beq_iff_eq, hne, hc, if_false]
      omega
  allocations_eq := by
    have h₁ := h.allocations_eq
    have h₂ := List.length_erase_of_mem he
    have h₃ := List.length_pos_of_mem he
    simp only [Ledger.release]
    omega

theorem allocate (h : l.Sound) {y : Layout} {o : Nat} {l' : Ledger}
    (ha : l.allocate y = .ok (o, l')) : l'.Sound := by
  obtain ⟨-, hc, ⟨rest, hf, rfl⟩ | ⟨-, hroom, -, rfl⟩⟩ := allocate_cases ha
  · exact h.reuse hf
  · exact h.carve hc hroom

end Sound

theorem live_of_allocate {l l' : Ledger} {y : Layout} {o : Nat}
    (h : l.allocate y = .ok (o, l')) : l'.live = y.extent o :: l.live := by
  obtain ⟨-, -, ⟨rest, -, rfl⟩ | ⟨-, -, rfl, rfl⟩⟩ := allocate_cases h
  · rfl
  · rfl

theorem capacity_of_allocate {l l' : Ledger} {y : Layout} {o : Nat}
    (h : l.allocate y = .ok (o, l')) : l'.capacity = l.capacity := by
  obtain ⟨-, -, ⟨rest, -, rfl⟩ | ⟨-, -, -, rfl⟩⟩ := allocate_cases h
  · rfl
  · rfl

/-- A block is taken or returned. -/
inductive Entry (l : Ledger) : Ledger → Prop
  | took {y : Layout} {o : Nat} {l' : Ledger} (h : l.allocate y = .ok (o, l')) : Entry l l'
  | returned {e : Extent} (h : e ∈ l.live) : Entry l (l.release e)

namespace Entry

variable {l l' : Ledger}

theorem sound (h : l.Entry l') (hl : l.Sound) : l'.Sound := by
  cases h with
  | took h => exact hl.allocate h
  | returned h => exact hl.release h

theorem capacity_eq (h : l.Entry l') : l'.capacity = l.capacity := by
  cases h with
  | took h => exact capacity_of_allocate h
  | returned h => rfl

end Entry

end Ledger

end SharedHeap
