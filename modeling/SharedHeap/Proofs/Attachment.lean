import Mathlib.Data.List.Nodup
import SharedHeap.Proofs.Counters

/-!
# What attaching takes on trust

Attaching looks at the mark of a region and at its length. The rest of the header and the chains it
believes, whoever wrote them: they are as allocators left them, or what follows may go anywhere
(`Tenancy.spoiled_attached`). Where they are in order (`Bytes.InOrder`), any requests for blocks and
numbers are answered, and the blocks lie inside the region and apart (`Region.Attaches`). That a
region is in order can be told from its bytes alone; what was handed out before does not matter.
-/

namespace SharedHeap

open SharedHeap.Action (Ends)

/-- All free blocks. -/
def freeBlocks (free : SizeClass → List Nat) : List Extent :=
  (List.range Header.classCount).flatMap fun i => (free ⟨i⟩).map (Extent.mk · ⟨i⟩)

theorem mem_freeBlocks_iff {free : SizeClass → List Nat} {e : Extent} :
    e ∈ freeBlocks free ↔ e.cls.index < Header.classCount ∧ e.offset ∈ free e.cls := by
  rw [freeBlocks, List.mem_flatMap]
  constructor
  · rintro ⟨i, hi, he⟩
    obtain ⟨o, ho, rfl⟩ := List.mem_map.1 he
    exact ⟨List.mem_range.1 hi, ho⟩
  · rintro ⟨hi, he⟩
    exact ⟨_, List.mem_range.2 hi, List.mem_map.2 ⟨_, he, rfl⟩⟩

namespace Bytes

variable {b : Bytes} {free : SizeClass → List Nat}

/-- The header and the chains are such as allocators leave them, with the given free blocks. -/
structure InOrder (b : Bytes) (free : SizeClass → List Nat) : Prop where
  lock : Header.lock b = 0
  start_le : Header.dataStart ≤ (Header.cursor b).toNat
  cursor_le : (Header.cursor b).toNat ≤ (Header.capacity b).toNat
  chain : ∀ c : SizeClass, c.index < Header.classCount →
    b.Chain (Header.freeHead b c.index) (free c)
  fits : ∀ c : SizeClass, c.index < Header.classCount → ∀ o ∈ free c,
    Header.dataStart ≤ o ∧ o + c.blockSize ≤ (Header.cursor b).toNat ∧ c.blockAlign ∣ o
  apart : ∀ c d : SizeClass, c.index < Header.classCount → d.index < Header.classCount →
    ∀ o ∈ free c, ∀ q ∈ free d, Extent.mk o c ≠ ⟨q, d⟩ → Extent.Apart ⟨o, c⟩ ⟨q, d⟩
  frees_le : Header.frees b ≤ Header.allocations b
  /-- As many blocks as the region has room for can be counted. -/
  allocations_lt : (Header.allocations b).toNat +
    ((Header.capacity b).toNat - Header.dataStart) / 16 < 2 ^ 64

theorem Chain.drop {w : UInt64} {os os' : List Nat} {o : Nat} (h : b.Chain w (os ++ o :: os')) :
    b.Chain (b.word o) os' := by
  induction os generalizing w with
  | nil => exact h.2.2
  | cons q os ih => exact ih h.2.2

/-- A chain that came back to a block would have no end. -/
theorem Chain.nodup {w : UInt64} {os : List Nat} (h : b.Chain w os) : os.Nodup := by
  induction os generalizing w with
  | nil => exact .nil
  | cons o os ih =>
    refine List.nodup_cons.2 ⟨fun ho => ?_, ih h.2.2⟩
    obtain ⟨before, behind, rfl⟩ := List.append_of_mem ho
    have hsame := congrArg List.length (Chain.unique h.2.2 (Chain.drop h.2.2))
    simp only [List.length_append, List.length_cons] at hsame
    omega

/-- The ledger that begins with what there is in a region, with nothing handed out. -/
def opening (b : Bytes) (free : SizeClass → List Nat) : Ledger where
  id := Header.id b
  capacity := (Header.capacity b).toNat
  cursor := (Header.cursor b).toNat
  allocations := 0
  frees := 0
  carved := freeBlocks free
  free c := if c.index < Header.classCount then free c else []
  live := []

namespace InOrder

theorem nodup_freeBlocks (h : b.InOrder free) : (freeBlocks free).Nodup := by
  refine List.nodup_flatMap.2 ⟨fun i hi => ?_, ?_⟩
  · refine ((h.chain ⟨i⟩ (List.mem_range.1 hi)).nodup).map fun o q hoq => ?_
    exact congrArg Extent.offset hoq
  · refine List.nodup_range.imp fun {i j} hij => ?_
    rintro e he hj
    obtain ⟨o, -, rfl⟩ := List.mem_map.1 he
    obtain ⟨q, -, hq⟩ := List.mem_map.1 hj
    exact hij (congrArg (·.cls.index) hq).symm

theorem sound (h : b.InOrder free)
    (hlt : (Header.capacity b).toNat + SizeClass.maxAlign < 2 ^ 64) :
    (opening b free).Sound where
  start_le := h.start_le
  cursor_le := h.cursor_le
  capacity_lt := hlt
  fits e he := by
    obtain ⟨hc, ho⟩ := mem_freeBlocks_iff.1 he
    obtain ⟨h₁, h₂, h₃⟩ := h.fits _ hc _ ho
    exact ⟨h₁, h₂, h₃, hc⟩
  apart := by
    refine h.nodup_freeBlocks.pairwise_of_forall_ne fun e he f hf hne => ?_
    obtain ⟨hc, ho⟩ := mem_freeBlocks_iff.1 he
    obtain ⟨hd, hq⟩ := mem_freeBlocks_iff.1 hf
    exact h.apart _ _ hc hd _ ho _ hq hne
  split e := by
    have hcount : ((opening b free).free e.cls).count e.offset = (freeBlocks free).count e := by
      rw [h.nodup_freeBlocks.count]
      simp only [opening, mem_freeBlocks_iff]
      by_cases hc : e.cls.index < Header.classCount
      · rw [if_pos hc, (h.chain _ hc).nodup.count]
        simp only [hc, true_and]
      · simp [hc]
    rw [hcount]
    exact Nat.zero_add _
  allocations_eq := rfl

theorem follows (h : b.InOrder free) (hle : (Header.capacity b).toNat ≤ b.size) :
    b.Follows (opening b free) where
  lock := h.lock
  capacity := rfl
  cursor := rfl
  chain c hc := by
    simp only [opening, if_pos hc]
    exact h.chain c hc
  capacity_le := hle

end InOrder

/-- Bytes that keep a ledger are in order, unless almost as many blocks were handed out as can be
counted. -/
theorem Keeps.inOrder {l : Ledger} (h : b.Keeps l) (hl : l.Sound)
    (hn : l.allocations + (l.capacity - Header.dataStart) / 16 < 2 ^ 64) : b.InOrder l.free where
  lock := h.lock
  start_le := by
    rw [h.cursor hl]
    exact hl.start_le
  cursor_le := by
    rw [h.cursor hl, h.capacity hl]
    exact hl.cursor_le
  chain := h.chain
  fits c _ o ho := by
    rw [h.cursor hl]
    obtain ⟨h₁, h₂, h₃, -⟩ := hl.fits _ (hl.mem_carved_of_free (e := ⟨o, c⟩) ho)
    exact ⟨h₁, h₂, h₃⟩
  apart c d _ _ o ho q hq hne := hl.free_apart ho hq hne
  frees_le := by
    have hle := hl.allocations_eq
    obtain ⟨h₁, h₂⟩ := h.counters
    rw [h₁, h₂, UInt64.le_iff_toNat_le, toNat_word (by omega), toNat_word (by omega)]
    omega
  allocations_lt := by
    rw [h.counters.1, h.capacity hl, toNat_word (by omega)]
    exact hn

end Bytes

namespace Allocator

/-- What is asked of an allocator that takes nothing back. -/
inductive Call
  | remaining
  | allocate (y : Layout)
  | live

/-- Asks once. Answers the block, if one was handed out. -/
def call (a : Allocator) : Call → Action Process MemoryError (Option Extent)
  | .remaining => (fun _ => none) <$> (a.remaining : Action Process MemoryError Nat)
  | .allocate y => do
    match ← Action.attempt (a.allocate y) with
    | .ok x => return some (y.extent x.2.toNat)
    | .error _ => return none
  | .live => do
    let p ← .get
    (fun _ => none) <$> ((a.stats p).live : Action Process MemoryError Nat)

/-- Asks one thing after the other. Answers all blocks that were handed out. -/
def calls (a : Allocator) : List Call → Action Process MemoryError (List Extent)
  | [] => pure []
  | c :: cs => do
    let got ← a.call c
    let more ← a.calls cs
    return got.toList ++ more

end Allocator

namespace Region

variable {r : Region} {p : Process} {l : Ledger} {n k : Nat} {a : Allocator}

/-- The bytes of the region follow a ledger, after blocks were handed out where `n` had been handed
out before, and `k` had been returned. -/
structure Serves (r : Region) (p : Process) (l : Ledger) (n k : Nat) : Prop where
  segment_lt : r.segment < p.segments.size
  follows : (p.bytes r.segment).Follows l
  sound : l.Sound
  capacity : l.capacity = r.length
  allocations : (Header.allocations (p.bytes r.segment)).toNat = n + l.live.length
  frees : (Header.frees (p.bytes r.segment)).toNat = k
  le : k ≤ n
  lt : n + (r.length - Header.dataStart) / 16 < 2 ^ 64

namespace Serves

theorem length_lt (h : r.Serves p l n k) : r.length + SizeClass.maxAlign < 2 ^ 64 :=
  h.capacity ▸ h.sound.capacity_lt

/-- A region as long as it is in order serves requests. -/
theorem opening (hr : r.Backed p) {free : SizeClass → List Nat}
    (h : (p.bytes r.segment).InOrder free)
    (hcap : (Header.capacity (p.bytes r.segment)).toNat = r.length) :
    r.Serves p ((p.bytes r.segment).opening free)
      (Header.allocations (p.bytes r.segment)).toNat (Header.frees (p.bytes r.segment)).toNat where
  segment_lt := hr.segment_lt
  follows := h.follows (hcap ▸ hr.length_le)
  sound := h.sound (by
    have := hr.length_le_max
    simp only [maxObjectSize] at this
    simp only [hcap, SizeClass.maxAlign]
    omega)
  capacity := hcap
  allocations := (Nat.add_zero _).symm
  frees := rfl
  le := UInt64.le_iff_toNat_le.1 h.frees_le
  lt := hcap ▸ h.allocations_lt

theorem remaining_ends (h : r.Serves p l n k) (ha : a.Over r) :
    Ends (a.remaining : Action Process MemoryError Nat) p (.ok l.remaining) p := by
  have hle : (Header.cursor (p.bytes r.segment)).toNat ≤
      (Header.capacity (p.bytes r.segment)).toNat := by
    rw [h.follows.cursor, h.follows.capacity]
    exact h.sound.cursor_le
  have hrun := Process.onBytes_ends (p := p) (x := fun _ => Block.remaining)
    (Block.remaining_ends (ε := MemoryError) hle)
  rw [h.follows.cursor, h.follows.capacity, Process.setBytes_bytes] at hrun
  rw [Allocator.remaining, ha.segment]
  exact hrun

theorem live_ends (h : r.Serves p l n k) (ha : a.Over r) :
    Ends ((a.stats p).live : Action Process MemoryError Nat) p (.ok (n + l.live.length - k)) p := by
  have hle := h.le
  have h₁ := h.allocations
  have h₂ := h.frees
  rw [Allocator.stats, Allocator.bytes, ha.segment]
  have hlive : n + l.live.length - k =
      (Allocator.Stats.ofBytes (p.bytes r.segment)).allocations.toNat -
        (Allocator.Stats.ofBytes (p.bytes r.segment)).frees.toNat := by
    rw [Allocator.Stats.ofBytes, h₁, h₂]
  rw [hlive]
  refine .bind (.require ?_) .pure
  rw [UInt64.le_iff_toNat_le, Allocator.Stats.ofBytes, h₁, h₂]
  omega

theorem refuse (h : r.Serves p l n k) (ha : a.Over r) {y : Layout} (hy : y.Valid) {e : MemoryError}
    (hl : l.allocate y = .error e) : Ends (a.allocate y) p (.error e) p := by
  have hrun := Process.onBytes_ends (x := fun level => Block.allocate level y)
    (h.follows.refuse h.sound hy.need_le hl p.level)
  rw [Process.setBytes_bytes, ← ha.segment] at hrun
  exact .bind_error hrun

theorem allocate (h : r.Serves p l n k) (ha : a.Over r) {y : Layout} (hy : y.Valid) {o : Nat}
    {l' : Ledger} (hl : l.allocate y = .ok (o, l')) :
    ∃ p', Ends (a.allocate y) p (.ok (.place r.segment o, .ofNat o)) p' ∧ r.Serves p' l' n k ∧
      (Offset.ofNat o).toNat = o := by
  obtain ⟨b, hb, hf, hallocations, hfrees⟩ : ∃ b,
      Ends (Block.allocate p.level y) (p.bytes r.segment) (.ok (.ofNat o)) b ∧ b.Follows l' ∧
        Header.allocations b = Header.allocations (p.bytes r.segment) + 1 ∧
        Header.frees b = Header.frees (p.bytes r.segment) :=
    ⟨_, h.follows.allocate h.sound hy.need_le hl p.level⟩
  have hsound := h.sound.allocate hl
  have hlive := Ledger.live_of_allocate hl
  have hcap := (Ledger.capacity_of_allocate hl).trans h.capacity
  have hmem : y.extent o ∈ l'.live := hlive ▸ List.mem_cons_self
  have ho : (Offset.ofNat o).toNat = o := by
    obtain ⟨-, hstop, -⟩ := hsound.fits _ (hsound.mem_carved_of_live hmem)
    have h₁ := hsound.cursor_le
    have h₂ := h.length_lt
    have h₃ : (y.extent o).stop = o + (y.extent o).size := rfl
    exact Offset.toNat_ofNat (by omega)
  have hlen : l'.live.length = l.live.length + 1 := by rw [hlive, List.length_cons]
  refine ⟨p.setBytes r.segment b, ?_, ⟨?_, ?_, hsound, hcap, ?_, ?_, h.le, h.lt⟩, ho⟩
  · rw [← ha.segment] at hb ⊢
    refine .bind (Process.onBytes_ends (x := fun level => Block.allocate level y) hb) ?_
    rw [ho]
    exact .pure
  · rw [Process.size_segments_setBytes]
    exact h.segment_lt
  · rwa [Process.bytes_setBytes_self h.segment_lt]
  · -- the counter has room, since there is none for more blocks in the region
    have h₁ := h.allocations
    have h₂ := h.lt
    have h₃ := hsound.length_live_le
    rw [Process.bytes_setBytes_self h.segment_lt, hallocations, UInt64.toNat_add, h₁, hlen]
    rw [hcap, hlen] at h₃
    exact Nat.mod_eq_of_lt (by
      simp only [UInt64.toNat_one]
      omega)
  · rw [Process.bytes_setBytes_self h.segment_lt, hfrees, h.frees]

/-- Whatever is asked for, there is an answer. A block that is handed out is one more. -/
theorem call (h : r.Serves p l n k) (ha : a.Over r) {c : Allocator.Call}
    (hc : ∀ y, c = .allocate y → y.Valid) :
    ∃ got p' l', Ends (a.call c) p (.ok got) p' ∧ r.Serves p' l' n k ∧
      l'.live = got.toList ++ l.live := by
  cases c with
  | remaining => exact ⟨none, p, l, (h.remaining_ends ha).map, h, rfl⟩
  | live => exact ⟨none, p, l, .bind .get (h.live_ends ha).map, h, rfl⟩
  | allocate y =>
    cases hl : l.allocate y with
    | error e =>
      exact ⟨none, p, l, .bind (h.refuse ha (hc y rfl) hl).attempt_error .pure, h, rfl⟩
    | ok x =>
      obtain ⟨o, l'⟩ := x
      obtain ⟨p', hends, h', ho⟩ := h.allocate ha (hc y rfl) hl
      refine ⟨some (y.extent o), p', l', .bind hends.attempt ?_, h', Ledger.live_of_allocate hl⟩
      simp only [ho]
      exact .pure

/-- So it goes on, and the blocks that are handed out are all live at the end. -/
theorem calls (h : r.Serves p l n k) (ha : a.Over r) {cs : List Allocator.Call}
    (hcs : ∀ y, .allocate y ∈ cs → y.Valid) :
    ∃ es p' l', Ends (a.calls cs) p (.ok es) p' ∧ r.Serves p' l' n k ∧
      l'.live = es.reverse ++ l.live := by
  induction cs generalizing p l with
  | nil => exact ⟨[], p, l, .pure, h, rfl⟩
  | cons c cs ih =>
    obtain ⟨got, p₁, l₁, hgot, h₁, hlive₁⟩ := h.call ha (c := c) fun y hy =>
      hcs y (hy ▸ List.mem_cons_self)
    obtain ⟨es, p₂, l₂, hes, h₂, hlive₂⟩ := ih h₁ fun y hy => hcs y (List.mem_cons_of_mem _ hy)
    refine ⟨got.toList ++ es, p₂, l₂, .bind hgot (.bind hes .pure), h₂, ?_⟩
    rw [hlive₂, hlive₁]
    cases got <;> simp

end Serves

/-- What attaching looks at, and what it takes on trust. -/
structure Attaches (r : Region) (p : Process) : Prop where
  ok_iff : ∀ a, (Allocator.attach r p).outcome = .ok a ↔
    a = ⟨r⟩ ∧ Allocator.minRegionSize ≤ r.length ∧ p.isAligned r.base Region.alignment ∧
      Header.hasMark (p.bytes r.segment) ∧
      (Header.capacity (p.bytes r.segment)).toNat = r.length
  unchanged : (Allocator.attach r p).state = p
  /-- In a region that is in order any requests are answered, and all blocks lie inside and
  apart. -/
  serves : ∀ a free, (Allocator.attach r p).outcome = .ok a → (p.bytes r.segment).InOrder free →
    ∀ cs, (∀ y, .allocate y ∈ cs → y.Valid) →
      ∃ es q, Ends (a.calls cs) p (.ok es) q ∧
        (∀ e ∈ es, Header.dataStart ≤ e.offset ∧ e.stop ≤ r.length) ∧
        es.Pairwise Extent.Apart

theorem attach_ok_iff {a : Allocator} : (Allocator.attach r p).outcome = .ok a ↔
    a = ⟨r⟩ ∧ Allocator.minRegionSize ≤ r.length ∧ p.isAligned r.base Region.alignment ∧
      Header.hasMark (p.bytes r.segment) ∧
      (Header.capacity (p.bytes r.segment)).toNat = r.length := by
  rw [(Allocator.attach_eq r p).outcome]
  constructor
  · intro h
    split at h
    · cases h
    · next hlen =>
      split at h
      · next halign =>
        split at h
        · next hc => exact ⟨(Outcome.ok.inj h).symm, Nat.not_lt.1 hlen, halign, hc⟩
        · cases h
      · cases h
  · rintro ⟨rfl, hlen, halign, hc⟩
    rw [if_neg (Nat.not_lt.2 hlen), if_pos halign, if_pos hc]

/-- Whatever bytes a region holds, attaching to them promises no less. -/
theorem attaches_of_backed (hr : r.Backed p) : r.Attaches p where
  ok_iff _ := attach_ok_iff
  unchanged := (Allocator.attach_eq r p).state
  serves a free ha h cs hcs := by
    obtain ⟨rfl, -, -, -, hcap⟩ := attach_ok_iff.1 ha
    have hover : Allocator.Over ⟨r⟩ r := ⟨rfl, rfl⟩
    obtain ⟨es, q, l, hes, hq, hlive⟩ := (Serves.opening hr h hcap).calls hover hcs
    have hlive' : es.reverse = l.live := (hlive.trans (List.append_nil _)).symm
    refine ⟨es, q, hes, fun e he => ?_, ?_⟩
    · have hmem : e ∈ l.live := hlive' ▸ List.mem_reverse.2 he
      obtain ⟨h₁, h₂, -⟩ := hq.sound.fits e (hq.sound.mem_carved_of_live hmem)
      have h₃ := hq.sound.cursor_le
      rw [hq.capacity] at h₃
      exact ⟨h₁, Nat.le_trans h₂ h₃⟩
    · have hapart := hq.sound.live_apart
      rw [← hlive', List.pairwise_reverse] at hapart
      exact hapart.imp Extent.Apart.symm

end Region

namespace Tenancy

/-- However a region is used from when it is formatted on, it is in order, unless almost as many
blocks were handed out as can be counted. -/
theorem inOrder_of_reachable {id : AllocatorId} {r : Region} {p : Process} {t : Tenancy}
    (hb : r.Backed p) (hn : Allocator.minRegionSize ≤ r.length)
    (ha : p.isAligned r.base Region.alignment) (h : Reachable id r p t)
    (ht : taken t.history + (t.capacity - Header.dataStart) / 16 < 2 ^ 64) :
    t.bytes.InOrder t.stack := by
  obtain ⟨l, hk, hl⟩ := Balanced.reachable hb hn ha h
  rw [hk.stack_eq]
  refine hk.keeps.books.inOrder hk.keeps.sound ?_
  rwa [hl.allocations, ← hk.capacity_eq]

theorem attaches_pageUse : pageUse.bytes.InOrder pageUse.stack ∧ page.Attaches pageUse.process := by
  refine ⟨inOrder_of_reachable page_backed (by decide) (by decide) pageUse_reachable
    (by decide +kernel), Region.attaches_of_backed ⟨?_, ?_, by decide⟩⟩
  · decide +kernel
  · decide +kernel

/-- A page that was formatted, and whose bytes were changed then. -/
def spoiled (f : Bytes → Bytes) : Process :=
  .single (f (Header.format (.zeros 4096) ⟨1, 0⟩ 4096))

/-- Attaching to the page succeeds, and what is asked for then ends so. -/
def Admits (f : Bytes → Bytes) (cs : List Allocator.Call)
    (o : Outcome MemoryError (List Extent)) : Prop :=
  (Allocator.attach page (spoiled f)).outcome = .ok ⟨page⟩ ∧
    (Allocator.calls ⟨page⟩ cs (spoiled f)).outcome = o

instance (f : Bytes → Bytes) (cs : List Allocator.Call) (o : Outcome MemoryError (List Extent)) :
    Decidable (Admits f cs o) := inferInstanceAs (Decidable (_ ∧ _))

/-- A cursor in front of the first block, one behind the end, a lock that is held, more blocks
returned than handed out, a chain that leads outside and one that comes back to its beginning: each
is taken on trust. -/
theorem spoiled_attached :
    Admits (Header.setCursor · 0) [.allocate ⟨8, 8⟩] (.ok [⟨0, ⟨0⟩⟩]) ∧
    Admits (Header.setCursor · 5000) [.remaining] (.fault .overflow) ∧
    Admits (Header.setLock · 1) [.allocate ⟨8, 8⟩] (.fault .lockHeld) ∧
    Admits (·.setWord Header.freesAt 1) [.live] (.fault .overflow) ∧
    Admits (Header.setFreeHead · 0 8192) [.allocate ⟨8, 8⟩] (.fault .wildAccess) ∧
    Admits (fun b => (Header.setFreeHead b 0 320).setWord 320 320)
      [.allocate ⟨8, 8⟩, .allocate ⟨8, 8⟩] (.ok [⟨320, ⟨0⟩⟩, ⟨320, ⟨0⟩⟩]) := by
  refine ⟨?_, ?_, ?_, ?_, ?_, ?_⟩ <;> decide +kernel

end Tenancy

end SharedHeap
