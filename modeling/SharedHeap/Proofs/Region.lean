import Mathlib.Logic.Relation
import SharedHeap.Allocator.Basic
import SharedHeap.Proofs.Books

/-!
# Regions of a process that keep books

The operations of an allocator on a process, in terms of the ledger that its region keeps. An
allocator finds the books by its segment and its length alone (`Allocator.Over`), so all allocators
over a region keep the same ones.
-/

namespace SharedHeap

open SharedHeap.Action (Ends)

namespace Process

variable {p : Process} {ε α : Type}

/-- How far behind a page boundary a segment starts. -/
def skew (p : Process) (segment : Nat) : Nat := ((p.segments[segment]?).getD default).skew

@[simp] theorem skew_setBytes (p : Process) (i j : Nat) (b : Bytes) :
    (p.setBytes i b).skew j = p.skew j := by
  simp only [skew, setBytes, Array.getElem?_modify]
  split
  · cases p.segments[j]? <;> rfl
  · rfl

theorem bytes_setBytes {i j : Nat} {b : Bytes} (h : i < p.segments.size) :
    (p.setBytes i b).bytes j = if i = j then b else p.bytes j := by
  split
  · next hij =>
    subst hij
    exact bytes_setBytes_self h
  · next hij => exact bytes_setBytes_of_ne hij

theorem setBytes_bytes (p : Process) (i : Nat) : p.setBytes i (p.bytes i) = p := by
  have hm : p.segments.modify i (fun s => { s with bytes := p.bytes i }) = p.segments := by
    refine Array.ext (by simp) fun j h₁ h₂ => ?_
    rw [Array.getElem_modify]
    split
    · next hij =>
      subst hij
      simp [bytes, h₂]
    · rfl
  rw [setBytes, hm]

/-- From one state of a process to another, a segment stays as it is. -/
structure Retains (p p' : Process) (s : Nat) : Prop where
  segments : p.segments.size ≤ p'.segments.size
  bytes : p'.bytes s = p.bytes s
  skew : p'.skew s = p.skew s

protected theorem Retains.refl (p : Process) (s : Nat) : p.Retains p s := ⟨Nat.le_refl _, rfl, rfl⟩

theorem Retains.trans {p' p'' : Process} {s : Nat} (h : p.Retains p' s)
    (h' : p'.Retains p'' s) : p.Retains p'' s :=
  ⟨Nat.le_trans h.segments h'.segments, h'.bytes.trans h.bytes, h'.skew.trans h.skew⟩

theorem retains_setBytes {i s : Nat} {b : Bytes} (h : i ≠ s) :
    p.Retains (p.setBytes i b) s := ⟨by simp, bytes_setBytes_of_ne h, skew_setBytes ..⟩

theorem retains_of_segments {p' : Process} {s : Nat} (h : p'.segments = p.segments) :
    p.Retains p' s := by
  refine ⟨by rw [h], ?_, ?_⟩
  · rw [bytes, bytes, h]
  · rw [skew, skew, h]

theorem isAligned_congr {p' : Process} (h : ∀ s, p'.skew s = p.skew s) (x : Address) (n : Nat) :
    p'.isAligned x n = p.isAligned x n := by
  cases x with
  | null => rfl
  | place s d =>
    have := h s
    simp only [skew] at this
    simp only [isAligned, this]

/-- Regions begin on a page if their segments do. -/
theorem isAligned_base_iff {r : Region} :
    p.isAligned r.base Region.alignment ↔ Region.alignment ∣ p.skew r.segment := by
  simp only [isAligned, Region.base, Int.add_zero, beq_iff_eq]
  exact Int.dvd_iff_emod_eq_zero.symm.trans Int.natCast_dvd_natCast

theorem isAligned_place_iff {s n i : Nat} (h : n ∣ p.skew s) :
    p.isAligned (.place s i) n ↔ n ∣ i := by
  have hsum : ((p.skew s : Nat) : Int) + (i : Int) = ((p.skew s + i : Nat) : Int) := rfl
  have : p.isAligned (.place s i) n ↔ ((p.skew s : Nat) + (i : Int)) % n = 0 := beq_iff_eq
  rw [this, hsum, ← Int.dvd_iff_emod_eq_zero, Int.natCast_dvd_natCast]
  exact Nat.dvd_add_right h

theorem onBytes_ends {s : Nat} {x : Log.Level → Action Bytes ε α} {o : Outcome ε α} {b : Bytes}
    (h : Ends (x p.level) (p.bytes s) o b) : Ends (onBytes s x) p o (p.setBytes s b) := by
  obtain ⟨rfl, rfl⟩ := h
  exact ⟨rfl, rfl⟩

theorem say_ends {level : Log.Level} {target text : String} {x : Action Process ε String}
    (h : Ends x p (.ok text) p) : Ends (say level target x) p (.ok ()) p := .bind .get (.tell h)

theorem load_ends {s i n : Nat} (h : i + n ≤ (p.bytes s).size) :
    Ends (load (.place s i) n : Action Process ε _) p (.ok ((p.bytes s).read i n)) p := by
  rw [load]
  split
  · next hn =>
    subst hn
    exact .pure
  · refine .bind .get ?_
    have he : p.extent? (.place s i) n = some (s, i) := by
      simp [extent?, h]
    rw [he]
    exact .pure

theorem store_ends {s i : Nat} (vs : List UInt8) (h : i + vs.length ≤ (p.bytes s).size) :
    Ends (store (.place s i) vs : Action Process ε _) p (.ok ())
      (p.setBytes s ((p.bytes s).write i vs)) := by
  rw [store]
  split
  · next hv =>
    rw [List.isEmpty_iff.1 hv, Bytes.write, setBytes_bytes]
    exact .pure
  · refine .bind .get ?_
    have he : p.extent? (.place s i) vs.length = some (s, i) := by
      simp [extent?, h]
    rw [he]
    exact .modify

end Process

namespace Region

/-- The region exists: its segment has all its bytes, and it is no larger than any object. -/
structure Backed (r : Region) (p : Process) : Prop where
  segment_lt : r.segment < p.segments.size
  length_le : r.length ≤ (p.bytes r.segment).size
  length_le_max : r.length ≤ maxObjectSize

/-- The region keeps a ledger. -/
structure Keeps (r : Region) (p : Process) (l : Ledger) : Prop where
  segment_lt : r.segment < p.segments.size
  books : (p.bytes r.segment).Keeps l
  sound : l.Sound
  capacity : l.capacity = r.length
  /-- The ledger was begun when the region was formatted, and is kept since. -/
  entries : ∃ id, Relation.ReflTransGen Ledger.Entry (.fresh id r.length) l

end Region

namespace Allocator

/-- The allocator works on the bytes of the region. -/
structure Over (a : Allocator) (r : Region) : Prop where
  segment : a.region.segment = r.segment
  length : a.region.length = r.length

/-- Allocators over the same region have one identity. -/
theorem Over.id_eq {a b : Allocator} {p : Process} (h : b.Over a.region) : b.id p = a.id p := by
  rw [id, bytes, h.segment]
  rfl

/-- Attaching changes nothing. It looks at the size of a region and at its address, at the mark and
at the length in the header, and at nothing else. -/
theorem attach_eq (r : Region) (p : Process) :
    Ends (attach r) p
      (if r.length < minRegionSize then .error (.regionTooSmall r.length minRegionSize)
      else if p.isAligned r.base Region.alignment then
        if Header.hasMark (p.bytes r.segment) ∧
            (Header.capacity (p.bytes r.segment)).toNat = r.length then .ok ⟨r⟩
        else .error .invalidRegion
      else .error (.invalidAlignment Region.alignment)) p := by
  by_cases h₁ : r.length < minRegionSize
  · rw [if_pos h₁]
    refine .bind_error (.bind .get ?_)
    rw [if_pos h₁]
    exact .throw
  · rw [if_neg h₁]
    by_cases h₂ : p.isAligned r.base Region.alignment
    · rw [if_pos h₂]
      have hc : Ends (check r) p (.ok ()) p := by
        refine .bind .get ?_
        rw [if_neg h₁, if_pos h₂]
        exact .pure
      refine .bind hc (.bind .get ?_)
      split
      · next h₃ =>
        simp only [if_pos h₃]
        exact .bind (Process.say_ends (.bind .get .pure)) .pure
      · next h₃ =>
        simp only [if_neg h₃]
        exact .throw
    · rw [if_neg h₂]
      refine .bind_error (.bind .get ?_)
      rw [if_neg h₁, if_neg h₂]
      exact .throw

/-- Attaching succeeds only on a region as long as its header says. -/
theorem attach_cases (r : Region) (p : Process) :
    (∃ e, Ends (attach r) p (.error e) p) ∨
      (Ends (attach r) p (.ok ⟨r⟩) p ∧
        (Header.capacity (p.bytes r.segment)).toNat = r.length) := by
  have h := attach_eq r p
  split at h
  · exact .inl ⟨_, h⟩
  · split at h
    · split at h
      · next hc => exact .inr ⟨h, hc.2⟩
      · exact .inl ⟨_, h⟩
    · exact .inl ⟨_, h⟩

end Allocator

namespace Layout

variable {y : Layout}

/-- An object with a layout that begins at an offset is aligned, and lies in a region of a length as
a whole. An object of no bytes takes the room of one byte. -/
def Has (y : Layout) (n : Nat) (o : Offset) : Prop :=
  y.align ∣ o.toNat ∧ o.toNat + max y.size 1 ≤ n

instance (y : Layout) (n : Nat) (o : Offset) : Decidable (y.Has n o) :=
  inferInstanceAs (Decidable (_ ∧ _))

theorem Valid.need_le (h : y.Valid) : SizeClass.need y ≤ 2 ^ 63 := by
  obtain ⟨h₁, h₂⟩ := h
  simp only [isPowerOfTwo, Bool.and_eq_true, decide_eq_true_eq, beq_iff_eq] at h₁
  simp only [maxObjectSize] at h₂
  rw [SizeClass.need]
  omega

theorem Valid.align_eq (h : y.Valid) : ∃ k, y.align = 2 ^ k := by
  have h₁ := h.1
  simp only [isPowerOfTwo, Bool.and_eq_true, beq_iff_eq] at h₁
  exact ⟨_, h₁.2.symm⟩

/-- A block of the class of a layout is aligned as the layout asks for. -/
theorem Valid.align_dvd (h : y.Valid) (ha : y.align ≤ SizeClass.maxAlign) :
    y.align ∣ SizeClass.maxAlign ∧ y.align ∣ (SizeClass.ofLayout y).blockAlign := by
  obtain ⟨k, hk⟩ := h.align_eq
  have hm : SizeClass.maxAlign = 2 ^ 12 := rfl
  have hneed : y.align ≤ SizeClass.need y :=
    Nat.le_trans (Nat.le_max_right ..) (Nat.le_max_left ..)
  have hb := Nat.le_trans hneed (SizeClass.need_le_blockSize y)
  rw [SizeClass.blockSize] at hb
  rw [SizeClass.blockAlign, SizeClass.blockSize]
  rw [hk] at ha hb ⊢
  have hmax : 2 ^ k ∣ SizeClass.maxAlign := by
    rw [hm] at ha ⊢
    exact Nat.pow_dvd_pow 2 ((Nat.pow_le_pow_iff_right (by decide)).1 ha)
  refine ⟨hmax, ?_⟩
  rcases Nat.le_total (2 ^ ((SizeClass.ofLayout y).index + 4)) SizeClass.maxAlign with h | h
  · rw [Nat.min_eq_left h]
    exact Nat.pow_dvd_pow 2 ((Nat.pow_le_pow_iff_right (by decide)).1 hb)
  · rw [Nat.min_eq_right h]
    exact hmax

end Layout

/-- In a region that is aligned as objects are, just the objects that have room are found. -/
theorem Allocator.resolve_eq {a : Allocator} {p : Process} {o : Offset} {y : Layout}
    (hd : y.align ∣ p.skew a.region.segment) (ho : o.isNull = false) :
    a.resolve p o y =
      if y.Has a.region.length o then some (.place a.region.segment o.toNat) else none := by
  have halign := Process.isAligned_place_iff (i := o.toNat) hd
  by_cases hlen : a.region.length ≤ o.toNat
  · have hno : ¬ y.Has a.region.length o := fun h => by
      have := h.2
      omega
    rw [if_neg hno]
    simp [resolve, toAddress, Region.toAddress, ho, hlen, Address.isNull]
  · have haddr : a.toAddress o = .place a.region.segment o.toNat := by
      simp [toAddress, Region.toAddress, ho, hlen]
    have hin : a.contains ((Address.place a.region.segment o.toNat).add (Int.ofNat (y.size - 1))) ↔
        o.toNat + max y.size 1 ≤ a.region.length := by
      rw [contains, Address.add, Region.contains_place_iff]
      simp only [Int.ofNat_eq_natCast, true_and]
      omega
    by_cases hal : y.align ∣ o.toNat
    · have hal' := halign.2 hal
      simp only [resolve, haddr, Address.isNull, hal', Layout.Has, hal, true_and, Bool.false_or,
        Bool.not_true, Bool.false_eq_true, if_false, hin]
    · have hal' : p.isAligned (.place a.region.segment o.toNat) y.align = false :=
        Bool.eq_false_iff.2 (mt halign.1 hal)
      simp [resolve, haddr, hal', Layout.Has, hal]

/-- The counters that a ledger stands for. -/
def Ledger.stats (l : Ledger) : Allocator.Stats where
  allocations := .ofNat l.allocations
  frees := .ofNat l.frees
  bytesInUse := .ofNat (l.live.map Extent.size).sum
  capacity := .ofNat l.capacity

theorem Bytes.Keeps.stats {b : Bytes} {l : Ledger} (h : b.Keeps l) :
    Allocator.Stats.ofBytes b = l.stats := by
  have hf := h.header
  simp only [Header.fields, Ledger.header, Header.Fields.mk.injEq] at hf
  simp only [Allocator.Stats.ofBytes, Ledger.stats, hf]

namespace Region.Keeps

variable {r : Region} {p : Process} {l : Ledger} {a : Allocator} {ε : Type}

theorem length_lt (h : r.Keeps p l) : r.length + SizeClass.maxAlign < 2 ^ 64 :=
  h.capacity ▸ h.sound.capacity_lt

theorem length_le (h : r.Keeps p l) : r.length ≤ (p.bytes r.segment).size :=
  h.capacity ▸ h.books.capacity_le

/-- The ledger is found wherever the bytes that keep it are. -/
theorem transfer (h : r.Keeps p l) {r' : Region} {p' : Process} (hr : r'.length = r.length)
    (hs : r'.segment < p'.segments.size) (hb : (p'.bytes r'.segment).Keeps l) : r'.Keeps p' l where
  segment_lt := hs
  books := hb
  sound := h.sound
  capacity := h.capacity.trans hr.symm
  entries := by
    rw [hr]
    exact h.entries

theorem setBytes_of_ne (h : r.Keeps p l) {i : Nat} {b : Bytes} (hi : i ≠ r.segment) :
    r.Keeps (p.setBytes i b) l := by
  refine h.transfer rfl ?_ ?_
  · rw [Process.size_segments_setBytes]
    exact h.segment_lt
  · rw [Process.bytes_setBytes_of_ne hi]
    exact h.books

theorem setBytes (h : r.Keeps p l) {b : Bytes} (hb : b.Keeps l) :
    r.Keeps (p.setBytes r.segment b) l := by
  refine h.transfer rfl ?_ ?_
  · rw [Process.size_segments_setBytes]
    exact h.segment_lt
  · rw [Process.bytes_setBytes_self h.segment_lt]
    exact hb

/-- The ledger gets one more entry. -/
theorem enter (h : r.Keeps p l) {l' : Ledger} {b : Bytes} (hl : l.Entry l') (hb : b.Keeps l') :
    r.Keeps (p.setBytes r.segment b) l' where
  segment_lt := by
    rw [Process.size_segments_setBytes]
    exact h.segment_lt
  books := by
    rw [Process.bytes_setBytes_self h.segment_lt]
    exact hb
  sound := hl.sound h.sound
  capacity := hl.capacity_eq.trans h.capacity
  entries := h.entries.imp fun _ he => he.tail hl

/-- Blocks that are handed out lie inside the region, so their offsets are words. -/
theorem stop_le (h : r.Keeps p l) {e : Extent} (he : e ∈ l.live) : e.stop ≤ r.length := by
  have h₁ := (h.sound.fits e (h.sound.mem_carved_of_live he)).2.1
  have h₂ := h.sound.cursor_le
  have h₃ := h.capacity
  omega

theorem toNat_live (h : r.Keeps p l) {e : Extent} (he : e ∈ l.live) :
    (Offset.ofNat e.offset).toNat = e.offset := by
  have h₁ := h.stop_le he
  have h₂ := h.length_lt
  have h₃ : e.stop = e.offset + e.size := rfl
  exact Offset.toNat_ofNat (by omega)

/-! ## Making allocators -/

theorem create (id : AllocatorId) (hb : r.Backed p) (hn : Allocator.minRegionSize ≤ r.length)
    (ha : p.isAligned r.base Region.alignment) :
    ∃ b, Ends (Allocator.create id r) p (.ok ⟨r⟩) (p.setBytes r.segment b) ∧
      r.Keeps (p.setBytes r.segment b) (.fresh id r.length) ∧
      b.size = (p.bytes r.segment).size := by
  have h₁ := hb.length_le
  have h₂ : Header.size ≤ Allocator.minRegionSize := by decide
  have h₃ := hb.length_le_max
  simp only [maxObjectSize] at h₃
  have hc : Ends (Allocator.check r) p (.ok ()) p := by
    refine .bind .get ?_
    rw [if_neg (by omega), if_pos ha]
    exact .pure
  refine ⟨_, .bind hc (.bind .modify (.bind (Process.say_ends .pure) .pure)),
    ⟨?_, ?_, ?_, rfl, id, .refl⟩, ?_⟩
  · rw [Process.size_segments_setBytes]
    exact hb.segment_lt
  · rw [Process.bytes_setBytes_self hb.segment_lt]
    exact .format (by omega) h₁ id
  · refine .fresh (Nat.le_trans (by decide) hn) ?_
    simp only [SizeClass.maxAlign]
    omega
  · exact Header.size_format ..

/-- Whoever attaches to the bytes of a region that keeps books works on that region. -/
theorem over_of_attach (h : r.Keeps p l) {r' : Region} (hs : r'.segment = r.segment)
    (ha : (Allocator.attach r' p).outcome = .ok a) : a.Over r := by
  rcases Allocator.attach_cases r' p with ⟨e, he⟩ | ⟨hok, hc⟩
  · rw [he.outcome] at ha
    cases ha
  · rw [hok.outcome] at ha
    cases ha
    refine ⟨hs, ?_⟩
    rw [← hc, hs, h.books.capacity h.sound, h.capacity]

/-! ## Using allocators -/

theorem stats (h : r.Keeps p l) (ha : a.Over r) : a.stats p = l.stats := by
  rw [Allocator.stats, Allocator.bytes, ha.segment]
  exact h.books.stats

/-- The blocks that are handed out fit below the cursor, so their bytes are counted by a word. -/
theorem toNat_bytesInUse (h : r.Keeps p l) :
    (Header.bytesInUse (p.bytes r.segment)).toNat = (l.live.map Extent.size).sum := by
  have h₁ := h.sound.sum_live_le
  have h₂ := h.sound.cursor_le
  have h₃ := h.sound.capacity_lt
  have hb := congrArg Header.Fields.bytesInUse h.books.header
  simp only [Header.fields, Ledger.header] at hb
  rw [hb, toNat_word (by omega)]

/-- If the counter of blocks that were handed out is large enough for those that are, the two
counters tell how many these are. -/
theorem live_ends_of_le (h : r.Keeps p l)
    (hle : l.live.length ≤ (Header.allocations (p.bytes r.segment)).toNat) (ha : a.Over r) :
    Ends ((a.stats p).live : Action Process MemoryError Nat) p (.ok l.live.length) p := by
  have heq := h.sound.allocations_eq
  have hw₁ : (UInt64.ofNat l.allocations).toNat = l.allocations % 2 ^ 64 := UInt64.toNat_ofNat'
  have hw₂ : (UInt64.ofNat l.frees).toNat = l.frees % 2 ^ 64 := UInt64.toNat_ofNat'
  rw [h.books.counters.1, hw₁] at hle
  have hlive : l.live.length = (a.stats p).allocations.toNat - (a.stats p).frees.toNat := by
    rw [h.stats ha, Ledger.stats, hw₁, hw₂]
    omega
  rw [hlive]
  refine .bind (.require ?_) .pure
  rw [h.stats ha, UInt64.le_iff_toNat_le, Ledger.stats, hw₁, hw₂]
  omega

/-- That is so as long as a word counts the blocks that were handed out. -/
theorem live_ends (h : r.Keeps p l) (hn : l.allocations < 2 ^ 64) (ha : a.Over r) :
    Ends ((a.stats p).live : Action Process MemoryError Nat) p (.ok l.live.length) p := by
  refine h.live_ends_of_le ?_ ha
  rw [h.books.counters.1, toNat_word hn, h.sound.allocations_eq]
  exact Nat.le_add_left ..

theorem remaining (h : r.Keeps p l) (ha : a.Over r) :
    (a.remaining p : Ran Process MemoryError Nat).outcome = .ok l.remaining := by
  have hcur := h.books.cursor h.sound
  have hcap := h.books.capacity h.sound
  have hle : (Header.cursor (p.bytes r.segment)).toNat ≤
      (Header.capacity (p.bytes r.segment)).toNat := by
    rw [hcur, hcap]
    exact h.sound.cursor_le
  have hrun := Process.onBytes_ends (p := p) (x := fun _ => Block.remaining)
    (Block.remaining_ends (ε := MemoryError) hle)
  rw [hcur, hcap, ← ha.segment] at hrun
  exact hrun.outcome

theorem allocate (h : r.Keeps p l) (ha : a.Over r) {y : Layout} (hy : y.Valid) {o : Nat}
    {l' : Ledger} (hl : l.allocate y = .ok (o, l')) {b : Bytes}
    (hb : b = Bytes.Keeps.taken (p.bytes r.segment) l (SizeClass.ofLayout y)) :
    Ends (a.allocate y) p (.ok (.place r.segment o, .ofNat o)) (p.setBytes r.segment b) ∧
      r.Keeps (p.setBytes r.segment b) l' ∧ b.size = (p.bytes r.segment).size ∧
      ∀ i, Header.size ≤ i → b.get i = (p.bytes r.segment).get i := by
  subst hb
  obtain ⟨hb, hk, hsize, hget⟩ := h.books.allocate h.sound hy.need_le hl p.level
  have hk' := h.enter (.took hl) hk
  have ho : (Offset.ofNat o).toNat = o := by
    refine hk'.toNat_live (e := y.extent o) ?_
    rw [Ledger.live_of_allocate hl]
    exact List.mem_cons_self
  refine ⟨?_, hk', hsize, hget⟩
  rw [← ha.segment] at hb ⊢
  refine .bind (Process.onBytes_ends (x := fun level => Block.allocate level y) hb) ?_
  rw [ho]
  exact .pure

theorem refuse (h : r.Keeps p l) (ha : a.Over r) {y : Layout} (hy : y.Valid) {e : MemoryError}
    (hl : l.allocate y = .error e) : Ends (a.allocate y) p (.error e) p := by
  have hb := h.books.refuse h.sound hy.need_le hl p.level
  rw [← ha.segment] at hb
  have := Process.onBytes_ends (x := fun level => Block.allocate level y) hb
  rw [Process.setBytes_bytes] at this
  exact .bind_error this

theorem toOffset_live (h : r.Keeps p l) (ha : a.Over r) {e : Extent} (he : e ∈ l.live) :
    a.toOffset (.place r.segment e.offset) = .ofNat e.offset ∧
      (Offset.ofNat e.offset).isNull = false := by
  have hstop := h.stop_le he
  have hlen := h.length_lt
  have hdef : e.stop = e.offset + e.size := rfl
  have hsize := e.sixteen_le_size
  simp only [SizeClass.maxAlign] at hlen
  have hc : a.region.contains (.place r.segment e.offset) := by
    rw [contains_place_iff, ha.segment, ha.length]
    omega
  refine ⟨?_, Offset.isNull_eq_false_of_lt ?_⟩
  · rw [Allocator.toOffset, toOffset]
    simp only [hc, if_true, Int.toNat_natCast]
  · rw [h.toNat_live he]
    omega

theorem toAddress_live (h : r.Keeps p l) (ha : a.Over r) {e : Extent} (he : e ∈ l.live)
    {d : Offset} (hd : d.toNat = e.offset) :
    d.isNull = false ∧ a.toAddress d = .place r.segment d.toNat := by
  have hstop := h.stop_le he
  have hlen := h.length_lt
  have hdef : e.stop = e.offset + e.size := rfl
  have hsize := e.sixteen_le_size
  simp only [SizeClass.maxAlign] at hlen
  have hn : d.isNull = false := Offset.isNull_eq_false_of_lt (by omega)
  have hlt : ¬ r.length ≤ d.toNat := by omega
  refine ⟨hn, ?_⟩
  simp [Allocator.toAddress, toAddress, hn, ha.length, ha.segment, hlt]

theorem free (h : r.Keeps p l) (ha : a.Over r) {y : Layout} {o : Nat}
    (hal : y.align ≤ SizeClass.maxAlign) (hy : y.Valid) (he : y.extent o ∈ l.live) :
    Ends (a.free (.place r.segment o) y : Action Process ε Unit) p (.ok ())
        (p.setBytes r.segment (Bytes.Keeps.released (p.bytes r.segment) (y.extent o))) ∧
      r.Keeps (p.setBytes r.segment (Bytes.Keeps.released (p.bytes r.segment) (y.extent o)))
        (l.release (y.extent o)) := by
  have hb := h.books.release_ends (ε := ε) h.sound he p.level
  obtain ⟨ho, hn⟩ := h.toOffset_live ha he
  refine ⟨?_, h.enter (.returned he) (h.books.release h.sound he)⟩
  refine .bind (Action.Ends.attempt (SizeClass.request_ends hal hy.need_le)) ?_
  have ho' : a.toOffset (.place r.segment o) = .ofNat o := ho
  simp only [ho']
  have hn' : (Offset.ofNat o).isNull = false := hn
  rw [if_neg (by simp [hn'])]
  rw [← ha.segment] at hb ⊢
  exact Process.onBytes_ends (x := fun level => Block.release level _ _) hb

theorem store (h : r.Keeps p l) {e : Extent} (he : e ∈ l.live) {i : Nat} (vs : List UInt8)
    (h₁ : e.offset ≤ i) (h₂ : i + vs.length ≤ e.stop) :
    Ends (Process.store (.place r.segment i) vs : Action Process ε Unit) p (.ok ())
        (p.setBytes r.segment ((p.bytes r.segment).write i vs)) ∧
      r.Keeps (p.setBytes r.segment ((p.bytes r.segment).write i vs)) l := by
  have hstop := h.stop_le he
  have hlen := h.length_le
  exact ⟨Process.store_ends vs (by omega), h.setBytes (h.books.write h.sound he h₁ h₂)⟩

end Region.Keeps

end SharedHeap
