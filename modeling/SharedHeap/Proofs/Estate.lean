import SharedHeap.Proofs.Region

/-!
# Blocks of several regions

A process has any number of regions that keep books, each in a segment of its own. `Estate p rs xs`
says that the blocks which are handed out from the regions `rs` are those of the list `xs`. Taking a
block puts it in front of the list, returning one takes it off, and whatever an allocator does, it
spares the bytes of all other blocks on the list (`Process.Spares`).
-/

namespace SharedHeap

open SharedHeap.Action (Ends)

/-- A block of a segment. -/
structure Plot where
  segment : Nat
  extent : Extent
deriving DecidableEq, Repr

namespace Plot

/-- The blocks have no byte in common. -/
def Apart (x z : Plot) : Prop := x.segment = z.segment → x.extent.Apart z.extent

/-- The block holds the same bytes. -/
def Same (p p' : Process) (x : Plot) : Prop :=
  ∀ i, x.extent.Covers i → (p'.bytes x.segment).get i = (p.bytes x.segment).get i

/-- The blocks of one segment. -/
def within (s : Nat) (xs : List Plot) : List Extent :=
  xs.filterMap fun x => if x.segment = s then some x.extent else none

theorem within_cons_self (s : Nat) (e : Extent) (xs : List Plot) :
    within s (⟨s, e⟩ :: xs) = e :: within s xs := by simp [within]

theorem within_cons_of_ne {s s' : Nat} (h : s' ≠ s) (e : Extent) (xs : List Plot) :
    within s (⟨s', e⟩ :: xs) = within s xs := by simp [within, h]

theorem within_eq_nil {s : Nat} {xs : List Plot} (h : ∀ x ∈ xs, x.segment ≠ s) :
    within s xs = [] :=
  List.filterMap_eq_nil_iff.2 fun x hx => if_neg (h x hx)

theorem within_of_forall {s : Nat} {xs : List Plot} (h : ∀ x ∈ xs, x.segment = s) :
    within s xs = xs.map extent := by
  induction xs with
  | nil => rfl
  | cons x xs ih =>
    obtain ⟨s', e⟩ := x
    obtain rfl : s' = s := h _ List.mem_cons_self
    rw [within_cons_self, List.map_cons, ih fun x hx => h x (List.mem_cons_of_mem _ hx)]

theorem within_append (s : Nat) (xs zs : List Plot) :
    within s (xs ++ zs) = within s xs ++ within s zs := List.filterMap_append

theorem mem_within_iff {s : Nat} {e : Extent} {xs : List Plot} :
    e ∈ within s xs ↔ ⟨s, e⟩ ∈ xs := by
  simp only [within, List.mem_filterMap]
  constructor
  · rintro ⟨⟨s', e'⟩, hx, h⟩
    split at h
    · next hs =>
      cases hs
      cases h
      exact hx
    · cases h
  · intro hx
    exact ⟨_, hx, by simp⟩

end Plot

/-- The block at a place that serves a layout. -/
def Layout.plot (y : Layout) (s o : Nat) : Plot := ⟨s, y.extent o⟩

/-- Blocks for the layout have room for `n` bytes. -/
def Layout.HasRoom (y : Layout) (n : Nat) : Prop := n ≤ (SizeClass.ofLayout y).blockSize

theorem Layout.hasRoom_size (y : Layout) : y.HasRoom y.size := y.size_le_blockSize

theorem Layout.HasRoom.le_stop {y : Layout} {n : Nat} (h : y.HasRoom n) (s o : Nat) :
    o + n ≤ (y.plot s o).extent.stop := Nat.add_le_add_left h o

/-- Blocks of one class serve both layouts. -/
def Layout.Shares (y z : Layout) : Prop := SizeClass.ofLayout y = SizeClass.ofLayout z

namespace Layout.Shares

variable {y z : Layout}

theorem plot_eq (h : y.Shares z) (s o : Nat) : y.plot s o = z.plot s o := by
  rw [plot, plot, extent, extent, show SizeClass.ofLayout y = SizeClass.ofLayout z from h]

theorem hasRoom (h : y.Shares z) : y.HasRoom z.size := by
  rw [HasRoom, show SizeClass.ofLayout y = SizeClass.ofLayout z from h]
  exact z.hasRoom_size

end Layout.Shares

/-- An allocator gives out blocks for the layout. -/
structure Layout.Served (y : Layout) : Prop where
  valid : y.Valid
  align_le : y.align ≤ SizeClass.maxAlign

/-- An object with the layout `z` can stand at an offset in a block for the layout `y`. -/
structure Layout.Suits (y z : Layout) (o : Nat) : Prop where
  room : y.HasRoom z.size
  align_le : z.align ≤ SizeClass.maxAlign
  align_dvd : z.align ∣ o

/-- From one state of a process to another, blocks keep their bytes. Segments stay where they are
and as long as they are. -/
structure Process.Spares (p p' : Process) (xs : List Plot) : Prop where
  segments : p'.segments.size = p.segments.size
  size : ∀ s, (p'.bytes s).size = (p.bytes s).size
  skew : ∀ s, p'.skew s = p.skew s
  registry : p'.registry = p.registry
  same : ∀ x ∈ xs, x.Same p p'

namespace Process.Spares

variable {p p' p'' : Process} {xs zs : List Plot}

protected theorem refl (p : Process) (xs : List Plot) : p.Spares p xs :=
  ⟨rfl, fun _ => rfl, fun _ => rfl, rfl, fun _ _ _ _ => rfl⟩

theorem trans (h : p.Spares p' xs) (h' : p'.Spares p'' xs) : p.Spares p'' xs where
  segments := h'.segments.trans h.segments
  size s := (h'.size s).trans (h.size s)
  skew s := (h'.skew s).trans (h.skew s)
  registry := h'.registry.trans h.registry
  same x hx i hi := (h'.same x hx i hi).trans (h.same x hx i hi)

theorem mono (h : p.Spares p' xs) (hz : ∀ x ∈ zs, x ∈ xs) : p.Spares p' zs :=
  { h with same := fun x hx => h.same x (hz x hx) }

/-- Bytes of one segment change outside the blocks. -/
theorem setBytes {s : Nat} {b : Bytes} (hs : s < p.segments.size)
    (hsize : b.size = (p.bytes s).size)
    (hsame : ∀ x ∈ xs, x.segment = s → ∀ i, x.extent.Covers i → b.get i = (p.bytes s).get i) :
    p.Spares (p.setBytes s b) xs where
  segments := size_segments_setBytes ..
  size s' := by
    rw [bytes_setBytes hs]
    split
    · next h => rw [hsize, h]
    · rfl
  skew s' := skew_setBytes ..
  registry := rfl
  same x hx i hi := by
    rw [bytes_setBytes hs]
    split
    · next h =>
      rw [hsame x hx h.symm i hi, h]
    · rfl

theorem of_segments (h : p'.segments = p.segments) (hr : p'.registry = p.registry) :
    p.Spares p' xs := by
  have hb (s : Nat) : p'.bytes s = p.bytes s := by rw [bytes, bytes, h]
  refine ⟨by rw [h], fun s => by rw [hb], fun s => ?_, hr, fun x _ i _ => by rw [hb]⟩
  unfold Process.skew
  rw [h]

end Process.Spares

/-- From one state of a process to another, a segment counts so many more blocks that were handed
out, and so many more that were returned. -/
structure Process.Deals (p p' : Process) (s : Nat) (m n : UInt64) : Prop where
  allocations : Header.allocations (p'.bytes s) = Header.allocations (p.bytes s) + m
  frees : Header.frees (p'.bytes s) = Header.frees (p.bytes s) + n

namespace Process.Deals

variable {p p' p'' : Process} {s : Nat} {k m n : UInt64}

protected theorem refl (p : Process) (s : Nat) : p.Deals p s 0 0 :=
  ⟨(UInt64.add_zero _).symm, (UInt64.add_zero _).symm⟩

theorem trans {m' n' : UInt64} (h : p.Deals p' s m n) (h' : p'.Deals p'' s m' n') :
    p.Deals p'' s (m + m') (n + n') where
  allocations := by rw [h'.allocations, h.allocations, UInt64.add_assoc]
  frees := by rw [h'.frees, h.frees, UInt64.add_assoc]

theorem idle_trans (h : p.Deals p' s 0 0) (h' : p'.Deals p'' s m n) : p.Deals p'' s m n := by
  have := h.trans h'
  rwa [UInt64.zero_add, UInt64.zero_add] at this

theorem trans_idle (h : p.Deals p' s m n) (h' : p'.Deals p'' s 0 0) : p.Deals p'' s m n := by
  have := h.trans h'
  rwa [UInt64.add_zero, UInt64.add_zero] at this

/-- Books that were kept and books that are kept tell how often blocks were dealt with. -/
theorem of_books {l l' : Ledger} (h : (p.bytes s).Keeps l) (h' : (p'.bytes s).Keeps l') {i j : Nat}
    (hi : l'.allocations = l.allocations + i) (hj : l'.frees = l.frees + j) :
    p.Deals p' s (.ofNat i) (.ofNat j) := by
  have h₁ := h.stats
  have h₂ := h'.stats
  simp only [Allocator.Stats.ofBytes, Ledger.stats, Allocator.Stats.mk.injEq] at h₁ h₂
  refine ⟨?_, ?_⟩
  · rw [h₁.1, h₂.1, hi, UInt64.ofNat_add]
  · rw [h₁.2.1, h₂.2.1, hj, UInt64.ofNat_add]

end Process.Deals

namespace Process

variable {p p' p'' : Process} {s : Nat} {m n : UInt64}

/-- How many blocks of a segment were handed out from one state of a process to another, as its
counter tells. -/
def handed (p p' : Process) (s : Nat) : Nat :=
  (Header.allocations (p'.bytes s) - Header.allocations (p.bytes s)).toNat

/-- How many blocks of a segment are handed out, as its counters tell. -/
def pending (p : Process) (s : Nat) : Nat :=
  (Header.allocations (p.bytes s) - Header.frees (p.bytes s)).toNat

theorem Deals.handed (h : p.Deals p' s m n) : p.handed p' s = m.toNat := by
  rw [Process.handed, h.allocations, UInt64.add_comm, UInt64.add_sub_cancel]

theorem handed_of_bytes (h : p'.bytes s = p.bytes s) : p.handed p' s = 0 := by
  rw [handed, h, UInt64.sub_self]
  rfl

theorem handed_trans (h : p.handed p' s + p'.handed p'' s < 2 ^ 64) :
    p.handed p'' s = p.handed p' s + p'.handed p'' s := by
  have hwords : Header.allocations (p''.bytes s) - Header.allocations (p.bytes s) =
      (Header.allocations (p'.bytes s) - Header.allocations (p.bytes s)) +
        (Header.allocations (p''.bytes s) - Header.allocations (p'.bytes s)) := by grind
  rw [handed, hwords, UInt64.toNat_add]
  exact Nat.mod_eq_of_lt h

end Process

/-- The block at a place is the one that was returned last to the class of a layout. -/
def Process.Returned (p : Process) (s o : Nat) (y : Layout) : Prop :=
  Header.freeHead (p.bytes s) (SizeClass.ofLayout y).index = .ofNat o

/-- The block at a place is on no chain of free blocks. -/
def Process.Holds (p : Process) (s o : Nat) : Prop :=
  ∀ c : SizeClass, c.index < Header.classCount → ∀ os,
    (p.bytes s).Chain (Header.freeHead (p.bytes s) c.index) os → o ∉ os

/-- The blocks that are handed out from regions, each in a segment of its own. -/
structure Estate (p : Process) (rs : List Region) (xs : List Plot) : Prop where
  ledgers : ∀ r ∈ rs, ∃ l, r.Keeps p l ∧ l.live.Perm (Plot.within r.segment xs)
  /-- No two regions share a segment. -/
  distinct : ∀ r ∈ rs, ∀ r' ∈ rs, r.segment = r'.segment → r = r'
  placed : ∀ x ∈ xs, ∃ r ∈ rs, r.segment = x.segment

namespace Estate

variable {p p' : Process} {rs : List Region} {xs zs : List Plot} {x : Plot} {r : Region}
  {a : Allocator} {y : Layout} {ε : Type}

theorem perm (h : Estate p rs xs) (hp : xs.Perm zs) : Estate p rs zs where
  ledgers r hr := by
    obtain ⟨l, hk, hl⟩ := h.ledgers r hr
    exact ⟨l, hk, hl.trans (hp.filterMap _)⟩
  distinct := h.distinct
  placed x hx := h.placed x (hp.mem_iff.2 hx)

/-- Segments without regions do not matter. -/
theorem retains (h : Estate p rs xs) (hp : ∀ r ∈ rs, p.Retains p' r.segment) : Estate p' rs xs where
  ledgers r hr := by
    obtain ⟨l, hk, hl⟩ := h.ledgers r hr
    exact ⟨l, hk.transfer rfl (Nat.lt_of_lt_of_le hk.segment_lt (hp r hr).segments)
      ((hp r hr).bytes ▸ hk.books), hl⟩
  distinct := h.distinct
  placed := h.placed

theorem congr (h : Estate p rs xs) (hs : p'.segments = p.segments) : Estate p' rs xs :=
  h.retains fun _ _ => Process.retains_of_segments hs

/-- A block on the list is one that its region has handed out. -/
theorem live (h : Estate p rs xs) (hx : x ∈ xs) :
    ∃ r ∈ rs, r.segment = x.segment ∧ ∃ l, r.Keeps p l ∧ x.extent ∈ l.live := by
  obtain ⟨r, hr, hs⟩ := h.placed x hx
  obtain ⟨l, hk, hl⟩ := h.ledgers r hr
  refine ⟨r, hr, hs, l, hk, hl.mem_iff.2 (Plot.mem_within_iff.2 ?_)⟩
  rwa [hs]

theorem holds (h : Estate p rs xs) (hx : x ∈ xs) : p.Holds x.segment x.extent.offset := by
  obtain ⟨r, -, hs, l, hk, hl⟩ := h.live hx
  rw [← hs]
  intro c hc os hos ho
  obtain rfl := (hk.books.chain c hc).unique hos
  have hap := hk.sound.live_apart_free hl (f := ⟨x.extent.offset, c⟩) ho
  exact hap.offset_ne rfl

theorem apart (h : Estate p rs xs) : xs.Pairwise Plot.Apart := by
  have hpair : ∀ s, (∃ r ∈ rs, r.segment = s) →
      xs.Pairwise fun x z => x.segment = s → z.segment = s → x.extent.Apart z.extent := by
    rintro s ⟨r, hr, rfl⟩
    obtain ⟨l, hk, hl⟩ := h.ledgers r hr
    have := hk.sound.live_apart.perm hl fun h => h.symm
    rw [Plot.within, List.pairwise_filterMap] at this
    refine this.imp ?_
    intro x z hxz hx hz
    exact hxz _ (if_pos hx) _ (if_pos hz)
  rw [List.pairwise_iff_getElem]
  intro i j hi hj hij hs
  obtain ⟨r, hr, hrs⟩ := h.placed _ (List.getElem_mem hi)
  exact List.pairwise_iff_getElem.1 (hpair _ ⟨r, hr, hrs⟩) i j hi hj hij rfl hs.symm

theorem apart_cons (h : Estate p rs (x :: xs)) {z : Plot} (hz : z ∈ xs) : x.Apart z :=
  List.rel_of_pairwise_cons h.apart hz

/-- Blocks lie behind the header and inside their segment. -/
theorem inside (h : Estate p rs xs) (hx : x ∈ xs) :
    Header.dataStart ≤ x.extent.offset ∧ x.extent.stop ≤ (p.bytes x.segment).size := by
  obtain ⟨r, -, hs, l, hk, hl⟩ := h.live hx
  have h₁ := hk.stop_le hl
  have h₂ := hk.length_le
  rw [hs] at h₂
  exact ⟨(hk.sound.fits _ (hk.sound.mem_carved_of_live hl)).1, by omega⟩

/-- One region keeps other books, the others are left alone. -/
theorem setBytes (h : Estate p rs xs) (hr : r ∈ rs) {b : Bytes} {l : Ledger}
    (hk : r.Keeps (p.setBytes r.segment b) l) (hl : l.live.Perm (Plot.within r.segment zs))
    (hz : ∀ s ≠ r.segment, Plot.within s zs = Plot.within s xs)
    (hp : ∀ z ∈ zs, ∃ r ∈ rs, r.segment = z.segment) :
    Estate (p.setBytes r.segment b) rs zs where
  ledgers r' hr' := by
    by_cases hs : r'.segment = r.segment
    · have hrr := h.distinct r' hr' r hr hs
      exact ⟨l, hrr ▸ hk, hrr ▸ hl⟩
    · obtain ⟨l', hk', hl'⟩ := h.ledgers r' hr'
      refine ⟨l', hk'.setBytes_of_ne fun he => hs he.symm, ?_⟩
      rwa [hz _ hs]
  distinct := h.distinct
  placed := hp

/-- What an allocator has counted are the blocks that are handed out. -/
theorem counted (h : Estate p rs xs) (hr : r ∈ rs) (ha : a.Over r) :
    (a.stats p).allocations - (a.stats p).frees =
        .ofNat (Plot.within r.segment xs).length ∧
      (a.stats p).bytesInUse = .ofNat ((Plot.within r.segment xs).map Extent.size).sum := by
  obtain ⟨l, hk, hl⟩ := h.ledgers r hr
  rw [hk.stats ha, ← hl.length_eq, ← (hl.map _).sum_nat]
  refine ⟨?_, rfl⟩
  simp only [Ledger.stats, hk.sound.allocations_eq, UInt64.ofNat_add]
  rw [UInt64.add_comm, UInt64.add_sub_cancel]

theorem pending (h : Estate p rs xs) (hr : r ∈ rs) :
    p.pending r.segment = (Plot.within r.segment xs).length := by
  obtain ⟨l, hk, hl⟩ := h.ledgers r hr
  have h₁ := hk.sound.length_live_le
  have h₂ := hk.sound.capacity_lt
  have hcount := (h.counted hr (a := ⟨r⟩) ⟨rfl, rfl⟩).1
  rw [Process.pending]
  refine (congrArg UInt64.toNat hcount).trans ?_
  rw [← hl.length_eq]
  exact toNat_word (by omega)

/-- A block lies where its layout asks for. -/
theorem align_dvd (h : Estate p rs xs) {s o : Nat} (hy : y.Served) (hx : y.plot s o ∈ xs) :
    y.align ∣ o := by
  obtain ⟨r, -, -, l, hk, hl⟩ := h.live hx
  obtain ⟨-, -, hdvd, -⟩ := hk.sound.fits _ (hk.sound.mem_carved_of_live hl)
  exact Nat.dvd_trans (hy.valid.align_dvd hy.align_le).2 hdvd

theorem suits (h : Estate p rs xs) {s o : Nat} (hy : y.Served) (hx : y.plot s o ∈ xs) :
    y.Suits y o := ⟨y.hasRoom_size, hy.align_le, h.align_dvd hy hx⟩

/-- Another region begins to keep books. -/
theorem add (h : Estate p rs xs) {b : Bytes} {id : AllocatorId}
    (hk : r.Keeps (p.setBytes r.segment b) (.fresh id r.length))
    (hne : ∀ r' ∈ rs, r'.segment ≠ r.segment) :
    Estate (p.setBytes r.segment b) (rs ++ [r]) xs := by
  refine ⟨fun r' hr' => ?_, fun r₁ h₁ r₂ h₂ hs => ?_, fun x hx => ?_⟩
  · rcases List.mem_append.1 hr' with hr' | hr'
    · obtain ⟨l, hl, hlive⟩ := h.ledgers r' hr'
      exact ⟨l, hl.setBytes_of_ne (hne r' hr').symm, hlive⟩
    · obtain rfl := List.mem_singleton.1 hr'
      refine ⟨_, hk, List.Perm.of_eq (Plot.within_eq_nil fun x hx => ?_).symm⟩
      obtain ⟨r₁, h₁, hs⟩ := h.placed x hx
      exact hs ▸ hne r₁ h₁
  · rcases List.mem_append.1 h₁ with h₃ | h₃ <;> rcases List.mem_append.1 h₂ with h₄ | h₄
    · exact h.distinct r₁ h₃ r₂ h₄ hs
    · obtain rfl := List.mem_singleton.1 h₄
      exact absurd hs (hne r₁ h₃)
    · obtain rfl := List.mem_singleton.1 h₃
      exact absurd hs.symm (hne r₂ h₄)
    · exact (List.mem_singleton.1 h₃).trans (List.mem_singleton.1 h₄).symm
  · obtain ⟨r₁, h₁, hs⟩ := h.placed x hx
    exact ⟨r₁, List.mem_append_left _ h₁, hs⟩

/-- Taking a block puts it on the list, or changes nothing. -/
theorem allocate (h : Estate p rs xs) (hr : r ∈ rs) (ha : a.Over r) (hy : y.Valid) :
    (∃ (o : Nat) (p' : Process), Ends (a.allocate y) p (.ok (.place r.segment o, .ofNat o)) p' ∧
      Estate p' rs (⟨r.segment, y.extent o⟩ :: xs) ∧ p.Spares p' xs ∧
      (Offset.ofNat o).toNat = o ∧ y.align ≤ SizeClass.maxAlign) ∨
    ∃ e, Ends (a.allocate y) p (.error e) p := by
  obtain ⟨l, hk, hl⟩ := h.ledgers r hr
  cases hal : l.allocate y with
  | error e => exact .inr ⟨e, hk.refuse ha hy hal⟩
  | ok ol =>
    obtain ⟨o, l'⟩ := ol
    obtain ⟨hb, hk', hsize, hget⟩ := hk.allocate ha hy hal rfl
    have hlive := Ledger.live_of_allocate hal
    have hmem : y.extent o ∈ l'.live := hlive ▸ List.mem_cons_self
    refine .inl ⟨o, _, hb, h.setBytes hr hk' ?_ ?_ ?_, ?_, hk'.toNat_live hmem,
      (Ledger.allocate_cases hal).1⟩
    · rw [hlive, Plot.within_cons_self]
      exact hl.cons _
    · intro s hs
      exact Plot.within_cons_of_ne (fun he => hs he.symm) ..
    · intro z hz
      rcases List.mem_cons.1 hz with rfl | hz
      · exact ⟨r, hr, rfl⟩
      · exact h.placed z hz
    · refine .setBytes hk.segment_lt hsize fun z hz hs i hi => hget i ?_
      have h₁ := (h.inside hz).1
      have h₂ := Header.size_le_dataStart
      have h₃ := hi.1
      omega

/-- Returning a block takes it off the list. -/
theorem free {o : Nat} (h : Estate p rs (⟨r.segment, y.extent o⟩ :: xs)) (hr : r ∈ rs)
    (ha : a.Over r) (hal : y.align ≤ SizeClass.maxAlign) (hy : y.Valid) :
    ∃ p', Ends (a.free (.place r.segment o) y : Action Process ε Unit) p (.ok ()) p' ∧
      Estate p' rs xs ∧ p.Spares p' xs ∧ p'.Returned r.segment o y := by
  obtain ⟨l, hk, hl⟩ := h.ledgers r hr
  rw [Plot.within_cons_self] at hl
  have hmem : y.extent o ∈ l.live := hl.mem_iff.2 List.mem_cons_self
  obtain ⟨hf, hk'⟩ := hk.free (ε := ε) ha hal hy hmem
  obtain ⟨-, -, -, hc⟩ := hk.sound.fits _ (hk.sound.mem_carved_of_live hmem)
  refine ⟨_, hf, h.setBytes hr hk' ?_ ?_ fun z hz => h.placed z (List.mem_cons_of_mem _ hz), ?_,
    ?_⟩
  · refine (List.perm_cons (y.extent o)).1 ?_
    exact (List.perm_cons_erase hmem).symm.trans hl
  · intro s hs
    exact (Plot.within_cons_of_ne (fun he => hs he.symm) ..).symm
  · -- the link is written into the block itself, apart from all others
    refine .setBytes hk.segment_lt (by simp [Bytes.Keeps.released]) fun z hz hs i hi => ?_
    have h₁ := (h.inside (List.mem_cons_of_mem _ hz)).1
    have h₂ := Header.size_le_dataStart
    have h₃ := (y.extent o).sixteen_le_size
    have h₄ := h.apart_cons hz hs.symm
    obtain ⟨h₅, h₆⟩ := hi
    have h₇ : (y.extent o).stop = (y.extent o).offset + (y.extent o).size := rfl
    refine Bytes.Keeps.get_released hc (by omega) ?_
    rcases h₄ with h₄ | h₄ <;> simp only [Layout.extent_offset] at * <;> omega
  · exact (hk'.books.freeHead_of_cons hc (Function.update_self ..)).2

theorem store {s : Nat} {e : Extent} (h : Estate p rs (⟨s, e⟩ :: xs)) {i : Nat} (vs : List UInt8)
    (h₁ : e.offset ≤ i) (h₂ : i + vs.length ≤ e.stop) :
    ∃ p', Ends (Process.store (.place s i) vs : Action Process ε Unit) p (.ok ()) p' ∧
      Estate p' rs (⟨s, e⟩ :: xs) ∧ p.Spares p' xs ∧
      p'.bytes s = (p.bytes s).write i vs := by
  obtain ⟨r, hr, hs, l, hk, hmem⟩ := h.live List.mem_cons_self
  obtain rfl : r.segment = s := hs
  obtain ⟨l', hk', hl'⟩ := h.ledgers r hr
  have hmem' : e ∈ l'.live :=
    hl'.mem_iff.2 (Plot.mem_within_iff.2 List.mem_cons_self)
  obtain ⟨hst, hks⟩ := hk'.store (ε := ε) hmem' vs h₁ h₂
  refine ⟨_, hst, h.setBytes hr hks hl' (fun _ _ => rfl) h.placed, ?_,
    Process.bytes_setBytes_self hk.segment_lt⟩
  refine .setBytes hk.segment_lt (Bytes.size_write ..) fun z hz hzs j hj => ?_
  have h₃ : e.Apart z.extent := h.apart_cons hz hzs.symm
  obtain ⟨h₄, h₅⟩ := hj
  rcases h₃ with h₃ | h₃
  · exact Bytes.get_write_of_le (by omega)
  · exact Bytes.get_write_of_lt (by omega)

theorem load (h : Estate p rs xs) (hx : x ∈ xs) {i n : Nat} (h₂ : i + n ≤ x.extent.stop) :
    Ends (Process.load (.place x.segment i) n : Action Process ε _) p
      (.ok ((p.bytes x.segment).read i n)) p := by
  have := (h.inside hx).2
  exact Process.load_ends (by omega)

/-! ## Counting -/

theorem deals_allocate (h : Estate p rs xs) (hr : r ∈ rs) (ha : a.Over r) (hy : y.Valid)
    {q : Address × Offset} (hal : Ends (a.allocate y) p (.ok q) p') :
    p.Deals p' r.segment 1 0 := by
  obtain ⟨l, hk, -⟩ := h.ledgers r hr
  cases hl : l.allocate y with
  | error e => cases (hal.unique (hk.refuse ha hy hl)).1
  | ok ol =>
    obtain ⟨hb, hk', -⟩ := hk.allocate ha hy hl rfl
    obtain ⟨-, rfl⟩ := hal.unique hb
    have hcount : ol.2.allocations = l.allocations + 1 ∧ ol.2.frees = l.frees := by
      obtain ⟨-, -, ⟨rest, -, hl'⟩ | ⟨-, -, -, hl'⟩⟩ := Ledger.allocate_cases hl <;> rw [hl'] <;>
        exact ⟨rfl, rfl⟩
    exact .of_books hk.books hk'.books (i := 1) (j := 0) hcount.1 hcount.2

theorem deals_free {o : Nat} (h : Estate p rs (⟨r.segment, y.extent o⟩ :: xs)) (hr : r ∈ rs)
    (ha : a.Over r) (hal : y.align ≤ SizeClass.maxAlign) (hy : y.Valid)
    (hf : Ends (a.free (.place r.segment o) y : Action Process ε Unit) p (.ok ()) p') :
    p.Deals p' r.segment 0 1 := by
  obtain ⟨l, hk, hl⟩ := h.ledgers r hr
  have hmem : y.extent o ∈ l.live :=
    hl.mem_iff.2 (Plot.mem_within_iff.2 List.mem_cons_self)
  obtain ⟨hf', hk'⟩ := hk.free (ε := ε) ha hal hy hmem
  obtain ⟨-, rfl⟩ := hf.unique hf'
  exact .of_books hk.books hk'.books (i := 0) (j := 1) rfl rfl

theorem deals_store {s : Nat} {e : Extent} (h : Estate p rs (⟨s, e⟩ :: xs)) {i : Nat}
    {vs : List UInt8} (h₁ : e.offset ≤ i) (h₂ : i + vs.length ≤ e.stop)
    (hst : Ends (Process.store (.place s i) vs : Action Process ε Unit) p (.ok ()) p') :
    p.Deals p' s 0 0 := by
  obtain ⟨r, hr, hs, l, hk, hmem⟩ := h.live List.mem_cons_self
  obtain rfl : r.segment = s := hs
  obtain ⟨hst', hk'⟩ := hk.store (ε := ε) hmem vs h₁ h₂
  obtain ⟨-, rfl⟩ := hst.unique hst'
  exact .of_books hk.books hk'.books (i := 0) (j := 0) rfl rfl

end Estate

end SharedHeap
