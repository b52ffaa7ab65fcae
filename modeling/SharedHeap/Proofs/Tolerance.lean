import SharedHeap.Proofs.Counters

/-!
# Blocks that were never handed out

No allocator hands out a block that is aligned beyond a page, that is larger than the blocks of the
largest class, or that lies outside its region. Whoever returns such a block is not heard, and the
process stays as it was (`Tenancy.tolerant_of_reachable`). There is one exception: the class of a
block is used without a look at its size, so a block that is too large for all of them, and said to
be inside the region, is a fault. It happens under the lock, which is given back, so it changes
nothing either.
-/

namespace SharedHeap

open SharedHeap.Action (Ends)

/-- The offset of an address inside a region is not null. -/
theorem Region.isNull_toOffset {r : Region} {x : Address} (hr : r.length < 2 ^ 64)
    (hx : r.contains x) : (r.toOffset x).isNull = false := by
  cases x with
  | null => cases hx
  | place segment distance =>
    obtain ⟨-, hpos, hlt⟩ := Region.contains_place_iff.1 hx
    have ho : (Offset.ofNat distance.toNat).toNat = distance.toNat :=
      Offset.toNat_ofNat (by omega)
    rw [toOffset, if_pos hx]
    exact Offset.isNull_eq_false_of_lt (by omega)

/-- A class that does not exist is found out before anything is stored. -/
theorem Block.release_ends_of_le {ε : Type} {b : Bytes} {c : SizeClass} (hb : Header.lock b = 0)
    (hs : Header.size ≤ b.size) (hc : Header.classCount ≤ c.index) (o : Offset)
    (level : Log.Level) :
    Ends (release level c o : Action Bytes ε Unit) b (.fault .noSuchClass) b := by
  have hrun := locked_ends (α := Unit) (ε := ε) hb (.bind_fault (f := fun _ => do
      let b ← .get
      .require (o.toNat + 8 ≤ b.size) .wildAccess
      let linked := b.setWord o.toNat (Header.freeHead b c.index)
      .set (Header.setFreeHead linked c.index o.word))
    (.require_fault (y := .noSuchClass) (Nat.not_lt.2 hc)))
  rw [Bytes.setLock_setLock hb hs] at hrun
  exact .bind_fault hrun

namespace Tenancy

variable {t : Tenancy} {l : Ledger} {a : Allocator} {x : Address} {y : Layout}

/-- No allocator over the region hands such a block out. -/
def Ungranted (a : Allocator) (x : Address) (y : Layout) : Prop :=
  4096 < y.align ∨ 2 ^ 31 < y.room ∨ a.contains x = false

/-- Only its size tells that the block was never handed out. -/
def Oversized (a : Allocator) (x : Address) (y : Layout) : Prop :=
  y.align ≤ 4096 ∧ 2 ^ 31 < y.room ∧ a.contains x

theorem Ungranted.ignored (h : Ungranted a x y) (hn : ¬ Oversized a x y) : Ignored a x y := by
  rcases h with h | h | h
  · exact .inl h
  · by_cases hal : 4096 < y.align
    · exact .inl hal
    · exact .inr (Bool.eq_false_iff.2 fun hx => hn ⟨Nat.not_lt.1 hal, h, hx⟩)
  · exact .inr h

/-- What becomes of blocks that are returned, but were never handed out. -/
structure Tolerant (t : Tenancy) (a : Allocator) : Prop where
  /-- No request is granted with one of them. -/
  granted : ∀ y, y.Valid → ∀ x o, (a.allocate y t.process).outcome = .ok (x, o) →
    ¬ Ungranted a x y
  /-- They are ignored, unless only their size is wrong. -/
  ok_iff : ∀ x y, y.Valid → Ungranted a x y →
    (((a.free x y : Action Process MemoryError Unit) t.process).outcome = .ok () ↔
      ¬ Oversized a x y)
  fault : ∀ x y, y.Valid → Oversized a x y →
    ((a.free x y : Action Process MemoryError Unit) t.process).outcome = .fault .noSuchClass
  /-- Nothing changes, whether they are ignored or not. -/
  same : ∀ x y, y.Valid → Ungranted a x y →
    ((a.free x y : Action Process MemoryError Unit) t.process).state = t.process
  /-- Whatever is done next goes as if they had not been returned. -/
  next : ∀ x y, y.Valid → Ungranted a x y → ¬ Oversized a x y →
    ∀ (α : Type) (z : Action Process MemoryError α) o p',
      (Ends (do a.free x y; z) t.process o p' ↔ Ends z t.process o p')

namespace Kept

theorem free_oversized (h : t.Kept l) (ha : a ∈ t.allocators) (hy : y.Valid)
    (hx : Oversized a x y) :
    Ends (a.free x y : Action Process MemoryError Unit) t.process (.fault .noSuchClass)
      t.process := by
  obtain ⟨hal, hroom, hin⟩ := hx
  have hover := h.allocators a ha
  have hlen := h.keeps.length_lt
  rw [← hover.length] at hlen
  have hnull : (a.toOffset x).isNull = false := Region.isNull_toOffset (by omega) hin
  have hrun := Process.onBytes_ends (x := fun level => Block.release level _ _)
    (Block.release_ends_of_le (ε := MemoryError) h.keeps.books.lock
      (h.keeps.books.header_le h.keeps.sound) (y.room_lt_iff.1 hroom) (a.toOffset x)
      t.process.level)
  rw [Process.setBytes_bytes, ← hover.segment] at hrun
  refine .bind (.attempt (SizeClass.request_ends hal hy.need_le)) ?_
  simp only [hnull]
  exact hrun

theorem not_ungranted (h : t.Kept l) (ha : a ∈ t.allocators) (hy : y.Valid) {o : Offset}
    (hrun : (a.allocate y t.process).outcome = .ok (x, o)) : ¬ Ungranted a x y := by
  have hover := h.allocators a ha
  rw [h.outcome_allocate ha hy] at hrun
  cases hl : l.allocate y with
  | error e =>
    rw [hl] at hrun
    cases hrun
  | ok q =>
    obtain ⟨n, l'⟩ := q
    rw [hl] at hrun
    obtain ⟨rfl, rfl⟩ := Prod.mk.inj (Outcome.ok.inj hrun)
    obtain ⟨hal, hcls, -⟩ := Ledger.allocate_cases hl
    obtain ⟨-, hk, -⟩ := h.keeps.allocate hover hy hl rfl
    have hstop := hk.stop_le (e := y.extent n) (Ledger.live_of_allocate hl ▸ List.mem_cons_self)
    have hsize := y.room_lt_iff
    have hpos := (SizeClass.ofLayout y).sixteen_le_blockSize
    have hdef : (y.extent n).stop = n + (SizeClass.ofLayout y).blockSize := rfl
    have hin : a.contains (.place t.region.segment n) := by
      rw [Allocator.contains, Region.contains_place_iff, hover.length, hover.segment]
      omega
    rintro (hbig | hbig | hout)
    · exact absurd hal (Nat.not_le.2 hbig)
    · exact absurd hcls (Nat.not_lt.2 (hsize.1 hbig))
    · rw [hout] at hin
      cases hin

theorem free_ungranted (h : t.Kept l) (ha : a ∈ t.allocators) (hy : y.Valid)
    (hx : Ungranted a x y) :
    ∃ o, Ends (a.free x y : Action Process MemoryError Unit) t.process o t.process ∧
      (o = .ok () ↔ ¬ Oversized a x y) := by
  by_cases hover : Oversized a x y
  · exact ⟨_, h.free_oversized ha hy hover, iff_of_false nofun (not_not_intro hover)⟩
  · exact ⟨_, free_ignored hy (hx.ignored hover) t.process, iff_of_true rfl hover⟩

theorem tolerant (h : t.Kept l) (ha : a ∈ t.allocators) : t.Tolerant a where
  granted y hy x o hrun := h.not_ungranted ha hy hrun
  ok_iff x y hy hx := by
    obtain ⟨o, hrun, ho⟩ := h.free_ungranted ha hy hx
    rw [hrun.outcome]
    exact ho
  fault x y hy hx := (h.free_oversized ha hy hx).outcome
  same x y hy hx := by
    obtain ⟨o, hrun, -⟩ := h.free_ungranted ha hy hx
    exact hrun.state
  next x y hy hx hn α z o p' := by
    have hrun := free_ignored hy (hx.ignored hn) t.process
    refine ⟨fun hz => ?_, fun hz => .bind hrun hz⟩
    have hz' : Ends (do a.free x y; z) t.process (z t.process).outcome (z t.process).state :=
      .bind hrun ⟨rfl, rfl⟩
    obtain ⟨rfl, rfl⟩ := hz.unique hz'
    exact ⟨rfl, rfl⟩

end Kept

/-- However a region is used from when it is formatted on, blocks that were never handed out can be
returned, unless only their size is wrong. -/
theorem tolerant_of_reachable {id : AllocatorId} {r : Region} {p : Process} (hb : r.Backed p)
    (hn : Allocator.minRegionSize ≤ r.length) (ha : p.isAligned r.base Region.alignment)
    (h : Reachable id r p t) : ∀ a ∈ t.allocators, t.Tolerant a := by
  intro a hmem
  obtain ⟨l, hl⟩ := Kept.reachable hb hn ha h
  exact hl.tolerant hmem

/-- The smallest layout that no class serves. -/
def oversize : Layout := ⟨2 ^ 31 + 1, 1⟩

/-- A block beyond all classes is returned from outside the page without harm. -/
theorem tolerant_pageUse : pageUse.Tolerant ⟨page⟩ ∧ Ungranted ⟨page⟩ (.place 0 4096) oversize ∧
    ((Allocator.free ⟨page⟩ (.place 0 4096) oversize :
      Action Process MemoryError Unit) pageUse.process).outcome = .ok () := by
  have ha : pageUse.allocators = [⟨pageView⟩, ⟨page⟩] := pageThird_leases.2
  have h := tolerant_of_reachable page_backed (by decide) (by decide) pageUse_reachable ⟨page⟩
    (by simp [ha])
  have hx : Ungranted ⟨page⟩ (.place 0 4096) oversize := .inr (.inr (by decide))
  refine ⟨h, hx, (h.ok_iff _ _ (by decide) hx).2 fun hover => ?_⟩
  exact absurd hover.2.2 (by decide)

/-- The same block is a fault where the page has a block of its own, though nobody could ever have
been handed it out. -/
theorem oversized_faults : Reachable ⟨1, 0⟩ page pageProcess pageUse ∧
    Allocator.mk page ∈ pageUse.allocators ∧ oversize.Valid ∧
    Ungranted ⟨page⟩ (.place 0 320) oversize ∧
    (Allocator.allocate ⟨page⟩ oversize pageUse.process).outcome =
      .error (.outOfMemory (2 ^ 32) 3584) ∧
    ((Allocator.free ⟨page⟩ (.place 0 320) oversize :
      Action Process MemoryError Unit) pageUse.process).outcome = .fault .noSuchClass := by
  have ha : pageUse.allocators = [⟨pageView⟩, ⟨page⟩] := pageThird_leases.2
  obtain ⟨l, hl⟩ := Kept.reachable page_backed (by decide) (by decide) pageUse_reachable
  have hx : Oversized ⟨page⟩ (.place 0 320) oversize := ⟨by decide, by decide, by decide⟩
  refine ⟨pageUse_reachable, by simp [ha], by decide, .inr (.inl hx.2.1), by decide +kernel, ?_⟩
  exact (hl.free_oversized (by simp [ha]) (by decide) hx).outcome

end Tenancy

end SharedHeap
