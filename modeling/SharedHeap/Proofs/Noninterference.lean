import SharedHeap.Proofs.Continuation

/-!
# What a region holds does not matter

An allocator reads its header, and a link in each free block. Formatting stores the header anew, and
a link is stored when a block is returned; from then on until the block is handed out again, nobody
else writes there. So neither what the region held before nor what is written into blocks has any
influence: the books after a request follow from the books before it (`Ledger.serve`), how it ends
follows from the books (`Ledger.reply`), and the books tell the whole header
(`Bytes.Keeps.fields_eq`).
-/

namespace SharedHeap

open SharedHeap.Action (Ends)

/-- Whoever holds a block writes into it without asking the allocator. -/
def Request.isWrite : Request → Bool
  | .write .. => true
  | _ => false

/-- What was asked of the allocator, and what it replied. -/
def withoutWrites (log : List (Request × Reply)) : List (Request × Reply) :=
  log.filter fun e => !e.1.isWrite

namespace Ledger

variable {l : Ledger} {q : Request} {qs : List Request}

/-- The books after requests. -/
def run (l : Ledger) : List Request → Ledger
  | [] => l
  | q :: qs => (l.serve q).run qs

/-- How requests end by the books, one after the other. -/
def log (l : Ledger) : List Request → List (Request × Reply)
  | [] => []
  | q :: qs => (q, l.reply q) :: (l.serve q).log qs

theorem serve_of_isWrite (h : q.isWrite) : l.serve q = l := by
  cases q with
  | write => rfl
  | allocate | free => cases h

/-- Writes are not in the books. -/
theorem run_filter (l : Ledger) (qs : List Request) :
    l.run (qs.filter fun q => !q.isWrite) = l.run qs := by
  induction qs generalizing l with
  | nil => rfl
  | cons q qs ih =>
    cases hw : q.isWrite with
    | true =>
      rw [List.filter_cons_of_neg (by simp [hw]), run, serve_of_isWrite hw]
      exact ih l
    | false =>
      rw [List.filter_cons_of_pos (by simp [hw]), run, run]
      exact ih (l.serve q)

theorem log_filter (l : Ledger) (qs : List Request) :
    withoutWrites (l.log qs) = l.log (qs.filter fun q => !q.isWrite) := by
  induction qs generalizing l with
  | nil => rfl
  | cons q qs ih =>
    cases hw : q.isWrite with
    | true =>
      rw [List.filter_cons_of_neg (by simp [hw]), log, withoutWrites,
        List.filter_cons_of_neg (by simp [hw]), serve_of_isWrite hw]
      exact ih l
    | false =>
      rw [List.filter_cons_of_pos (by simp [hw]), log, log, withoutWrites,
        List.filter_cons_of_pos (by simp [hw])]
      exact congrArg _ (ih (l.serve q))

end Ledger

theorem map_withoutWrites (log : List (Request × Reply)) :
    (withoutWrites log).map (·.1) = (log.map (·.1)).filter fun q => !q.isWrite := by
  rw [List.filter_map]
  rfl

/-- The process with a segment of zeros. -/
def Process.zeroed (p : Process) (s : Nat) : Process := p.setBytes s (.zeros (p.bytes s).size)

theorem Region.Backed.zeroed {r : Region} {p : Process} (h : r.Backed p) :
    r.Backed (p.zeroed r.segment) where
  segment_lt := by
    rw [Process.zeroed, Process.size_segments_setBytes]
    exact h.segment_lt
  length_le := by
    rw [Process.zeroed, Process.bytes_setBytes_self h.segment_lt]
    exact h.length_le
  length_le_max := h.length_le_max

namespace Tenancy

variable {t t' t₁ : Tenancy} {l : Ledger} {a a' : Allocator} {q : Request}
  {log : List (Request × Reply)}

/-- Two regions of which allocators tell the same, and that have the same header. -/
structure Matches (t t' : Tenancy) : Prop where
  stats : ∀ a a' : Allocator, a.Over t.region → a'.Over t'.region →
    a.stats t.process = a'.stats t'.process
  remaining : ∀ a a' : Allocator, a.Over t.region → a'.Over t'.region →
    (a.remaining t.process : Ran Process MemoryError Nat).outcome =
      (a'.remaining t'.process : Ran Process MemoryError Nat).outcome
  header : ∀ i < Header.size, t.bytes.get i = t'.bytes.get i

namespace Kept

/-- Regions that keep the same books tell the same, whatever else they hold. -/
theorem matches_of_kept (h : t.Kept l) (h' : t'.Kept l) : t.Matches t' where
  stats _ _ ha ha' := (h.keeps.stats ha).trans (h'.keeps.stats ha').symm
  remaining _ _ ha ha' := (h.keeps.remaining ha).trans (h'.keeps.remaining ha').symm
  header _ hi := Header.get_eq_of_fields (h.keeps.books.fields_eq h'.keeps.books) hi

/-- The books that a region keeps foretell all replies, and the books in the end. -/
theorem serves (h : t.Kept l) (hr : t.Serves log t₁) :
    log = l.log (log.map (·.1)) ∧ t₁.Kept (l.run (log.map (·.1))) := by
  induction hr generalizing l with
  | done t => exact ⟨rfl, h⟩
  | next hp ha hq _ ih =>
    have h₁ := h.retains hp
    obtain ⟨hlog, hkept⟩ := ih (h₁.serve ha hq)
    refine ⟨?_, hkept⟩
    rw [List.map_cons, Ledger.log, ← hlog, h₁.reply_eq ha hq]

end Kept

/-- What is written on one side leaves the other one alike. -/
theorem Alike.write (h : t.Alike t' l) (ha : a ∈ t.allocators) (hq : t.Allows q)
    (hw : q.isWrite) : (t.serve a q).Alike t' l := by
  have hk := h.left.serve ha hq
  rw [Ledger.serve_of_isWrite hw] at hk
  cases q with
  | write => exact ⟨hk, h.right, h.leases⟩
  | allocate | free => cases hw

/-- Whatever the allocator was asked on one side, it can be asked on the other side. -/
theorem Alike.follow (h : t.Alike t' l) (ha' : a' ∈ t'.allocators) (hr : t.Serves log t₁) :
    ∃ t₂, t'.Serves (withoutWrites log) t₂ := by
  induction hr generalizing t' l with
  | done t => exact ⟨t', .done t'⟩
  | @next t t₁ p hp a ha q hq log _ ih =>
    have h₁ := h.retains hp (.refl t'.process _)
    cases hw : q.isWrite with
    | true =>
      rw [withoutWrites, List.filter_cons_of_neg (by simp [hw])]
      exact ih (h₁.write ha hq hw) ha'
    | false =>
      obtain ⟨t₂, hr₂⟩ := ih (h₁.serve ha ha' hq) (by simpa using ha')
      rw [withoutWrites, List.filter_cons_of_pos (by simp [hw]), h₁.reply_eq ha ha' hq]
      exact ⟨t₂, .next (.refl ..) ha' (h₁.allows hq) hr₂⟩

/-- Two regions whose allocators reply alike, whatever is written into the blocks of either. -/
structure Indifferent (t t' : Tenancy) : Prop where
  /-- The same requests get the same replies, with the same offsets, errors and counters. -/
  alike : ∀ log log' t₁ t₂, t.Serves log t₁ → t'.Serves log' t₂ →
    (withoutWrites log).map (·.1) = (withoutWrites log').map (·.1) →
      withoutWrites log = withoutWrites log' ∧ t₁.Matches t₂
  /-- The same can be asked. -/
  follows : ∀ log t₁, t.Serves log t₁ → ∃ t₂, t'.Serves (withoutWrites log) t₂

theorem Alike.indifferent (h : t.Alike t' l) (ha' : a' ∈ t'.allocators) : t.Indifferent t' where
  alike log log' t₁ t₂ hr hr' heq := by
    obtain ⟨hlog, hk⟩ := h.left.serves hr
    obtain ⟨hlog', hk'⟩ := h.right.serves hr'
    rw [map_withoutWrites, map_withoutWrites] at heq
    rw [← l.run_filter, heq, l.run_filter] at hk
    refine ⟨?_, hk.matches_of_kept hk'⟩
    rw [hlog, hlog', l.log_filter, l.log_filter, heq]
  follows log t₁ hr := h.follow ha' hr

theorem create_ends (id : AllocatorId) {r : Region} {p : Process} (hb : r.Backed p)
    (hn : Allocator.minRegionSize ≤ r.length) (ha : p.isAligned r.base Region.alignment) :
    Ends (Allocator.create id r) p (.ok ⟨r⟩) (start id r p).process := by
  obtain ⟨b, hc, -⟩ := Region.Keeps.create id hb hn ha
  exact ⟨hc.outcome, rfl⟩

/-- Regions that have just been formatted keep the same books, which are empty. -/
theorem alike_start (id : AllocatorId) {r r' : Region} {p p' : Process} (hb : r.Backed p)
    (hb' : r'.Backed p') (hlen : r'.length = r.length) (hn : Allocator.minRegionSize ≤ r.length)
    (ha : p.isAligned r.base Region.alignment) (ha' : p'.isAligned r'.base Region.alignment) :
    (start id r p).Alike (start id r' p') (.fresh id r.length) where
  left := .start hb hn ha
  right := by
    rw [← hlen] at hn ⊢
    exact .start hb' hn ha'
  leases _ _ := ⟨nofun, nofun⟩

/-- Whatever two regions of the same length hold, an allocator that is created over one of them is
indifferent to whether it is that one, and to whether it held zeros. -/
theorem indifferent_of_backed (id : AllocatorId) {r r' : Region} {p p' : Process}
    (hb : r.Backed p) (hb' : r'.Backed p') (hlen : r'.length = r.length)
    (hn : Allocator.minRegionSize ≤ r.length) (ha : p.isAligned r.base Region.alignment)
    (ha' : p'.isAligned r'.base Region.alignment) :
    (Ends (Allocator.create id r) p (.ok ⟨r⟩) (start id r p).process ∧
      Ends (Allocator.create id r') p' (.ok ⟨r'⟩) (start id r' p').process) ∧
    (start id r p).Indifferent (start id r' p') ∧
    (start id r p).Indifferent (start id r (p.zeroed r.segment)) := by
  have hzero : (p.zeroed r.segment).isAligned r.base Region.alignment := by
    rwa [Process.zeroed, Process.isAligned_congr fun s => Process.skew_setBytes ..]
  refine ⟨⟨create_ends id hb hn ha, create_ends id hb' (hlen ▸ hn) ha'⟩, ?_, ?_⟩
  · exact (alike_start id hb hb' hlen hn ha ha').indifferent List.mem_cons_self
  · exact (alike_start id hb hb.zeroed rfl hn ha hzero).indifferent List.mem_cons_self

/-- A page that holds something already, in the header and behind it. -/
def pageUsed : Process :=
  .single (((Bytes.zeros 4096).write 64 [1, 2, 3]).write 320 [4, 5, 6])

theorem Serves.cons (ha : a ∈ t.allocators) (hq : t.Allows q) (h : (t.serve a q).Serves log t₁) :
    t.Serves ((q, t.reply a q) :: log) t₁ := .next (.refl ..) ha hq h

/-- Something is written into a block, and the block is returned. -/
def turn (t : Tenancy) (a : Allocator) (o : Offset) (y : Layout) (vs : List UInt8) : Tenancy :=
  (t.serve a (.write o y 0 vs)).serve a (.free o y)

theorem serves_turn (ha : a ∈ t.allocators) {o : Offset} {y : Layout} (vs : List UInt8)
    (hx : t.lease o y ∈ t.leases) (hvs : vs.length ≤ (y.extent o.toNat).size) :
    ∃ log, t.Serves log (t.turn a o y vs) ∧ log.map (·.1) = [.write o y 0 vs, .free o y] := by
  have hwrite : t.Allows (.write o y 0 vs) := ⟨hx, by rwa [Nat.zero_add]⟩
  have hfree : (t.serve a (.write o y 0 vs)).Allows (.free o y) := hx
  exact ⟨_, .cons ha hwrite (.cons (by simpa using ha) hfree (.done _)), rfl⟩

/-- A block is taken from a page. -/
@[irreducible] def pageTaken (p : Process) : Tenancy :=
  (start ⟨1, 0⟩ page p).serve ⟨page⟩ (.allocate ⟨24, 8⟩)

theorem pageTaken_serves {p : Process} (vs : List UInt8) (hvs : vs.length ≤ 32)
    (hp : ⟨page⟩ ∈ (pageTaken p).allocators ∧
      (pageTaken p).lease (.ofNat 320) ⟨24, 8⟩ ∈ (pageTaken p).leases) :
    ∃ log, (start ⟨1, 0⟩ page p).Serves log ((pageTaken p).turn ⟨page⟩ (.ofNat 320) ⟨24, 8⟩ vs) ∧
      log.map (·.1) = [.allocate ⟨24, 8⟩, .write (.ofNat 320) ⟨24, 8⟩ 0 vs,
        .free (.ofNat 320) ⟨24, 8⟩] := by
  obtain ⟨log, hr, hlog⟩ := serves_turn hp.1 vs hp.2 hvs
  unfold pageTaken at hr
  unfold pageTaken
  have hvalid : (start ⟨1, 0⟩ page p).Allows (.allocate ⟨24, 8⟩) :=
    (by decide : Layout.Valid ⟨24, 8⟩)
  refine ⟨_, .cons List.mem_cons_self hvalid hr, ?_⟩
  rw [List.map_cons, hlog]

/-- The link in the returned block is stored over what was written there, and the header is the same
as in a page where other bytes were written. -/
theorem indifferent_pageTaken :
    (start ⟨1, 0⟩ page pageProcess).Indifferent (start ⟨1, 0⟩ page pageUsed) ∧
    ((pageTaken pageProcess).turn ⟨page⟩ (.ofNat 320) ⟨24, 8⟩ [1, 2, 3]).Matches
      ((pageTaken pageUsed).turn ⟨page⟩ (.ofNat 320) ⟨24, 8⟩ (.replicate 32 255)) := by
  have hused : page.Backed pageUsed := ⟨by decide, by decide +kernel, by decide⟩
  obtain ⟨-, h, -⟩ := indifferent_of_backed ⟨1, 0⟩ page_backed hused rfl (by decide) (by decide)
    (by decide)
  obtain ⟨log, hr, hlog⟩ := pageTaken_serves (p := pageProcess) [1, 2, 3] (by decide)
    (by decide +kernel)
  obtain ⟨log', hr', hlog'⟩ := pageTaken_serves (p := pageUsed) (.replicate 32 255)
    (by decide) (by decide +kernel)
  refine ⟨h, (h.alike log log' _ _ hr hr' ?_).2⟩
  rw [map_withoutWrites, map_withoutWrites, hlog, hlog']
  rfl

end Tenancy

end SharedHeap
