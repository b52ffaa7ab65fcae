import SharedHeap.Proofs.Region

/-!
# Copies of regions

All that an allocator reads and stores are words of its region, and none of them depends on where
the region begins. So whatever is done alike to bytes that agree leaves bytes that agree
(`Bytes.Agree`), and a copy of a region keeps the ledger that the region keeps
(`Region.Copied.keeps`), wherever it is.
-/

namespace SharedHeap

open SharedHeap.Action (Ends)

namespace Bytes

/-- Both have `n` bytes or more, and the first `n` of them are the same. -/
structure Agree (n : Nat) (b c : Bytes) : Prop where
  left : n ≤ b.size
  right : n ≤ c.size
  same : ∀ i < n, b.get i = c.get i

namespace Agree

variable {n : Nat} {b c : Bytes}

theorem word (h : Agree n b c) {i : Nat} (hi : i + 8 ≤ n) : b.word i = c.word i :=
  word_congr fun j _ hj => h.same j (by omega)

theorem fields (h : Agree n b c) (hn : Header.size ≤ n) : Header.fields b = Header.fields c :=
  Header.fields_congr fun i hi => h.same i (by omega)

theorem resize (h : Agree n b c) : b.resize n = c.resize n := by
  refine ext rfl fun i => ?_
  rw [get_resize, get_resize]
  split
  · next hi => exact h.same i hi
  · rfl

/-! ## Storing -/

theorem set (h : Agree n b c) (i : Nat) (v : UInt8) : Agree n (b.set i v) (c.set i v) where
  left := by simpa using h.left
  right := by simpa using h.right
  same j hj := by
    have h₁ := h.left
    have h₂ := h.right
    rw [get_set, get_set, h.same j hj]
    by_cases hij : i = j
    · rw [if_pos ⟨hij, by omega⟩, if_pos ⟨hij, by omega⟩]
    · rw [if_neg fun hc => hij hc.1, if_neg fun hc => hij hc.1]

theorem write (h : Agree n b c) (i : Nat) (vs : List UInt8) :
    Agree n (b.write i vs) (c.write i vs) := by
  induction vs generalizing b c i with
  | nil => exact h
  | cons v vs ih => exact ih (h.set i v) (i + 1)

theorem setWord (h : Agree n b c) (i : Nat) (w : UInt64) :
    Agree n (b.setWord i w) (c.setWord i w) := h.write ..

theorem setLock (h : Agree n b c) (w : UInt32) :
    Agree n (Header.setLock b w) (Header.setLock c w) := h.write ..

theorem countAllocation (h : Agree n b c) (hn : Header.size ≤ n) (w : UInt64) :
    Agree n (Header.countAllocation b w) (Header.countAllocation c w) := by
  have hf := h.fields hn
  have h₁ : Header.allocations b = Header.allocations c := congrArg (·.allocations) hf
  have h₂ : Header.bytesInUse b = Header.bytesInUse c := congrArg (·.bytesInUse) hf
  rw [Header.countAllocation, Header.countAllocation, h₁, h₂]
  exact (h.setWord ..).setWord ..

theorem countFree (h : Agree n b c) (hn : Header.size ≤ n) (w : UInt64) :
    Agree n (Header.countFree b w) (Header.countFree c w) := by
  have hf := h.fields hn
  have h₁ : Header.frees b = Header.frees c := congrArg (·.frees) hf
  have h₂ : Header.bytesInUse b = Header.bytesInUse c := congrArg (·.bytesInUse) hf
  rw [Header.countFree, Header.countFree, h₁, h₂]
  exact (h.setWord ..).setWord ..

/-! ## Taking and returning blocks -/

variable {l : Ledger}

theorem carved (h : Agree n b c) (hn : Header.size ≤ n) (e : Extent) :
    Agree n (Keeps.carved b e) (Keeps.carved c e) :=
  (((h.setLock 1).setWord ..).setLock 0).countAllocation hn _

theorem reused (h : Agree n b c) (hn : Header.size ≤ n) {e : Extent} (he : e.offset + 8 ≤ n) :
    Agree n (Keeps.reused b e) (Keeps.reused c e) := by
  rw [Keeps.reused, Keeps.reused, (h.setLock 1).word he]
  exact (((h.setLock 1).setWord ..).setLock 0).countAllocation hn _

theorem released (h : Agree n b c) (hn : Header.size ≤ n) {e : Extent}
    (hc : e.cls.index < Header.classCount) :
    Agree n (Keeps.released b e) (Keeps.released c e) := by
  have hhead : Header.freeHead b e.cls.index = Header.freeHead c e.cls.index := by
    rw [← Header.heads_fields hc, ← Header.heads_fields hc, h.fields hn]
  rw [Keeps.released, Keeps.released, hhead]
  exact ((((h.setLock 1).setWord ..).setWord ..).setLock 0).countFree hn _

theorem header_le (hl : l.Sound) : Header.size ≤ l.capacity :=
  Nat.le_trans Header.size_le_dataStart (Nat.le_trans hl.start_le hl.cursor_le)

theorem taken (h : Agree l.capacity b c) (hl : l.Sound) (cls : SizeClass) :
    Agree l.capacity (Keeps.taken b l cls) (Keeps.taken c l cls) := by
  rw [Keeps.taken, Keeps.taken]
  cases hf : l.free cls with
  | nil => exact h.carved (header_le hl) _
  | cons o rest =>
    refine h.reused (header_le hl) (e := ⟨o, cls⟩) (Keeps.link_of_free hl (c := cls) ?_).2.1
    rw [hf]
    exact List.mem_cons_self

/-- Bytes that agree keep the same ledger. -/
theorem keeps (h : Agree l.capacity b c) (hl : l.Sound) (hb : b.Keeps l) : c.Keeps l := by
  have hn := header_le hl
  refine hb.congr h.right (fun i hi => h.same i (by omega)) fun cls hc o ho => h.word ?_
  exact (Keeps.link_of_free hl ho).2.1

end Agree

end Bytes

namespace Process

theorem bytes_extended (p : Process) (b : Bytes) (s : Nat) :
    (p.extended b).bytes s = if s = p.segments.size then b else p.bytes s := by
  simp only [extended, asked, bytes, Array.getElem?_push]
  split <;> rfl

theorem skew_extended {p : Process} (b : Bytes) {s : Nat} (hs : s ≠ p.segments.size) :
    (p.extended b).skew s = p.skew s := by
  simp only [extended, asked, skew, Array.getElem?_push, if_neg hs]

/-- Memory that is granted lies apart from what there was. -/
theorem retains_extended {p : Process} {s : Nat} (b : Bytes) (hs : s < p.segments.size) :
    p.Retains (p.extended b) s := by
  refine ⟨by simp [extended], ?_, skew_extended b (Nat.ne_of_lt hs)⟩
  rw [bytes_extended, if_neg (Nat.ne_of_lt hs)]

/-- A region in the memory that was granted. -/
theorem backed_extended {p : Process} {b : Bytes}
    (hv : (Layout.mk b.size Region.alignment).Valid) :
    Region.Backed ⟨p.segments.size, b.size, true⟩ (p.extended b) := by
  refine ⟨by simp [extended], ?_, ?_⟩
  · rw [bytes_extended, if_pos rfl]
  · have := hv.2
    simp only at this ⊢
    omega

theorem isAligned_extended (p : Process) (b : Bytes) (n : Nat) :
    (p.extended b).isAligned (Region.base ⟨p.segments.size, n, true⟩) Region.alignment := by
  simp [extended, isAligned, Region.base]

end Process

namespace Region

/-- A region that begins on a page holds the bytes of another one, cut or extended by zeros to its
own length. -/
structure Copied (r : Region) (p : Process) (r' : Region) (p' : Process) : Prop where
  backed : r'.Backed p'
  aligned : p'.isAligned r'.base Region.alignment
  bytes : r'.bytes p' = (r.bytes p).resize r'.length

/-- What the system grants is a region that holds the bytes. -/
theorem ofBytes_ends {b : Bytes} {p : Process} (h₀ : b.size ≠ 0)
    (hv : (Layout.mk b.size alignment).Valid) (hg : p.grants b.size) :
    Ends (ofBytes b) p (.ok ⟨p.segments.size, b.size, true⟩) (p.extended b) := by
  have hrun := ofBytes_apply b p
  rw [if_neg h₀, if_pos hv, if_pos hg] at hrun
  exact ⟨by rw [hrun], by rw [hrun]⟩

/-- A new region is obtained with a copy of the bytes of a region. -/
theorem copied_ofBytes (r : Region) (p : Process) {n : Nat} (h₀ : n ≠ 0)
    (hv : (Layout.mk n alignment).Valid) (hg : p.grants n) :
    ∃ p', Ends (ofBytes ((r.bytes p).resize n)) p (.ok ⟨p.segments.size, n, true⟩) p' ∧
      r.Copied p ⟨p.segments.size, n, true⟩ p' ∧ ∀ s < p.segments.size, p.Retains p' s := by
  have hb := Process.backed_extended (p := p) (b := (r.bytes p).resize n) hv
  refine ⟨_, ofBytes_ends h₀ hv hg, ⟨hb, p.isAligned_extended _ n, ?_⟩,
    fun s hs => Process.retains_extended _ hs⟩
  rw [bytes, Process.bytes_extended, if_pos rfl]
  exact Bytes.resize_size ((r.bytes p).resize n)

namespace Copied

variable {r r' : Region} {p p' : Process} {l : Ledger}

theorem agree (h : r.Copied p r' p') (hr : r.length ≤ (p.bytes r.segment).size) :
    Bytes.Agree (min r.length r'.length) (p.bytes r.segment) (p'.bytes r'.segment) where
  left := by omega
  right := by
    have := h.backed.length_le
    omega
  same i hi := by
    have hget := congrArg (·.get i) h.bytes
    simp only [Region.bytes, Bytes.get_resize] at hget
    rw [if_pos (by omega), if_pos (by omega), if_pos (by omega)] at hget
    exact hget.symm

theorem agree_ledger (h : r.Copied p r' p') (hk : r.Keeps p l) (hn : r'.length = r.length) :
    Bytes.Agree l.capacity (p.bytes r.segment) (p'.bytes r'.segment) := by
  have := h.agree hk.length_le
  rwa [hn, Nat.min_self, ← hk.capacity] at this

/-- A copy of full length keeps the same ledger. -/
theorem keeps (h : r.Copied p r' p') (hk : r.Keeps p l) (hn : r'.length = r.length) :
    r'.Keeps p' l :=
  hk.transfer hn h.backed.segment_lt ((h.agree_ledger hk hn).keeps hk.sound hk.books)

theorem dvd_skew (h : r.Copied p r' p') : SizeClass.maxAlign ∣ p'.skew r'.segment :=
  Process.isAligned_base_iff.1 h.aligned

/-- Attaching to a copy finds out whether it is as long as the region. -/
theorem attach_ends (h : r.Copied p r' p') (hk : r.Keeps p l) :
    Ends (Allocator.attach r') p' (
      if r'.length < Allocator.minRegionSize then
        .error (.regionTooSmall r'.length Allocator.minRegionSize)
      else if r'.length = r.length then .ok ⟨r'⟩
      else .error .invalidRegion) p' := by
  by_cases hmin : r'.length < Allocator.minRegionSize
  · rw [if_pos hmin]
    refine .bind_error (.bind .get ?_)
    rw [if_pos hmin]
    exact .throw
  · rw [if_neg hmin]
    have hcheck : Ends (Allocator.check r') p' (.ok ()) p' := by
      refine .bind .get ?_
      rw [if_neg hmin, if_pos h.aligned]
      exact .pure
    -- the header lies in what was copied
    have hsize : Header.size ≤ min r.length r'.length := by
      have h₁ := Bytes.Agree.header_le hk.sound
      have h₂ : Header.size ≤ Allocator.minRegionSize := by decide
      have h₃ := hk.capacity
      omega
    have hfields := ((h.agree hk.length_le).fields hsize).symm
    have hmark : Header.hasMark (p'.bytes r'.segment) = true := by
      have hm : (Header.fields (p'.bytes r'.segment)).mark = Header.mark := by
        rw [hfields, hk.books.header]
        rfl
      exact beq_iff_eq.2 hm
    have hcap : (Header.capacity (p'.bytes r'.segment)).toNat = r.length := by
      rw [← hk.capacity, ← hk.books.capacity hk.sound]
      exact congrArg (fun f => f.capacity.toNat) hfields
    refine .bind hcheck (.bind .get ?_)
    simp only [hmark, hcap, true_and]
    by_cases hn : r'.length = r.length
    · rw [if_pos hn, if_pos hn.symm]
      exact .bind (Process.say_ends (.bind .get .pure)) .pure
    · rw [if_neg hn, if_neg (Ne.symm hn)]
      exact .throw

end Copied

end Region

end SharedHeap
