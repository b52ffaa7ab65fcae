import Mathlib.Algebra.Ring.Nat
import SharedHeap.Proofs.Ends
import SharedHeap.Proofs.Header
import SharedHeap.Proofs.Ledger

/-!
# Books kept in the bytes of a region

`Bytes.Keeps b l` says that the bytes `b` keep the ledger `l`: the header holds its numbers, and the
free blocks of each class, followed from the header through their first eight bytes, are its stack.
Taking and returning blocks on bytes is then taking and returning blocks on the ledger
(`Keeps.allocate`, `Keeps.release`), and what is written inside a block that is handed out leaves
the books alone (`Keeps.write`).
-/

namespace SharedHeap

open SharedHeap.Action (Ends)

theorem toNat_word {n : Nat} (h : n < 2 ^ 64) : (UInt64.ofNat n).toNat = n :=
  UInt64.toNat_ofNat_of_lt' h

namespace Bytes

/-- Following the links from a word on leads to the given offsets, one after the other, and then to
the end of the chain. -/
def Chain (b : Bytes) : UInt64 → List Nat → Prop
  | w, [] => w = Header.nil
  | w, o :: rest => w ≠ Header.nil ∧ w.toNat = o ∧ b.Chain (b.word o) rest

namespace Chain

variable {b c : Bytes} {w : UInt64} {os os' : List Nat}

/-- A chain depends on the links of its members and on no other bytes. -/
theorem congr (hc : b.Chain w os) (h : ∀ o ∈ os, b.word o = c.word o) : c.Chain w os := by
  induction os generalizing w with
  | nil => exact hc
  | cons o rest ih =>
    obtain ⟨h₁, h₂, h₃⟩ := hc
    refine ⟨h₁, h₂, ?_⟩
    rw [← h o List.mem_cons_self]
    exact ih h₃ fun o' ho' => h o' (List.mem_cons_of_mem _ ho')

theorem unique (h : b.Chain w os) (h' : b.Chain w os') : os = os' := by
  induction os generalizing w os' with
  | nil =>
    cases os' with
    | nil => rfl
    | cons o rest => exact absurd h h'.1
  | cons o rest ih =>
    cases os' with
    | nil => exact absurd h' h.1
    | cons o' rest' =>
      obtain ⟨-, rfl, h₁⟩ := h
      obtain ⟨-, rfl, h₂⟩ := h'
      rw [ih h₁ h₂]

theorem head_of_cons {o : Nat} (h : b.Chain w (o :: os)) : w ≠ Header.nil ∧ w = .ofNat o := by
  obtain ⟨h₁, rfl, -⟩ := h
  exact ⟨h₁, UInt64.ofNat_toNat.symm⟩

end Chain

/-- A lock that is taken and given back leaves no trace. -/
theorem setLock_setLock {b : Bytes} (h : Header.lock b = 0) (hs : Header.size ≤ b.size) :
    Header.setLock (Header.setLock b 1) 0 = b := by
  have hsize : Header.size = 288 := rfl
  have hz : toBytesLE 4 0 = b.read Header.lockAt 4 := by
    have hw := b.toBytesLE_halfWord Header.lockAt
    rwa [← Header.lock, h] at hw
  refine ext (by simp) fun i => ?_
  by_cases hi : i < Header.lockAt ∨ Header.lockAt + 4 ≤ i
  · simp only [Header.setLock, get_setHalfWord_of_disjoint hi]
  · obtain ⟨k, rfl, hk⟩ : ∃ k, i = Header.lockAt + k ∧ k < 4 :=
      ⟨i - Header.lockAt, by omega, by omega⟩
    have hk' : k < (toBytesLE 4 (0 : UInt32).toNat).length := by simpa using hk
    rw [Header.setLock, setHalfWord, get_write_add hk' (by
      simp only [length_toBytesLE, Header.size_setLock, Header.lockAt]
      omega)]
    rw [← getElem_read (b := b) (n := 4) (by simpa using hk)]
    exact List.getElem_of_eq hz _

end Bytes

/-- The header that says what a ledger says, with the heads of the chains left open. -/
def Ledger.header (l : Ledger) (heads : Nat → UInt64) : Header.Fields where
  mark := Header.mark
  id := l.id
  capacity := .ofNat l.capacity
  lock := 0
  reserved := 0
  cursor := .ofNat l.cursor
  allocations := .ofNat l.allocations
  frees := .ofNat l.frees
  bytesInUse := .ofNat (l.live.map Extent.size).sum
  heads := heads

namespace Bytes

/-- The bytes of a region keep a ledger. -/
structure Keeps (b : Bytes) (l : Ledger) : Prop where
  header : Header.fields b = l.header (Header.fields b).heads
  chain : ∀ c : SizeClass, c.index < Header.classCount →
    b.Chain (Header.freeHead b c.index) (l.free c)
  capacity_le : l.capacity ≤ b.size

namespace Keeps

variable {b b' : Bytes} {l : Ledger}

theorem lock (h : b.Keeps l) : Header.lock b = 0 := congrArg Header.Fields.lock h.header

theorem capacity (h : b.Keeps l) (hl : l.Sound) : (Header.capacity b).toNat = l.capacity := by
  have h₁ := congrArg Header.Fields.capacity h.header
  simp only [Header.fields, Ledger.header] at h₁
  have h₂ := hl.capacity_lt
  rw [h₁, toNat_word (by omega)]

theorem cursor (h : b.Keeps l) (hl : l.Sound) : (Header.cursor b).toNat = l.cursor := by
  have h₁ := congrArg Header.Fields.cursor h.header
  simp only [Header.fields, Ledger.header] at h₁
  have h₂ := hl.capacity_lt
  have h₃ := hl.cursor_le
  rw [h₁, toNat_word (by omega)]

theorem counters (h : b.Keeps l) : Header.allocations b = .ofNat l.allocations ∧
    Header.frees b = .ofNat l.frees := by
  have h₁ := congrArg Header.Fields.allocations h.header
  have h₂ := congrArg Header.Fields.frees h.header
  simp only [Header.fields, Ledger.header] at h₁ h₂
  exact ⟨h₁, h₂⟩

theorem header_le (h : b.Keeps l) (hl : l.Sound) : Header.size ≤ b.size := by
  have h₁ := h.capacity_le
  have h₂ := hl.cursor_le
  have h₃ := hl.start_le
  have h₄ := Header.size_le_dataStart
  omega

/-- The ledger depends on the header and on the links of the free blocks. -/
theorem congr (h : b.Keeps l) (hle : l.capacity ≤ b'.size)
    (hh : ∀ i < Header.size, b.get i = b'.get i)
    (hf : ∀ c : SizeClass, c.index < Header.classCount → ∀ o ∈ l.free c, b.word o = b'.word o) :
    b'.Keeps l where
  header := by
    rw [← Header.fields_congr hh]
    exact h.header
  chain c hc := by
    have h₁ : Header.freeHead b c.index = Header.freeHead b' c.index := by
      rw [← Header.heads_fields hc, ← Header.heads_fields hc, Header.fields_congr hh]
    rw [← h₁]
    exact (h.chain c hc).congr (hf c hc)
  capacity_le := hle

theorem of_fields (heads : Nat → UInt64) (hh : Header.fields b = l.header heads)
    (hc : ∀ c : SizeClass, c.index < Header.classCount → b.Chain (heads c.index) (l.free c))
    (hle : l.capacity ≤ b.size) : b.Keeps l where
  header := by
    rw [hh]
    rfl
  chain c h := by
    rw [← Header.heads_fields h, hh]
    exact hc c h
  capacity_le := hle

theorem format {n : Nat} (h₁ : Header.size ≤ b.size) (h₂ : n ≤ b.size) (id : AllocatorId) :
    (Header.format b id (.ofNat n)).Keeps (.fresh id n) :=
  of_fields _ (Header.fields_format h₁ id _) (fun _ _ => rfl) (by rwa [Header.size_format])

/-! ## Writing -/

/-- The first eight bytes of a free block lie inside the region, behind the header and apart from
every block that is handed out. -/
theorem link_of_free (hl : l.Sound) {c : SizeClass} {o : Nat} (ho : o ∈ l.free c) :
    Header.dataStart ≤ o ∧ o + 8 ≤ l.capacity ∧
      ∀ e ∈ l.live, o + 8 ≤ e.offset ∨ e.stop ≤ o := by
  have hf : (Extent.mk o c).offset ∈ l.free (Extent.mk o c).cls := ho
  have h₁ := hl.fits _ (hl.mem_carved_of_free hf)
  have h₂ := (Extent.mk o c).sixteen_le_size
  have h₃ := hl.cursor_le
  have h₄ : (Extent.mk o c).stop = o + (Extent.mk o c).size := rfl
  refine ⟨h₁.1, by omega, fun e he => ?_⟩
  rcases hl.live_apart_free he hf with h | h
  · exact .inr h
  · exact .inl (by omega)

theorem write (h : b.Keeps l) (hl : l.Sound) {e : Extent} (he : e ∈ l.live) {i : Nat}
    {vs : List UInt8} (h₁ : e.offset ≤ i) (h₂ : i + vs.length ≤ e.stop) :
    (b.write i vs).Keeps l := by
  have h₃ := Header.size_le_dataStart
  have h₄ := (hl.fits e (hl.mem_carved_of_live he)).1
  refine h.congr (by simpa using h.capacity_le)
    (fun j hj => (get_write_of_lt (by omega)).symm) ?_
  intro c _ o ho
  refine (word_write_of_disjoint ?_).symm
  rcases (link_of_free hl ho).2.2 e he with h | h
  · exact .inl (by omega)
  · exact .inr (by omega)

end Keeps

end Bytes

namespace SizeClass

variable {σ : Type} {y : Layout} {s : σ}

theorem blockAlign_le (c : SizeClass) : c.blockAlign ≤ maxAlign := Nat.min_le_right ..

theorem request_ends (ha : y.align ≤ maxAlign) (hn : need y ≤ 2 ^ 63) :
    Ends (request y) s (.ok (ofLayout y)) s := by
  rw [request, if_neg (by omega)]
  exact .bind (.require hn) .pure

theorem request_refused (ha : maxAlign < y.align) :
    Ends (request y) s (.error (.invalidAlignment y.align)) s := by
  rw [request, if_pos ha]
  exact .throw

end SizeClass

namespace Block

variable {ε α : Type} {b b' : Bytes} {level : Log.Level}

theorem locked_ends {x : Action Bytes ε α} {o : Outcome ε α} (h : Header.lock b = 0)
    (hx : Ends x (Header.setLock b 1) o b') : Ends (locked x) b o (Header.setLock b' 0) :=
  .bind .get (.bind (.require h) (.bind .set hx.afterwards))

theorem remaining_ends (h : (Header.cursor b).toNat ≤ (Header.capacity b).toNat) :
    Ends (remaining : Action Bytes ε Nat) b
      (.ok ((Header.capacity b).toNat - (Header.cursor b).toNat)) b :=
  .bind .get (.bind (.require h) .pure)

theorem reuse_ends {c : SizeClass} {w : UInt64} (h : w.toNat + 8 ≤ b.size) :
    Ends (reuse c w) b (.ok w) (Header.setFreeHead b c.index (b.word w.toNat)) :=
  .bind .get (.bind (.require h) (.bind .set .pure))

theorem carve_ends {c : SizeClass} {start : Nat}
    (h₁ : (Header.cursor b).toNat + c.blockAlign < 2 ^ 64)
    (h₂ : carveStart c (Header.cursor b).toNat = start)
    (h₃ : start + c.blockSize ≤ (Header.capacity b).toNat) :
    Ends (carve level c) b (.ok (.ofNat start))
      (Header.setCursor b (.ofNat (start + c.blockSize))) := by
  have h₄ := (Header.capacity b).toNat_lt
  refine .bind .get (.bind (.require h₁) ?_)
  simp only [h₂]
  rw [Nat.min_eq_left (by omega), if_neg (by omega)]
  exact .bind .set .pure

theorem carve_refused (level : Log.Level) {c : SizeClass}
    (h₁ : (Header.cursor b).toNat + c.blockAlign < 2 ^ 64)
    (h₂ : (Header.capacity b).toNat < carveStart c (Header.cursor b).toNat + c.blockSize)
    (h₃ : (Header.cursor b).toNat ≤ (Header.capacity b).toNat)
    (h₄ : (Header.capacity b).toNat < 2 ^ 64 - 1) :
    Ends (carve level c) b (.error (.outOfMemory c.blockSize
      ((Header.capacity b).toNat - (Header.cursor b).toNat))) b := by
  refine .bind .get (.bind (.require h₁) ?_)
  rw [if_pos (by omega)]
  have hfree := remaining_ends (ε := MemoryError) h₃
  exact .bind (.tell (.bind hfree .pure)) (.bind hfree .throw)

end Block

namespace Bytes.Keeps

variable {b b' : Bytes} {l : Ledger}

/-! ## Taking blocks -/

/-- The bytes after a block of a class was taken off its chain. -/
def reused (b : Bytes) (e : Extent) : Bytes :=
  Header.countAllocation (Header.setLock (Header.setFreeHead (Header.setLock b 1) e.cls.index
    ((Header.setLock b 1).word e.offset)) 0) (.ofNat e.size)

/-- The bytes after a block was carved. -/
def carved (b : Bytes) (e : Extent) : Bytes :=
  Header.countAllocation
    (Header.setLock (Header.setCursor (Header.setLock b 1) (.ofNat e.stop)) 0) (.ofNat e.size)

/-- The bytes after a block of a class was handed out. -/
def taken (b : Bytes) (l : Ledger) (c : SizeClass) : Bytes :=
  match l.free c with
  | o :: _ => reused b ⟨o, c⟩
  | [] => carved b (l.next c)

theorem get_reused {e : Extent} (hc : e.cls.index < Header.classCount) {i : Nat}
    (h : Header.size ≤ i) : (reused b e).get i = b.get i := by
  rw [reused, Header.get_countAllocation h, Header.get_setLock h, Header.get_setFreeHead h hc,
    Header.get_setLock h]

theorem get_carved {e : Extent} {i : Nat} (h : Header.size ≤ i) :
    (carved b e).get i = b.get i := by
  rw [carved, Header.get_countAllocation h, Header.get_setLock h, Header.get_setCursor h,
    Header.get_setLock h]

theorem chain_congr (hl : l.Sound) {c : SizeClass} {os : List Nat} {w : UInt64}
    (hos : ∀ o ∈ os, o ∈ l.free c) (h : b.Chain w os)
    (hsame : ∀ i, Header.size ≤ i → b'.get i = b.get i) : b'.Chain w os := by
  have hs := Header.size_le_dataStart
  refine h.congr fun o ho => word_congr fun i hi _ => (hsame i ?_).symm
  have := (link_of_free hl (hos o ho)).1
  omega

/-- The header after a block was taken off its chain. -/
theorem fields_reused (hs : Header.size ≤ b.size) {e : Extent}
    (hc : e.cls.index < Header.classCount) (ho : Header.size ≤ e.offset) :
    Header.fields (reused b e) =
      { Header.fields b with
        lock := 0
        allocations := (Header.fields b).allocations + 1
        bytesInUse := (Header.fields b).bytesInUse + .ofNat e.size
        heads := Function.update (Header.fields b).heads e.cls.index (b.word e.offset) } := by
  have hw : (Header.setLock b 1).word e.offset = b.word e.offset :=
    word_congr fun i hi _ => Header.get_setLock (by omega) 1
  rw [reused, Header.fields_countAllocation (by simpa), Header.fields_setLock (by simpa),
    Header.fields_setFreeHead (by simpa) hc, Header.fields_setLock hs, hw]

/-- The header after a block was carved. -/
theorem fields_carved (hs : Header.size ≤ b.size) (e : Extent) :
    Header.fields (carved b e) =
      { Header.fields b with
        lock := 0
        cursor := .ofNat e.stop
        allocations := (Header.fields b).allocations + 1
        bytesInUse := (Header.fields b).bytesInUse + .ofNat e.size } := by
  rw [carved, Header.fields_countAllocation (by simpa), Header.fields_setLock (by simpa),
    Header.fields_setCursor (by simpa), Header.fields_setLock hs]

theorem freeHead_setLock (h : Header.size ≤ b.size) {i : Nat} (hi : i < Header.classCount)
    (w : UInt32) : Header.freeHead (Header.setLock b w) i = Header.freeHead b i := by
  rw [← Header.heads_fields hi, ← Header.heads_fields hi, Header.fields_setLock h]

end Bytes.Keeps

namespace Bytes

/-- The bytes of a region follow a ledger: its cursor and its chains are theirs. That tells how
requests end, since none looks at the counters. -/
structure Follows (b : Bytes) (l : Ledger) : Prop where
  lock : Header.lock b = 0
  capacity : (Header.capacity b).toNat = l.capacity
  cursor : (Header.cursor b).toNat = l.cursor
  chain : ∀ c : SizeClass, c.index < Header.classCount →
    b.Chain (Header.freeHead b c.index) (l.free c)
  capacity_le : l.capacity ≤ b.size

theorem Keeps.follows {b : Bytes} {l : Ledger} (h : b.Keeps l) (hl : l.Sound) : b.Follows l :=
  ⟨h.lock, h.capacity hl, h.cursor hl, h.chain, h.capacity_le⟩

namespace Follows

open Keeps

variable {b : Bytes} {l : Ledger} {level : Log.Level}

theorem header_le (h : b.Follows l) (hl : l.Sound) : Header.size ≤ b.size := by
  have h₁ := h.capacity_le
  have h₂ := hl.cursor_le
  have h₃ := hl.start_le
  have h₄ := Header.size_le_dataStart
  omega

theorem allocate_ends_reused (h : b.Follows l) (hl : l.Sound) {y : Layout} {o : Nat}
    {rest : List Nat} (ha : y.align ≤ SizeClass.maxAlign) (hn : SizeClass.need y ≤ 2 ^ 63)
    (hc : (SizeClass.ofLayout y).index < Header.classCount)
    (hf : l.free (SizeClass.ofLayout y) = o :: rest) :
    Ends (Block.allocate level y) b (.ok (.ofNat o)) (reused b (y.extent o)) := by
  have hs := h.header_le hl
  have hchain := h.chain _ hc
  rw [hf] at hchain
  obtain ⟨h₁, h₂⟩ := hchain.head_of_cons
  obtain ⟨-, h₃, -⟩ := link_of_free hl (c := SizeClass.ofLayout y) (o := o) (by
    rw [hf]
    exact List.mem_cons_self)
  have h₄ := h.capacity_le
  have h₅ := hl.capacity_lt
  have ho : (UInt64.ofNat o).toNat = o := toNat_word (by omega)
  refine .bind (SizeClass.request_ends ha hn) ?_
  rw [if_neg (by omega)]
  refine .bind (Block.locked_ends h.lock (.bind .get ?_)) (.bind .modify (.bind
    (.tell (.bind .get .pure)) .pure))
  rw [freeHead_setLock hs hc, if_neg h₁, h₂]
  have := Block.reuse_ends (b := Header.setLock b 1) (c := SizeClass.ofLayout y)
    (w := .ofNat o) (by simp only [ho, Header.size_setLock]; omega)
  rwa [ho] at this

theorem locked_carve_ends (h : b.Follows l) (hl : l.Sound) {c : SizeClass}
    (hc : c.index < Header.classCount) (hf : l.free c = []) {o : Outcome MemoryError UInt64}
    {s : Bytes} (hx : Ends (Block.carve level c) (Header.setLock b 1) o s) :
    Ends (Block.locked do
      let head := Header.freeHead (← .get) c.index
      if head = Header.nil then Block.carve level c else Block.reuse c head) b o
      (Header.setLock s 0) := by
  refine Block.locked_ends h.lock (.bind .get ?_)
  have hchain := h.chain c hc
  rw [hf] at hchain
  have hnil : Header.freeHead b c.index = Header.nil := hchain
  rwa [freeHead_setLock (h.header_le hl) hc, if_pos hnil]

theorem cursor_locked (h : b.Follows l) (hl : l.Sound) :
    (Header.cursor (Header.setLock b 1)).toNat = l.cursor := by
  rw [← h.cursor]
  exact congrArg (·.cursor.toNat) (Header.fields_setLock (h.header_le hl) 1)

theorem capacity_locked (h : b.Follows l) (hl : l.Sound) :
    (Header.capacity (Header.setLock b 1)).toNat = l.capacity := by
  rw [← h.capacity]
  exact congrArg (·.capacity.toNat) (Header.fields_setLock (h.header_le hl) 1)

theorem allocate_ends_carved (h : b.Follows l) (hl : l.Sound) {y : Layout}
    (ha : y.align ≤ SizeClass.maxAlign) (hn : SizeClass.need y ≤ 2 ^ 63)
    (hc : (SizeClass.ofLayout y).index < Header.classCount)
    (hf : l.free (SizeClass.ofLayout y) = [])
    (hroom : (l.next (SizeClass.ofLayout y)).stop ≤ l.capacity) :
    Ends (Block.allocate level y) b (.ok (.ofNat (l.next (SizeClass.ofLayout y)).offset))
      (carved b (l.next (SizeClass.ofLayout y))) := by
  have h₁ := hl.capacity_lt
  have h₂ := hl.cursor_le
  have h₃ := (SizeClass.ofLayout y).blockAlign_le
  refine .bind (SizeClass.request_ends ha hn) ?_
  rw [if_neg (by omega)]
  refine .bind (h.locked_carve_ends hl hc hf (Block.carve_ends ?_ ?_ ?_))
    (.bind .modify (.bind (.tell (.bind .get .pure)) .pure))
  · rw [h.cursor_locked hl]
    omega
  · rw [h.cursor_locked hl]
    rfl
  · rwa [h.capacity_locked hl]

/-- Taking a block off its chain on the bytes takes it off on the ledger. -/
theorem reuse (h : b.Follows l) (hl : l.Sound) {e : Extent} {rest : List Nat}
    (hc : e.cls.index < Header.classCount) (hf : l.free e.cls = e.offset :: rest) :
    (reused b e).Follows (l.reuse e rest) := by
  have hn := Header.size_le_dataStart
  have hchain := h.chain e.cls hc
  rw [hf] at hchain
  have ho := link_of_free hl (c := e.cls) (o := e.offset) (by rw [hf]; exact List.mem_cons_self)
  have hfields := fields_reused (h.header_le hl) hc (by omega)
  refine ⟨congrArg (·.lock) hfields, ?_, ?_, fun c hci => ?_, ?_⟩
  · exact (congrArg (·.capacity.toNat) hfields).trans h.capacity
  · exact (congrArg (·.cursor.toNat) hfields).trans h.cursor
  · rw [← Header.heads_fields hci, hfields]
    simp only [Ledger.reuse, Function.update_apply]
    by_cases hci' : c = e.cls
    · subst hci'
      rw [if_pos rfl, if_pos rfl]
      refine chain_congr hl (c := e.cls) (fun o ho => ?_) hchain.2.2 fun i => get_reused hc
      rw [hf]
      exact List.mem_cons_of_mem _ ho
    · have hne : c.index ≠ e.cls.index := fun he => hci' (SizeClass.eq_of_index he)
      rw [if_neg hne, if_neg hci', Header.heads_fields hci]
      exact chain_congr hl (fun _ ho => ho) (h.chain c hci) fun i => get_reused hc
  · simpa [reused, Ledger.reuse] using h.capacity_le

/-- Carving a block on the bytes carves it on the ledger. -/
theorem carve (h : b.Follows l) (hl : l.Sound) {c : SizeClass}
    (hroom : (l.next c).stop ≤ l.capacity) : (carved b (l.next c)).Follows (l.carve c) := by
  have hlt := hl.capacity_lt
  have hfields := fields_carved (h.header_le hl) (l.next c)
  refine ⟨congrArg (·.lock) hfields, ?_, ?_, fun d hd => ?_, ?_⟩
  · exact (congrArg (·.capacity.toNat) hfields).trans h.capacity
  · exact (congrArg (·.cursor.toNat) hfields).trans (toNat_word (by omega))
  · rw [← Header.heads_fields hd, hfields, Header.heads_fields hd]
    exact chain_congr hl (fun _ ho => ho) (h.chain d hd) fun i => get_carved
  · simpa [carved, Ledger.carve] using h.capacity_le

/-- Where the ledger has a block, the bytes have it as well, and count it. -/
theorem allocate (h : b.Follows l) (hl : l.Sound) {y : Layout} (hn : SizeClass.need y ≤ 2 ^ 63)
    {o : Nat} {l' : Ledger} (ha : l.allocate y = .ok (o, l')) (level : Log.Level) :
    Ends (Block.allocate level y) b (.ok (.ofNat o)) (taken b l (SizeClass.ofLayout y)) ∧
      (taken b l (SizeClass.ofLayout y)).Follows l' ∧
      Header.allocations (taken b l (SizeClass.ofLayout y)) = Header.allocations b + 1 ∧
      Header.frees (taken b l (SizeClass.ofLayout y)) = Header.frees b := by
  have hstart := Header.size_le_dataStart
  obtain ⟨hal, hc, ⟨rest, hf, rfl⟩ | ⟨hf, hroom, rfl, rfl⟩⟩ := Ledger.allocate_cases ha
  · have ho := link_of_free hl (c := SizeClass.ofLayout y) (o := o) (by
      rw [hf]
      exact List.mem_cons_self)
    have hfields := fields_reused (h.header_le hl) (e := y.extent o) hc (Nat.le_trans hstart ho.1)
    simp only [taken, hf]
    exact ⟨h.allocate_ends_reused hl hal hn hc hf, h.reuse (e := y.extent o) hl hc hf,
      congrArg (·.allocations) hfields, congrArg (·.frees) hfields⟩
  · have hfields := fields_carved (h.header_le hl) (l.next (SizeClass.ofLayout y))
    simp only [taken, hf]
    exact ⟨h.allocate_ends_carved hl hal hn hc hf hroom, h.carve hl hroom,
      congrArg (·.allocations) hfields, congrArg (·.frees) hfields⟩

theorem carve_ends_refused (h : b.Follows l) (hl : l.Sound) {c : SizeClass}
    (hc : c.index < Header.classCount) (hf : l.free c = [])
    (hroom : l.capacity < (l.next c).stop) :
    Ends (Block.locked do
      let head := Header.freeHead (← .get) c.index
      if head = Header.nil then Block.carve level c else Block.reuse c head) b
      (.error (.outOfMemory c.blockSize l.remaining)) b := by
  have h₁ := hl.capacity_lt
  have h₂ := hl.cursor_le
  have h₃ := c.blockAlign_le
  simp only [SizeClass.maxAlign] at h₁ h₃
  have hcarve := Block.carve_refused level (b := Header.setLock b 1) (c := c)
    (by rw [h.cursor_locked hl]; omega)
    (by rwa [h.cursor_locked hl, h.capacity_locked hl])
    (by rwa [h.cursor_locked hl, h.capacity_locked hl])
    (by rw [h.capacity_locked hl]; omega)
  rw [h.cursor_locked hl, h.capacity_locked hl] at hcarve
  have hlocked := h.locked_carve_ends hl hc hf hcarve
  rwa [setLock_setLock h.lock (h.header_le hl)] at hlocked

/-- Where the books have no block, the bytes have none, and stay as they are. -/
theorem refuse (h : b.Follows l) (hl : l.Sound) {y : Layout} (hn : SizeClass.need y ≤ 2 ^ 63)
    {e : MemoryError} (he : l.allocate y = .error e) (level : Log.Level) :
    Ends (Block.allocate level y) b (.error e) b := by
  -- the ledger and the bytes refuse in the same order
  simp only [Ledger.allocate] at he
  split at he
  · next hal =>
    cases he
    exact .bind_error (SizeClass.request_refused hal)
  · next hal =>
    refine .bind (SizeClass.request_ends (by omega) hn) ?_
    split at he
    · next hc =>
      cases he
      rw [if_pos hc]
      have := Block.remaining_ends (ε := MemoryError) (b := b) (by
        rw [h.cursor, h.capacity]
        exact hl.cursor_le)
      rw [h.cursor, h.capacity] at this
      exact .bind this .throw
    · next hc =>
      rw [if_neg hc]
      split at he
      · cases he
      · next hf =>
        split at he
        · next hroom =>
          cases he
          exact .bind_error (h.carve_ends_refused hl (Nat.not_le.1 hc) hf hroom)
        · cases he

end Follows

end Bytes

namespace Bytes.Keeps

variable {b b' : Bytes} {l : Ledger}

theorem reuse (h : b.Keeps l) (hl : l.Sound) {e : Extent} {rest : List Nat}
    (hc : e.cls.index < Header.classCount) (hf : l.free e.cls = e.offset :: rest) :
    (reused b e).Keeps (l.reuse e rest) := by
  have hn := Header.size_le_dataStart
  have ho := link_of_free hl (c := e.cls) (o := e.offset) (by rw [hf]; exact List.mem_cons_self)
  have hfollows := (h.follows hl).reuse hl hc hf
  refine ⟨?_, hfollows.chain, hfollows.capacity_le⟩
  rw [fields_reused (h.header_le hl) hc (by omega), h.header]
  simp only [Ledger.header, Ledger.reuse, List.map_cons, List.sum_cons, Nat.add_comm e.size,
    UInt64.ofNat_add]
  rfl

theorem carve (h : b.Keeps l) (hl : l.Sound) {c : SizeClass}
    (hroom : (l.next c).stop ≤ l.capacity) : (carved b (l.next c)).Keeps (l.carve c) := by
  have hfollows := (h.follows hl).carve hl hroom
  refine ⟨?_, hfollows.chain, hfollows.capacity_le⟩
  rw [fields_carved (h.header_le hl), h.header]
  simp only [Ledger.header, Ledger.carve, List.map_cons, List.sum_cons,
    Nat.add_comm (l.next c).size, UInt64.ofNat_add]
  rfl

theorem freeHead_of_nil (h : b.Keeps l) {c : SizeClass} (hc : c.index < Header.classCount)
    (hf : l.free c = []) : Header.freeHead b c.index = Header.nil := by
  have := h.chain c hc
  rwa [hf] at this

theorem freeHead_of_cons (h : b.Keeps l) {c : SizeClass} (hc : c.index < Header.classCount)
    {o : Nat} {rest : List Nat} (hf : l.free c = o :: rest) :
    Header.freeHead b c.index ≠ Header.nil ∧ Header.freeHead b c.index = .ofNat o := by
  have := h.chain c hc
  rw [hf] at this
  exact this.head_of_cons

/-- The ledger tells where each chain begins, so it tells the whole header. -/
theorem fields_eq (h : b.Keeps l) (h' : b'.Keeps l) : Header.fields b = Header.fields b' := by
  have hheads : (Header.fields b).heads = (Header.fields b').heads := by
    funext i
    by_cases hi : i < Header.classCount
    · rw [Header.heads_fields hi, Header.heads_fields hi]
      cases hf : l.free ⟨i⟩ with
      | nil => rw [h.freeHead_of_nil (c := ⟨i⟩) hi hf, h'.freeHead_of_nil (c := ⟨i⟩) hi hf]
      | cons o rest =>
        rw [(h.freeHead_of_cons (c := ⟨i⟩) hi hf).2, (h'.freeHead_of_cons (c := ⟨i⟩) hi hf).2]
    · simp only [Header.fields, if_neg hi]
  rw [h.header, h'.header, hheads]

/-- Where the books have a block, the bytes have it as well. -/
theorem allocate (h : b.Keeps l) (hl : l.Sound) {y : Layout} (hn : SizeClass.need y ≤ 2 ^ 63)
    {o : Nat} {l' : Ledger} (ha : l.allocate y = .ok (o, l')) (level : Log.Level) :
    Ends (Block.allocate level y) b (.ok (.ofNat o)) (taken b l (SizeClass.ofLayout y)) ∧
      (taken b l (SizeClass.ofLayout y)).Keeps l' ∧
      (taken b l (SizeClass.ofLayout y)).size = b.size ∧
      ∀ i, Header.size ≤ i → (taken b l (SizeClass.ofLayout y)).get i = b.get i := by
  have hends := ((h.follows hl).allocate hl hn ha level).1
  obtain ⟨hal, hc, ⟨rest, hf, rfl⟩ | ⟨hf, hroom, rfl, rfl⟩⟩ := Ledger.allocate_cases ha
  · simp only [taken, hf] at hends ⊢
    exact ⟨hends, h.reuse (e := y.extent o) hl hc hf, by simp [reused], fun i => get_reused hc⟩
  · simp only [taken, hf] at hends ⊢
    exact ⟨hends, h.carve hl hroom, by simp [carved], fun i => get_carved⟩

/-- Where the books have no block, the bytes have none, and stay as they are. -/
theorem refuse (h : b.Keeps l) (hl : l.Sound) {y : Layout} (hn : SizeClass.need y ≤ 2 ^ 63)
    {e : MemoryError} (he : l.allocate y = .error e) (level : Log.Level) :
    Ends (Block.allocate level y) b (.error e) b :=
  (h.follows hl).refuse hl hn he level

/-! ## Returning blocks -/

/-- The bytes after a block was put in front of its chain. -/
def released (b : Bytes) (e : Extent) : Bytes :=
  Header.countFree (Header.setLock (Header.setFreeHead ((Header.setLock b 1).setWord e.offset
    (Header.freeHead b e.cls.index)) e.cls.index (.ofNat e.offset)) 0) (.ofNat e.size)

theorem get_released {e : Extent} (hc : e.cls.index < Header.classCount) {i : Nat}
    (h : Header.size ≤ i) (hi : i < e.offset ∨ e.offset + 8 ≤ i) :
    (released b e).get i = b.get i := by
  rw [released, Header.get_countFree h, Header.get_setLock h, Header.get_setFreeHead h hc,
    get_setWord_of_disjoint hi, Header.get_setLock h]

theorem word_released {e : Extent} (hc : e.cls.index < Header.classCount)
    (h₁ : Header.size ≤ e.offset) (h₂ : e.offset + 8 ≤ b.size) :
    (released b e).word e.offset = Header.freeHead b e.cls.index := by
  have h₃ : (released b e).word e.offset =
      ((Header.setLock b 1).setWord e.offset (Header.freeHead b e.cls.index)).word e.offset := by
    refine word_congr fun i hi _ => ?_
    rw [released, Header.get_countFree (by omega), Header.get_setLock (by omega),
      Header.get_setFreeHead (by omega) hc]
  rw [h₃, word_setWord_self (by simpa using h₂)]

theorem chain_released (hl : l.Sound) {e : Extent} (he : e ∈ l.live) {c : SizeClass} {w : UInt64}
    (h : b.Chain w (l.free c)) : (released b e).Chain w (l.free c) := by
  have hn := Header.size_le_dataStart
  obtain ⟨hstart, -, -, hc⟩ := hl.fits e (hl.mem_carved_of_live he)
  have hsize := e.sixteen_le_size
  have hstop : e.stop = e.offset + e.size := rfl
  -- the block was handed out, so no link of a free block lies in it
  refine h.congr fun o ho => word_congr fun i hi₁ hi₂ => ?_
  obtain ⟨h₁, -, h₂⟩ := link_of_free hl ho
  refine (get_released hc (by omega) ?_).symm
  rcases h₂ e he with h₃ | h₃ <;> omega

theorem fields_released (h : b.Keeps l) (hl : l.Sound) {e : Extent} (he : e ∈ l.live) :
    Header.fields (released b e) = (l.release e).header
      (Function.update (Header.fields b).heads e.cls.index (.ofNat e.offset)) := by
  have hs := h.header_le hl
  have hn := Header.size_le_dataStart
  obtain ⟨hstart, -, -, hc⟩ := hl.fits e (hl.mem_carved_of_live he)
  have hsum : (l.live.map Extent.size).sum =
      ((l.live.erase e).map Extent.size).sum + e.size := by
    rw [((List.perm_cons_erase he).map Extent.size).sum_nat, List.map_cons, List.sum_cons,
      Nat.add_comm]
  rw [released, Header.fields_countFree (by simpa), Header.fields_setLock (by simpa),
    Header.fields_setFreeHead (by simpa) hc,
    ← Header.fields_congr (b := Header.setLock b 1) fun i hi =>
      (get_setWord_of_disjoint (.inl (by omega))).symm,
    Header.fields_setLock hs, h.header]
  simp only [Ledger.header, Ledger.release, hsum, UInt64.ofNat_add, UInt64.add_sub_cancel]
  rfl

theorem release (h : b.Keeps l) (hl : l.Sound) {e : Extent} (he : e ∈ l.live) :
    (released b e).Keeps (l.release e) := by
  have hn := Header.size_le_dataStart
  have h₁ := hl.capacity_lt
  have h₂ := hl.cursor_le
  have h₃ := h.capacity_le
  have h₄ := e.sixteen_le_size
  have h₅ : e.stop = e.offset + e.size := rfl
  simp only [SizeClass.maxAlign] at h₁
  obtain ⟨hstart, hstop, -, hc⟩ := hl.fits e (hl.mem_carved_of_live he)
  have ho : (UInt64.ofNat e.offset).toNat = e.offset := toNat_word (by omega)
  refine of_fields _ (h.fields_released hl he) (fun c hci => ?_) ?_
  · simp only [Ledger.release, Function.update_apply]
    by_cases hci' : c = e.cls
    · subst hci'
      rw [if_pos rfl, if_pos rfl]
      refine ⟨fun hnil => ?_, ho, ?_⟩
      · -- no region is so large that an offset could be taken for the end of a chain
        have := congrArg UInt64.toNat hnil
        rw [ho] at this
        have hnil' : Header.nil.toNat = 2 ^ 64 - 1 := rfl
        omega
      · rw [word_released hc (by omega) (by omega)]
        exact chain_released hl he (h.chain e.cls hc)
    · have hne : c.index ≠ e.cls.index := fun he => hci' (SizeClass.eq_of_index he)
      rw [if_neg hne, if_neg hci', Header.heads_fields hci]
      exact chain_released hl he (h.chain c hci)
  · simpa [released, Ledger.release] using h.capacity_le

theorem release_ends {ε : Type} (h : b.Keeps l) (hl : l.Sound) {e : Extent} (he : e ∈ l.live)
    (level : Log.Level) :
    Ends (Block.release level e.cls (.ofNat e.offset) : Action Bytes ε Unit) b (.ok ())
      (released b e) := by
  have h₁ := hl.capacity_lt
  have h₂ := hl.cursor_le
  have h₃ := h.capacity_le
  have h₄ := e.sixteen_le_size
  have h₅ : e.stop = e.offset + e.size := rfl
  obtain ⟨-, hstop, -, hc⟩ := hl.fits e (hl.mem_carved_of_live he)
  have ho : (Offset.ofNat e.offset).toNat = e.offset := Offset.toNat_ofNat (by omega)
  refine .bind (Block.locked_ends h.lock (.bind (.require hc) (.bind .get (.bind
    (.require (by rw [ho, Header.size_setLock]; omega)) .set)))) ?_
  rw [ho, freeHead_setLock (h.header_le hl) hc]
  exact .bind .modify (.tell (.bind .get .pure))

end Bytes.Keeps

end SharedHeap
