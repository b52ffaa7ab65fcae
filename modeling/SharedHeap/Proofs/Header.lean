import Mathlib.Logic.Function.Basic
import SharedHeap.Allocator.Header

/-!
# The header as a record

All words of a region's header at once. Each operation on the header changes the words it is about
and no others (`fields_setLock`, `fields_setCursor`, `fields_setFreeHead`, `fields_countAllocation`,
`fields_countFree`), and nothing that is written behind the header changes any of them
(`fields_congr`).
-/

namespace SharedHeap

namespace Bytes

theorem halfWord_setWord_of_disjoint {b : Bytes} {i j : Nat} {w : UInt64}
    (h : j + 4 ≤ i ∨ i + 8 ≤ j) : (b.setWord i w).halfWord j = b.halfWord j :=
  halfWord_write_of_disjoint (by simpa using h)

theorem halfWord_setHalfWord_of_disjoint {b : Bytes} {i j : Nat} {w : UInt32}
    (h : j + 4 ≤ i ∨ i + 4 ≤ j) : (b.setHalfWord i w).halfWord j = b.halfWord j :=
  halfWord_write_of_disjoint (by simpa using h)

theorem halfWord_congr {b c : Bytes} {i : Nat} (h : ∀ j, i ≤ j → j < i + 4 → b.get j = c.get j) :
    b.halfWord i = c.halfWord i := by
  rw [halfWord, read_congr h, halfWord]

theorem get_setHalfWord_of_disjoint {b : Bytes} {i j : Nat} {w : UInt32}
    (h : j < i ∨ i + 4 ≤ j) : (b.setHalfWord i w).get j = b.get j := by
  rcases h with h | h
  · exact get_write_of_lt h
  · exact get_write_of_le (by simpa using h)

theorem read_write_add {b : Bytes} {i k n : Nat} {vs : List UInt8} (hk : k + n ≤ vs.length)
    (h : i + vs.length ≤ b.size) : (b.write i vs).read (i + k) n = (vs.drop k).take n := by
  refine List.ext_getElem (by simp; omega) fun j h₁ h₂ => ?_
  rw [length_read] at h₁
  rw [getElem_read, Nat.add_assoc, get_write_add (by omega) h, List.getElem_take, List.getElem_drop]

theorem word_write_add {b : Bytes} {i k : Nat} {vs : List UInt8} (hk : k + 8 ≤ vs.length)
    (h : i + vs.length ≤ b.size) :
    (b.write i vs).word (i + k) = wordOfBytes ((vs.drop k).take 8) := by
  rw [word, read_write_add hk h]

end Bytes

namespace Header

/-- The words of a header. Beyond the size classes there are no free blocks. -/
@[ext] structure Fields where
  mark : UInt64
  id : AllocatorId
  capacity : UInt64
  lock : UInt32
  /-- The four bytes between the lock and the cursor, which nobody uses. -/
  reserved : UInt32
  cursor : UInt64
  allocations : UInt64
  frees : UInt64
  bytesInUse : UInt64
  heads : Nat → UInt64

/-- The words of the header that bytes begin with. -/
def fields (b : Bytes) : Fields where
  mark := b.word markAt
  id := id b
  capacity := capacity b
  lock := lock b
  reserved := b.halfWord (lockAt + 4)
  cursor := cursor b
  allocations := allocations b
  frees := frees b
  bytesInUse := bytesInUse b
  heads i := if i < classCount then freeHead b i else nil

theorem heads_fields {b : Bytes} {i : Nat} (h : i < classCount) :
    (fields b).heads i = freeHead b i := if_pos h

/-- The fields depend on the bytes of the header and on no others. -/
theorem fields_congr {b c : Bytes} (h : ∀ i < size, b.get i = c.get i) : fields b = fields c := by
  have hs : size = 288 := rfl
  have hw (i : Nat) (hi : i + 8 ≤ size) : b.word i = c.word i :=
    Bytes.word_congr fun j _ _ => h j (by omega)
  have hh (i : Nat) (hi : i + 4 ≤ size) : b.halfWord i = c.halfWord i :=
    Bytes.halfWord_congr fun j _ _ => h j (by omega)
  ext : 1
  case heads =>
    funext i
    by_cases hi : i < classCount
    · simp only [fields, if_pos hi, freeHead]
      rw [hw]
      simp only [freeHeadAt, hs]
      simp only [classCount] at hi
      omega
    · simp only [fields, if_neg hi]
  case id =>
    simp only [fields, Header.id]
    rw [hh majorAt (by decide), hh minorAt (by decide)]
  case lock => exact hh _ (by decide)
  case reserved => exact hh _ (by decide)
  all_goals exact hw _ (by decide)

/-- The bytes of the header depend on the fields. -/
theorem get_eq_of_fields {b c : Bytes} (h : fields b = fields c) {i : Nat} (hi : i < size) :
    b.get i = c.get i := by
  have hs : size = 288 := rfl
  by_cases hhead : 64 ≤ i
  · have hk : (i - 64) / 8 < classCount := by
      simp only [classCount]
      omega
    have hw : b.word (64 + 8 * ((i - 64) / 8)) = c.word (64 + 8 * ((i - 64) / 8)) := by
      have hf := congrFun (congrArg Fields.heads h) ((i - 64) / 8)
      rwa [heads_fields hk, heads_fields hk] at hf
    exact Bytes.get_eq_of_word hw (by omega) (by omega)
  · simp only [fields, Header.id, capacity, lock, cursor, allocations, frees, bytesInUse,
      Fields.mk.injEq, AllocatorId.mk.injEq] at h
    obtain ⟨hmark, ⟨hmajor, hminor⟩, hcapacity, hlock, hreserved, hcursor, hallocations, hfrees,
      hbytes, -⟩ := h
    -- the identity, the lock and what follows it are on four bytes each, the rest on eight
    have hplace : i < 8 ∨ 8 ≤ i ∧ i < 12 ∨ 12 ≤ i ∧ i < 16 ∨ 16 ≤ i ∧ i < 24 ∨ 24 ≤ i ∧ i < 28 ∨
        28 ≤ i ∧ i < 32 ∨ 32 ≤ i ∧ i < 40 ∨ 40 ≤ i ∧ i < 48 ∨ 48 ≤ i ∧ i < 56 ∨
        56 ≤ i ∧ i < 64 := by
      omega
    rcases hplace with hi | ⟨h₁, h₂⟩ | ⟨h₁, h₂⟩ | ⟨h₁, h₂⟩ | ⟨h₁, h₂⟩ | ⟨h₁, h₂⟩ | ⟨h₁, h₂⟩ |
      ⟨h₁, h₂⟩ | ⟨h₁, h₂⟩ | ⟨h₁, h₂⟩
    · exact Bytes.get_eq_of_word hmark (Nat.zero_le i) hi
    · exact Bytes.get_eq_of_halfWord hmajor h₁ h₂
    · exact Bytes.get_eq_of_halfWord hminor h₁ h₂
    · exact Bytes.get_eq_of_word hcapacity h₁ h₂
    · exact Bytes.get_eq_of_halfWord hlock h₁ h₂
    · exact Bytes.get_eq_of_halfWord hreserved h₁ h₂
    · exact Bytes.get_eq_of_word hcursor h₁ h₂
    · exact Bytes.get_eq_of_word hallocations h₁ h₂
    · exact Bytes.get_eq_of_word hfrees h₁ h₂
    · exact Bytes.get_eq_of_word hbytes h₁ h₂

theorem size_le_dataStart : size ≤ dataStart := by decide

variable {b : Bytes}

@[simp] theorem size_setCursor (w : UInt64) : (setCursor b w).size = b.size := by
  simp [setCursor]

@[simp] theorem size_setFreeHead (i : Nat) (w : UInt64) : (setFreeHead b i w).size = b.size := by
  simp [setFreeHead]

/-! ## Bytes behind the header -/

theorem get_setLock {i : Nat} (h : size ≤ i) (w : UInt32) : (setLock b w).get i = b.get i :=
  Bytes.get_setHalfWord_of_disjoint (.inr (Nat.le_trans (by decide) h))

theorem get_setWord {i j : Nat} (h : size ≤ i) (hj : j + 8 ≤ size) (w : UInt64) :
    (b.setWord j w).get i = b.get i :=
  Bytes.get_setWord_of_disjoint (.inr (Nat.le_trans hj h))

theorem get_setCursor {i : Nat} (h : size ≤ i) (w : UInt64) : (setCursor b w).get i = b.get i :=
  get_setWord h (by decide) w

theorem get_setFreeHead {i j : Nat} (h : size ≤ i) (hj : j < classCount) (w : UInt64) :
    (setFreeHead b j w).get i = b.get i := by
  refine get_setWord h ?_ w
  simp only [size, freeHeadAt, classCount] at hj ⊢
  omega

theorem get_countAllocation {i : Nat} (h : size ≤ i) (n : UInt64) :
    (countAllocation b n).get i = b.get i :=
  (get_setWord h (by decide) _).trans (get_setWord h (by decide) _)

theorem get_countFree {i : Nat} (h : size ≤ i) (n : UInt64) :
    (countFree b n).get i = b.get i :=
  (get_setWord h (by decide) _).trans (get_setWord h (by decide) _)

/-! ## Fields after each operation -/

theorem fields_setLock (h : size ≤ b.size) (w : UInt32) :
    fields (setLock b w) = { fields b with lock := w } := by
  have hs : size = 288 := rfl
  ext : 1
  case heads =>
    funext i
    simp only [fields, freeHead, freeHeadAt, setLock, lockAt]
    rw [Bytes.word_setHalfWord_of_disjoint (by omega)]
  case lock => exact lock_setLock h
  case reserved => exact Bytes.halfWord_setHalfWord_of_disjoint (by decide)
  case id =>
    simp only [fields, Header.id, setLock]
    rw [Bytes.halfWord_setHalfWord_of_disjoint (by decide),
      Bytes.halfWord_setHalfWord_of_disjoint (by decide)]
  all_goals exact Bytes.word_setHalfWord_of_disjoint (by decide)

private theorem id_setWord {i : Nat} (h : 16 ≤ i) (w : UInt64) :
    id (b.setWord i w) = id b := by
  simp only [Header.id, majorAt, minorAt]
  rw [Bytes.halfWord_setWord_of_disjoint (by omega), Bytes.halfWord_setWord_of_disjoint (by omega)]

private theorem freeHead_setWord {i : Nat} (h : i + 8 ≤ 64) (w : UInt64) (j : Nat) :
    freeHead (b.setWord i w) j = freeHead b j := by
  simp only [freeHead, freeHeadAt]
  rw [Bytes.word_setWord_of_disjoint (by omega)]

/-- The four words between the lock and the free lists. Storing one of them changes it alone. -/
private theorem fields_setWord (h : size ≤ b.size) {k : Nat} (hk : k < 4) (w : UInt64) :
    fields (b.setWord (cursorAt + 8 * k) w) =
      { fields b with
        cursor := if k = 0 then w else cursor b
        allocations := if k = 1 then w else allocations b
        frees := if k = 2 then w else frees b
        bytesInUse := if k = 3 then w else bytesInUse b } := by
  have hs : size = 288 := rfl
  have hc : cursorAt = 32 := rfl
  have hw (j : Nat) : (b.setWord (cursorAt + 8 * k) w).word (cursorAt + 8 * j) =
      if k = j then w else b.word (cursorAt + 8 * j) := by
    split
    · next e =>
      subst e
      exact Bytes.word_setWord_self (by omega)
    · exact Bytes.word_setWord_of_disjoint (by omega)
  ext : 1
  case cursor => exact hw 0
  case allocations => exact hw 1
  case frees => exact hw 2
  case bytesInUse => exact hw 3
  case heads =>
    funext j
    simp only [fields]
    rw [freeHead_setWord (by omega)]
  case id => exact id_setWord (by omega) w
  case lock | reserved => exact Bytes.halfWord_setWord_of_disjoint (by simp only [lockAt]; omega)
  all_goals
    refine Bytes.word_setWord_of_disjoint (.inl ?_)
    simp only [markAt, capacityAt]
    omega

theorem fields_setCursor (h : size ≤ b.size) (w : UInt64) :
    fields (setCursor b w) = { fields b with cursor := w } :=
  fields_setWord h (k := 0) (by decide) w

theorem fields_setFreeHead (h : size ≤ b.size) {i : Nat} (hi : i < classCount) (w : UInt64) :
    fields (setFreeHead b i w) =
      { fields b with heads := Function.update (fields b).heads i w } := by
  have hs : size = 288 := rfl
  have hc : classCount = 28 := rfl
  ext : 1
  case heads =>
    funext j
    simp only [fields, setFreeHead, freeHead, freeHeadAt, Function.update_apply]
    by_cases hj : j = i
    · subst hj
      rw [if_pos hi, if_pos rfl, Bytes.word_setWord_self (by omega)]
    · rw [if_neg hj, Bytes.word_setWord_of_disjoint (by omega)]
  case id => exact id_setWord (by simp only [freeHeadAt]; omega) w
  case lock =>
    exact Bytes.halfWord_setWord_of_disjoint (by simp only [lockAt, freeHeadAt]; omega)
  case reserved =>
    exact Bytes.halfWord_setWord_of_disjoint (by simp only [lockAt, freeHeadAt]; omega)
  all_goals
    refine Bytes.word_setWord_of_disjoint (.inl ?_)
    simp only [markAt, capacityAt, cursorAt, allocationsAt, freesAt, bytesInUseAt, freeHeadAt]
    omega

theorem fields_countAllocation (h : size ≤ b.size) (n : UInt64) :
    fields (countAllocation b n) =
      { fields b with
        allocations := (fields b).allocations + 1
        bytesInUse := (fields b).bytesInUse + n } := by
  refine (fields_setWord (by simpa) (k := 3) (by decide) _).trans ?_
  have h₁ := fields_setWord h (k := 1) (by decide) (allocations b + 1)
  exact congrArg (fun f : Fields => { f with bytesInUse := bytesInUse b + n }) h₁

theorem fields_countFree (h : size ≤ b.size) (n : UInt64) :
    fields (countFree b n) =
      { fields b with
        frees := (fields b).frees + 1
        bytesInUse := (fields b).bytesInUse - n } := by
  refine (fields_setWord (by simpa) (k := 3) (by decide) _).trans ?_
  have h₂ := fields_setWord h (k := 2) (by decide) (frees b + 1)
  exact congrArg (fun f : Fields => { f with bytesInUse := bytesInUse b - n }) h₂

private theorem take_drop_replicate {n i : Nat} (h : i < n) (w : UInt64) :
    (((List.replicate n w).flatMap bytesOfWord).drop (8 * i)).take 8 = bytesOfWord w := by
  induction n generalizing i with
  | zero => omega
  | succ n ih =>
    rw [List.replicate_succ, List.flatMap_cons]
    cases i with
    | zero => rw [Nat.mul_zero, List.drop_zero, List.take_left' (length_bytesOfWord w)]
    | succ i =>
      have e : 8 * (i + 1) = (bytesOfWord w).length + 8 * i := by
        rw [length_bytesOfWord]
        omega
      rw [e, List.drop_length_add_append, ih (by omega)]

theorem fields_format (h : size ≤ b.size) (id : AllocatorId) (capacity : UInt64) :
    fields (format b id capacity) = ⟨mark, id, capacity, 0, 0, .ofNat dataStart, 0, 0, 0,
      fun _ => nil⟩ := by
  have hb : 0 + (fresh id capacity).length ≤ b.size := by rwa [length_fresh, Nat.zero_add]
  have hw {i : Nat} {w : UInt64} (hi : i + 8 ≤ size)
      (e : ((fresh id capacity).drop i).take 8 = bytesOfWord w) :
      (format b id capacity).word i = w := by
    have := Bytes.word_write_add (b := b) (i := 0) (by rwa [length_fresh]) hb
    rwa [Nat.zero_add, e, wordOfBytes_bytesOfWord] at this
  have hh {i : Nat} {w : UInt32} (hi : i + 4 ≤ size)
      (e : ((fresh id capacity).drop i).take 4 = toBytesLE 4 w.toNat) :
      (format b id capacity).halfWord i = w := by
    have := Bytes.read_write_add (b := b) (i := 0) (by rwa [length_fresh]) hb
    rw [Nat.zero_add, e] at this
    have hlt : w.toNat < 256 ^ 4 := w.toNat_lt
    rw [format, Bytes.halfWord, this, ofBytesLE_toBytesLE, Nat.mod_eq_of_lt hlt,
      UInt32.ofNat_toNat]
  ext : 1
  case heads =>
    funext i
    simp only [fields]
    split
    · next hi =>
      refine hw (by simp only [freeHeadAt, size]; omega) ?_
      have e : freeHeadAt i = 64 + 8 * i := rfl
      rw [e, ← List.drop_drop]
      refine (congrArg (List.take 8) ?_).trans (take_drop_replicate hi nil)
      simp [fresh, List.drop_append, List.drop_eq_nil_of_le]
    · rfl
  case id =>
    have h₁ : (format b id capacity).halfWord majorAt = id.major :=
      hh (by decide) (by simp [fresh, majorAt])
    have h₂ : (format b id capacity).halfWord minorAt = id.minor :=
      hh (by decide) (by simp [fresh, minorAt, List.drop_append, List.drop_eq_nil_of_le])
    exact congrArg₂ AllocatorId.mk h₁ h₂
  case lock | reserved =>
    exact hh (by decide) (by simp [fresh, lockAt, List.drop_append, List.drop_eq_nil_of_le])
  all_goals
    exact hw (by decide) (by
      simp [fresh, markAt, capacityAt, cursorAt, allocationsAt, freesAt, bytesInUseAt,
        List.drop_append, List.drop_eq_nil_of_le])

end Header

end SharedHeap
