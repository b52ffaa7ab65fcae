import Std.Data.ExtTreeMap
import SharedHeap.Bytes.LittleEndian

/-!
# Byte stores

A run of bytes of a fixed size, all zero at first. Only the bytes that differ from zero take room,
and none of them lies past the end, so two stores with the same bytes are equal.
-/

namespace SharedHeap

structure Bytes where
  size : Nat
  cells : Std.ExtTreeMap Nat UInt8 compare
  ne_zero : ∀ i : Nat, cells[i]? ≠ some 0
  eq_none : ∀ i : Nat, size ≤ i → cells[i]? = none

namespace Bytes

/-- The byte at `i`; past the end all bytes are zero. -/
def get (b : Bytes) (i : Nat) : UInt8 := (b.cells[i]?).getD 0

/-- Stores with the same bytes are equal. -/
@[ext] theorem ext {b c : Bytes} (hsize : b.size = c.size) (h : ∀ i, b.get i = c.get i) :
    b = c := by
  have hcells : b.cells = c.cells := by
    apply Std.ExtTreeMap.ext_getElem?
    intro i
    have hi := h i
    have hb := b.ne_zero i
    have hc := c.ne_zero i
    revert hi hb hc
    simp only [get]
    cases b.cells[i]? <;> cases c.cells[i]? <;> simp_all [eq_comm]
  cases b
  cases c
  cases hsize
  cases hcells
  rfl

instance : DecidableEq Bytes := fun b c =>
  decidable_of_iff (b.size = c.size ∧ b.cells = c.cells)
    ⟨fun h => by
      cases b
      cases c
      simpa using h, fun h => h ▸ ⟨rfl, rfl⟩⟩

theorem get_of_size_le {b : Bytes} {i : Nat} (h : b.size ≤ i) : b.get i = 0 := by
  simp [get, b.eq_none i h]

/-- A store of zeros. -/
def zeros (size : Nat) : Bytes where
  size := size
  cells := ∅
  ne_zero := by simp
  eq_none := by simp

@[simp] theorem size_zeros (n : Nat) : (zeros n).size = n := rfl

/-- Stores one byte; past the end nothing is stored. -/
def set (b : Bytes) (i : Nat) (v : UInt8) : Bytes :=
  if h : i < b.size then
    if hv : v = 0 then
      { b with
        cells := b.cells.erase i
        ne_zero := by
          intro j
          rw [Std.ExtTreeMap.getElem?_erase]
          split
          · simp
          · exact b.ne_zero j
        eq_none := by
          intro j hj
          rw [Std.ExtTreeMap.getElem?_erase]
          split
          · rfl
          · exact b.eq_none j hj }
    else
      { b with
        cells := b.cells.insert i v
        ne_zero := by
          intro j
          rw [Std.ExtTreeMap.getElem?_insert]
          split
          · simpa using hv
          · exact b.ne_zero j
        eq_none := by
          intro j hj
          have hij : ¬compare i j = .eq := by
            rw [Nat.compare_eq_eq]
            omega
          rw [Std.ExtTreeMap.getElem?_insert, if_neg hij]
          exact b.eq_none j hj }
  else b

@[simp] theorem size_set (b : Bytes) (i : Nat) (v : UInt8) : (b.set i v).size = b.size := by
  unfold set
  split
  · split <;> rfl
  · rfl

theorem get_set (b : Bytes) (i j : Nat) (v : UInt8) :
    (b.set i v).get j = if i = j ∧ j < b.size then v else b.get j := by
  unfold set
  split
  · next h =>
    split
    · next hv =>
      subst hv
      simp only [get, Std.ExtTreeMap.getElem?_erase, Nat.compare_eq_eq]
      by_cases hij : i = j
      · subst hij
        simp [h]
      · simp [hij]
    · next hv =>
      simp only [get, Std.ExtTreeMap.getElem?_insert, Nat.compare_eq_eq]
      by_cases hij : i = j
      · subst hij
        simp [h]
      · simp [hij]
  · next h =>
    rw [if_neg]
    rintro ⟨rfl, hj⟩
    exact h hj

/-- Stores bytes in a row from `i` on. -/
def write (b : Bytes) (i : Nat) : List UInt8 → Bytes
  | [] => b
  | v :: vs => (b.set i v).write (i + 1) vs

@[simp] theorem size_write (b : Bytes) (i : Nat) (vs : List UInt8) :
    (b.write i vs).size = b.size := by
  induction vs generalizing b i with
  | nil => rfl
  | cons v vs ih => rw [write, ih, size_set]

theorem get_write_of_lt {b : Bytes} {i j : Nat} {vs : List UInt8} (h : j < i) :
    (b.write i vs).get j = b.get j := by
  induction vs generalizing b i with
  | nil => rfl
  | cons v vs ih =>
    rw [write, ih (by omega), get_set, if_neg (by omega)]

theorem get_write_of_le {b : Bytes} {i j : Nat} {vs : List UInt8} (h : i + vs.length ≤ j) :
    (b.write i vs).get j = b.get j := by
  induction vs generalizing b i with
  | nil => rfl
  | cons v vs ih =>
    rw [List.length_cons] at h
    rw [write, ih (by omega), get_set, if_neg (by omega)]

theorem get_write_add {b : Bytes} {i k : Nat} {vs : List UInt8} (hk : k < vs.length)
    (h : i + vs.length ≤ b.size) : (b.write i vs).get (i + k) = vs[k] := by
  induction vs generalizing b i k with
  | nil => simp at hk
  | cons v vs ih =>
    rw [List.length_cons] at h hk
    rw [write]
    cases k with
    | zero =>
      rw [get_write_of_lt (by omega), get_set, if_pos (by omega), List.getElem_cons_zero]
    | succ k =>
      have e : i + (k + 1) = i + 1 + k := by omega
      rw [List.getElem_cons_succ]
      simp only [e]
      exact ih (by omega) (by rw [size_set]; omega)

/-- The `n` bytes from `i` on. -/
def read (b : Bytes) (i n : Nat) : List UInt8 := (List.range' i n).map b.get

@[simp] theorem length_read (b : Bytes) (i n : Nat) : (b.read i n).length = n := by simp [read]

theorem getElem_read {b : Bytes} {i n k : Nat} (h : k < (b.read i n).length) :
    (b.read i n)[k] = b.get (i + k) := by simp [read]

/-- What is read depends on the bytes read and on no others. -/
theorem read_congr {b c : Bytes} {i n : Nat} (h : ∀ j, i ≤ j → j < i + n → b.get j = c.get j) :
    b.read i n = c.read i n := by
  apply List.ext_getElem (by simp)
  intro k h₁ h₂
  rw [getElem_read, getElem_read]
  rw [length_read] at h₁
  exact h _ (by omega) (by omega)

theorem get_eq_of_read {b c : Bytes} {i j n : Nat} (h : b.read i n = c.read i n) (h₁ : i ≤ j)
    (h₂ : j < i + n) : b.get j = c.get j := by
  obtain ⟨k, rfl⟩ := Nat.exists_eq_add_of_le h₁
  have hb : k < (b.read i n).length := by
    rw [length_read]
    omega
  have hc : k < (c.read i n).length := by
    rw [length_read]
    omega
  rw [← getElem_read hb, ← getElem_read hc]
  exact List.getElem_of_eq h hb

theorem read_write_self {b : Bytes} {i : Nat} {vs : List UInt8} (h : i + vs.length ≤ b.size) :
    (b.write i vs).read i vs.length = vs := by
  apply List.ext_getElem (by simp)
  intro k h₁ h₂
  rw [getElem_read, get_write_add h₂ h]

theorem read_write_of_disjoint {b : Bytes} {i j n : Nat} {vs : List UInt8}
    (h : j + n ≤ i ∨ i + vs.length ≤ j) : (b.write i vs).read j n = b.read j n := by
  apply read_congr
  intro k h₁ h₂
  rcases h with h | h
  · exact get_write_of_lt (by omega)
  · exact get_write_of_le (by omega)

/-- The store cut or extended by zeros to another size. -/
def resize (b : Bytes) (size : Nat) : Bytes where
  size := size
  cells := b.cells.filter fun i _ => i < size
  ne_zero := by
    intro i
    rw [Std.ExtTreeMap.getElem?_filter']
    intro h
    exact b.ne_zero i (Option.filter_eq_some_iff.1 h).1
  eq_none := by
    intro i hi
    rw [Std.ExtTreeMap.getElem?_filter']
    simp [Option.filter_eq_none_iff]
    omega

@[simp] theorem size_resize (b : Bytes) (n : Nat) : (b.resize n).size = n := rfl

theorem get_resize (b : Bytes) (n i : Nat) :
    (b.resize n).get i = if i < n then b.get i else 0 := by
  simp only [get, resize, Std.ExtTreeMap.getElem?_filter']
  cases b.cells[i]? <;> by_cases h : i < n <;> simp [h, Option.filter]

theorem resize_size (b : Bytes) : b.resize b.size = b := by
  refine ext (size_resize ..) fun i => ?_
  rw [get_resize]
  split
  · rfl
  · next h => rw [get_of_size_le (by omega)]

/-- How many bytes differ from zero. -/
def countNonzero (b : Bytes) : Nat := b.cells.size

/-- The store of the given bytes. -/
def ofList (vs : List UInt8) : Bytes := (zeros vs.length).write 0 vs

def toList (b : Bytes) : List UInt8 := b.read 0 b.size

end Bytes

end SharedHeap
