import SharedHeap.Bytes.Basic

/-!
# Words in a byte store

Reading and storing 64-bit and 32-bit words. A word that was stored is read back, and storing a word
changes no word that lies apart from it.
-/

namespace SharedHeap.Bytes

/-- The 64-bit word at `i`. -/
def word (b : Bytes) (i : Nat) : UInt64 := wordOfBytes (b.read i 8)

def setWord (b : Bytes) (i : Nat) (w : UInt64) : Bytes := b.write i (bytesOfWord w)

@[simp] theorem size_setWord (b : Bytes) (i : Nat) (w : UInt64) :
    (b.setWord i w).size = b.size := size_write ..

theorem word_setWord_self {b : Bytes} {i : Nat} {w : UInt64} (h : i + 8 ≤ b.size) :
    (b.setWord i w).word i = w := by
  have hr : (b.write i (bytesOfWord w)).read i 8 = bytesOfWord w := by
    rw [← length_bytesOfWord w]
    exact read_write_self (by simpa using h)
  rw [word, setWord, hr, wordOfBytes_bytesOfWord]

theorem word_setWord_of_disjoint {b : Bytes} {i j : Nat} {w : UInt64}
    (h : j + 8 ≤ i ∨ i + 8 ≤ j) : (b.setWord i w).word j = b.word j := by
  rw [word, setWord, read_write_of_disjoint (by simpa using h), word]

theorem get_setWord_of_disjoint {b : Bytes} {i j : Nat} {w : UInt64}
    (h : j < i ∨ i + 8 ≤ j) : (b.setWord i w).get j = b.get j := by
  rcases h with h | h
  · exact get_write_of_lt h
  · exact get_write_of_le (by simpa using h)

theorem word_write_of_disjoint {b : Bytes} {i j : Nat} {vs : List UInt8}
    (h : j + 8 ≤ i ∨ i + vs.length ≤ j) : (b.write i vs).word j = b.word j := by
  rw [word, read_write_of_disjoint h, word]

/-- A word depends on its eight bytes and on no others. -/
theorem word_congr {b c : Bytes} {i : Nat} (h : ∀ j, i ≤ j → j < i + 8 → b.get j = c.get j) :
    b.word i = c.word i := by rw [word, read_congr h, word]

theorem bytesOfWord_word (b : Bytes) (i : Nat) : bytesOfWord (b.word i) = b.read i 8 := by
  have hl : (b.read i 8).length = 8 := length_read ..
  have hlt : ofBytesLE (b.read i 8) < 2 ^ 64 := by
    have := ofBytesLE_lt (b.read i 8)
    rwa [hl] at this
  have hr := toBytesLE_ofBytesLE (b.read i 8)
  rw [hl] at hr
  rw [bytesOfWord, word, wordOfBytes, UInt64.toNat_ofNat_of_lt' hlt, hr]

/-- The bytes of a word depend on the word. -/
theorem get_eq_of_word {b c : Bytes} {i j : Nat} (h : b.word i = c.word i) (h₁ : i ≤ j)
    (h₂ : j < i + 8) : b.get j = c.get j := by
  have hr : b.read i 8 = c.read i 8 := by rw [← bytesOfWord_word, h, bytesOfWord_word]
  exact get_eq_of_read hr h₁ h₂

/-- The 32-bit word at `i`. -/
def halfWord (b : Bytes) (i : Nat) : UInt32 := .ofNat (ofBytesLE (b.read i 4))

def setHalfWord (b : Bytes) (i : Nat) (w : UInt32) : Bytes := b.write i (toBytesLE 4 w.toNat)

@[simp] theorem size_setHalfWord (b : Bytes) (i : Nat) (w : UInt32) :
    (b.setHalfWord i w).size = b.size := size_write ..

theorem toBytesLE_halfWord (b : Bytes) (i : Nat) :
    toBytesLE 4 (b.halfWord i).toNat = b.read i 4 := by
  have hl : (b.read i 4).length = 4 := length_read ..
  have hlt : ofBytesLE (b.read i 4) < 2 ^ 32 := by
    have := ofBytesLE_lt (b.read i 4)
    rwa [hl] at this
  have hr := toBytesLE_ofBytesLE (b.read i 4)
  rw [hl] at hr
  rw [halfWord, UInt32.toNat_ofNat_of_lt' hlt, hr]

theorem get_eq_of_halfWord {b c : Bytes} {i j : Nat} (h : b.halfWord i = c.halfWord i)
    (h₁ : i ≤ j) (h₂ : j < i + 4) : b.get j = c.get j := by
  have hr : b.read i 4 = c.read i 4 := by rw [← toBytesLE_halfWord, h, toBytesLE_halfWord]
  exact get_eq_of_read hr h₁ h₂

theorem halfWord_setHalfWord_self {b : Bytes} {i : Nat} {w : UInt32} (h : i + 4 ≤ b.size) :
    (b.setHalfWord i w).halfWord i = w := by
  have hr : (b.write i (toBytesLE 4 w.toNat)).read i (toBytesLE 4 w.toNat).length =
      toBytesLE 4 w.toNat := read_write_self (by simpa using h)
  rw [length_toBytesLE] at hr
  have hw : w.toNat < 256 ^ 4 := w.toNat_lt
  rw [halfWord, setHalfWord, hr, ofBytesLE_toBytesLE, Nat.mod_eq_of_lt hw, UInt32.ofNat_toNat]

theorem read_setHalfWord_of_disjoint {b : Bytes} {i j n : Nat} {w : UInt32}
    (h : j + n ≤ i ∨ i + 4 ≤ j) : (b.setHalfWord i w).read j n = b.read j n := by
  rw [setHalfWord, read_write_of_disjoint (by simpa using h)]

theorem word_setHalfWord_of_disjoint {b : Bytes} {i j : Nat} {w : UInt32}
    (h : j + 8 ≤ i ∨ i + 4 ≤ j) : (b.setHalfWord i w).word j = b.word j := by
  rw [word, read_setHalfWord_of_disjoint h, word]

theorem halfWord_write_of_disjoint {b : Bytes} {i j : Nat} {vs : List UInt8}
    (h : j + 4 ≤ i ∨ i + vs.length ≤ j) : (b.write i vs).halfWord j = b.halfWord j := by
  rw [halfWord, read_write_of_disjoint h, halfWord]

end SharedHeap.Bytes
