/-!
# Little-endian numbers

A number on a given count of bytes, the least significant byte first. All that the library stores in
a region goes through this one encoding.
-/

namespace SharedHeap

-- Powers stay those of the core library where a module imports further ones.
attribute [instance (2000), default_instance 20000] instPowNat

/-- The lowest `width` bytes of `n`, least significant first. -/
def toBytesLE : Nat → Nat → List UInt8
  | 0, _ => []
  | width + 1, n => UInt8.ofNat n :: toBytesLE width (n / 256)

/-- The number that bytes write, least significant first. -/
def ofBytesLE : List UInt8 → Nat
  | [] => 0
  | b :: bs => b.toNat + 256 * ofBytesLE bs

@[simp] theorem length_toBytesLE (width n : Nat) : (toBytesLE width n).length = width := by
  induction width generalizing n with
  | zero => rfl
  | succ width ih => simp [toBytesLE, ih]

theorem ofBytesLE_lt (bs : List UInt8) : ofBytesLE bs < 256 ^ bs.length := by
  induction bs with
  | nil => simp [ofBytesLE]
  | cons b bs ih =>
    have := b.toNat_lt
    rw [ofBytesLE, List.length_cons, Nat.pow_succ]
    omega

theorem ofBytesLE_toBytesLE (width n : Nat) :
    ofBytesLE (toBytesLE width n) = n % 256 ^ width := by
  induction width generalizing n with
  | zero => simp [toBytesLE, ofBytesLE, Nat.mod_one]
  | succ width ih =>
    have h : 256 ^ (width + 1) = 256 * 256 ^ width := Nat.pow_succ'
    rw [toBytesLE, ofBytesLE, ih, h, Nat.mod_mul, UInt8.toNat_ofNat']

theorem toBytesLE_ofBytesLE (bs : List UInt8) : toBytesLE bs.length (ofBytesLE bs) = bs := by
  induction bs with
  | nil => rfl
  | cons b bs ih =>
    have hb := b.toNat_lt
    have hq : (b.toNat + 256 * ofBytesLE bs) / 256 = ofBytesLE bs := by omega
    rw [ofBytesLE, List.length_cons, toBytesLE, hq, ih]
    congr 1
    apply UInt8.toNat_inj.1
    rw [UInt8.toNat_ofNat']
    omega

/-- A 64-bit word on its eight bytes. -/
def bytesOfWord (w : UInt64) : List UInt8 := toBytesLE 8 w.toNat

def wordOfBytes (bs : List UInt8) : UInt64 := .ofNat (ofBytesLE bs)

@[simp] theorem length_bytesOfWord (w : UInt64) : (bytesOfWord w).length = 8 :=
  length_toBytesLE ..

@[simp] theorem wordOfBytes_bytesOfWord (w : UInt64) : wordOfBytes (bytesOfWord w) = w := by
  have h : w.toNat % 256 ^ 8 = w.toNat := Nat.mod_eq_of_lt w.toNat_lt
  rw [wordOfBytes, bytesOfWord, ofBytesLE_toBytesLE, h, UInt64.ofNat_toNat]

end SharedHeap
