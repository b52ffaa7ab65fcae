import SharedHeap.Bytes.LittleEndian
import SharedHeap.Plain.Basic

/-!
# Stored values

A plain value as the bytes it is stored as, and back. Reading what was stored gives the value again,
for every plain type.
-/

namespace SharedHeap.Plain

/-- The values on consecutive runs of `size` bytes. -/
def decodeMany {α : Type} (f : List UInt8 → α) (size : Nat) : Nat → List UInt8 → List α
  | 0, _ => []
  | n + 1, bs => f (bs.take size) :: decodeMany f size n (bs.drop size)

@[simp] theorem length_decodeMany {α : Type} (f : List UInt8 → α) (size n : Nat)
    (bs : List UInt8) : (decodeMany f size n bs).length = n := by
  induction n generalizing bs with
  | zero => rfl
  | succ n ih => simp [decodeMany, ih]

/-- Runs of bytes of one size are told apart again. -/
theorem decodeMany_flatMap {α : Type} {f : List UInt8 → α} {g : α → List UInt8} {size : Nat}
    (hsize : ∀ a, (g a).length = size) (hfg : ∀ a, f (g a) = a) (vs : List α) :
    decodeMany f size vs.length (vs.flatMap g) = vs := by
  induction vs with
  | nil => rfl
  | cons v vs ih =>
    rw [List.length_cons, decodeMany, List.flatMap_cons, ← hsize v, List.take_left',
      List.drop_left', hsize v, ih, hfg]
    · rfl
    · rfl

/-- The bytes of a value. -/
def encode : (t : Plain) → t.Val → List UInt8
  | int t, v => toBytesLE t.bytes v.toNat
  | float t, v => toBytesLE t.bytes v.toNat
  | bool, v => [if v then 1 else 0]
  | char, v => toBytesLE 4 v.toNat
  | unit, _ => []
  | array elem _, vs => vs.toList.flatMap elem.encode
  | record _, ws => ws.toList.flatMap bytesOfWord
  | raw _, bs => bs.toList

/-- The value that bytes stand for. -/
def decode : (t : Plain) → List UInt8 → t.Val
  | int _, bs => .ofNat _ (ofBytesLE bs)
  | float _, bs => .ofNat _ (ofBytesLE bs)
  | bool, bs => ofBytesLE bs != 0
  | char, bs => .ofNat (ofBytesLE bs)
  | unit, _ => ()
  | array elem length, bs =>
    ⟨(decodeMany elem.decode elem.size length bs).toArray, by simp⟩
  | record r, bs => ⟨(decodeMany wordOfBytes 8 r.fields.length bs).toArray, by simp⟩
  | raw r, bs => ⟨(decodeMany (·.headD 0) 1 r.size bs).toArray, by simp⟩

private theorem length_flatMap_const {α : Type} {g : α → List UInt8} {size : Nat}
    (h : ∀ a, (g a).length = size) (vs : List α) : (vs.flatMap g).length = vs.length * size := by
  induction vs with
  | nil => simp
  | cons v vs ih =>
    rw [List.flatMap_cons, List.length_append, h, ih, List.length_cons, Nat.succ_mul, Nat.add_comm]

@[simp] theorem length_encode (t : Plain) (v : t.Val) : (t.encode v).length = t.size := by
  induction t with
  | int t | float t => simp [encode, size]
  | bool | char | unit => simp [encode, size]
  | array elem length ih =>
    rw [encode, size, length_flatMap_const ih, Vector.length_toList]
  | record r =>
    rw [encode, size, length_flatMap_const length_bytesOfWord, Vector.length_toList]
  | raw r => rw [encode, size, Vector.length_toList]

private theorem ofNat_bits {n : Nat} (v : BitVec (8 * n)) :
    BitVec.ofNat (8 * n) (ofBytesLE (toBytesLE n v.toNat)) = v := by
  have h : v.toNat % 256 ^ n = v.toNat := by
    apply Nat.mod_eq_of_lt
    have := v.isLt
    rwa [Nat.pow_mul] at this
  rw [ofBytesLE_toBytesLE, h, BitVec.ofNat_toNat, BitVec.setWidth_eq]

private theorem vector_eq {α : Type} {n : Nat} {xs : Vector α n} {l : List α}
    {h : l.toArray.size = n} (hl : l = xs.toList) : (⟨l.toArray, h⟩ : Vector α n) = xs := by
  obtain ⟨xs, hxs⟩ := xs
  subst hl
  simp [Vector.toList]

/-- What is stored is read back. -/
theorem decode_encode (t : Plain) (v : t.Val) : t.decode (t.encode v) = v := by
  induction t with
  | int t | float t => exact ofNat_bits v
  | bool => cases v <;> rfl
  | char =>
    have h : v.toNat % 256 ^ 4 = v.toNat := by
      apply Nat.mod_eq_of_lt
      have := v.val.toNat_lt
      exact this
    simp only [encode, decode]
    rw [ofBytesLE_toBytesLE, h, Char.ofNat_toNat]
  | unit => rfl
  | array elem length ih =>
    have h := decodeMany_flatMap (length_encode elem) ih v.toList
    rw [Vector.length_toList] at h
    exact vector_eq h
  | record r =>
    have h := decodeMany_flatMap length_bytesOfWord wordOfBytes_bytesOfWord v.toList
    rw [Vector.length_toList] at h
    exact vector_eq h
  | raw r =>
    have hsize (b : UInt8) : [b].length = 1 := rfl
    have h := decodeMany_flatMap (f := (·.headD 0)) hsize (fun _ => rfl) v.toList
    rw [Vector.length_toList, List.flatMap_singleton'] at h
    exact vector_eq h

/-- Values are equal if they are stored as the same bytes. -/
theorem encode_injective {t : Plain} {v w : t.Val} (h : t.encode v = t.encode w) : v = w := by
  rw [← decode_encode t v, h, decode_encode]

instance (t : Plain) : DecidableEq t.Val := fun v w =>
  if h : t.encode v = t.encode w then isTrue (encode_injective h)
  else isFalse fun e => h (e ▸ rfl)

end SharedHeap.Plain
