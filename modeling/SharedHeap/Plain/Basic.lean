import SharedHeap.Layout

/-!
# Plain types

The types whose values are stored in a region as they are: integers, floating-point numbers, truth
values, characters, the unit, arrays of plain values, records of 64-bit words, and bytes under an
alignment of their own. `Plain.Val` is the type of the values; every plain type has a size and an
alignment.
-/

namespace SharedHeap

inductive IntType
  | u8 | u16 | u32 | u64 | u128 | usize
  | i8 | i16 | i32 | i64 | i128 | isize
deriving DecidableEq, Repr, Inhabited

namespace IntType

def bytes : IntType → Nat
  | u8 | i8 => 1
  | u16 | i16 => 2
  | u32 | i32 => 4
  | u64 | i64 | usize | isize => 8
  | u128 | i128 => 16

def isSigned : IntType → Bool
  | i8 | i16 | i32 | i64 | i128 | isize => true
  | _ => false

def name : IntType → String
  | u8 => "u8" | u16 => "u16" | u32 => "u32" | u64 => "u64" | u128 => "u128" | usize => "usize"
  | i8 => "i8" | i16 => "i16" | i32 => "i32" | i64 => "i64" | i128 => "i128" | isize => "isize"

/-- The number that bits stand for. -/
def toInt (t : IntType) (v : BitVec (8 * t.bytes)) : Int :=
  if t.isSigned then v.toInt else v.toNat

/-- The bits of a number; bits beyond the width are cut off. -/
def ofInt (t : IntType) (n : Int) : BitVec (8 * t.bytes) := .ofInt _ n

/-- Whether a number can be written on the bits of the type. -/
def Fits (t : IntType) (n : Int) : Prop := t.toInt (t.ofInt n) = n

instance (t : IntType) (n : Int) : Decidable (t.Fits n) :=
  inferInstanceAs (Decidable (_ = _))

end IntType

inductive FloatType
  | f32 | f64
deriving DecidableEq, Repr, Inhabited

namespace FloatType

def bytes : FloatType → Nat
  | f32 => 4
  | f64 => 8

def name : FloatType → String
  | f32 => "f32"
  | f64 => "f64"

end FloatType

/-- The last part of a full name. -/
def lastPart (path : String) : String := ((path.splitOn "::").getLast?).getD path

/-- A record of 64-bit words. -/
structure RecordType where
  /-- The full name, its parts set apart by `::`. -/
  path : String
  fields : List String
  /-- The fields of a tuple are shown without their names. -/
  isTuple : Bool
  /-- Whether it counts when a value of the type is finalized. -/
  hasFinalizer : Bool
deriving DecidableEq, Repr, Inhabited

namespace RecordType

def name (r : RecordType) : String := lastPart r.path

end RecordType

/-- Bytes under an alignment of their own, which their number is a multiple of. -/
structure RawType where
  /-- The full name, its parts set apart by `::`. -/
  path : String
  /-- The alignment is this power of two. -/
  exponent : Nat
  /-- How many times the alignment goes into the size. -/
  units : Nat
deriving DecidableEq, Repr, Inhabited

namespace RawType

def name (r : RawType) : String := lastPart r.path

def align (r : RawType) : Nat := 2 ^ r.exponent

def size (r : RawType) : Nat := r.units * r.align

end RawType

inductive Plain
  | int (t : IntType)
  | float (t : FloatType)
  | bool
  | char
  | unit
  | array (elem : Plain) (length : Nat)
  | record (r : RecordType)
  | raw (r : RawType)
deriving DecidableEq, Repr, Inhabited

namespace Plain

/-- The values of a plain type. Numbers are given by their bits. -/
@[reducible] def Val : Plain → Type
  | int t => BitVec (8 * t.bytes)
  | float t => BitVec (8 * t.bytes)
  | bool => Bool
  | char => Char
  | unit => Unit
  | array elem length => Vector elem.Val length
  | record r => Vector UInt64 r.fields.length
  | raw r => Vector UInt8 r.size

def size : Plain → Nat
  | int t => t.bytes
  | float t => t.bytes
  | bool => 1
  | char => 4
  | unit => 0
  | array elem length => length * elem.size
  | record r => r.fields.length * 8
  | raw r => r.size

def align : Plain → Nat
  | int t => t.bytes
  | float t => t.bytes
  | bool => 1
  | char => 4
  | unit => 1
  | array elem _ => elem.align
  | record _ => 8
  | raw r => r.align

theorem align_eq (t : Plain) : ∃ k, t.align = 2 ^ k := by
  induction t with
  | int t => exact ⟨t.bytes.log2, by cases t <;> rfl⟩
  | float t => exact ⟨t.bytes.log2, by cases t <;> rfl⟩
  | bool | unit => exact ⟨0, rfl⟩
  | char => exact ⟨2, rfl⟩
  | array elem length ih => exact ih
  | record r => exact ⟨3, rfl⟩
  | raw r => exact ⟨r.exponent, rfl⟩

/-- Values that follow each other are all aligned. -/
theorem align_dvd_size (t : Plain) : t.align ∣ t.size := by
  induction t with
  | int t => exact Nat.dvd_refl _
  | float t => exact Nat.dvd_refl _
  | bool | char => exact Nat.dvd_refl _
  | unit => exact Nat.dvd_zero _
  | array elem length ih => exact Nat.dvd_trans ih (Nat.dvd_mul_left ..)
  | record r => exact Nat.dvd_mul_left ..
  | raw r => exact Nat.dvd_mul_left ..

def layout (t : Plain) : Layout := ⟨t.size, t.align⟩

def name : Plain → String
  | int t => t.name
  | float t => t.name
  | bool => "bool"
  | char => "char"
  | unit => "()"
  | array elem length => s!"[{elem.name}; {length}]"
  | record r => r.path
  | raw r => r.path

/-- How many finalizers run for one value. -/
def finalizers : Plain → Nat
  | array elem length => length * elem.finalizers
  | record r => if r.hasFinalizer then 1 else 0
  | _ => 0

end Plain

end SharedHeap
