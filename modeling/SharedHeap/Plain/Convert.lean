import SharedHeap.Float.Bits
import SharedHeap.Plain.Codec

/-!
# Conversions that lose nothing

A value of one plain type as a value of another that can hold every value of the first: wider
integers, numbers for truth values and characters, characters for bytes, floating-point numbers for
integers and for smaller floating-point numbers.
-/

namespace SharedHeap

/-- Whether every number of one type is one of the other. The types of pointer size are taken for at
least two bytes wide, and nothing wider is known to fit them. -/
def IntType.embeds (source target : IntType) : Bool :=
  if target = .usize || target = .isize then
    source != .usize && source != .isize &&
      (if source.isSigned then target.isSigned && source.bytes ≤ 2
       else if target.isSigned then source.bytes < 2 else source.bytes ≤ 2)
  else if source = .usize || source = .isize then false
  else if source.isSigned then target.isSigned && source.bytes < target.bytes
  else source.bytes < target.bytes

/-- Whether the fraction of the format holds every number of the integer type. -/
def FloatType.holds (target : FloatType) (source : IntType) : Bool :=
  source != .usize && source != .isize && 8 * source.bytes ≤ target.fractionBits

namespace Plain

/-- The types at which a value may be written instead, to be converted. -/
def sources : Plain → List Plain
  | .int .u64 => [.int .u8, .int .u16, .int .u32, .bool, .char]
  | .int .u32 => [.int .u8, .int .u16, .bool, .char]
  | .int .u128 => [.int .u8, .int .u64, .bool, .char]
  | .int .i16 => [.int .u8, .int .i8, .bool]
  | .int .i32 => [.int .i16, .int .u16, .int .i8]
  | .int .i64 => [.int .i8, .int .i16, .int .i32, .int .u32, .bool]
  | .int .i128 => [.int .i64, .int .u64, .int .i8]
  | .int .usize => [.int .u8, .int .u16, .bool]
  | .int .isize => [.int .i16, .int .u8]
  | .char => [.int .u8]
  | .float .f32 => [.int .i16, .int .u16, .int .i8, .int .u8]
  | .float .f64 => [.float .f32, .int .i32, .int .u32, .int .i8, .bool]
  | _ => []

/-- A value as a value of a type that can hold it. -/
def convert? : (source target : Plain) → source.Val → Option target.Val
  | .int s, .int t, v => if s.embeds t then some (t.ofInt (s.toInt v)) else none
  | .bool, .int t, v => some (t.ofInt (if v then 1 else 0))
  | .char, .int t, v =>
    if !t.isSigned && 4 ≤ t.bytes && t != .usize then some (t.ofInt v.toNat) else none
  | .int s, .char, v => if s = .u8 then some (.ofNat v.toNat) else none
  | .int s, .float t, v => if t.holds s then some (.ofNat _ (t.ofInt (s.toInt v))) else none
  | .bool, .float t, v => some (.ofNat _ (t.ofInt (if v then 1 else 0)))
  | .float .f32, .float .f64, v => some (.ofNat _ (FloatType.widen v.toNat))
  | _, _, _ => none

end Plain

end SharedHeap
