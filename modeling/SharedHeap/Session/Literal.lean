import SharedHeap.Plain.Convert
import SharedHeap.Target
import SharedHeap.Text.Digits

/-!
# Written values

A value as somebody writes it down, before it is known what type it is meant to have, the reading
of it at a type, and the writing of values. Integers may be given as numbers or as decimal text,
floating-point numbers are given by their bits in hexadecimal, and an array may be given by one
element that all elements equal.
-/

namespace SharedHeap

inductive Literal
  | null
  | bool (b : Bool)
  | number (n : Int)
  | text (s : String)
  | list (ls : List Literal)
  | parts (first second : Literal)
  | fields (fs : List (String × Literal))
deriving Repr, Inhabited

namespace Literal

/-- A number that is given as such lies in the range of the 64-bit words, signed or not. -/
def inWords (n : Int) : Bool := -2 ^ 63 ≤ n && n < 2 ^ 64

/-- An integer, as a number or as decimal text. Only text for a signed type may have a minus. -/
def int? (isSigned : Bool) : Literal → Option Int
  | number n => if inWords n then some n else none
  | text s =>
    match s.toList with
    | '+' :: ds => (Text.natOfDigits? ds).map fun n => (n : Int)
    | '-' :: ds => if isSigned then (Text.natOfDigits? ds).map fun n => -(n : Int) else none
    | ds => (Text.natOfDigits? ds).map fun n => (n : Int)
  | _ => none

def intOf? (t : IntType) (l : Literal) : Option Int := (l.int? t.isSigned).filter t.Fits

/-- A number on `bits` bits, in hexadecimal digits behind the mark `0x`. -/
def hex? (bits : Nat) : Literal → Option Nat
  | text s =>
    match s.toList with
    | '0' :: 'x' :: ds => (Text.natOfHexDigits? ds).filter (· < 2 ^ bits)
    | _ => none
  | _ => none

/-- The elements of an array of a length: all of them, or one that stands for all. -/
def elements? {α : Type} (read : Literal → Option α) (length : Nat) (l : Literal) :
    Option (Vector α length) :=
  let ls := match l with
    | list ls => ls
    | l => .replicate length l
  match ls.mapM read with
  | some vs => if h : vs.length = length then some ⟨vs.toArray, by simpa using h⟩ else none
  | none => none

end Literal

namespace Plain

/-- The words of a record, one for each field. -/
def wordsOf? (r : RecordType) (ls : List Literal) : Option (Vector UInt64 r.fields.length) := do
  let ns ← ls.mapM (Literal.intOf? .u64)
  if h : ns.length = r.fields.length then
    some ⟨(ns.map fun n => UInt64.ofNat n.toNat).toArray, by simpa using h⟩
  else none

def read? : (t : Plain) → Literal → Option t.Val
  | int t, l => (l.intOf? t).map t.ofInt
  | float t, l => (l.hex? (8 * t.bytes)).map (BitVec.ofNat _)
  | bool, .bool b => some b
  | bool, _ => none
  | char, .text s =>
    match s.toList with
    | [c] => some c
    | _ => none
  | char, _ => none
  | unit, .null => some ()
  | unit, _ => none
  | array elem length, l => l.elements? elem.read? length
  | record r, l =>
    match r.isTuple, l with
    | true, l => wordsOf? r [l]
    | false, .fields fs => do wordsOf? r (← r.fields.mapM fun k => fs.lookup k)
    | false, _ => none
  | raw r, l => l.elements? (fun b => (b.intOf? .u8).map fun n => .ofNat n.toNat) r.size

/-- What a literal writes for building a value: the value itself, or the fields of a record in two
groups. -/
def readArgs? : (t : Plain) → Literal → Option t.Val
  | record r, .parts first second => wordsOf? r [first, second]
  | t, l => t.read? l

end Plain

namespace Plain

/-- The longest array that is written in full although all its elements are equal. -/
def longestInFull : Nat := 8

/-- A value as it is written: numbers as decimal text, and a long array of equal elements by its
element and its length. -/
def write : (t : Plain) → t.Val → Literal
  | int t, v => .text (toString (t.toInt v))
  | float t, v => .text ("0x" ++ .ofList (Text.hexPadded (2 * t.bytes) v.toNat))
  | bool, v => .bool v
  | char, v => .text v.toString
  | unit, _ => .null
  | array elem length, vs =>
    match vs.toList with
    | v :: rest =>
      if longestInFull < length ∧ ∀ w ∈ rest, w = v then
        .fields [("fill", elem.write v), ("n", .number length)]
      else .list (vs.toList.map elem.write)
    | [] => .list []
  | record r, ws =>
    let words := ws.toList.map fun w => Literal.text (toString w.toNat)
    match r.isTuple, words with
    | true, [w] => w
    | true, ws => .list ws
    | false, ws => .fields (r.fields.zip ws)
  | raw _, bs => .list (bs.toList.map fun b => .text (toString b.toNat))

end Plain

namespace Target

def read? : (t : Target) → Literal → Option t.Args
  | plain t, l => t.readArgs? l
  | list elem, l =>
    match l with
    | .null => some .nothing
    | .list ls => (ls.mapM elem.read?).map .elements
    | .parts (.list first) (.list second) => do
      return .parts (← first.mapM elem.read?) (← second.mapM elem.read?)
    | _ => none

def write : (t : Target) → t.Val → Literal
  | plain t, v => t.write v
  | list elem, vs => .list (vs.map elem.write)

end Target

end SharedHeap
