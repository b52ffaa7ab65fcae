import SharedHeap.Fingerprint
import SharedHeap.Float.Shortest
import SharedHeap.Plain.Codec
import SharedHeap.Text.Quoted

/-!
# Plain values shown, hashed and compared

The text of a plain value, the words that its fingerprint is taken of, and equality as the program
sees it: that of numbers for floating-point values, and that of values otherwise.
-/

namespace SharedHeap.Plain

/-- A value as it is shown. -/
def shown : (t : Plain) → t.Val → String
  | int t, v => toString (t.toInt v)
  | float t, v => t.shown v.toNat
  | bool, v => toString v
  | char, v => Text.quotedChar v
  | unit, _ => "()"
  | array elem _, vs => "[" ++ String.intercalate ", " (vs.toList.map elem.shown) ++ "]"
  | record r, ws =>
    let words := ws.toList.map fun w => toString w.toNat
    if r.isTuple then r.name ++ "(" ++ String.intercalate ", " words ++ ")"
    else r.name ++ " \x7b " ++
      String.intercalate ", " ((r.fields.zip words).map fun (k, v) => k ++ ": " ++ v) ++ " \x7d"
  | raw r, bs =>
    r.name ++ "([" ++ String.intercalate ", " (bs.toList.map fun b => toString b.toNat) ++ "])"

/-- Whether values of the type can be hashed: those without floating-point numbers. -/
def isHashable : Plain → Bool
  | float _ => false
  | array elem _ => elem.isHashable
  | _ => true

/-- The words that a value is hashed as. Integers of up to eight bytes are one word, wider ones a
string of bytes, and an array its length followed by its elements, which are one string of bytes if
they are integers. Floating-point numbers give no words. -/
def words : (t : Plain) → t.Val → List UInt64
  | int t, v =>
    if t.bytes ≤ 8 then [.ofNat v.toNat]
    else Fingerprint.wordsOfBytes (toBytesLE t.bytes v.toNat)
  | float _, _ => []
  | bool, v => [if v then 1 else 0]
  | char, v => [.ofNat v.toNat]
  | unit, _ => []
  | array (.int t) length, vs =>
    .ofNat length :: Fingerprint.wordsOfBytes ((array (.int t) length).encode vs)
  | array elem length, vs => .ofNat length :: vs.toList.flatMap elem.words
  | record _, ws => ws.toList
  | raw r, bs => .ofNat r.size :: Fingerprint.wordsOfBytes bs.toList

/-- Whether the program takes two values for equal. -/
def same : (t : Plain) → t.Val → t.Val → Bool
  | float t, v, w => t.same v.toNat w.toNat
  | array elem _, vs, ws => (vs.toList.zip ws.toList).all fun (v, w) => elem.same v w
  | _, v, w => decide (v = w)

end SharedHeap.Plain
