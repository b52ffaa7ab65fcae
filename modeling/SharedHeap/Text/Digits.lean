/-!
# Written numbers

Numbers are written in decimal, or in hexadecimal with the mark `0x`. Decimal text is read back by
`natOfDigits?`, which takes ASCII digits and nothing else.
-/

namespace SharedHeap.Text

/-- The number that a non-empty run of ASCII digits writes, leading zeros allowed. -/
def natOfDigits? (cs : List Char) : Option Nat :=
  if cs.isEmpty || !cs.all Char.isDigit then none
  else some (cs.foldl (fun n c => 10 * n + (c.toNat - '0'.toNat)) 0)

def hexDigits (n : Nat) : String := .ofList (Nat.toDigits 16 n)

/-- Hexadecimal with the mark `0x`: `0x140`. -/
def hex (n : Nat) : String := "0x" ++ hexDigits n

/-- Exactly `width` hexadecimal digits; higher digits are cut off. -/
def hexPadded : Nat → Nat → List Char
  | 0, _ => []
  | width + 1, n => hexPadded width (n / 16) ++ [Nat.digitChar (n % 16)]

/-- The value of a hexadecimal digit in either case. -/
def hexValue? (c : Char) : Option Nat :=
  if c.isDigit then some (c.toNat - '0'.toNat)
  else if 'a' ≤ c && c ≤ 'f' then some (c.toNat - 'a'.toNat + 10)
  else if 'A' ≤ c && c ≤ 'F' then some (c.toNat - 'A'.toNat + 10)
  else none

/-- The number that a non-empty run of hexadecimal digits writes. -/
def natOfHexDigits? (cs : List Char) : Option Nat :=
  if cs.isEmpty then none else (cs.mapM hexValue?).map (·.foldl (fun n d => 16 * n + d) 0)

/-- Bytes as pairs of hexadecimal digits. -/
def hexOfBytes (bs : List UInt8) : String :=
  .ofList (bs.flatMap fun b => hexPadded 2 b.toNat)

/-- The bytes that pairs of hexadecimal digits write. -/
def bytesOfHex? : List Char → Option (List UInt8)
  | [] => some []
  | hi :: lo :: rest => do
    let h ← hexValue? hi
    let l ← hexValue? lo
    let bs ← bytesOfHex? rest
    return UInt8.ofNat (16 * h + l) :: bs
  | [_] => none

end SharedHeap.Text
