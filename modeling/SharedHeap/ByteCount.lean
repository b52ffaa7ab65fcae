import SharedHeap.Text.Blank
import SharedHeap.Text.Digits

/-!
# Byte counts

A byte count is written in decimal with an optional sign `+` in front and an optional unit behind:
`k`, `m` or `g` in either case for the first three powers of 1024. White space may stand around the
whole and before the unit.
-/

namespace SharedHeap.ByteCount

open Text

/-- The number of binary digits that a unit stands for. -/
def unitShift? (c : Char) : Option Nat :=
  if c = 'k' || c = 'K' then some 10
  else if c = 'm' || c = 'M' then some 20
  else if c = 'g' || c = 'G' then some 30
  else none

/-- A decimal number below `2 ^ 64` with an optional sign `+`. -/
def parseNumber (cs : List Char) : Option Nat := do
  let n ← natOfDigits? (match cs with
    | '+' :: ds => ds
    | ds => ds)
  if n < 2 ^ 64 then some n else none

/-- The number in front of a unit, and the unit's shift; without a unit the shift is zero. -/
def splitUnit? (cs : List Char) : Option (List Char × Nat) :=
  match cs.getLast? with
  | none => none
  | some c =>
    match unitShift? c with
    | some shift => some (cs.dropLast, shift)
    | none => some (cs, 0)

/-- The count that a text writes, unless it is none or takes more than 64 bits. -/
def parse (s : String) : Option UInt64 := do
  let (number, shift) ← splitUnit? (trim s.toList)
  let n ← parseNumber (trim number)
  if n * 2 ^ shift < 2 ^ 64 then some (.ofNat (n * 2 ^ shift)) else none

end SharedHeap.ByteCount
