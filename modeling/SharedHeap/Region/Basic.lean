import SharedHeap.Identity

/-!
# Regions and addresses

Memory is made of segments that lie apart from each other. An address is a distance from the start
of a segment, or null; a region is the front part of a segment. Offsets and addresses are turned
into each other through a region, and only addresses inside it have an offset.
-/

namespace SharedHeap

/-- Where a process finds something. The distance may lie outside the segment. -/
inductive Address
  | null
  | place (segment : Nat) (distance : Int)
deriving DecidableEq, Repr, Inhabited

namespace Address

/-- The address `n` bytes further on. -/
def add : Address → Int → Address
  | null, _ => null
  | place segment distance, n => place segment (distance + n)

/-- The address of the item at an index in a row of items of one size. Addresses wrap at `2 ^ 64`,
so a large index leads to what lies before the row. -/
def nth (a : Address) (size i : Nat) : Address := a.add (Int.bmod (i * size) (2 ^ 64))

theorem nth_of_lt {a : Address} {size i : Nat} (h : i * size < 2 ^ 63) :
    a.nth size i = a.add (i * size : Nat) := by
  rw [nth, Int.bmod_eq_of_le (by omega) (by omega), Int.natCast_mul]

def isNull : Address → Bool
  | null => true
  | place .. => false

/-- Messages and shown values hide where a process finds something. -/
def text : String := "<ptr>"

end Address

/-- A run of bytes that allocators carve objects out of: the first `length` bytes of a segment. -/
structure Region where
  segment : Nat
  length : Nat
  /-- Whether the segment was obtained for this region, and not lent to it. -/
  owned : Bool
deriving DecidableEq, Repr, Inhabited

namespace Region

/-- The boundary that an obtained region starts on. -/
def alignment : Nat := 4096

def base (r : Region) : Address := .place r.segment 0

def contains (r : Region) : Address → Bool
  | .null => false
  | .place segment distance =>
    segment == r.segment && decide (0 ≤ distance) && decide (distance < r.length)

/-- The offset of an address, null unless the address lies inside. -/
def toOffset (r : Region) (a : Address) : Offset :=
  match a with
  | .null => .null
  | .place _ distance => if r.contains a then .ofNat distance.toNat else .null

/-- The address of an offset, null unless the offset lies inside. -/
def toAddress (r : Region) (o : Offset) : Address :=
  if o.isNull || decide (r.length ≤ o.toNat) then .null else .place r.segment o.toNat

theorem contains_place_iff {r : Region} {segment : Nat} {distance : Int} :
    r.contains (.place segment distance) ↔
      segment = r.segment ∧ 0 ≤ distance ∧ distance < r.length := by
  simp [contains, and_assoc]

theorem toOffset_of_contains_eq_false {r : Region} {a : Address} (h : r.contains a = false) :
    r.toOffset a = .null := by
  cases a with
  | null => rfl
  | place segment distance => simp [toOffset, h]

/-- An offset inside the region comes back from its address. -/
theorem toOffset_toAddress {r : Region} {o : Offset} (h : o.toNat < r.length)
    (hn : o.isNull = false) : r.toOffset (r.toAddress o) = o := by
  have hc : r.contains (.place r.segment o.toNat) := by
    rw [contains_place_iff]
    omega
  simp [toAddress, hn, Nat.not_le.2 h, toOffset, hc]

def shown (r : Region) : String :=
  "Region \x7b base: " ++ Address.text ++ ", len: " ++ toString r.length ++ ", owned: " ++
    toString r.owned ++ " \x7d"

end Region

end SharedHeap
