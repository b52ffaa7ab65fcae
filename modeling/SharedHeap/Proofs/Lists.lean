import Mathlib.Order.Bounds.Basic
import SharedHeap.Proofs.Estate
import SharedHeap.SharedList

/-!
# Lists on blocks

A list takes one block for its header and, once it has room for elements, another one for these.
`SharedList.Held` says that both are on the list of blocks that are handed out, beside others, and
which elements are stored. Pushing onto a list, building one, reading one and destroying one are
then told by what they do to the elements and to the blocks of the list; all others are spared.
-/

namespace SharedHeap

open SharedHeap.Action (Ends)

/-- One of several runs of bytes of one size. -/
theorem take_drop_flatMap {α : Type} {g : α → List UInt8} {size : Nat}
    (hsize : ∀ a, (g a).length = size) {vs : List α} {i : Nat} (hi : i < vs.length) :
    ((vs.flatMap g).drop (i * size)).take size = g vs[i] := by
  induction vs generalizing i with
  | nil => cases hi
  | cons v vs ih =>
    rw [List.flatMap_cons]
    cases i with
    | zero => rw [Nat.zero_mul, List.drop_zero, List.take_left' (hsize v), List.getElem_cons_zero]
    | succ i =>
      have hdrop : (i + 1) * size = (g v).length + i * size := by
        rw [hsize, Nat.succ_mul, Nat.add_comm]
      rw [hdrop, List.drop_length_add_append, ih (Nat.lt_of_succ_lt_succ hi),
        List.getElem_cons_succ]

namespace Bytes

theorem take_read {b : Bytes} {i n k : Nat} (h : k ≤ n) : (b.read i n).take k = b.read i k := by
  rw [read, read, ← List.map_take, List.take_range'_of_length_ge h]

theorem drop_read {b : Bytes} {i n k : Nat} : (b.read i n).drop k = b.read (i + k) (n - k) := by
  rw [read, read, ← List.map_drop, List.drop_range', Nat.mul_one]

theorem read_append {b : Bytes} {i n k : Nat} :
    b.read i (n + k) = b.read i n ++ b.read (i + n) k := by
  rw [read, read, read, ← List.map_append, List.range'_append_1]

theorem read_write_of_length {b : Bytes} {i n : Nat} {vs : List UInt8} (hn : vs.length = n)
    (h : i + n ≤ b.size) : (b.write i vs).read i n = vs := by
  subst hn
  exact read_write_self h

end Bytes

/-- There may be no list of that many elements: four of them are too large together, or they have no
size and come one after a number that no word can double. -/
def Plain.Overflows (e : Plain) (n : Nat) : Prop :=
  e.layout.array? 4 = none ∨ e.size = 0 ∧ 2 ^ 63 < n

theorem Plain.Overflows.mono {e : Plain} {m n : Nat} (h : e.Overflows m) (hmn : m ≤ n) :
    e.Overflows n := h.imp_right (And.imp_right (Nat.lt_of_lt_of_le · hmn))

namespace ListHeader

variable {b : Bytes} {o : Nat}

/-- The header that stands at a position. -/
def ofBytes (b : Bytes) (o : Nat) : ListHeader :=
  ⟨b.word (o + lengthAt), b.word (o + capacityAt), ⟨b.word (o + dataAt)⟩⟩

theorem decode_read (b : Bytes) (o : Nat) : decode (b.read o 24) = ofBytes b o := by
  rw [decode, Bytes.take_read (by decide), Bytes.drop_read, Bytes.drop_read,
    Bytes.take_read (by decide)]
  rfl

theorem ofBytes_congr {c : Bytes} (h : ∀ i, o ≤ i → i < o + 24 → b.get i = c.get i) :
    ofBytes b o = ofBytes c o := by
  rw [← decode_read, ← decode_read, Bytes.read_congr h]

theorem ofBytes_write (h : ListHeader) (hb : o + 24 ≤ b.size) :
    ofBytes (b.write o h.encode) o = h := by
  rw [← decode_read, Bytes.read_write_of_length (length_encode h) hb, decode_encode]

/-- The words of the header by number. Storing one of them changes it alone. -/
private theorem ofBytes_setWord {k : Nat} (hk : k < 3) (w : UInt64) (hb : o + 24 ≤ b.size) :
    ofBytes (b.setWord (o + 8 * k) w) o =
      ⟨if k = 0 then w else b.word (o + lengthAt), if k = 1 then w else b.word (o + capacityAt),
        ⟨if k = 2 then w else b.word (o + dataAt)⟩⟩ := by
  have hw (j : Nat) : (b.setWord (o + 8 * k) w).word (o + 8 * j) =
      if k = j then w else b.word (o + 8 * j) := by
    split
    · next e =>
      subst e
      exact Bytes.word_setWord_self (by omega)
    · exact Bytes.word_setWord_of_disjoint (by omega)
  exact congr (congr (congrArg mk (hw 0)) (hw 1)) (congrArg Offset.mk (hw 2))

theorem ofBytes_setLength (w : UInt64) (hb : o + 24 ≤ b.size) :
    ofBytes (b.setWord (o + lengthAt) w) o = { ofBytes b o with length := w } :=
  ofBytes_setWord (k := 0) (by decide) w hb

theorem ofBytes_setCapacity (w : UInt64) (hb : o + 24 ≤ b.size) :
    ofBytes (b.setWord (o + capacityAt) w) o = { ofBytes b o with capacity := w } :=
  ofBytes_setWord (k := 1) (by decide) w hb

theorem ofBytes_setData (w : UInt64) (hb : o + 24 ≤ b.size) :
    ofBytes (b.setWord (o + dataAt) w) o = { ofBytes b o with data := ⟨w⟩ } :=
  ofBytes_setWord (k := 2) (by decide) w hb

/-- The layout of the block that the elements lie in. -/
def room (h : ListHeader) (elem : Plain) : Layout :=
  ⟨elem.size * h.capacity.toNat, elem.align⟩

/-- The block that the elements lie in, if there is one. -/
def rooms (h : ListHeader) (s : Nat) (elem : Plain) : List Plot :=
  if h.capacity = 0 then [] else [⟨s, (h.room elem).extent h.data.toNat⟩]

theorem segment_rooms {h : ListHeader} {s : Nat} {elem : Plain} {x : Plot}
    (hx : x ∈ h.rooms s elem) : x.segment = s := by
  rw [rooms] at hx
  split at hx
  · cases hx
  · rw [List.mem_singleton.1 hx]

/-- What the header says of the elements is true. -/
structure Stores (h : ListHeader) (b : Bytes) (elem : Plain) (vs : List elem.Val) : Prop where
  length : h.length.toNat = vs.length
  length_le : vs.length ≤ h.capacity.toNat
  null : h.capacity = 0 → h.data = .null
  served : h.capacity ≠ 0 → (h.room elem).Served
  elements : b.read h.data.toNat (vs.length * elem.size) = vs.flatMap elem.encode

end ListHeader

namespace SharedList

/-- The room that a list of `n` elements has which were pushed one after the other: none at first,
and then the least of 4, 8, 16 and so on that is enough. -/
def Snug (n capacity : Nat) : Prop :=
  if n = 0 then capacity = 0 else IsLeast {m | (∃ k, m = 4 * 2 ^ k) ∧ n ≤ m} capacity

/-- The room after a push onto a list of `n` elements. -/
def roomAfter (n capacity : Nat) : Nat := if n = capacity then max (2 * capacity) 4 else capacity

theorem Snug.zero : Snug 0 0 := by rw [Snug, if_pos rfl]

theorem Snug.push {n c : Nat} (h : Snug n c) (hn : n ≤ c) : Snug (n + 1) (roomAfter n c) := by
  rw [Snug, if_neg n.succ_ne_zero]
  by_cases h₀ : n = 0
  · -- the first element gets room for four
    rw [Snug, if_pos h₀] at h
    rw [roomAfter, h₀, h, if_pos rfl]
    refine ⟨⟨⟨0, rfl⟩, by omega⟩, ?_⟩
    rintro m ⟨⟨k, rfl⟩, -⟩
    have := Nat.two_pow_pos k
    omega
  · rw [Snug, if_neg h₀] at h
    obtain ⟨⟨⟨k, hk⟩, -⟩, hleast⟩ := h
    by_cases hc : n = c
    · rw [roomAfter, if_pos hc]
      have hpow : 2 * c = 4 * 2 ^ (k + 1) := by
        rw [hk, Nat.pow_succ]
        omega
      have hpos := Nat.two_pow_pos k
      have hmax : max (2 * c) 4 = 4 * 2 ^ (k + 1) := by omega
      rw [hmax]
      refine ⟨⟨⟨k + 1, rfl⟩, by omega⟩, ?_⟩
      rintro m ⟨⟨j, rfl⟩, hj⟩
      have hlt : 2 ^ k < 2 ^ j := by omega
      have hkj := (Nat.pow_lt_pow_iff_right (by decide)).1 hlt
      exact Nat.mul_le_mul_left 4 (Nat.pow_le_pow_right (by decide) hkj)
    · rw [roomAfter, if_neg hc]
      refine ⟨⟨⟨k, hk⟩, by omega⟩, ?_⟩
      rintro m ⟨hm, hj⟩
      exact hleast ⟨hm, by omega⟩

end SharedList

/-- A list on blocks that are handed out: its view leads to a header in a block for the layout `y`,
and the header to the elements. The blocks `xs` are those of others. -/
structure SharedList.Held (l : SharedList) (p : Process) (rs : List Region) (r : Region)
    (y : Layout) (o : Nat) (hd : ListHeader) (elem : Plain) (vs : List elem.Val)
    (xs : List Plot) : Prop where
  region : r ∈ rs
  header : l.header = .place r.segment o
  room : y.HasRoom 24
  allocator : l.allocator.Over r
  found : ListHeader.ofBytes (p.bytes r.segment) o = hd
  estate : Estate p rs (y.plot r.segment o :: (hd.rooms r.segment elem ++ xs))
  stores : hd.Stores (p.bytes r.segment) elem vs

theorem Estate.toAddress {p : Process} {rs : List Region} {r : Region} {xs : List Plot}
    {a : Allocator} (h : Estate p rs xs) (hr : r ∈ rs) (ha : a.Over r) {e : Extent}
    (hx : ⟨r.segment, e⟩ ∈ xs) {d : Offset} (hd : d.toNat = e.offset) :
    a.toAddress d = .place r.segment d.toNat := by
  obtain ⟨r', hr', hs, l, hk, hmem⟩ := h.live hx
  obtain rfl := h.distinct r' hr' r hr hs
  exact (hk.toAddress_live ha hmem hd).2

namespace SharedList

variable {p : Process} {rs : List Region} {r : Region} {l : SharedList} {o : Nat} {s : Nat}
  {y : Layout} {elem : Plain} {vs : List elem.Val} {xs : List Plot} {ε : Type}

/-! ## The header -/

theorem loadHeader_ends (hl : l.header = .place s o) (hy : y.HasRoom 24) (he : Estate p rs xs)
    (hx : y.plot s o ∈ xs) :
    Ends (l.loadHeader : Action Process ε _) p (.ok (.ofBytes (p.bytes s) o)) p := by
  have hload := he.load (ε := ε) hx (i := o) (hy.le_stop s o)
  rw [loadHeader, hl]
  refine .bind hload ?_
  rw [ListHeader.decode_read]
  exact .pure

theorem storeWord_ends (hl : l.header = .place s o) (hy : y.HasRoom 24)
    (he : Estate p rs (y.plot s o :: xs)) {i : Nat} (hi : i + 8 ≤ 24) (w : UInt64) :
    ∃ p', Ends (l.storeWord i w : Action Process ε _) p (.ok ()) p' ∧
      Estate p' rs (y.plot s o :: xs) ∧ p.Spares p' xs ∧ p.Deals p' s 0 0 ∧
      p'.bytes s = (p.bytes s).setWord (o + i) w := by
  have hin : o + i + (bytesOfWord w).length ≤ (y.plot s o).extent.stop := by
    rw [length_bytesOfWord]
    exact Nat.le_trans (by omega) (hy.le_stop s o)
  obtain ⟨p', hst, he', hsp, hb⟩ := he.store (ε := ε) (i := o + i) (bytesOfWord w)
    (Nat.le_add_right ..) hin
  have hadd : l.header.add i = .place s ↑(o + i) := by
    rw [hl, Address.add, Int.natCast_add]
  refine ⟨p', ?_, he', hsp, he.deals_store (Nat.le_add_right ..) hin hst, hb⟩
  rw [storeWord, hadd]
  exact hst

theorem dataLayout_ends {c : UInt64} (hv : (Layout.mk (elem.size * c.toNat) elem.align).Valid) :
    Ends (dataLayout elem c : Action Process ε _) p (.ok ⟨elem.size * c.toNat, elem.align⟩) p := by
  have hlay : elem.layout.array? c.toNat = some _ := if_pos hv
  rw [dataLayout, hlay]
  exact .pure

theorem dataLayout_fault {c : UInt64}
    (hv : ¬ (Layout.mk (elem.size * c.toNat) elem.align).Valid) :
    Ends (dataLayout elem c : Action Process ε _) p (.fault .overflow) p := by
  have hlay : elem.layout.array? c.toNat = none := if_neg hv
  rw [dataLayout, hlay]
  exact .fault

/-- The block of the elements is returned. -/
theorem freeData_ends {h : ListHeader} (hr : r ∈ rs) (ha : l.allocator.Over r)
    (he : Estate p rs (h.rooms r.segment elem ++ xs)) (hn : h.capacity = 0 → h.data = .null)
    (hv : h.capacity ≠ 0 → (h.room elem).Served) :
    ∃ p', Ends (l.freeData elem h : Action Process ε _) p (.ok ()) p' ∧ Estate p' rs xs ∧
      p.Spares p' xs ∧ p.Deals p' r.segment 0 (if h.capacity = 0 then 0 else 1) := by
  by_cases hc : h.capacity = 0
  · rw [ListHeader.rooms, if_pos hc] at he
    refine ⟨p, ?_, he, .refl .., ?_⟩
    · simp only [freeData, hn hc]
      exact .pure
    · rw [if_pos hc]
      exact .refl ..
  · rw [ListHeader.rooms, if_neg hc] at he
    obtain ⟨hvalid, hal⟩ := hv hc
    obtain ⟨p', hf, he', hsp, -⟩ := he.free (ε := ε) hr ha hal hvalid
    rw [if_neg hc]
    refine ⟨p', ?_, he', hsp, he.deals_free hr ha hal hvalid hf⟩
    have hx := he.toAddress hr ha (List.mem_append_left _ List.mem_cons_self)
      (d := h.data) rfl
    simp only [freeData, hx, Address.isNull]
    exact .bind (dataLayout_ends hvalid) hf

end SharedList

namespace ListHeader

variable {p p' : Process} {h : ListHeader} {b c : Bytes} {elem : Plain} {vs : List elem.Val}
  {s o : Nat} {xs : List Plot}

theorem rooms_of_ne (hc : h.capacity ≠ 0) :
    h.rooms s elem = [⟨s, (h.room elem).extent h.data.toNat⟩] := if_neg hc

theorem room_le (h : ListHeader) (elem : Plain) :
    h.capacity.toNat * elem.size ≤ ((h.room elem).extent h.data.toNat).size := by
  rw [Nat.mul_comm]
  exact (h.room elem).size_le_blockSize

/-- Elements lie in the block. -/
theorem element_le (h : ListHeader) (elem : Plain) {n : Nat} (hn : n < h.capacity.toNat) :
    h.data.toNat + n * elem.size + elem.size ≤ ((h.room elem).extent h.data.toNat).stop := by
  have hroom := Nat.le_trans (Nat.mul_le_mul_right elem.size hn) (h.room_le elem)
  rw [Nat.succ_mul] at hroom
  rw [Nat.add_assoc]
  exact Nat.add_le_add_left hroom _

theorem capacity_ne {n : Nat} (hn : n < h.capacity.toNat) : h.capacity ≠ 0 := by
  intro hc
  rw [hc] at hn
  exact Nat.not_lt_zero _ hn

namespace Stores

theorem elements_le (hs : h.Stores b elem vs) :
    vs.length * elem.size ≤ ((h.room elem).extent h.data.toNat).size :=
  Nat.le_trans (Nat.mul_le_mul_right _ hs.length_le) (h.room_le elem)

/-- Offsets of elements stay far below the end of the address space. -/
theorem elements_lt (hs : h.Stores b elem vs) {n : Nat} (hn : n < h.capacity.toNat) :
    n * elem.size < 2 ^ 63 := by
  have h₁ := (hs.served (capacity_ne hn)).valid.2
  have h₂ : n * elem.size ≤ elem.size * h.capacity.toNat := by
    rw [Nat.mul_comm]
    exact Nat.mul_le_mul_left _ (Nat.le_of_lt hn)
  simp only [room, maxObjectSize] at h₁
  omega

theorem eq_nil (hs : h.Stores b elem vs) (hc : h.capacity = 0) : vs = [] := by
  have hlen := hs.length_le
  rw [hc] at hlen
  exact List.length_eq_zero_iff.1 (Nat.le_zero.1 hlen)

theorem congr (hs : h.Stores b elem vs)
    (hbc : ∀ i, h.data.toNat ≤ i → i < h.data.toNat + vs.length * elem.size → b.get i = c.get i) :
    h.Stores c elem vs :=
  { hs with elements := by rw [← Bytes.read_congr hbc, hs.elements] }

/-- Bytes that are the same in the block of the elements store the same elements. -/
theorem carry (hs : h.Stores b elem vs)
    (hbc : ∀ x ∈ h.rooms s elem, ∀ i, x.extent.Covers i → c.get i = b.get i) :
    h.Stores c elem vs := by
  refine hs.congr fun i h₁ h₂ => ?_
  have hc : h.capacity ≠ 0 := by
    intro hc
    rw [hs.eq_nil hc, List.length_nil, Nat.zero_mul] at h₂
    omega
  rw [rooms_of_ne hc] at hbc
  have h₃ := hs.elements_le
  refine (hbc _ List.mem_cons_self i ⟨h₁, ?_⟩).symm
  exact Nat.lt_of_lt_of_le h₂ (Nat.add_le_add_left h₃ _)

theorem spares (hs : h.Stores (p.bytes s) elem vs) (hp : p.Spares p' xs)
    (hx : ∀ x ∈ h.rooms s elem, x ∈ xs) : h.Stores (p'.bytes s) elem vs := by
  refine hs.carry (s := s) fun x hr i hi => ?_
  obtain rfl : x.segment = s := segment_rooms hr
  exact hp.same x (hx x hr) i hi

end Stores

theorem ofBytes_carry {y : Layout} (hy : y.HasRoom 24)
    (hbc : ∀ i, (y.extent o).Covers i → c.get i = b.get i) : ofBytes c o = ofBytes b o :=
  ofBytes_congr fun i h₁ h₂ => hbc i ⟨h₁, Nat.lt_of_lt_of_le h₂ (hy.le_stop 0 o)⟩

theorem ofBytes_spares {y : Layout} (hy : y.HasRoom 24) (hp : p.Spares p' xs)
    (hx : y.plot s o ∈ xs) :
    ofBytes (p'.bytes s) o = ofBytes (p.bytes s) o := ofBytes_carry hy (hp.same _ hx)

end ListHeader

namespace SharedList

variable {p p' : Process} {rs : List Region} {r : Region} {l : SharedList} {y : Layout} {o : Nat}
  {hd : ListHeader} {elem : Plain} {vs : List elem.Val} {xs : List Plot} {ε : Type}

namespace Held

theorem load (h : l.Held p rs r y o hd elem vs xs) :
    Ends (l.loadHeader : Action Process ε _) p (.ok hd) p :=
  h.found ▸ loadHeader_ends h.header h.room h.estate List.mem_cons_self

theorem room_mem (hc : hd.capacity ≠ 0) :
    ⟨r.segment, (hd.room elem).extent hd.data.toNat⟩ ∈
      y.plot r.segment o :: (hd.rooms r.segment elem ++ xs) := by
  rw [ListHeader.rooms_of_ne hc]
  exact List.mem_cons_of_mem _ List.mem_cons_self

theorem toAddress (h : l.Held p rs r y o hd elem vs xs) (hc : hd.capacity ≠ 0) :
    l.allocator.toAddress hd.data = .place r.segment hd.data.toNat :=
  h.estate.toAddress h.region h.allocator (room_mem hc) rfl

theorem load_elements (h : l.Held p rs r y o hd elem vs xs) (hc : hd.capacity ≠ 0) :
    Ends (Process.load (l.allocator.toAddress hd.data) (hd.length.toNat * elem.size) :
      Action Process ε _) p (.ok (vs.flatMap elem.encode)) p := by
  rw [h.toAddress hc, h.stores.length, ← h.stores.elements]
  exact h.estate.load (room_mem hc) (Nat.add_le_add_left h.stores.elements_le _)

theorem toList (h : l.Held p rs r y o hd elem vs xs) :
    Ends (l.toList elem : Action Process ε _) p (.ok vs) p := by
  refine .bind h.load ?_
  have hlen := h.stores.length
  split
  · next h₀ =>
    rw [h₀] at hlen
    rw [List.length_eq_zero_iff.1 hlen.symm]
    exact .pure
  · next h₀ =>
    have hpos : 0 < vs.length := by
      by_contra hz
      have h₁ : hd.length.toNat = 0 := by omega
      exact h₀ (UInt64.toNat_inj.1 (h₁.trans UInt64.toNat_zero.symm))
    have hc := ListHeader.capacity_ne (Nat.lt_of_lt_of_le hpos h.stores.length_le)
    refine .bind (h.load_elements hc) ?_
    rw [hlen, Plain.decodeMany_flatMap (Plain.length_encode elem) (Plain.decode_encode elem)]
    exact .pure

/-- What spares a list leaves it as it is. -/
theorem spares (h : l.Held p rs r y o hd elem vs xs) {zs : List Plot}
    (he : Estate p' rs (y.plot r.segment o :: (hd.rooms r.segment elem ++ zs)))
    (hp : p.Spares p' (y.plot r.segment o :: hd.rooms r.segment elem)) :
    l.Held p' rs r y o hd elem vs zs where
  region := h.region
  header := h.header
  room := h.room
  allocator := h.allocator
  found := (ListHeader.ofBytes_spares h.room hp List.mem_cons_self).trans h.found
  estate := he
  stores := h.stores.spares hp fun _ hx => List.mem_cons_of_mem _ hx

/-- A list stays as it is when a block is taken beside it. -/
theorem beside {z : Plot} {zs : List Plot} (h : l.Held p rs r y o hd elem vs zs)
    (he : Estate p' rs (z :: y.plot r.segment o :: (hd.rooms r.segment elem ++ xs)))
    (hp : p.Spares p' (y.plot r.segment o :: (hd.rooms r.segment elem ++ xs))) :
    l.Held p' rs r y o hd elem vs (z :: xs) := by
  refine h.spares (he.perm ((List.Perm.swap ..).trans (List.perm_middle.symm.cons _)))
    (hp.mono fun x hx => ?_)
  rw [← List.cons_append]
  exact List.mem_append_left _ hx

/-- The block of the elements is returned, and the header stays. -/
theorem freeData (h : l.Held p rs r y o hd elem vs xs) :
    ∃ p', Ends (l.freeData elem hd : Action Process ε Unit) p (.ok ()) p' ∧
      Estate p' rs (y.plot r.segment o :: xs) ∧
      p.Spares p' (y.plot r.segment o :: xs) ∧
      p.Deals p' r.segment 0 (if hd.capacity = 0 then 0 else 1) :=
  freeData_ends h.region h.allocator (h.estate.perm List.perm_middle.symm) h.stores.null
    h.stores.served

/-- Where an element is that there is room for. -/
theorem nth_element (h : l.Held p rs r y o hd elem vs xs) {n : Nat} (hn : n < hd.capacity.toNat) :
    (l.allocator.toAddress hd.data).nth elem.size n =
      .place r.segment ↑(hd.data.toNat + n * elem.size) := by
  rw [h.toAddress (ListHeader.capacity_ne hn), Address.nth_of_lt (h.stores.elements_lt hn),
    Address.add, Int.natCast_add]

theorem length (h : l.Held p rs r y o hd elem vs xs) :
    Ends (l.length : Action Process ε _) p (.ok vs.length) p :=
  .bind h.load (h.stores.length ▸ .pure)

theorem item (h : l.Held p rs r y o hd elem vs xs) (i : Nat) :
    Ends (l.item elem i : Action Process ε _) p (.ok vs[i]?) p := by
  have hlen := h.stores.length
  refine .bind h.load ?_
  split
  · next hi =>
    rw [hlen] at hi
    have hn := Nat.lt_of_lt_of_le hi h.stores.length_le
    have hload := h.estate.load (ε := ε) (room_mem (ListHeader.capacity_ne hn))
      (hd.element_le elem hn)
    -- the bytes are a part of those of all elements
    have hle : elem.size ≤ vs.length * elem.size - i * elem.size := by
      rw [← Nat.sub_mul]
      exact Nat.le_mul_of_pos_left _ (by omega)
    have hread : (p.bytes r.segment).read (hd.data.toNat + i * elem.size) elem.size =
        elem.encode vs[i] := by
      rw [← take_drop_flatMap (Plain.length_encode elem) hi, ← h.stores.elements, Bytes.drop_read,
        Bytes.take_read hle]
    rw [hread] at hload
    refine .bind ((h.nth_element hn).symm ▸ hload) ?_
    rw [Plain.decode_encode, List.getElem?_eq_getElem hi]
    exact .pure
  · next hi =>
    rw [List.getElem?_eq_none (by omega)]
    exact .pure

theorem store_element (h : l.Held p rs r y o hd elem vs xs) (hn : vs.length < hd.capacity.toNat)
    (v : elem.Val) :
    ∃ p', Ends (Process.store ((l.allocator.toAddress hd.data).nth elem.size hd.length.toNat)
        (elem.encode v) : Action Process ε _) p (.ok ()) p' ∧
      l.Held p' rs r y o hd elem vs xs ∧ p.Spares p' xs ∧ p.Deals p' r.segment 0 0 ∧
      (p'.bytes r.segment).read hd.data.toNat ((vs.length + 1) * elem.size) =
        (vs ++ [v]).flatMap elem.encode := by
  have hc := ListHeader.capacity_ne hn
  have he := h.estate
  rw [ListHeader.rooms_of_ne hc] at he
  have hstop : hd.data.toNat + vs.length * elem.size + (elem.encode v).length ≤
      ((hd.room elem).extent hd.data.toNat).stop := by
    rw [Plain.length_encode]
    exact hd.element_le elem hn
  obtain ⟨p', hst, he', hsp, hb⟩ := (he.perm (List.Perm.swap ..)).store (ε := ε)
    (i := hd.data.toNat + vs.length * elem.size) (elem.encode v) (Nat.le_add_right ..) hstop
  have hadd : (l.allocator.toAddress hd.data).nth elem.size hd.length.toNat =
      .place r.segment ↑(hd.data.toNat + vs.length * elem.size) := by
    rw [h.stores.length]
    exact h.nth_element hn
  have hin : hd.data.toNat + vs.length * elem.size + elem.size ≤ (p.bytes r.segment).size :=
    Nat.le_trans (hd.element_le elem hn) (h.estate.inside (room_mem hc)).2
  rw [Nat.add_assoc] at hin
  refine ⟨p', hadd ▸ hst, { h with found := ?_, estate := ?_, stores := ?_ },
    hsp.mono fun x hx => List.mem_cons_of_mem _ hx,
    (he.perm (List.Perm.swap ..)).deals_store (Nat.le_add_right ..) hstop hst, ?_⟩
  · exact (ListHeader.ofBytes_spares h.room hsp List.mem_cons_self).trans h.found
  · rw [ListHeader.rooms_of_ne hc]
    exact he'.perm (List.Perm.swap ..)
  · refine h.stores.congr fun i _ hi => ?_
    rw [hb, Bytes.get_write_of_lt hi]
  · rw [hb, Nat.succ_mul, Bytes.read_append, Bytes.read_write_of_disjoint (.inl (Nat.le_refl _)),
      h.stores.elements, List.flatMap_append, List.flatMap_singleton]
    congr 1
    exact Bytes.read_write_of_length (Plain.length_encode elem v) (by omega)

theorem storeLength (h : l.Held p rs r y o hd elem vs xs) {ws : List elem.Val} {w : UInt64}
    (hw : w.toNat = ws.length) (hle : ws.length ≤ hd.capacity.toNat)
    (hread : (p.bytes r.segment).read hd.data.toNat (ws.length * elem.size) =
      ws.flatMap elem.encode) :
    ∃ p', Ends (l.storeWord ListHeader.lengthAt w : Action Process ε _) p (.ok ()) p' ∧
      l.Held p' rs r y o { hd with length := w } elem ws xs ∧ p.Spares p' xs ∧
      p.Deals p' r.segment 0 0 := by
  obtain ⟨p', hst, he, hsp, hdeals, hb⟩ := storeWord_ends (ε := ε) h.header h.room h.estate
    (i := ListHeader.lengthAt) (by decide) w
  have hin : o + 24 ≤ (p.bytes r.segment).size :=
    Nat.le_trans (h.room.le_stop ..) (h.estate.inside List.mem_cons_self).2
  have hs : ({ hd with length := w } : ListHeader).Stores (p.bytes r.segment) elem ws :=
    ⟨hw, hle, h.stores.null, h.stores.served, hread⟩
  refine ⟨p', hst, ⟨h.region, h.header, h.room, h.allocator, ?_, he, ?_⟩, hsp.mono fun x hx => ?_,
    hdeals⟩
  · rw [hb, ListHeader.ofBytes_setLength w hin, h.found]
  · exact hs.spares hsp fun x hx => List.mem_append_left _ hx
  · exact List.mem_append_right _ hx

theorem append (h : l.Held p rs r y o hd elem vs xs) (hn : vs.length < hd.capacity.toNat)
    (v : elem.Val) :
    ∃ p', Ends (do
        let h ← l.loadHeader
        let block := l.allocator.toAddress h.data
        Process.store (block.nth elem.size h.length.toNat) (elem.encode v)
        let length := (← l.loadHeader).length
        .require (length.toNat + 1 < 2 ^ 64) .overflow
        l.storeWord ListHeader.lengthAt (length + 1) : Action Process MemoryError Unit) p
        (.ok ()) p' ∧
      l.Held p' rs r y o { hd with length := hd.length + 1 } elem (vs ++ [v]) xs ∧
      p.Spares p' xs ∧ p.Deals p' r.segment 0 0 := by
  obtain ⟨p₁, hst, h₁, hsp₁, hdeals₁, hread⟩ := h.store_element hn v
  have hlt := hd.capacity.toNat_lt
  have hlen : hd.length.toNat = vs.length := h.stores.length
  have hw : (hd.length + 1).toNat = (vs ++ [v]).length := by
    rw [UInt64.toNat_add, hlen, List.length_append]
    exact Nat.mod_eq_of_lt (by simp only [UInt64.toNat_one]; omega)
  obtain ⟨p₂, hst₂, h₂, hsp₂, hdeals₂⟩ := h₁.storeLength (ε := MemoryError) (w := hd.length + 1) hw
    (by rw [List.length_append]; exact hn) (by simpa using hread)
  exact ⟨p₂, .bind h.load (.bind hst (.bind h₁.load (.bind (.require (by omega)) hst₂))), h₂,
    hsp₁.trans hsp₂, hdeals₁.idle_trans hdeals₂⟩

/-! ## Growing -/

theorem isNull_data (h : l.Held p rs r y o hd elem vs xs) (hc : hd.capacity ≠ 0) :
    hd.data.isNull = false := by
  have hx := h.toAddress hc
  cases hn : hd.data.isNull with
  | false => rfl
  | true =>
    simp only [Allocator.toAddress, Region.toAddress, hn, Bool.true_or, if_true] at hx
    cases hx

/-- The elements are copied to another block, and theirs is returned. -/
theorem move {e : Extent} (h : l.Held p rs r y o hd elem vs (⟨r.segment, e⟩ :: xs))
    (hsize : vs.length * elem.size ≤ e.size) :
    ∃ p', Ends (if !hd.data.isNull then do
        let old ← Process.load (l.allocator.toAddress hd.data) (hd.length.toNat * elem.size)
        Process.store (.place r.segment e.offset) old
        l.freeData elem (← l.loadHeader)
      else pure () : Action Process ε Unit) p (.ok ()) p' ∧
      Estate p' rs (y.plot r.segment o :: ⟨r.segment, e⟩ :: xs) ∧
      p.Spares p' (y.plot r.segment o :: xs) ∧
      p.Deals p' r.segment 0 (if hd.capacity = 0 then 0 else 1) ∧
      (p'.bytes r.segment).read e.offset (vs.length * elem.size) = vs.flatMap elem.encode := by
  by_cases hc : hd.capacity = 0
  · obtain rfl := h.stores.eq_nil hc
    have he := h.estate
    rw [ListHeader.rooms, if_pos hc] at he
    refine ⟨p, ?_, he, .refl .., ?_, by simp [Bytes.read]⟩
    · rw [h.stores.null hc]
      exact .pure
    · rw [if_pos hc]
      exact .refl ..
  · rw [h.isNull_data hc]
    have hbytes : (vs.flatMap elem.encode).length = vs.length * elem.size := by
      rw [← h.stores.elements, Bytes.length_read]
    have he := h.estate.perm ((List.perm_middle.cons _).trans (.swap ..))
    -- the old block keeps the elements until they stand in the new one
    have hstop : e.offset + (vs.flatMap elem.encode).length ≤ e.stop := by
      rw [hbytes]
      exact Nat.add_le_add_left hsize _
    obtain ⟨p₁, hst, he₁, hsp₁, hb⟩ := he.store (ε := ε) (i := e.offset)
      (vs.flatMap elem.encode) (Nat.le_refl _) hstop
    have hdeals := he.deals_store (Nat.le_refl _) hstop hst
    have h₁ := h.beside he₁ hsp₁
    obtain ⟨p₂, hf, he₂, hsp₂, hdeals₂⟩ := h₁.freeData (ε := ε)
    have hin : e.offset + vs.length * elem.size ≤ (p.bytes r.segment).size :=
      Nat.le_trans (Nat.add_le_add_left hsize _) (he.inside List.mem_cons_self).2
    refine ⟨p₂, .bind (h.load_elements hc) (.bind hst (.bind h₁.load hf)), he₂, ?_,
      hdeals.idle_trans hdeals₂, ?_⟩
    · refine (hsp₁.mono fun x hx => ?_).trans (hsp₂.mono fun x hx => ?_)
      · simp only [List.mem_cons, List.mem_append] at hx ⊢
        exact hx.imp_right .inr
      · simp only [List.mem_cons] at hx ⊢
        exact hx.imp_right .inr
    · rw [← Bytes.read_write_of_length hbytes hin, ← hb]
      refine Bytes.read_congr fun i h₁ h₂ => ?_
      exact hsp₂.same ⟨r.segment, e⟩ (List.mem_cons_of_mem _ List.mem_cons_self) i
        ⟨h₁, Nat.lt_of_lt_of_le h₂ (Nat.add_le_add_left hsize _)⟩

end Held

theorem toNat_nextCapacity (c : UInt64) (h : 2 * c.toNat < 2 ^ 64) :
    (max (2 * c) 4).toNat = max (2 * c.toNat) 4 := by
  have h₂ : (2 * c).toNat = 2 * c.toNat := by
    rw [UInt64.toNat_mul]
    exact Nat.mod_eq_of_lt h
  have h₄ : (4 : UInt64).toNat = 4 := rfl
  rw [show max (2 * c) 4 = if 2 * c ≤ 4 then 4 else 2 * c from rfl]
  split
  · next hle =>
    have := UInt64.le_iff_toNat_le.1 hle
    omega
  · next hle =>
    have := mt UInt64.le_iff_toNat_le.2 hle
    omega

/-- From one state of a process to another, blocks of the segment were handed out while a list grew
from one capacity to another. -/
structure Grows (p p' : Process) (s : Nat) (c c' : UInt64) : Prop where
  le : c.toNat + 2 * p.handed p' s ≤ c'.toNat
  eq : p.handed p' s = 0 → c' = c

namespace Grows

variable {p p' p'' : Process} {s : Nat} {c c' c'' : UInt64}

theorem idle {n : UInt64} (h : p.Deals p' s 0 n) (c : UInt64) : Grows p p' s c c := by
  have hn : p.handed p' s = 0 := h.handed
  exact ⟨by omega, fun _ => rfl⟩

theorem trans (h : Grows p p' s c c') (h' : Grows p' p'' s c' c'') : Grows p p'' s c c'' := by
  have h₁ := h.le
  have h₂ := h'.le
  have h₃ := c''.toNat_lt
  have hlt : p.handed p' s + p'.handed p'' s < 2 ^ 64 := by omega
  have hn := Process.handed_trans hlt
  refine ⟨by omega, fun h₀ => ?_⟩
  rw [h'.eq (by omega), h.eq (by omega)]

/-- A list has no more than one block for its elements. -/
theorem length_rooms_le {h h' : ListHeader} (hg : Grows p p' s h.capacity h'.capacity)
    (elem : Plain) : (h'.rooms s elem).length ≤ (h.rooms s elem).length + p.handed p' s := by
  by_cases hn : p.handed p' s = 0
  · rw [ListHeader.rooms, ListHeader.rooms, hg.eq hn]
    split <;> exact Nat.le_add_right ..
  · by_cases hc : h'.capacity = 0
    · rw [ListHeader.rooms, if_pos hc]
      exact Nat.zero_le _
    · rw [ListHeader.rooms_of_ne hc]
      exact Nat.le_add_left_of_le (Nat.pos_of_ne_zero hn)

theorem length_rooms_le_handed {h : ListHeader}
    (hg : Grows p p' s ListHeader.empty.capacity h.capacity) (elem : Plain) :
    (h.rooms s elem).length ≤ p.handed p' s := by
  have hnone : ListHeader.empty.rooms s elem = [] := if_pos rfl
  have hle := hg.length_rooms_le elem
  rwa [hnone, List.length_nil, Nat.zero_add] at hle

/-- The block for the header was handed out before. -/
theorem length_rooms_succ_le {h : ListHeader}
    (hg : Grows p' p'' s ListHeader.empty.capacity h.capacity) (hd : p.Deals p' s 1 0)
    (elem : Plain) : (h.rooms s elem).length + 1 ≤ p.handed p'' s := by
  have h₁ : p.handed p' s = 1 := hd.handed
  have h₂ := hg.le
  have h₃ := h.capacity.toNat_lt
  have h₄ := hg.length_rooms_le_handed elem
  have hlt : p.handed p' s + p'.handed p'' s < 2 ^ 64 := by omega
  have hn := Process.handed_trans hlt
  omega

end Grows

/-- The list is full. The next block for its elements is to have room for twice as many, and for
four at least. -/
def Wants (l : SharedList) (elem : Plain) (p : Process) (y : Layout) : Prop :=
  ∃ hd : ListHeader, Ends (l.loadHeader : Action Process MemoryError _) p (.ok hd) p ∧
    hd.length = hd.capacity ∧ y = ⟨elem.size * max (2 * hd.capacity.toNat) 4, elem.align⟩

/-- The list wants a block that the allocator does not have. -/
def Refused (l : SharedList) (elem : Plain) (p : Process) (e : MemoryError) : Prop :=
  ∃ y, l.Wants elem p y ∧ Ends (l.allocator.allocate y) p (.error e) p

/-- An action that does not end well and changes nothing. If there is an error, it has a cause, and
if there is a fault, there was a hazard. -/
def Fails {ε α : Type} (x : Action Process ε α) (p : Process) (cause : ε → Prop) (hazard : Prop) :
    Prop :=
  ∃ out, (∀ a, out ≠ .ok a) ∧ (∀ e, out = .error e → cause e) ∧ (∀ f, out = .fault f → hazard) ∧
    Ends x p out p

namespace Held

/-- The header names the block that the elements were moved to. -/
theorem storeRoom {d : Offset} {c : UInt64} {zs : List Plot} (h : l.Held p rs r y o hd elem vs zs)
    (he : Estate p' rs (y.plot r.segment o ::
      ⟨r.segment, (Layout.mk (elem.size * c.toNat) elem.align).extent d.toNat⟩ :: xs))
    (hsp : p.Spares p' [y.plot r.segment o])
    (hv : (Layout.mk (elem.size * c.toNat) elem.align).Served) (hc : hd.capacity.toNat < c.toNat)
    (hread : (p'.bytes r.segment).read d.toNat (vs.length * elem.size) =
      vs.flatMap elem.encode) :
    ∃ p'', Ends (do
        l.storeWord ListHeader.dataAt d.word
        l.storeWord ListHeader.capacityAt c : Action Process ε Unit) p' (.ok ()) p'' ∧
      l.Held p'' rs r y o ⟨hd.length, c, d⟩ elem vs xs ∧ p'.Spares p'' xs ∧
      p'.Deals p'' r.segment 0 0 := by
  have hfound := (ListHeader.ofBytes_spares h.room hsp List.mem_cons_self).trans h.found
  have hne : c ≠ 0 := fun h₀ => by
    rw [h₀] at hc
    exact Nat.not_lt_zero _ hc
  have hin (q : Process) (zs : List Plot) (hq : Estate q rs (y.plot r.segment o :: zs)) :
      o + 24 ≤ (q.bytes r.segment).size :=
    Nat.le_trans (h.room.le_stop ..) (hq.inside List.mem_cons_self).2
  obtain ⟨p₁, hst₁, he₁, hsp₁, hdeals₁, hb₁⟩ := storeWord_ends (ε := ε) h.header h.room he
    (i := ListHeader.dataAt) (by decide) d.word
  obtain ⟨p₂, hst₂, he₂, hsp₂, hdeals₂, hb₂⟩ := storeWord_ends (ε := ε) h.header h.room he₁
    (i := ListHeader.capacityAt) (by decide) c
  have hs : (ListHeader.mk hd.length c d).Stores (p'.bytes r.segment) elem vs :=
    ⟨h.stores.length, Nat.le_trans h.stores.length_le (Nat.le_of_lt hc),
      fun h₀ => absurd h₀ hne, fun _ => hv, hread⟩
  have hsp₃ := hsp₁.trans hsp₂
  refine ⟨p₂, .bind hst₁ hst₂, ⟨h.region, h.header, h.room, h.allocator, ?_, ?_, ?_⟩,
    hsp₃.mono fun x hx => List.mem_cons_of_mem _ hx, hdeals₁.idle_trans hdeals₂⟩
  · rw [hb₂, ListHeader.ofBytes_setCapacity c (hin p₁ _ he₁), hb₁,
      ListHeader.ofBytes_setData d.word (hin p' _ he), hfound]
  · rw [ListHeader.rooms_of_ne (h := ⟨hd.length, c, d⟩) hne]
    exact he₂
  · refine hs.spares hsp₃ fun x hx => ?_
    rw [ListHeader.rooms_of_ne (h := ⟨hd.length, c, d⟩) hne] at hx
    rw [List.mem_singleton.1 hx]
    exact List.mem_cons_self

/-- The list moves to a larger block that was taken for it. -/
theorem relocate {d : Nat} {c : UInt64} (h : l.Held p rs r y o hd elem vs
      (⟨r.segment, (Layout.mk (elem.size * c.toNat) elem.align).extent d⟩ :: xs))
    (hd₁ : (Offset.ofNat d).toNat = d)
    (hv : (Layout.mk (elem.size * c.toNat) elem.align).Served) (hc : hd.capacity.toNat < c.toNat) :
    ∃ p', Ends (do
        let h ← l.loadHeader
        if !h.data.isNull then
          let old ← Process.load (l.allocator.toAddress h.data) (h.length.toNat * elem.size)
          Process.store (.place r.segment d) old
          l.freeData elem (← l.loadHeader)
        l.storeWord ListHeader.dataAt (Offset.ofNat d).word
        l.storeWord ListHeader.capacityAt c : Action Process ε Unit) p (.ok ()) p' ∧
      l.Held p' rs r y o ⟨hd.length, c, .ofNat d⟩ elem vs xs ∧ p.Spares p' xs ∧
      p.Deals p' r.segment 0 (if hd.capacity = 0 then 0 else 1) := by
  have hsize : vs.length * elem.size ≤
      ((Layout.mk (elem.size * c.toNat) elem.align).extent d).size := by
    refine Nat.le_trans (Nat.mul_le_mul_right _ ?_) (ListHeader.room_le ⟨0, c, ⟨0⟩⟩ elem)
    exact Nat.le_trans h.stores.length_le (Nat.le_of_lt hc)
  obtain ⟨p₁, hmv, he₁, hsp₁, hdeals₁, hread⟩ := h.move (ε := ε) hsize
  obtain ⟨p₂, hst, h₂, hsp₂, hdeals₂⟩ := h.storeRoom (ε := ε) (d := .ofNat d) (c := c)
    (by rw [hd₁]; exact he₁) (hsp₁.mono (by simp)) hv hc (by rw [hd₁]; exact hread)
  have hrest := hmv.ite_bind (k := fun _ => do
    l.storeWord ListHeader.dataAt (Offset.ofNat d).word
    l.storeWord ListHeader.capacityAt c) hst
  simp only [bind_assoc] at hrest
  refine ⟨p₂, .bind h.load hrest, h₂, (hsp₁.mono fun x hx => ?_).trans hsp₂,
    hdeals₁.trans_idle hdeals₂⟩
  exact List.mem_cons_of_mem _ hx

/-- A block that was handed out is far smaller than any object may be. -/
theorem capacity_le (h : l.Held p rs r y o hd elem vs xs) :
    hd.capacity.toNat * elem.size ≤ 2 ^ 31 := by
  by_cases h₀ : hd.capacity = 0
  · rw [h₀, UInt64.toNat_zero, Nat.zero_mul]
    exact Nat.zero_le _
  · obtain ⟨r', -, -, l', hk, hl⟩ := h.estate.live (room_mem h₀)
    have hclass := (hk.sound.fits _ (hk.sound.mem_carved_of_live hl)).2.2.2
    refine Nat.le_trans (hd.room_le elem) (Nat.pow_le_pow_right (by decide) ?_)
    simp only [Header.classCount] at hclass
    omega

/-- A word can double the capacity, unless elements have no size. -/
theorem double_lt (h : l.Held p rs r y o hd elem vs xs) (he : elem.size ≠ 0) :
    2 * hd.capacity.toNat < 2 ^ 64 := by
  have h₁ := h.capacity_le
  have h₂ : hd.capacity.toNat ≤ hd.capacity.toNat * elem.size :=
    Nat.le_mul_of_pos_right _ (Nat.pos_of_ne_zero he)
  omega

/-- There is a layout for twice the elements if there is one for four. -/
theorem valid_next (h : l.Held p rs r y o hd elem vs xs) (hc : 2 * hd.capacity.toNat < 2 ^ 64)
    (hfour : elem.layout.array? 4 ≠ none) :
    (Layout.mk (elem.size * (max (2 * hd.capacity) 4).toNat) elem.align).Valid := by
  rw [toNat_nextCapacity _ hc]
  by_cases h₀ : hd.capacity = 0
  · rw [h₀]
    exact Decidable.of_not_not fun hn => hfour (if_neg hn)
  · obtain ⟨⟨hpow, -⟩, halign⟩ := h.stores.served h₀
    have hsize := h.capacity_le
    have hpos : 0 < hd.capacity.toNat := by
      refine Nat.pos_of_ne_zero fun hz => h₀ ?_
      exact UInt64.toNat_inj.1 (hz.trans UInt64.toNat_zero.symm)
    have hle : elem.size * max (2 * hd.capacity.toNat) 4 ≤ 4 * (hd.capacity.toNat * elem.size) := by
      rw [Nat.mul_comm, ← Nat.mul_assoc]
      exact Nat.mul_le_mul_right _ (by omega)
    refine ⟨hpow, ?_⟩
    simp only [maxObjectSize, SizeClass.maxAlign, ListHeader.room] at halign ⊢
    omega

/-- A list gets a new block for more elements, or stays as it is. -/
theorem grow (h : l.Held p rs r y o hd elem vs xs) :
    (∃ p' c d, Ends (l.grow elem) p (.ok ()) p' ∧
      l.Held p' rs r y o ⟨hd.length, c, d⟩ elem vs xs ∧ p.Spares p' xs ∧
      c.toNat = max (2 * hd.capacity.toNat) 4 ∧
      p.Deals p' r.segment 1 (if hd.capacity = 0 then 0 else 1)) ∨
    Fails (l.grow elem) p
      (fun e => Ends (l.allocator.allocate
        ⟨elem.size * max (2 * hd.capacity.toNat) 4, elem.align⟩) p (.error e) p)
      (elem.Overflows (hd.capacity.toNat + 1)) := by
  by_cases hcap : 2 * hd.capacity.toNat < 2 ^ 64
  · have hnext : Ends (nextCapacity hd.capacity : Action Process MemoryError _) p
        (.ok (max (2 * hd.capacity) 4)) p := .bind (.require hcap) .pure
    have hlt : hd.capacity.toNat < (max (2 * hd.capacity) 4).toNat := by
      rw [toNat_nextCapacity _ hcap]
      omega
    by_cases hv : (Layout.mk (elem.size * (max (2 * hd.capacity) 4).toNat) elem.align).Valid
    · have hlay := dataLayout_ends (ε := MemoryError) (p := p) hv
      rcases h.estate.allocate h.region h.allocator hv with
        ⟨d, p₁, hal, he₁, hsp₁, hd₁, hle⟩ | ⟨e, hal⟩
      · obtain ⟨p₂, hrel, h₂, hsp₂, hdeals₂⟩ :=
          (h.beside he₁ hsp₁).relocate (ε := MemoryError) hd₁ ⟨hv, hle⟩ hlt
        have hdeals₁ := h.estate.deals_allocate h.region h.allocator hv hal
        have hdeals := hdeals₁.trans hdeals₂
        rw [UInt64.zero_add] at hdeals
        refine .inl ⟨p₂, _, _, .bind h.load (.bind hnext (.bind hlay (.bind hal hrel))), h₂, ?_,
          toNat_nextCapacity _ hcap, hdeals⟩
        refine (hsp₁.mono fun x hx => ?_).trans hsp₂
        exact List.mem_cons_of_mem _ (List.mem_append_right _ hx)
      · refine .inr ⟨.error e, nofun, ?_, nofun,
          .bind h.load (.bind hnext (.bind hlay (.bind_error hal)))⟩
        rintro _ ⟨⟩
        rwa [← toNat_nextCapacity _ hcap]
    · exact .inr ⟨.fault .overflow, nofun, nofun,
        fun _ _ => .inl (Decidable.of_not_not fun hn => hv (h.valid_next hcap hn)),
        .bind h.load (.bind hnext (.bind_fault (dataLayout_fault hv)))⟩
  · exact .inr ⟨.fault .overflow, nofun, nofun,
      fun _ _ => .inr ⟨Decidable.of_not_not (mt h.double_lt hcap), by omega⟩,
      .bind h.load (.bind_fault (.bind_fault (.require_fault hcap)))⟩

/-- An element is appended, or the list is full and stays as it is. A block is taken only for a list
that is full, and then the block of the other elements is returned. -/
theorem push (h : l.Held p rs r y o hd elem vs xs) (v : elem.Val) :
    (∃ p' hd', Ends (l.push elem v) p (.ok ()) p' ∧ l.Held p' rs r y o hd' elem (vs ++ [v]) xs ∧
      p.Spares p' xs ∧ hd'.capacity.toNat = roomAfter vs.length hd.capacity.toNat ∧
      (hd.length = hd.capacity → p.Deals p' r.segment 1 (if hd.capacity = 0 then 0 else 1)) ∧
      (hd.length ≠ hd.capacity →
        hd' = { hd with length := hd.length + 1 } ∧ p.Deals p' r.segment 0 0)) ∨
    (hd.length = hd.capacity ∧
      Fails (l.push elem v) p (l.Refused elem p) (elem.Overflows (vs.length + 1))) := by
  by_cases hfull : hd.length = hd.capacity
  · have hlen : vs.length = hd.capacity.toNat := by rw [← h.stores.length, hfull]
    rcases h.grow with ⟨p₁, c, d, hg, h₁, hsp₁, hc, hdeals₁⟩ | ⟨out, hout, hcause, hhazard, hg⟩
    · have hn : vs.length < c.toNat := by omega
      obtain ⟨p₂, ha, h₂, hsp₂, hdeals₂⟩ := h₁.append hn v
      refine .inl ⟨p₂, _, .bind h.load ?_, h₂, hsp₁.trans hsp₂, ?_,
        fun _ => hdeals₁.trans_idle hdeals₂, fun hne => absurd hfull hne⟩
      · rw [if_pos hfull]
        exact .bind hg ha
      · rw [roomAfter, if_pos hlen]
        exact hc
    · rw [← hfull, h.stores.length] at hhazard
      refine .inr ⟨hfull, out, hout, fun e he => ⟨_, ⟨hd, h.load, hfull, rfl⟩, hcause e he⟩,
        hhazard, .bind h.load ?_⟩
      rw [if_pos hfull]
      cases out with
      | ok a => exact absurd rfl (hout a)
      | error e => exact .bind_error hg
      | fault f => exact .bind_fault hg
  · have hn : vs.length < hd.capacity.toNat := by
      refine Nat.lt_of_le_of_ne h.stores.length_le fun he => hfull ?_
      exact UInt64.toNat_inj.1 (h.stores.length.trans he)
    obtain ⟨p₁, ha, h₁, hsp₁, hdeals⟩ := h.append hn v
    refine .inl ⟨p₁, _, .bind h.load ?_, h₁, hsp₁, ?_, fun he => absurd he hfull,
      fun _ => ⟨rfl, hdeals⟩⟩
    · rw [if_neg hfull]
      exact ha
    · rw [roomAfter, if_neg (Nat.ne_of_lt hn)]

/-- A push lets the list grow by one block at most. -/
theorem grows {hd' : ListHeader} (h : l.Held p rs r y o hd elem vs xs)
    (hc : hd'.capacity.toNat = roomAfter vs.length hd.capacity.toNat)
    (hfull : hd.length = hd.capacity →
      p.Deals p' r.segment 1 (if hd.capacity = 0 then 0 else 1))
    (hroom : hd.length ≠ hd.capacity →
      hd' = { hd with length := hd.length + 1 } ∧ p.Deals p' r.segment 0 0) :
    Grows p p' r.segment hd.capacity hd'.capacity := by
  by_cases hlen : hd.length = hd.capacity
  · have hn : p.handed p' r.segment = 1 := (hfull hlen).handed
    rw [← hlen, h.stores.length, roomAfter, if_pos rfl] at hc
    refine ⟨?_, fun h₀ => by omega⟩
    rw [hc, hn, ← hlen, h.stores.length]
    omega
  · obtain ⟨rfl, hdeals⟩ := hroom hlen
    exact .idle hdeals _

/-- Elements are appended up to the first that finds no room. An error comes from the list that they
make up. -/
theorem pushAll (h : l.Held p rs r y o hd elem vs xs) (ws : List elem.Val) :
    ∃ out p' hd' us, Ends (l.pushAll elem ws) p out p' ∧ l.Held p' rs r y o hd' elem us xs ∧
      p.Spares p' xs ∧ Grows p p' r.segment hd.capacity hd'.capacity ∧
      (∀ a, out = .ok a → us = vs ++ ws) ∧
      (Snug vs.length hd.capacity.toNat → Snug us.length hd'.capacity.toNat) ∧
      (∀ e, out = .error e → ∃ n < ws.length,
        Ends (l.pushAll elem (ws.take n)) p (.ok ()) p' ∧ l.Refused elem p' e) ∧
      ∀ f, out = .fault f → elem.Overflows (vs ++ ws).length := by
  -- each push leaves another process, header and list
  induction ws generalizing p hd vs with
  | nil =>
    exact ⟨_, p, hd, vs, .pure, h, .refl .., .idle (.refl ..) _,
      fun _ _ => (List.append_nil vs).symm, id, nofun, nofun⟩
  | cons w ws ih =>
    rcases h.push w with ⟨p₁, hd₁, hp, h₁, hsp₁, hc, hfull, hroom⟩ |
      ⟨-, out, hout, hcause, hhazard, hp⟩
    · obtain ⟨out, p₂, hd₂, us, hps, h₂, hsp₂, hgrows, hus, hsnug, hcause, hhazard⟩ := ih h₁
      have hgrows₁ := h.grows hc hfull hroom
      rw [List.append_assoc, List.singleton_append] at hus hhazard
      rw [List.length_append, hc] at hsnug
      refine ⟨out, p₂, hd₂, us, .bind hp hps, h₂, hsp₁.trans hsp₂, hgrows₁.trans hgrows, hus,
        fun hs => hsnug (hs.push h.stores.length_le), fun e he => ?_, hhazard⟩
      obtain ⟨n, hn, htake, href⟩ := hcause e he
      exact ⟨n + 1, Nat.succ_lt_succ hn, .bind hp htake, href⟩
    · have hgrows := Grows.idle (.refl p r.segment) hd.capacity
      cases out with
      | ok a => exact absurd rfl (hout a)
      | error e =>
        refine ⟨_, p, hd, vs, .bind_error hp, h, .refl .., hgrows, nofun, id, ?_, nofun⟩
        rintro _ ⟨⟩
        exact ⟨0, Nat.succ_pos _, .pure, hcause e rfl⟩
      | fault f =>
        refine ⟨_, p, hd, vs, .bind_fault hp, h, .refl .., hgrows, nofun, id, nofun,
          fun _ _ => ?_⟩
        exact (hhazard f rfl).mono (by simp)

end Held

/-! ## Building and destroying -/

theorem storeEmpty (hr : r ∈ rs) (hl : l.header = .place r.segment o) (hy : y.HasRoom 24)
    (ha : l.allocator.Over r) (he : Estate p rs (y.plot r.segment o :: xs)) (elem : Plain) :
    ∃ p', Ends (l.storeHeader .empty : Action Process ε Unit) p (.ok ()) p' ∧
      l.Held p' rs r y o .empty elem [] xs ∧ p.Spares p' xs ∧ p.Deals p' r.segment 0 0 := by
  have hstop : o + ListHeader.empty.encode.length ≤ (y.plot r.segment o).extent.stop :=
    hy.le_stop r.segment o
  obtain ⟨p', hst, he', hsp, hb⟩ := he.store (ε := ε) (i := o) ListHeader.empty.encode
    (Nat.le_refl _) hstop
  have hdeals := he.deals_store (Nat.le_refl _) hstop hst
  have hin : o + 24 ≤ (p.bytes r.segment).size :=
    Nat.le_trans (hy.le_stop ..) (he.inside List.mem_cons_self).2
  refine ⟨p', ?_, ⟨hr, hl, hy, ha, ?_, he', rfl, Nat.le_refl _, fun _ => rfl, ?_, ?_⟩, hsp,
    hdeals⟩
  · rw [storeHeader, hl]
    exact hst
  · rw [hb]
    exact ListHeader.ofBytes_write _ hin
  · exact fun h => absurd rfl h
  · simp [Bytes.read]

/-- A list is built with all elements. Without room for them, only its header is left; after a fault
there is a list of some elements. -/
theorem build_ends (hr : r ∈ rs) (hl : l.header = .place r.segment o) (hy : y.HasRoom 24)
    (ha : l.allocator.Over r) (he : Estate p rs (y.plot r.segment o :: xs)) (ws : List elem.Val) :
    ∃ out p', Ends (l.build elem ws) p out p' ∧ p.Spares p' xs ∧
      match out with
      | .ok _ => ∃ hd, l.Held p' rs r y o hd elem ws xs ∧ Snug ws.length hd.capacity.toNat ∧
        Grows p p' r.segment ListHeader.empty.capacity hd.capacity
      | .error e => Estate p' rs (y.plot r.segment o :: xs) ∧ ∃ n < ws.length, ∃ p₁ q,
        Ends (l.storeHeader .empty : Action Process MemoryError Unit) p (.ok ()) p₁ ∧
          Ends (l.pushAll elem (ws.take n)) p₁ (.ok ()) q ∧ l.Refused elem q e
      | .fault _ => elem.Overflows ws.length ∧ ∃ hd us, l.Held p' rs r y o hd elem us xs ∧
        Grows p p' r.segment ListHeader.empty.capacity hd.capacity := by
  obtain ⟨p₁, hst, h₁, hsp₁, hdeals₁⟩ := storeEmpty (ε := MemoryError) hr hl hy ha he elem
  obtain ⟨out, p₂, hd, us, hps, h₂, hsp₂, hgrows₂, hus, hsnug, hcause, hhazard⟩ := h₁.pushAll ws
  have hsp := hsp₁.trans hsp₂
  have hgrows := (Grows.idle hdeals₁ ListHeader.empty.capacity).trans hgrows₂
  cases out with
  | ok a =>
    rw [hus a rfl, List.nil_append] at h₂ hsnug
    exact ⟨.ok (), p₂, .bind hst (.bind hps.attempt .pure), hsp, hd, h₂, hsnug .zero, hgrows⟩
  | error e =>
    obtain ⟨p₃, hf, he₃, hsp₃, -⟩ := h₂.freeData (ε := MemoryError)
    obtain ⟨n, hn, htake, href⟩ := hcause e rfl
    exact ⟨.error e, p₃, .bind hst (.bind hps.attempt_error (.bind h₂.load (.bind hf .throw))),
      hsp.trans (hsp₃.mono fun x hx => List.mem_cons_of_mem _ hx), he₃, n, hn, p₁, p₂, hst, htake,
      href⟩
  | fault f =>
    exact ⟨.fault f, p₂, .bind hst (.bind_fault hps.attempt_fault), hsp, hhazard f rfl, hd, us, h₂,
      hgrows⟩

/-- A list that may be released is, with its header. -/
theorem Held.destroy (h : l.Held p rs r y o hd elem vs xs) (ho : l.owned)
    (hy : y.Shares Target.listHeader) :
    ∃ p', Ends (l.destroy elem : Action Process ε _) p (.ok { l with owned := false }) p' ∧
      Estate p' rs xs ∧ p.Spares p' xs ∧ p'.Returned r.segment o Target.listHeader ∧
      p.handed p' r.segment = 0 := by
  obtain ⟨p₁, hf, he₁, hsp₁, hdeals₁⟩ := h.freeData (ε := ε)
  rw [hy.plot_eq] at he₁
  obtain ⟨p₂, hf₂, he₂, hsp₂, hret⟩ :=
    he₁.free (ε := ε) h.region h.allocator (by decide) (by decide)
  have hdeals₂ := he₁.deals_free h.region h.allocator (by decide) (by decide) hf₂
  rw [← h.header] at hf₂
  refine ⟨p₂, ?_, he₂, (hsp₁.mono fun x hx => List.mem_cons_of_mem _ hx).trans hsp₂, hret,
    (hdeals₁.trans hdeals₂).handed⟩
  rw [SharedList.destroy, if_pos ho]
  exact .bind h.load (.bind hf (.bind hf₂ .pure))

end SharedList

end SharedHeap
