import Mathlib.Data.List.Basic
import Mathlib.Data.List.Induction
import Mathlib.Data.Nat.Digits.Defs
import SharedHeap.ByteCount
import SharedHeap.Bytes.LittleEndian
import SharedHeap.Proofs.Texts

/-!
# Written byte counts

`ByteCount.Writes` is the grammar of byte counts: what a text looks like, and which number and
which power of 1024 it tells. A text is read if and only if the grammar has it and the product is a
word (`ByteCount.parse_exact`). In front of a unit stands the text without its last byte, and that
is where a character ends, since all units are letters of one byte.
-/

namespace SharedHeap

namespace Text

/-- The number that digits write, the last one counting ones. -/
def digitsValue (ds : List Char) : Nat :=
  Nat.ofDigits 10 (ds.reverse.map fun c => c.toNat - '0'.toNat)

theorem digitsValue_concat (ds : List Char) (c : Char) :
    digitsValue (ds ++ [c]) = 10 * digitsValue ds + (c.toNat - '0'.toNat) := by
  rw [digitsValue, digitsValue, List.reverse_append, List.reverse_singleton, List.singleton_append,
    List.map_cons, Nat.ofDigits_cons, Nat.add_comm]

theorem foldl_digits (ds : List Char) :
    ds.foldl (fun n c => 10 * n + (c.toNat - '0'.toNat)) 0 = digitsValue ds := by
  -- numbers are read from the front, and digits get their weight from behind
  induction ds using List.reverseRecOn with
  | nil => rfl
  | append_singleton ds c ih =>
    rw [List.foldl_append, ih, digitsValue_concat]
    rfl

theorem natOfDigits?_eq_some_iff {ds : List Char} {n : Nat} :
    natOfDigits? ds = some n ↔ ds ≠ [] ∧ (∀ c ∈ ds, c.isDigit) ∧ digitsValue ds = n := by
  rw [natOfDigits?, foldl_digits]
  split
  · next h =>
    simp only [Bool.or_eq_true, List.isEmpty_iff, Bool.not_eq_true', List.all_eq_false] at h
    refine iff_of_false (Option.some_ne_none n).symm ?_
    rintro ⟨hne, hd, -⟩
    obtain ⟨c, hc, hno⟩ := h.resolve_left hne
    exact hno (hd c hc)
  · next h =>
    simp only [Bool.or_eq_true, List.isEmpty_iff, Bool.not_eq_true', not_or, Bool.not_eq_false,
      List.all_eq_true] at h
    rw [Option.some.injEq]
    exact ⟨fun hn => ⟨h.1, h.2, hn⟩, fun hn => hn.2.2⟩

theorem isBlank_of_isDigit {c : Char} (h : c.isDigit) : isBlank c = false := by
  obtain ⟨h₁, h₂⟩ := Char.isDigit_iff_toNat.1 h
  have h₀ : '0'.toNat = 48 := rfl
  have h₉ : '9'.toNat = 57 := rfl
  simp only [isBlank, Bool.or_eq_false_iff, Bool.and_eq_false_iff, decide_eq_false_iff_not,
    beq_eq_false_iff_ne]
  omega

end Text

namespace ByteCount

open Text

/-- The units, with the power of 1024 that each stands for. -/
def units : List (Char × Nat) := [('k', 1), ('K', 1), ('m', 2), ('M', 2), ('g', 3), ('G', 3)]

/-- What may stand behind the digits, with the power of 1024 that it tells. -/
inductive Suffix : List Char → Nat → Prop
  | absent : Suffix [] 0
  | unit {ws : List Char} {c : Char} {i : Nat} (hw : Blank ws) (hc : (c, i) ∈ units) :
    Suffix (ws ++ [c]) i

/-- A sign may stand in front of the digits. -/
def Sign (cs : List Char) : Prop := cs = [] ∨ cs = ['+']

/-- A text writes the product of a number and a power of 1024. -/
inductive Writes : List Char → Nat → Nat → Prop
  | intro {before sign digits suffix after : List Char} {i : Nat} (hb : Blank before)
    (hs : Sign sign) (hne : digits ≠ []) (hd : ∀ c ∈ digits, c.isDigit) (hu : Suffix suffix i)
    (ha : Blank after) :
    Writes (before ++ (sign ++ digits) ++ suffix ++ after) (digitsValue digits) i

theorem unitShift?_eq_some_iff {c : Char} {k : Nat} :
    unitShift? c = some k ↔ ∃ i, (c, i) ∈ units ∧ k = 10 * i := by
  have hunits {i : Nat} : (c, i) ∈ units ↔ ((c = 'k' ∨ c = 'K') ∧ i = 1) ∨
      ((c = 'm' ∨ c = 'M') ∧ i = 2) ∨ ((c = 'g' ∨ c = 'G') ∧ i = 3) := by
    simp only [units, List.mem_cons, List.not_mem_nil, or_false, Prod.mk.injEq, or_and_right,
      or_assoc]
  simp only [unitShift?, Bool.or_eq_true, decide_eq_true_eq, hunits]
  split
  · next h => grind
  · split
    · next h => grind
    · split <;> grind

/-- All units are letters of one byte. -/
theorem utf8Size_of_mem_units {c : Char} {i : Nat} (h : (c, i) ∈ units) : c.utf8Size = 1 := by
  have hall : ∀ u ∈ units, u.1.utf8Size = 1 := by decide
  exact hall (c, i) h

theorem isBlank_of_mem_units {c : Char} {i : Nat} (h : (c, i) ∈ units) : isBlank c = false := by
  have hall : ∀ u ∈ units, isBlank u.1 = false := by decide
  exact hall (c, i) h

theorem unitShift?_of_isDigit {c : Char} (h : c.isDigit) : unitShift? c = none := by
  cases hc : unitShift? c with
  | none => rfl
  | some k =>
    obtain ⟨i, hi, -⟩ := unitShift?_eq_some_iff.1 hc
    have hall : ∀ u ∈ units, u.1.isDigit = false := by decide
    rw [hall (c, i) hi] at h
    cases h

/-! ## Numbers -/

theorem parseNumber_eq_some_iff {cs : List Char} {n : Nat} :
    parseNumber cs = some n ↔ n < 2 ^ 64 ∧ ∃ sign digits, cs = sign ++ digits ∧ Sign sign ∧
      digits ≠ [] ∧ (∀ c ∈ digits, c.isDigit) ∧ digitsValue digits = n := by
  have hread (ds : List Char) : (natOfDigits? ds >>= fun m => if m < 2 ^ 64 then some m else none) =
      some n ↔ n < 2 ^ 64 ∧ natOfDigits? ds = some n := by
    cases natOfDigits? ds with
    | none => simp
    | some m =>
      simp only [Option.bind_eq_bind, Option.bind_some, Option.ite_none_right_eq_some,
        Option.some.injEq]
      constructor
      · rintro ⟨hm, rfl⟩
        exact ⟨hm, rfl⟩
      · rintro ⟨hn, rfl⟩
        exact ⟨hn, rfl⟩
  unfold parseNumber
  split
  · next ds =>
    rw [hread, natOfDigits?_eq_some_iff]
    refine and_congr_right fun _ => ⟨fun h => ⟨['+'], ds, rfl, .inr rfl, h⟩, ?_⟩
    rintro ⟨sign, digits, he, rfl | rfl, hd⟩
    · -- a plus sign is no digit
      rw [List.nil_append] at he
      exact absurd (hd.2.1 '+' (he ▸ List.mem_cons_self)) (by decide)
    · obtain rfl := (List.cons.inj he).2
      exact hd
  · next hplus =>
    rw [hread, natOfDigits?_eq_some_iff]
    refine and_congr_right fun _ => ⟨fun h => ⟨[], cs, rfl, .inl rfl, h⟩, ?_⟩
    rintro ⟨sign, digits, rfl, rfl | rfl, hd⟩
    · exact hd
    · exact absurd rfl (hplus digits)

/-- A written number has no white space at its ends. -/
theorem tight_number {sign digits cs : List Char} (hs : Sign sign) (hne : digits ≠ [])
    (hd : ∀ c ∈ digits, c.isDigit) (hlast : ∀ c ∈ cs.getLast?, isBlank c = false) :
    Tight (sign ++ digits ++ cs) := by
  constructor
  · obtain ⟨d, ds, rfl⟩ := List.exists_cons_of_ne_nil hne
    rcases hs with rfl | rfl
    · rintro c ⟨⟩
      exact isBlank_of_isDigit (hd _ List.mem_cons_self)
    · rintro c ⟨⟩
      rfl
  · intro c hc
    rw [List.getLast?_append, Option.mem_def, Option.or_eq_some_iff] at hc
    rcases hc with hc | ⟨-, hc⟩
    · exact hlast c hc
    · rw [List.getLast?_append_of_ne_nil _ hne] at hc
      exact isBlank_of_isDigit (hd c (List.mem_of_getLast? hc))

/-! ## Units -/

theorem splitUnit?_cases {cs number : List Char} {k : Nat}
    (h : splitUnit? cs = some (number, k)) :
    (number = cs ∧ k = 0) ∨ ∃ c i, (c, i) ∈ units ∧ k = 10 * i ∧ cs = number ++ [c] := by
  rw [splitUnit?] at h
  cases hlast : cs.getLast? with
  | none => simp [hlast] at h
  | some c =>
    rw [hlast] at h
    cases hc : unitShift? c with
    | none =>
      simp only [hc, Option.some.injEq, Prod.mk.injEq] at h
      exact .inl ⟨h.1.symm, h.2.symm⟩
    | some j =>
      simp only [hc, Option.some.injEq, Prod.mk.injEq] at h
      obtain ⟨rfl, rfl⟩ := h
      obtain ⟨i, hi, hj⟩ := unitShift?_eq_some_iff.1 hc
      exact .inr ⟨c, i, hi, hj, (List.dropLast_append_getLast? c hlast).symm⟩

theorem splitUnit?_concat {cs : List Char} {c : Char} {i : Nat} (hc : (c, i) ∈ units) :
    splitUnit? (cs ++ [c]) = some (cs, 10 * i) := by
  rw [splitUnit?, List.getLast?_concat]
  simp only [unitShift?_eq_some_iff.2 ⟨i, hc, rfl⟩, List.dropLast_concat]

theorem splitUnit?_of_isDigit {cs : List Char} {c : Char} (hlast : cs.getLast? = some c)
    (hc : c.isDigit) : splitUnit? cs = some (cs, 0) := by
  rw [splitUnit?, hlast]
  simp only [unitShift?_of_isDigit hc]

/-- What is left of a text that the grammar has falls into a number and a unit. -/
theorem Writes.split {cs : List Char} {n i : Nat} (h : Writes cs n i) :
    ∃ number, splitUnit? (trim cs) = some (number, 10 * i) ∧
      (n < 2 ^ 64 → parseNumber (trim number) = some n) := by
  obtain ⟨hb, hs, hne, hd, hu, ha⟩ := h
  rename_i before sign digits suffix after
  have hparse (hn : digitsValue digits < 2 ^ 64) :
      parseNumber (sign ++ digits) = some (digitsValue digits) :=
    parseNumber_eq_some_iff.2 ⟨hn, sign, digits, rfl, hs, hne, hd, rfl⟩
  have htight : Tight (sign ++ digits) := by
    rw [← List.append_nil (sign ++ digits)]
    exact tight_number hs hne hd nofun
  cases hu with
  | absent =>
    refine ⟨sign ++ digits, ?_, fun hn => ?_⟩
    · obtain ⟨c, hc⟩ := Option.ne_none_iff_exists'.1 (mt List.getLast?_eq_none_iff.1 hne)
      rw [List.append_nil, trim_eq hb htight ha]
      exact splitUnit?_of_isDigit ((List.getLast?_append_of_ne_nil _ hne).trans hc)
        (hd c (List.mem_of_getLast? hc))
    · rw [htight.trim]
      exact hparse hn
  | @unit ws c i hw hc =>
    refine ⟨sign ++ digits ++ ws, ?_, fun hn => ?_⟩
    · have hall : Tight (sign ++ digits ++ (ws ++ [c])) := by
        refine tight_number hs hne hd fun d hd => ?_
        rw [List.getLast?_concat, Option.mem_some_iff] at hd
        exact hd ▸ isBlank_of_mem_units hc
      rw [List.append_assoc before, trim_eq hb hall ha, ← List.append_assoc]
      exact splitUnit?_concat hc
    · have hnil : Blank [] := nofun
      rw [← List.nil_append (sign ++ digits), trim_eq hnil htight hw]
      exact hparse hn

/-- What falls into a number and a unit is a text of the grammar. -/
theorem writes_of_split {cs number : List Char} {n k : Nat}
    (hsplit : splitUnit? (trim cs) = some (number, k)) (hn : parseNumber (trim number) = some n) :
    ∃ i, k = 10 * i ∧ Writes cs n i := by
  obtain ⟨ws, us, hw, hu, hcs⟩ := exists_trim cs
  obtain ⟨ws', us', hw', hu', hnumber⟩ := exists_trim number
  obtain ⟨-, sign, digits, htrim, hs, hne, hd, rfl⟩ := parseNumber_eq_some_iff.1 hn
  rw [htrim] at hnumber
  rcases splitUnit?_cases hsplit with ⟨rfl, rfl⟩ | ⟨c, i, hc, rfl, hunit⟩
  · have hwrites := Writes.intro (hw.append hw') hs hne hd .absent (hu'.append hu)
    rw [hnumber] at hcs
    refine ⟨0, rfl, ?_⟩
    rw [hcs]
    simpa only [List.append_assoc, List.nil_append] using hwrites
  · have hwrites := Writes.intro (hw.append hw') hs hne hd (.unit hu' hc) hu
    rw [hunit, hnumber] at hcs
    refine ⟨i, rfl, ?_⟩
    rw [hcs]
    simpa only [List.append_assoc] using hwrites

/-! ## Texts -/

theorem parse_eq_some_iff {s : String} {v : UInt64} :
    parse s = some v ↔ ∃ number k n, splitUnit? (trim s.toList) = some (number, k) ∧
      parseNumber (trim number) = some n ∧ v.toNat = n * 2 ^ k := by
  simp only [parse, Option.bind_eq_bind, Option.bind_eq_some_iff, Prod.exists,
    Option.ite_none_right_eq_some, Option.some.injEq]
  refine exists_congr fun number => exists_congr fun k => ?_
  constructor
  · rintro ⟨hsplit, n, hn, hlt, rfl⟩
    exact ⟨n, hsplit, hn, UInt64.toNat_ofNat_of_lt' hlt⟩
  · rintro ⟨n, hsplit, hn, hv⟩
    refine ⟨hsplit, n, hn, hv ▸ v.toNat_lt, ?_⟩
    rw [← hv, UInt64.ofNat_toNat]

theorem parse_eq_some_iff_writes {s : String} {v : UInt64} :
    parse s = some v ↔ ∃ n i, Writes s.toList n i ∧ n < 2 ^ 64 ∧ v.toNat = n * 1024 ^ i := by
  have hpow (i : Nat) : 2 ^ (10 * i) = 1024 ^ i := Nat.pow_mul 2 10 i
  rw [parse_eq_some_iff]
  constructor
  · rintro ⟨number, k, n, hsplit, hn, hv⟩
    obtain ⟨i, rfl, hw⟩ := writes_of_split hsplit hn
    exact ⟨n, i, hw, (parseNumber_eq_some_iff.1 hn).1, hpow i ▸ hv⟩
  · rintro ⟨n, i, hw, hlt, hv⟩
    obtain ⟨number, hsplit, hn⟩ := hw.split
    exact ⟨number, 10 * i, n, hsplit, hn hlt, (hpow i).symm ▸ hv⟩

/-- In front of a unit stands all but the last byte. -/
theorem cut_unit {t : String} {number : List Char} {k : Nat}
    (h : splitUnit? t.toList = some (number, k)) (hk : k ≠ 0) :
    (String.ofList number).utf8ByteSize = t.utf8ByteSize - 1 ∧
      ∃ c, t = String.ofList number ++ String.singleton c := by
  rcases splitUnit?_cases h with ⟨-, rfl⟩ | ⟨c, i, hc, -, ht⟩
  · exact absurd rfl hk
  · have happ : t = String.ofList number ++ String.singleton c := by
      rw [String.singleton_eq_ofList, ← String.ofList_append, ← ht, String.ofList_toList]
    refine ⟨?_, c, happ⟩
    rw [happ, String.utf8ByteSize_append, String.utf8ByteSize_singleton, utf8Size_of_mem_units hc,
      Nat.add_sub_cancel]

/-- Just the texts of the grammar are read, as the numbers that they write. -/
structure Exact (s : String) : Prop where
  some_iff : ∀ v : UInt64, parse s = some v ↔
    ∃ n i, Writes s.toList n i ∧ n < 2 ^ 64 ∧ v.toNat = n * 1024 ^ i
  /-- The number or the product may be too large. -/
  none_iff : parse s = none ↔
    ∀ n i, Writes s.toList n i → 2 ^ 64 ≤ n ∨ 2 ^ 64 ≤ n * 1024 ^ i
  /-- The last byte of a text with a unit is where a character begins. -/
  cut : ∀ number k, splitUnit? (trimmed s).toList = some (number, k) → k ≠ 0 →
    (String.Pos.Raw.mk ((trimmed s).utf8ByteSize - 1)).IsValid (trimmed s) ∧
      (String.ofList number).utf8ByteSize = (trimmed s).utf8ByteSize - 1 ∧
      ∃ c, trimmed s = String.ofList number ++ String.singleton c

theorem parse_exact (s : String) : Exact s where
  some_iff v := parse_eq_some_iff_writes
  none_iff := by
    rw [Option.eq_none_iff_forall_ne_some]
    refine ⟨fun h n i hw => ?_, fun h v hv => ?_⟩
    · by_contra hlt
      simp only [not_or, Nat.not_le] at hlt
      exact h (.ofNat (n * 1024 ^ i)) (parse_eq_some_iff_writes.2
        ⟨n, i, hw, hlt.1, UInt64.toNat_ofNat_of_lt' hlt.2⟩)
    · obtain ⟨n, i, hw, hlt, hn⟩ := parse_eq_some_iff_writes.1 hv
      have := v.toNat_lt
      rcases h n i hw with hle | hle <;> omega
  cut number k h hk := by
    obtain ⟨hsize, c, hc⟩ := cut_unit h hk
    refine ⟨String.Pos.Raw.isValid_iff_exists_append.2 ⟨_, _, hc, ?_⟩, hsize, c, hc⟩
    rw [← hsize]
    rfl

/-- The sign of degrees kelvin looks like a unit and is none. -/
example : parse " +064 k\u2003" = some 65536 ∧ parse "64\u212A" = none ∧ parse "6 4k" = none ∧
    parse "16777216g" = some 0x40000000000000 ∧ parse "17179869184g" = none := by
  decide +kernel

end ByteCount

end SharedHeap
