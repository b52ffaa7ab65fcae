import Mathlib.Data.List.TakeWhile
import SharedHeap.Text.Blank

/-!
# Texts

`Text.Trims` says what is left of a text without the white space at its ends. There is such a text,
and just one, the one that trimming finds (`Text.trims_iff`). `Text.SameLetter` says when two
characters differ in nothing but the case of an ASCII letter.
-/

namespace SharedHeap.Text

/-! ## White space -/

/-- Nothing but white space. -/
def Blank (cs : List Char) : Prop := ∀ c ∈ cs, isBlank c

theorem Blank.append {cs ds : List Char} (hc : Blank cs) (hd : Blank ds) : Blank (cs ++ ds) :=
  List.forall_mem_append.2 ⟨hc, hd⟩

/-- There is white space at neither end. -/
structure Tight (cs : List Char) : Prop where
  head : ∀ c ∈ cs.head?, isBlank c = false
  last : ∀ c ∈ cs.getLast?, isBlank c = false

theorem Tight.trim {cs : List Char} (h : Tight cs) : trim cs = cs := by
  have hstart : trimStart cs = cs := by
    cases cs with
    | nil => rfl
    | cons c cs => exact trimStart_of_head (h.head c rfl)
  rw [Text.trim, hstart]
  cases hlast : cs.getLast? with
  | none =>
    rw [List.getLast?_eq_none_iff.1 hlast]
    rfl
  | some c =>
    obtain ⟨ds, rfl⟩ := List.getLast?_eq_some_iff.1 hlast
    exact trimEnd_concat (h.last c hlast)

theorem trimEnd_append_blank {cs ws : List Char} (h : Blank ws) :
    trimEnd (cs ++ ws) = trimEnd cs := by
  have hrev : ∀ c ∈ ws.reverse, isBlank c := fun c hc => h c (List.mem_reverse.1 hc)
  rw [trimEnd, trimEnd, List.reverse_append, List.dropWhile_append_of_pos hrev]

/-- Just the white space around a text is cut off. -/
theorem trim_eq {ws cs us : List Char} (hw : Blank ws) (hc : Tight cs) (hu : Blank us) :
    trim (ws ++ cs ++ us) = cs := by
  rw [List.append_assoc, trim_blank_append hw]
  cases cs with
  | nil =>
    have hnil : trimStart us = [] := List.dropWhile_eq_nil_iff.2 hu
    rw [List.nil_append, trim, hnil]
    rfl
  | cons c cs =>
    have hhead : isBlank c = false := hc.head c rfl
    have htrim := hc.trim
    rw [trim, trimStart_of_head hhead] at htrim
    rw [List.cons_append, trim, trimStart_of_head hhead, ← List.cons_append,
      trimEnd_append_blank hu, htrim]

/-- Every text is what is left of it between white space. -/
theorem exists_trim (cs : List Char) : ∃ ws us, Blank ws ∧ Blank us ∧ cs = ws ++ trim cs ++ us := by
  refine ⟨cs.takeWhile isBlank, ((trimStart cs).reverse.takeWhile isBlank).reverse,
    fun c hc => List.mem_takeWhile_imp hc, fun c hc => ?_, ?_⟩
  · exact List.mem_takeWhile_imp (List.mem_reverse.1 hc)
  · rw [List.append_assoc, trim, trimEnd_append_takeWhile, takeWhile_append_trimStart]

theorem isBlank_of_head?_dropWhile {cs : List Char} {c : Char}
    (h : c ∈ (cs.dropWhile isBlank).head?) : isBlank c = false := by
  have hnot := List.head?_dropWhile_not isBlank cs
  rw [Option.mem_def.1 h] at hnot
  exact hnot

/-- No white space is left at the ends. -/
theorem tight_trim (cs : List Char) : Tight (trim cs) := by
  constructor
  · -- what is cut off at the end leaves the head alone
    intro c hc
    have hstart : c ∈ (trimStart cs).head? := by
      rw [trim, Option.mem_def] at hc
      rw [← trimEnd_append_takeWhile (trimStart cs), List.head?_append, hc]
      rfl
    exact isBlank_of_head?_dropWhile hstart
  · intro c hc
    rw [trim, trimEnd, List.getLast?_reverse] at hc
    exact isBlank_of_head?_dropWhile hc

/-- `t` is what is left of `s` when the white space at its ends is cut off. -/
def Trims (s t : String) : Prop :=
  Tight t.toList ∧ ∃ ws us, Blank ws ∧ Blank us ∧ s.toList = ws ++ t.toList ++ us

theorem trims_iff {s t : String} : Trims s t ↔ t = trimmed s := by
  constructor
  · rintro ⟨ht, ws, us, hw, hu, hs⟩
    rw [trimmed, hs, trim_eq hw ht hu, String.ofList_toList]
  · rintro rfl
    rw [Trims, trimmed, String.toList_ofList]
    exact ⟨tight_trim _, exists_trim _⟩

/-! ## Letters -/

/-- The same character, or the same ASCII letter in the other case. -/
def SameLetter (c d : Char) : Prop :=
  c = d ∨ (c.isUpper ∧ d.toNat = c.toNat + 32) ∨ (d.isUpper ∧ c.toNat = d.toNat + 32)

theorem isUpper_iff {c : Char} : c.isUpper ↔ 65 ≤ c.toNat ∧ c.toNat ≤ 90 :=
  decide_eq_true_iff.trans (and_congr UInt32.le_iff_toNat_le UInt32.le_iff_toNat_le)

theorem toNat_toLower (c : Char) :
    c.toLower.toNat = if c.isUpper then c.toNat + 32 else c.toNat := by
  unfold Char.toLower
  split
  · next h =>
    have hupper : c.isUpper := decide_eq_true h
    have := isUpper_iff.1 hupper
    rw [if_pos hupper]
    calc (c.val + ('a'.val - 'A'.val)).toNat
      _ = (c.toNat + 32) % 2 ^ 32 := UInt32.toNat_add ..
      _ = c.toNat + 32 := Nat.mod_eq_of_lt (by omega)
  · next h =>
    have hlower : ¬ c.isUpper := fun hupper => h (of_decide_eq_true hupper)
    rw [if_neg hlower]

theorem sameLetter_iff {c d : Char} : SameLetter c d ↔ c.toLower = d.toLower := by
  rw [SameLetter, ← Char.toNat_inj, ← Char.toNat_inj, toNat_toLower, toNat_toLower]
  simp only [isUpper_iff]
  split <;> split <;> omega

/-! ## Bytes -/

/-- Bytes are read as the text whose encoding they are. -/
theorem fromUTF8?_eq_some_iff {bs : ByteArray} {s : String} :
    String.fromUTF8? bs = some s ↔ bs = s.toUTF8 := by
  rw [String.fromUTF8?]
  split
  · rw [Option.some.injEq, eq_comm, ← String.toByteArray_inj]
    exact eq_comm
  · next h =>
    refine iff_of_false (Option.some_ne_none s).symm ?_
    rintro rfl
    exact h s.isValidUTF8

end SharedHeap.Text
