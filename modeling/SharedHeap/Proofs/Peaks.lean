import Mathlib.Data.List.Count
import Mathlib.Data.List.Perm.Lattice
import SharedHeap.Proofs.Stacks

/-!
# The cursor moves at new peaks only

A block is carved only while no block of its class waits on a chain, and then all blocks of the
class that were ever carved are handed out. So a run has carved as many blocks of a class as were
handed out at the same time when there were most (`Tenancy.Thrifty`), and as long as nobody asks for
more than that, the cursor stays and every request is served.
-/

namespace SharedHeap

namespace Ledger

variable {l : Ledger}

/-- How many blocks of a class were carved. -/
def carvedOf (l : Ledger) (c : SizeClass) : Nat := l.carved.countP fun e => e.cls = c

/-- How many blocks of a class are handed out. -/
def liveOf (l : Ledger) (c : SizeClass) : Nat := l.live.countP fun e => e.cls = c

/-- The blocks of a class that were carved are those handed out and those on the chain. -/
theorem Sound.carvedOf_eq (h : l.Sound) (c : SizeClass) :
    l.carvedOf c = l.liveOf c + (l.free c).length := by
  have hperm : (l.carved.filter fun e => e.cls = c).Perm
      ((l.live.filter fun e => e.cls = c) ++ (l.free c).map (Extent.mk · c)) := by
    refine List.perm_iff_count.2 fun e => ?_
    rw [List.count_append]
    by_cases hc : e.cls = c
    · subst hc
      have hinj : Function.Injective (Extent.mk · e.cls) := fun _ _ he => congrArg Extent.offset he
      rw [List.count_filter (by simp), List.count_filter (by simp), ← h.split e]
      exact congrArg _ (List.count_map_of_injective _ _ hinj e.offset).symm
    · have hmap : e ∉ (l.free c).map (Extent.mk · c) := by
        rintro he
        obtain ⟨o, -, rfl⟩ := List.mem_map.1 he
        exact hc rfl
      rw [List.count_eq_zero.2 (by simp [hc]), List.count_eq_zero.2 (by simp [hc]),
        List.count_eq_zero.2 hmap]
  rw [carvedOf, liveOf, List.countP_eq_length_filter, List.countP_eq_length_filter,
    hperm.length_eq, List.length_append, List.length_map]

theorem carvedOf_carve (l : Ledger) (c d : SizeClass) :
    (l.carve c).carvedOf d = l.carvedOf d + if c = d then 1 else 0 := by
  simp only [carvedOf, carve, List.countP_cons, next, decide_eq_true_eq]

theorem liveOf_carve (l : Ledger) (c d : SizeClass) :
    (l.carve c).liveOf d = l.liveOf d + if c = d then 1 else 0 := by
  simp only [liveOf, carve, List.countP_cons, next, decide_eq_true_eq]

theorem lt_cursor_carve (l : Ledger) (c : SizeClass) : l.cursor < (l.carve c).cursor := by
  have h₁ := Sound.le_next_offset l c
  have h₂ := (l.next c).sixteen_le_size
  have h₃ : (l.carve c).cursor = (l.next c).offset + (l.next c).size := rfl
  omega

end Ledger

namespace Tenancy

variable {id : AllocatorId} {r : Region} {p : Process} {t t' u : Tenancy} {ts : List Tenancy}
  {l : Ledger} {a : Allocator} {y : Layout}

/-- How many blocks of a class are handed out. -/
def holding (t : Tenancy) (c : SizeClass) : Nat := t.leases.countP fun x => x.extent.cls = c

/-- All states that a region came through, the last one first. -/
inductive Course (id : AllocatorId) (r : Region) (p : Process) : List Tenancy → Prop
  | start : Course id r p [start id r p]
  | step {t t' : Tenancy} {ts : List Tenancy} (h : Course id r p (t :: ts)) (hs : Step t t') :
    Course id r p (t' :: t :: ts)

/-- The cursor moved to make room for a block of the class. -/
def Carves (c : SizeClass) (t t' : Tenancy) : Prop :=
  t.cursor < t'.cursor ∧ t.holding c < t'.holding c

instance (c : SizeClass) (t t' : Tenancy) : Decidable (Carves c t t') :=
  inferInstanceAs (Decidable (_ ∧ _))

/-- How many blocks of a class were carved on the way. -/
def carvings (c : SizeClass) : List Tenancy → Nat
  | t' :: t :: ts => carvings c (t :: ts) + if Carves c t t' then 1 else 0
  | _ => 0

/-- The most blocks of a class that were handed out at the same time. -/
def peak (c : SizeClass) : List Tenancy → Nat
  | [] => 0
  | t :: ts => max (t.holding c) (peak c ts)

/-- Something happens, and no class has more blocks handed out than `m` tells. -/
def Within (m : SizeClass → Nat) (t t' : Tenancy) : Prop :=
  Step t t' ∧ ∀ c, t'.holding c ≤ m c

/-- Blocks are carved at new peaks only. -/
structure Thrifty (t : Tenancy) (ts : List Tenancy) : Prop where
  carvings_eq : ∀ c, carvings c (t :: ts) = peak c (t :: ts)
  /-- While no class exceeds its peak, the cursor stays. -/
  cursor_eq : ∀ u, Relation.ReflTransGen (Within fun c => peak c (t :: ts)) t u →
    u.cursor = t.cursor
  /-- Who asks for a block that is within the peak gets it. -/
  served : ∀ u, Relation.ReflTransGen (Within fun c => peak c (t :: ts)) t u →
    ∀ a ∈ u.allocators, ∀ y : Layout, y.Valid → y.align ≤ 4096 →
      u.holding (SizeClass.ofLayout y) < peak (SizeClass.ofLayout y) (t :: ts) →
        (∃ q, (a.allocate y u.process).outcome = .ok q) ∧ (u.allocate a y).cursor = t.cursor

namespace Kept

theorem holding_eq (h : t.Kept l) (c : SizeClass) : t.holding c = l.liveOf c := by
  rw [holding, Ledger.liveOf, h.live.countP_eq, List.countP_map]
  rfl

theorem holding_le (h : t.Kept l) (c : SizeClass) : t.holding c ≤ l.carvedOf c := by
  rw [h.holding_eq, h.keeps.sound.carvedOf_eq]
  exact Nat.le_add_right ..

/-- A step either leaves the cursor where it is, or it carves a block while none of its class
waits. -/
theorem step_cases (h : t.Kept l) (hs : Step t t') :
    ∃ l', t'.Kept l' ∧ ((l'.cursor = l.cursor ∧ l'.carved = l.carved) ∨
      ∃ c, l.free c = [] ∧ l' = l.carve c) := by
  cases hs with
  | attach hr => exact ⟨l, h.attach hr, .inl ⟨rfl, rfl⟩⟩
  | @allocate a ha y hy =>
    cases hl : l.allocate y with
    | error e => exact ⟨l, h.allocate_refused ha hy hl, .inl ⟨rfl, rfl⟩⟩
    | ok q =>
      obtain ⟨o, l'⟩ := q
      refine ⟨l', (h.allocate ha hy hl).1, ?_⟩
      obtain ⟨-, -, ⟨rest, -, rfl⟩ | ⟨hf, -, -, rfl⟩⟩ := Ledger.allocate_cases hl
      · exact .inl ⟨rfl, rfl⟩
      · exact .inr ⟨_, hf, rfl⟩
  | free ha hx => exact ⟨_, h.free ha hx, .inl ⟨rfl, rfl⟩⟩
  | write hx hi => exact ⟨l, h.write hx hi, .inl ⟨rfl, rfl⟩⟩

/-- What was carved of a class after a step, and how it shows. A class that got a new block has all
its blocks handed out. -/
theorem step_carvedOf (h : t.Kept l) (hs : Step t t') :
    ∃ l', t'.Kept l' ∧ (t'.cursor = t.cursor ∨ ∃ c, Carves c t t') ∧
      ∀ c, l'.carvedOf c = l.carvedOf c + (if Carves c t t' then 1 else 0) ∧
        (Carves c t t' → t'.holding c = l'.carvedOf c) := by
  obtain ⟨l', h', ⟨hcur, hcarved⟩ | ⟨c, hf, rfl⟩⟩ := h.step_cases hs
  · have hno (c : SizeClass) : ¬ Carves c t t' := by
      rintro ⟨hlt, -⟩
      rw [h.cursor_eq, h'.cursor_eq] at hlt
      omega
    refine ⟨l', h', .inl ?_, fun c => ⟨?_, fun hc => absurd hc (hno c)⟩⟩
    · rw [h.cursor_eq, h'.cursor_eq, hcur]
    · rw [if_neg (hno c), Ledger.carvedOf, hcarved]
      rfl
  · have hcur : t.cursor < t'.cursor := by
      rw [h.cursor_eq, h'.cursor_eq]
      exact l.lt_cursor_carve c
    have hiff (d : SizeClass) : Carves d t t' ↔ c = d := by
      rw [Carves, and_iff_right hcur, h.holding_eq, h'.holding_eq, Ledger.liveOf_carve]
      split
      · next hd => simp [hd]
      · next hd => simp [hd]
    refine ⟨_, h', .inr ⟨c, (hiff c).2 rfl⟩, fun d => ⟨?_, fun hd => ?_⟩⟩
    · rw [Ledger.carvedOf_carve]
      simp only [hiff]
    · obtain rfl := (hiff d).1 hd
      have hf' : (l.carve c).free c = [] := hf
      rw [h'.holding_eq, h'.keeps.sound.carvedOf_eq, hf']
      rfl

/-- A class with more blocks carved than handed out has one to hand out. -/
theorem served (h : t.Kept l) (ha : a ∈ t.allocators) (hy : y.Valid)
    (hal : y.align ≤ SizeClass.maxAlign)
    (hlt : t.holding (SizeClass.ofLayout y) < l.carvedOf (SizeClass.ofLayout y)) :
    (∃ q, (a.allocate y t.process).outcome = .ok q) ∧ (t.allocate a y).cursor = t.cursor := by
  rw [h.holding_eq, h.keeps.sound.carvedOf_eq] at hlt
  obtain ⟨o, rest, hf⟩ : ∃ o rest, l.free (SizeClass.ofLayout y) = o :: rest :=
    List.exists_cons_of_length_pos (by omega)
  have hmem : (y.extent o).offset ∈ l.free (y.extent o).cls := by
    rw [Layout.extent_cls, hf]
    exact List.mem_cons_self
  have hc := (h.keeps.sound.fits _ (h.keeps.sound.mem_carved_of_free hmem)).2.2.2
  have hl := Ledger.allocate_of_cons hal hc hf
  refine ⟨?_, ?_⟩
  · rw [h.outcome_allocate ha hy, hl]
    exact ⟨_, rfl⟩
  · rw [(h.allocate ha hy hl).1.cursor_eq, h.cursor_eq]
    rfl

end Kept

/-- The books agree with what the course shows. -/
structure Tallied (t : Tenancy) (ts : List Tenancy) (l : Ledger) : Prop where
  kept : t.Kept l
  carvings : ∀ c, l.carvedOf c = carvings c (t :: ts)
  peak : ∀ c, l.carvedOf c = peak c (t :: ts)

namespace Tallied

theorem start (hb : r.Backed p) (hn : Allocator.minRegionSize ≤ r.length)
    (ha : p.isAligned r.base Region.alignment) :
    (Tenancy.start id r p).Tallied [] (.fresh id r.length) where
  kept := Kept.start hb hn ha
  carvings _ := rfl
  peak _ := rfl

theorem step (h : t.Tallied ts l) (hs : Step t t') : ∃ l', t'.Tallied (t :: ts) l' := by
  obtain ⟨l', hk, -, hc⟩ := h.kept.step_carvedOf hs
  refine ⟨l', hk, fun c => ?_, fun c => ?_⟩
  · rw [(hc c).1, h.carvings c]
    rfl
  · -- either this is a new peak, or the class stays within the old one
    rw [Tenancy.peak, ← h.peak c]
    have hle := hk.holding_le c
    by_cases hcarves : Carves c t t'
    · rw [(hc c).2 hcarves, (hc c).1]
      omega
    · have heq := (hc c).1
      rw [if_neg hcarves] at heq
      omega

theorem of_course (hb : r.Backed p) (hn : Allocator.minRegionSize ≤ r.length)
    (ha : p.isAligned r.base Region.alignment) (h : Course id r p ts) :
    ∀ t us, ts = t :: us → ∃ l, t.Tallied us l := by
  induction h with
  | start =>
    rintro t us ⟨⟩
    exact ⟨_, start hb hn ha⟩
  | step _ hs ih =>
    rintro t us ⟨⟩
    obtain ⟨l, hl⟩ := ih _ _ rfl
    exact hl.step hs

/-- A run within the peaks carves nothing. -/
theorem within (h : t.Tallied ts l)
    (hu : Relation.ReflTransGen (Within fun c => Tenancy.peak c (t :: ts)) t u) :
    u.cursor = t.cursor ∧ ∃ l', u.Kept l' ∧ ∀ c, l'.carvedOf c = Tenancy.peak c (t :: ts) := by
  induction hu with
  | refl => exact ⟨rfl, l, h.kept, h.peak⟩
  | @tail v w _ hw ih =>
    obtain ⟨hcur, l', hk, hpeak⟩ := ih
    obtain ⟨l'', hk', hmove, hc⟩ := hk.step_carvedOf hw.1
    have hno (c : SizeClass) : ¬ Carves c v w := by
      intro hcarves
      have h₁ : w.holding c ≤ Tenancy.peak c (t :: ts) := hw.2 c
      rw [(hc c).2 hcarves, (hc c).1, if_pos hcarves, hpeak c] at h₁
      omega
    refine ⟨(hmove.resolve_right fun ⟨c, hcarves⟩ => hno c hcarves).trans hcur, l'', hk',
      fun c => ?_⟩
    rw [(hc c).1, if_neg (hno c), hpeak c]
    rfl

theorem thrifty (h : t.Tallied ts l) : t.Thrifty ts where
  carvings_eq c := (h.carvings c).symm.trans (h.peak c)
  cursor_eq _ hu := (h.within hu).1
  served u hu a ha y hy hal hlt := by
    obtain ⟨hcur, l', hk, hpeak⟩ := h.within hu
    obtain ⟨hq, hcur'⟩ := hk.served ha hy hal (by rw [hpeak]; exact hlt)
    exact ⟨hq, hcur'.trans hcur⟩

end Tallied

/-- However a region is used from when it is formatted on, it grows at new peaks only. -/
theorem thrifty_of_course (hb : r.Backed p) (hn : Allocator.minRegionSize ≤ r.length)
    (ha : p.isAligned r.base Region.alignment) (h : Course id r p (t :: ts)) : t.Thrifty ts := by
  obtain ⟨l, hl⟩ := Tallied.of_course hb hn ha h t ts rfl
  exact hl.thrifty

/-- What the page came through before both blocks were returned, the last state first. -/
def pagePast : List Tenancy :=
  [pageThird, pageSecond.free ⟨pageView⟩ firstLease, pageSecond,
    pageFirst.write firstLease 8 [1, 2, 3], pageFirst,
    (start ⟨1, 0⟩ page pageProcess).attach pageView, start ⟨1, 0⟩ page pageProcess]

theorem pageUse_course : Course ⟨1, 0⟩ page pageProcess (pageUse :: pagePast) := by
  have h₁ : Course ⟨1, 0⟩ page pageProcess _ := .step .start (.attach (r := pageView) rfl)
  have h₂ : Course ⟨1, 0⟩ page pageProcess (pageFirst :: _) := h₁.step (by
    unfold pageFirst
    exact .allocate (by simp [attach, start]) (by decide))
  have h₃ := h₂.step (@Step.write _ firstLease (by simp [pageFirst_leases.1]) 8 [1, 2, 3]
    (by decide))
  have h₄ : Course ⟨1, 0⟩ page pageProcess (pageSecond :: _) := h₃.step (by
    unfold pageSecond
    exact .allocate (by simp [pageFirst_leases.2, write]) (by decide))
  have h₅ := h₄.step (.free (a := ⟨pageView⟩) (x := firstLease) (by simp [pageSecond_leases.2])
    (by simp [pageSecond_leases.1]))
  have h₆ : Course ⟨1, 0⟩ page pageProcess (pageThird :: _) := h₅.step (by
    unfold pageThird
    exact .allocate (by simp [pageSecond_leases.2, free]) (by decide))
  exact h₆.step (.free (by simp [pageThird_leases.2]) (by simp [pageThird_leases.1]))

/-- The page handed out two blocks of 32 bytes one after the other, and carved one. -/
theorem thrifty_pageUse :
    carvings ⟨1⟩ (pageUse :: pagePast) = 1 ∧ pageUse.Thrifty pagePast := by
  refine ⟨?_, thrifty_of_course page_backed (by decide) (by decide) pageUse_course⟩
  decide +kernel

end Tenancy

end SharedHeap
