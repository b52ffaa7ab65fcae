import SharedHeap.Proofs.Runs

/-!
# Handles refine a typed heap

Whatever was done with regions, blocks and handles, a handle that names a live target reads the
value that was stored in it last, through whichever handle that was, and operations on other targets
leave it alone (`World.Refines`). The blocks of targets that were released, the growing of lists and
operations that fail are no exception.
-/

namespace SharedHeap

open SharedHeap.Action (Ends)

theorem standing_append_of_ne {x : Address} {ds past : List Deed} (h : ∀ d ∈ ds, x ≠ d.address) :
    standing (ds ++ past) x = standing past x := by
  induction ds with
  | nil => rfl
  | cons d ds ih =>
    refine (standing_of_ne (h d List.mem_cons_self)).trans (ih fun d' hd' => ?_)
    exact h d' (List.mem_cons_of_mem _ hd')

namespace World

/-- After an operation the handle names a new target with the value, unless nothing was done. -/
def Gives (w : World) (i : Nat) (c : Cell) (w' : World) : Prop :=
  (w'.history = w.history ∧ w'.handles = w.handles) ∨
  ∃ h x, w'.handles i = some h ∧ h.address? = some x ∧ w.heap x = none ∧ w'.heap x = some c

/-- The targets of handles behave as the cells of a heap. -/
structure Refines (w : World) : Prop where
  /-- A handle that names a live target reads its value, and reading changes nothing. -/
  reads : ∀ i (t : Target) (k : Kind) (h : Handle t k) x v, w.handles i = some ⟨t, k, h⟩ →
    (AnyHandle.mk t k h).address? = some x → w.heap x = some ⟨t, v⟩ →
      Ends (h.value : Action Process HandleError t.Val) w.process (.ok v) w.process
  /-- All handles that name a live target read the same. -/
  agree : ∀ i j (t : Target) (k l : Kind) (h : Handle t k) (g : Handle t l) x v,
    w.handles i = some ⟨t, k, h⟩ → w.handles j = some ⟨t, l, g⟩ →
    (AnyHandle.mk t k h).address? = some x → (AnyHandle.mk t l g).address? = some x →
    w.heap x = some ⟨t, v⟩ →
      (h.value w.process : Ran Process HandleError t.Val).outcome = (g.value w.process).outcome
  /-- No operation on another target changes a target. -/
  kept : ∀ act w', Step w act w' → ∀ x c, w.heap x = some c → ¬ w.Concerns act x →
    w'.heap x = some c
  built : ∀ i (k : Kind) (a : Allocator) (t : Target) (args : t.Args), w.handles i = none →
    a.Serves w.regions → t.Valid → w.Gives i ⟨t, t.initial args⟩ (w.build i k a args)
  builtAt : ∀ i (k : Kind) b (a : Allocator) (t : Target) (args : t.Args), w.handles i = none →
    b ∈ w.patches → Resolved.Fits ⟨b.address, a⟩ w.regions → t.Valid → b.Hosts t k →
      w.Gives i ⟨t, t.initial args⟩ (w.buildAt i k b a args)
  init : ∀ i (t : Target) (k : Kind) (h : Handle t k) a (args : t.Args),
    w.handles i = some ⟨t, k, h⟩ → a.Serves w.regions → t.Valid →
      w.Gives i ⟨t, t.initial args⟩ (w.init i h a args)
  initAt : ∀ i (t : Target) (k : Kind) (h : Handle t k) b a (args : t.Args),
    w.handles i = some ⟨t, k, h⟩ → b ∈ w.patches → Resolved.Fits ⟨b.address, a⟩ w.regions →
    t.Valid → b.Hosts t k → w.Gives i ⟨t, t.initial args⟩ (w.initAt i h b a args)
  /-- What is stored through a handle is the value of the target from then on. -/
  stored : ∀ i (e : Plain) (k : Kind) (h : Handle (.plain e) k) x v v',
    w.handles i = some ⟨.plain e, k, h⟩ → (AnyHandle.mk _ k h).address? = some x →
    w.heap x = some ⟨.plain e, v⟩ →
      (w.set h v').heap = Function.update w.heap x (some ⟨.plain e, v'⟩)
  /-- What is pushed through a handle is the last element from then on, or nothing changes. -/
  pushed : ∀ i (e : Plain) (k : Kind) (h : Handle (.list e) k) x vs v,
    w.handles i = some ⟨.list e, k, h⟩ → (AnyHandle.mk _ k h).address? = some x →
    w.heap x = some ⟨.list e, vs⟩ →
      w.push h v = w ∨
        (w.push h v).heap = Function.update w.heap x (some ⟨.list e, vs ++ [v]⟩)

namespace Sound

variable {w w' : World} {act : Act} {i : Nat} {t : Target} {k : Kind} {x : Address}

theorem reads (hw : w.Sound) {h : Handle t k} {v : t.Val} {ε : Type}
    (hi : w.handles i = some ⟨t, k, h⟩) (hx : (AnyHandle.mk t k h).address? = some x)
    (hv : w.heap x = some ⟨t, v⟩) :
    Ends (h.value : Action Process ε t.Val) w.process (.ok v) w.process := by
  obtain ⟨y, hy, rfl⟩ := Option.map_eq_some_iff.1 hx
  obtain ⟨r, hr, o, hl⟩ := (hw.fits i _ hi y hy).leads hw.stands hv
  have hload := hw.stands.load (ε := ε) hr hl hv
  refine .bind ?_ hload
  rw [Handle.target, hy]
  exact .pure

theorem kept (hw : w.Sound) (hs : Step w act w') {c : Cell} (hx : w.heap x = some c)
    (hc : ¬ w.Concerns act x) : w'.heap x = some c := by
  obtain ⟨gone, ds, ha⟩ := hw.adds hs
  -- what was added is about addresses of other targets, or of none
  have hds : ∀ d ∈ ds, x ≠ d.address := by
    rintro d hd rfl
    rcases ha.others d hd with hn | hd
    · rw [hx] at hn
      cases hn
    · exact hc hd
  have hgone : ∀ d ∈ (gone.map Deed.released).toList, x ≠ d.address := by
    rintro d hd rfl
    obtain ⟨y, hy, rfl⟩ := Option.map_eq_some_iff.1 (Option.mem_toList.1 hd)
    exact hc (ha.gone y hy).1
  rw [heap, ha.history, standing_append_of_ne hgone, standing_append_of_ne hds]
  exact hx

theorem gives {v : t.Val} {y : Layout} {bs : List Patch} {gone : Option Address}
    (hm : w.Made i t k v y bs gone w') (hg : ∀ x, gone = some x → ∃ v, w.heap x = some ⟨t, v⟩) :
    w.Gives i ⟨t, v⟩ w' := by
  rcases hm with ⟨p', rfl⟩ | ⟨z, p', rfl, hn, -⟩
  · exact .inl ⟨rfl, rfl⟩
  · refine .inr ⟨_, t.address z, Function.update_self .., rfl, hn, standing_remade _ hn ?_⟩
    intro x hx
    obtain ⟨v', hv'⟩ := hg x hx
    exact ⟨_, hv'⟩

theorem stored_heap (hw : w.Sound) {e : Plain} {h : Handle (.plain e) k} {v : e.Val}
    (hi : w.handles i = some ⟨.plain e, k, h⟩) (hx : (AnyHandle.mk _ k h).address? = some x)
    (hv : w.heap x = some ⟨.plain e, v⟩) (v' : e.Val) :
    (w.set h v').heap = Function.update w.heap x (some ⟨.plain e, v'⟩) := by
  obtain ⟨-, p', heq⟩ := hw.set hi (fun y hy => by
    obtain rfl := Option.some.inj (hx.symm.trans hy)
    exact ⟨v, hv⟩) v'
  rw [heq, hx]
  rfl

theorem pushed_heap (hw : w.Sound) {e : Plain} {h : Handle (.list e) k} {vs : List e.Val}
    (hi : w.handles i = some ⟨.list e, k, h⟩) (hx : (AnyHandle.mk _ k h).address? = some x)
    (hvs : w.heap x = some ⟨.list e, vs⟩) (v : e.Val) :
    w.push h v = w ∨
      (w.push h v).heap = Function.update w.heap x (some ⟨.list e, vs ++ [v]⟩) := by
  obtain ⟨-, heq | ⟨p', heq⟩⟩ := hw.push hi (fun y hy => by
    obtain rfl := Option.some.inj (hx.symm.trans hy)
    exact ⟨vs, hvs⟩) v
  · exact .inl heq
  · refine .inr ?_
    rw [heq, hx]
    exact standing_pushed hvs v

end Sound

/-- Whatever is done with handles, they refine a typed heap. -/
theorem refines_of_reachable {rs : List (AllocatorId × Region)} {p : Process} (hr : Ready rs p)
    {w : World} (h : Reachable rs p w) : w.Refines := by
  have hw := Sound.reachable hr h
  refine ⟨fun i t k h x v => hw.reads, fun i j t k l h g x v hi hj hx hy hv => ?_,
    fun act w' hs x c => hw.kept hs, ?_, ?_, ?_, ?_,
    fun i e k h x v v' hi hx hv => hw.stored_heap hi hx hv v',
    fun i e k h x vs v hi hx hvs => hw.pushed_heap hi hx hvs v⟩
  · have h₁ := hw.reads (ε := HandleError) hi hx hv
    have h₂ := hw.reads (ε := HandleError) hj hy hv
    exact h₁.outcome.trans h₂.outcome.symm
  · intro i k a t args hi ha ht
    exact Sound.gives (hw.make hi (hw.makes_build (k := k) ha ht args)).2 nofun
  · intro i k b a t args hi hb ha ht hh
    exact Sound.gives (hw.make hi (hw.makes_buildAt hb ha ht hh args)).2 nofun
  · intro i t k h a args hi ha ht
    exact Sound.gives (hw.remake hi (hw.makes_build ha ht args)).2 fun _ => hw.live_of_releases? hi
  · intro i t k h b a args hi hb ha ht hh
    exact Sound.gives (hw.remake hi (hw.makes_buildAt hb ha ht hh args)).2 fun _ =>
      hw.live_of_releases? hi

/-- The owner of a number in a page. -/
def pageNumber : Handle (.plain (.int .u64)) .unique := ⟨some ⟨.place 0 320, some ⟨page⟩⟩, true⟩

/-- A handle that a descriptor leads there. -/
def pageView : Handle (.plain (.int .u64)) .shared := ⟨some ⟨.place 0 320, some ⟨page⟩⟩, false⟩

/-- The owner of a list in the page. -/
def pageList : Handle (.list (.int .u8)) .unique := ⟨some ⟨.place 0 352, ⟨page⟩, false⟩, true⟩

/-- A handle owns a number, and another one is led to it. -/
@[irreducible] def pageShared : World :=
  ((start [(⟨1, 0⟩, page)] pageProcess).build (t := .plain (.int .u64)) 0 .unique ⟨page⟩ 10#64).lead
    1 (.pointer (.plain (.int .u64)) .shared ⟨⟨1, 0⟩, .ofNat 320⟩)

/-- A number is stored through the other handle, and a list is built beside it. -/
@[irreducible] def pageListed : World :=
  (pageShared.set pageView 42#64).build (t := .list (.int .u8)) 2 .unique ⟨page⟩
    (.elements [1#8, 2#8])

/-- The list gets one more element. -/
@[irreducible] def pagePushed : World := pageListed.push pageList 3#8

theorem pageShared_reachable : Reachable [(⟨1, 0⟩, page)] pageProcess pageShared := by
  unfold pageShared
  refine .tail (.single ⟨_, .build rfl (page_serves List.mem_cons_self) (by decide) ..⟩)
    ⟨_, .lead ?_ trivial⟩
  decide +kernel

theorem pageListed_reachable : Reachable [(⟨1, 0⟩, page)] pageProcess pageListed := by
  have h : pageShared.handles 1 = some ⟨_, _, pageView⟩ ∧
      pageShared.heap (.place 0 320) = some ⟨.plain (.int .u64), 10#64⟩ ∧
      (pageShared.set pageView 42#64).handles 2 = none ∧
      page ∈ (pageShared.set pageView 42#64).regions := by
    decide +kernel
  unfold pageListed
  refine (pageShared_reachable.tail ⟨_, .set h.1 ?_ _⟩).tail
    ⟨_, .build h.2.2.1 (page_serves h.2.2.2) (by decide) ..⟩
  rintro x ⟨⟩
  exact ⟨_, h.2.1⟩

theorem pagePushed_reachable : Reachable [(⟨1, 0⟩, page)] pageProcess pagePushed := by
  have h : pageListed.handles 2 = some ⟨_, _, pageList⟩ ∧
      pageListed.heap (.place 0 352) = some ⟨.list (.int .u8), [1#8, 2#8]⟩ := by
    decide +kernel
  unfold pagePushed
  refine pageListed_reachable.tail ⟨_, .push h.1 ?_ _⟩
  rintro x ⟨⟩
  exact ⟨_, h.2⟩

/-- The owner of the number reads what was stored through the other handle, and the list has all
three elements. -/
theorem refines_pagePushed : pagePushed.Refines ∧
    Ends (pageNumber.value : Action Process HandleError (BitVec 64)) pagePushed.process (.ok 42#64)
      pagePushed.process ∧
    Ends (pageList.value : Action Process HandleError (List (BitVec 8))) pagePushed.process
      (.ok [1#8, 2#8, 3#8]) pagePushed.process := by
  have h := refines_of_reachable page_ready pagePushed_reachable
  have hw : pagePushed.handles 0 = some ⟨_, _, pageNumber⟩ ∧
      pagePushed.heap (.place 0 320) = some ⟨.plain (.int .u64), 42#64⟩ ∧
      pagePushed.handles 2 = some ⟨_, _, pageList⟩ ∧
      pagePushed.heap (.place 0 352) = some ⟨.list (.int .u8), [1#8, 2#8, 3#8]⟩ := by
    decide +kernel
  exact ⟨h, h.reads 0 _ _ pageNumber _ _ hw.1 rfl hw.2.1,
    h.reads 2 _ _ pageList _ _ hw.2.2.1 rfl hw.2.2.2⟩

end World

end SharedHeap
