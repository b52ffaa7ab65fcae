import SharedHeap.Proofs.Refinement

/-!
# Handles that release nothing

A handle of a kind that may not release targets lets go of them without a trace, even if it is the
owner: destroying it, dropping it and leading it elsewhere change nothing in memory, and giving it a
new target does no more than building that target (`Handle.Spares`). So a target stays alive and
readable through all other handles, whatever is done with handles that may not release it
(`World.Sparing`).
-/

namespace SharedHeap

open SharedHeap.Action (Ends)

/-- A reference that may not release its target is given back, and nothing is done. -/
theorem Target.destroy_false (t : Target) (r : t.Ref) {ε : Type} :
    ∃ r', (t.destroy r false : Action Process ε t.Ref) = pure r' := by
  cases t with
  | plain e => exact ⟨r, rfl⟩
  | list e => exact ⟨{ r with owned := false }, rfl⟩

namespace Handle

variable {t : Target} {k : Kind} {ε : Type}

/-- The handle once it was tried to build a new target for it, and whether there was an error. -/
def answer (h : Handle t k) :
    Except HandleError (Handle t k) → Handle t k × Except HandleError Unit
  | .ok fresh => (fresh, .ok ())
  | .error e => (h, .error e)

/-- The handle lets go of its target and nothing else happens, wherever and however it does. -/
structure Spares (h : Handle t k) : Prop where
  target : ∀ r : t.Ref, ∃ r',
    (t.destroy r k.isDestructible : Action Process HandleError t.Ref) = pure r'
  release : (h.release : Action Process HandleError Unit) = pure ()
  destroy : (h.destroy : Action Process HandleError Unit) = pure ()
  /-- At most a word is said of it. -/
  drop : ∀ p, Ends (h.drop : Action Process HandleError Unit) p (.ok ()) p
  replace : ∀ fresh : Handle t k, (h.replace fresh : Action Process HandleError _) = pure fresh
  assign : ∀ other : Handle t k,
    (h.assign other : Action Process HandleError _) = pure (other, .detached)
  /-- A new target is built as if there were no old one. -/
  init : ∀ a args,
    (h.init a args : Action Process HandleError _) = h.answer <$> .attempt (build a args)
  initAt : ∀ x a args,
    (h.initAt x a args : Action Process HandleError _) = h.answer <$> .attempt (buildAt x a args)
  initDefault : ∀ args,
    (h.initDefault args : Action Process HandleError _) = h.answer <$> .attempt (buildDefault args)

variable {h : Handle t k}

theorem release_eq (hk : k.isDestructible = false) :
    (h.release : Action Process ε Unit) = pure () := by
  rw [release, hk]
  cases h.isOwner with
  | false => rfl
  | true =>
    cases h.object with
    | none => rfl
    | some r =>
      obtain ⟨r', hr⟩ := t.destroy_false r (ε := ε)
      simp only [hr]
      rfl

theorem replace_eq (hk : k.isDestructible = false) (fresh : Handle t k) :
    (h.replace fresh : Action Process ε _) = pure fresh := by
  rw [replace, release_eq hk]
  rfl

theorem renewed_eq (hk : k.isDestructible = false) (r : Except HandleError (Handle t k)) :
    (h.renewed r : Action Process ε _) = pure (h.answer r) := by
  cases r with
  | ok fresh =>
    rw [renewed, replace_eq hk]
    rfl
  | error e => rfl

theorem destroy_eq (hk : k.isDestructible = false) :
    (h.destroy : Action Process ε Unit) = pure () := by
  rw [destroy, hk]
  cases h.object with
  | none => rfl
  | some r =>
    obtain ⟨r', hr⟩ := t.destroy_false r (ε := ε)
    simp only [hr]
    rfl

theorem drop_ends (hk : k.isDestructible = false) (p : Process) :
    Ends (h.drop : Action Process ε Unit) p (.ok ()) p := by
  rw [drop, release_eq hk]
  split
  · exact .bind (Process.say_ends .pure) .pure
  · exact .pure

theorem spares (hk : k.isDestructible = false) : h.Spares where
  target r := hk ▸ t.destroy_false r
  release := release_eq hk
  destroy := destroy_eq hk
  drop := drop_ends hk
  replace := replace_eq hk
  assign other := by
    rw [assign, replace_eq hk]
    rfl
  init a args := congrArg (.attempt (build a args) >>= ·) (funext (renewed_eq hk))
  initAt x a args := congrArg (.attempt (buildAt x a args) >>= ·) (funext (renewed_eq hk))
  initDefault args := congrArg (.attempt (buildDefault args) >>= ·) (funext (renewed_eq hk))

end Handle

namespace AnyHandle

theorem destroys?_eq_none {h : AnyHandle} (hk : h.kind.isDestructible = false) :
    h.destroys? = none := by
  rw [destroys?, hk]
  rfl

theorem releases?_eq_none {h : AnyHandle} (hk : h.kind.isDestructible = false) :
    h.releases? = none := by
  rw [releases?, destroys?_eq_none hk]
  exact ite_self _

end AnyHandle

/-- The handle that lets go of its target by an operation. -/
def Act.parting? : Act → Option Nat
  | .follow i | .init i | .assign i _ | .destroy i | .drop i => some i
  | .build _ | .lead _ | .store _ | .abandon _ | .blocks => none

namespace World

/-- The operation makes a handle let go of its target that may not release it. -/
def Gentle (w : World) (act : Act) : Prop :=
  ∃ i h, act.parting? = some i ∧ w.handles i = some h ∧ h.kind.isDestructible = false

/-- A gentle operation that builds no new target. -/
def Parts (w w' : World) : Prop := ∃ act, Step w act w' ∧ w.Gentle act ∧ ∀ i, act ≠ .init i

/-- An operation that is gentle, or has nothing to do with the target at an address. -/
def Leaves (x : Address) (w w' : World) : Prop :=
  ∃ act, Step w act w' ∧ (w.Gentle act ∨ ¬ w.Concerns act x)

/-- Handles that may not release their targets release nothing. -/
structure Sparing (w : World) : Prop where
  handles : ∀ (t : Target) (k : Kind) (h : Handle t k), k.isDestructible = false → h.Spares
  /-- Memory and all counters stay as they are, unless a new target is built. -/
  still : ∀ w', Relation.ReflTransGen Parts w w' → w'.process = w.process
  /-- Targets are built, and none is released. -/
  history : ∀ w', Relation.ReflTransGen (fun u u' => ∃ act, Step u act u' ∧ u.Gentle act) w w' →
    ∃ ds, w'.history = ds ++ w.history ∧ ∀ d ∈ ds, ∃ x c, d = .built x c
  /-- What is alive is alive after any run of such operations, with the value that it had. -/
  alive : ∀ x c w', w.heap x = some c → Relation.ReflTransGen (Leaves x) w w' → w'.heap x = some c
  /-- All handles that name it read that value. -/
  reads : ∀ x (t : Target) v w', w.heap x = some ⟨t, v⟩ → Relation.ReflTransGen (Leaves x) w w' →
    ∀ i (k : Kind) (h : Handle t k), w'.handles i = some ⟨t, k, h⟩ →
      (AnyHandle.mk t k h).address? = some x →
        Ends (h.value : Action Process HandleError t.Val) w'.process (.ok v) w'.process

namespace Sound

variable {w w' : World} {act : Act} {x : Address} {c : Cell}

theorem process_parts (hs : Parts w w') : w'.process = w.process := by
  obtain ⟨act, hs, ⟨i, g, ha, hi, hk⟩, hne⟩ := hs
  cases hs with
  | allocate | free | write | abandon | enroll | build | buildAt | lead | set | push => cases ha
  | init | initAt => exact absurd rfl (hne _)
  | follow hi' hx =>
    cases ha
    obtain rfl := Option.some.inj (hi.symm.trans hi')
    simp only [World.follow, Handle.replace_eq hk, Action.pure_apply]
  | @assign _ _ _ _ _ h _ hi' hj =>
    cases ha
    obtain rfl := Option.some.inj (hi.symm.trans hi')
    simp only [World.assign, (Handle.spares (h := h) hk).assign, Action.pure_apply]
  | destroy hi' hd =>
    cases ha
    obtain rfl := Option.some.inj (hi.symm.trans hi')
    simp only [World.destroy, Handle.destroy_eq hk, Action.pure_apply]
  | drop hi' =>
    cases ha
    obtain rfl := Option.some.inj (hi.symm.trans hi')
    exact (Handle.drop_ends hk w.process).state

/-- What a handle gets that had nothing to release is a new target, or nothing. -/
theorem history_made {i : Nat} {t : Target} {k : Kind} {v : t.Val} {y : Layout} {bs : List Patch}
    {gone : Option Address} (hm : w.Made i t k v y bs gone w') (hg : gone = none) :
    w'.history = w.history ∨ ∃ x c, w.heap x = none ∧ w'.history = .built x c :: w.history := by
  subst hg
  rcases hm with ⟨p', rfl⟩ | ⟨z, p', rfl, hn, -⟩
  · exact .inl rfl
  · exact .inr ⟨_, _, hn, rfl⟩

theorem history_gentle (hw : w.Sound) (hs : Step w act w') (hg : w.Gentle act) :
    w'.history = w.history ∨ ∃ x c, w.heap x = none ∧ w'.history = .built x c :: w.history := by
  obtain ⟨i, g, ha, hi, hk⟩ := hg
  have hrel := AnyHandle.releases?_eq_none hk
  cases hs with
  | allocate | free | write | abandon | enroll | build | buildAt | lead | set | push => cases ha
  | init hi' ha' ht args =>
    cases ha
    obtain rfl := Option.some.inj (hi.symm.trans hi')
    exact history_made (hw.remake hi' (hw.makes_build ha' ht args)).2 hrel
  | initAt hi' hb ha' ht hh args =>
    cases ha
    obtain rfl := Option.some.inj (hi.symm.trans hi')
    exact history_made (hw.remake hi' (hw.makes_buildAt hb ha' ht hh args)).2 hrel
  | follow hi' hx =>
    cases ha
    obtain rfl := Option.some.inj (hi.symm.trans hi')
    obtain ⟨-, p', heq, -⟩ := hw.follow hi' hx
    rw [heq, hrel]
    exact .inl rfl
  | assign hij hi' hj =>
    cases ha
    obtain rfl := Option.some.inj (hi.symm.trans hi')
    obtain ⟨-, p', heq, -⟩ := hw.assign hij hi' hj
    rw [heq, hrel]
    exact .inl rfl
  | destroy hi' hd =>
    cases ha
    obtain rfl := Option.some.inj (hi.symm.trans hi')
    rw [World.destroy, AnyHandle.destroys?_eq_none hk]
    exact .inl rfl
  | drop hi' =>
    cases ha
    obtain rfl := Option.some.inj (hi.symm.trans hi')
    rw [World.drop, hrel]
    exact .inl rfl

theorem history_run (hw : w.Sound)
    (h : Relation.ReflTransGen (fun u u' => ∃ act, Step u act u' ∧ u.Gentle act) w w') :
    w'.Sound ∧ ∃ ds, w'.history = ds ++ w.history ∧ ∀ d ∈ ds, ∃ x c, d = .built x c := by
  induction h with
  | refl => exact ⟨hw, [], rfl, nofun⟩
  | tail _ hs ih =>
    obtain ⟨hw', ds, hds, hb⟩ := ih
    obtain ⟨act, hs, hg⟩ := hs
    refine ⟨hw'.step hs, ?_⟩
    rcases hw'.history_gentle hs hg with heq | ⟨x, c, -, heq⟩
    · exact ⟨ds, heq.trans hds, hb⟩
    · exact ⟨.built x c :: ds, heq.trans (congrArg _ hds),
        List.forall_mem_cons.2 ⟨⟨x, c, rfl⟩, hb⟩⟩

theorem heap_leaves (hw : w.Sound) (hs : Leaves x w w') (hx : w.heap x = some c) :
    w'.Sound ∧ w'.heap x = some c := by
  obtain ⟨act, hs, hg | hc⟩ := hs
  · refine ⟨hw.step hs, ?_⟩
    rcases hw.history_gentle hs hg with heq | ⟨y, d, hn, heq⟩
    · rw [heap, heq]
      exact hx
    · -- the new target is not where the old one is
      have hne : x ≠ (Deed.built y d).address := by
        rintro rfl
        rw [hx] at hn
        cases hn
      rw [heap, heq, standing_of_ne hne]
      exact hx
  · exact ⟨hw.step hs, hw.kept hs hx hc⟩

theorem heap_run (hw : w.Sound) (hx : w.heap x = some c)
    (h : Relation.ReflTransGen (Leaves x) w w') : w'.Sound ∧ w'.heap x = some c := by
  induction h with
  | refl => exact ⟨hw, hx⟩
  | tail _ hs ih => exact ih.1.heap_leaves hs ih.2

end Sound

/-- Whatever was done with handles, those that may not release their targets spare them from then
on. -/
theorem sparing_of_reachable {rs : List (AllocatorId × Region)} {p : Process} (hr : Ready rs p)
    {w : World} (h : Reachable rs p w) : w.Sparing := by
  have hw := Sound.reachable hr h
  refine ⟨fun t k h => Handle.spares, fun w' hrun => ?_, fun w' hrun => (hw.history_run hrun).2,
    fun x c w' hx hrun => (hw.heap_run hx hrun).2, ?_⟩
  · induction hrun with
    | refl => rfl
    | tail _ hs ih => exact (Sound.process_parts hs).trans ih
  · intro x t v w' hx hrun i k h hi ha
    obtain ⟨hw', hx'⟩ := hw.heap_run hx hrun
    exact hw'.reads hi ha hx'

/-- The owner of a list in a page that may not release it. -/
def lentList (o : Nat) : Handle (.list (.int .u8)) .uniqueBorrowed :=
  ⟨some ⟨.place 0 o, ⟨page⟩, false⟩, true⟩

/-- A handle that a descriptor leads to the list. -/
def lentView : Handle (.list (.int .u8)) .shared := ⟨some ⟨.place 0 320, ⟨page⟩, false⟩, false⟩

/-- A handle builds a list in a page and may not release it; another one is led there. -/
@[irreducible] def pageLent : World :=
  ((start [(⟨1, 0⟩, page)] pageProcess).build (t := .list (.int .u8)) 0 .uniqueBorrowed ⟨page⟩
    (.elements [1#8, 2#8])).lead
    1 (.pointer (.list (.int .u8)) .shared ⟨⟨1, 0⟩, .ofNat 320⟩)

/-- It gets a new list. -/
@[irreducible] def pageRelent : World :=
  pageLent.init 0 (lentList 320) ⟨page⟩ (.elements [9#8])

theorem pageLent_reachable : Reachable [(⟨1, 0⟩, page)] pageProcess pageLent := by
  unfold pageLent
  refine .tail (.single ⟨_, .build rfl (page_serves List.mem_cons_self) (by decide) ..⟩)
    ⟨_, .lead ?_ trivial⟩
  decide +kernel

/-- The owner gets a new list and goes, and the other handle reads the old one. -/
theorem sparing_pageLent : pageLent.Sparing ∧ (lentList 384).isOwner ∧
    Ends (lentView.value : Action Process HandleError (List (BitVec 8)))
      (pageRelent.drop 0 ⟨_, _, lentList 384⟩).process (.ok [1#8, 2#8])
      (pageRelent.drop 0 ⟨_, _, lentList 384⟩).process := by
  have h := sparing_of_reachable page_ready pageLent_reachable
  have h₀ : pageLent.handles 0 = some ⟨_, _, lentList 320⟩ ∧ page ∈ pageLent.regions ∧
      pageLent.heap (.place 0 320) = some ⟨.list (.int .u8), [1#8, 2#8]⟩ := by
    decide +kernel
  have h₁ : pageRelent.handles 0 = some ⟨_, _, lentList 384⟩ ∧
      pageRelent.handles 1 = some ⟨_, _, lentView⟩ := by
    decide +kernel
  have hinit : Leaves (.place 0 320) pageLent pageRelent := by
    unfold pageRelent
    exact ⟨_, .init h₀.1 (page_serves h₀.2.1) (by decide) _, .inl ⟨0, _, rfl, h₀.1, rfl⟩⟩
  have hdrop : Leaves (.place 0 320) pageRelent (pageRelent.drop 0 ⟨_, _, lentList 384⟩) :=
    ⟨_, .drop h₁.1, .inl ⟨0, _, rfl, h₁.1, rfl⟩⟩
  refine ⟨h, rfl, ?_⟩
  refine h.reads _ _ _ _ h₀.2.2 ((Relation.ReflTransGen.single hinit).tail hdrop) 1 _ lentView ?_
    rfl
  have hne : 1 ≠ 0 := by decide
  exact (Function.update_of_ne hne none pageRelent.handles).trans h₁.2

end World

end SharedHeap
