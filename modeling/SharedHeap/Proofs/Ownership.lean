import SharedHeap.Proofs.Runs

/-!
# Single ownership

However handles are made, led to targets, moved and given up, a target has one owner at most, an
owner has a target, ownership comes from building a target or from another owner and from nowhere
else, and no target is released twice (`World.SingleOwnership`).
-/

namespace SharedHeap

/-! ## Histories -/

section

variable {x : Address} {mid past : List Deed}

theorem Fair.of_append {later : List Deed} (h : Fair (later ++ past)) : Fair past := by
  induction later with
  | nil => exact h
  | cons d later ih => exact ih h.2

/-- A target that is alive after nothing was, was built. -/
theorem exists_built_of_standing {c : Cell} (hp : standing past x = none)
    (hf : Fair (mid ++ past)) (hx : standing (mid ++ past) x = some c) :
    ∃ c, .built x c ∈ mid := by
  -- from what happened last back to what built the target
  induction mid generalizing c with
  | nil =>
    rw [List.nil_append, hp] at hx
    cases hx
  | cons d mid ih =>
    have hmid {c' : Cell} (hc : standing (mid ++ past) x = some c') :
        ∃ c, .built x c ∈ d :: mid := by
      obtain ⟨c, hc⟩ := ih hf.2 hc
      exact ⟨c, List.mem_cons_of_mem _ hc⟩
    by_cases hd : x = d.address
    · subst hd
      cases d with
      | built x c => exact ⟨c, List.mem_cons_self⟩
      | stored x c =>
        obtain ⟨v, hv⟩ := hf.1
        exact hmid hv
      | pushed x e v =>
        obtain ⟨vs, hvs⟩ := hf.1
        exact hmid hvs
      | released x | abandoned x =>
        have := (Function.update_self x none (standing (mid ++ past))).symm.trans hx
        cases this
    · exact hmid ((standing_of_ne hd).symm.trans hx)

/-- Between two releases at one address a new target was built there. -/
theorem Fair.exists_built (h : Fair (.released x :: (mid ++ .released x :: past))) :
    ∃ c, .built x c ∈ mid := by
  obtain ⟨⟨c, hc⟩, hf⟩ := h
  exact exists_built_of_standing (standing_released ..) hf hc

end

namespace World

/-- The operation may make a handle an owner: it builds a target for it, or takes over that of an
owner. -/
def Entitles (w : World) (i : Nat) (act : Act) : Prop :=
  act = .build i ∨ act = .init i ∨
    ∃ j h, act = .assign i j ∧ w.handles j = some h ∧ h.handle.owner = true

/-- Each target has one owner at most, and is released once at most. -/
structure SingleOwnership (w : World) : Prop where
  attached : ∀ i h, w.handles i = some h → h.handle.owner = true → h.isDetached = false
  unique : ∀ i j h g, w.handles i = some h → w.handles j = some g → i ≠ j →
    h.isOwner → g.isOwner → h.address? ≠ g.address?
  /-- What has an owner is alive. -/
  alive : ∀ i h, w.handles i = some h → h.isOwner →
    ∃ x v, h.address? = some x ∧ w.heap x = some ⟨h.target, v⟩
  /-- The block of what is alive is not free. -/
  held : ∀ (s o : Nat) c, w.heap (.place s o) = some c → w.process.Holds s o
  /-- A handle that was led to a target is no owner until it gets another target by `init`, or by
  `assign` from an owner. -/
  led : ∀ i act w₁ w₂, act = .lead i ∨ act = .follow i → Step w act w₁ →
    Relation.ReflTransGen (fun u u' => ∃ act, Step u act u' ∧ ¬ u.Entitles i act) w₁ w₂ →
    ∀ h, w₂.handles i = some h → h.handle.owner = false
  /-- Whoever takes over from another handle has its target and its flag, and the other has none. -/
  assigned : ∀ i j w', Step w (.assign i j) w' → ∃ (t : Target) (k : Kind) (h : Handle t k),
    w.handles j = some ⟨t, k, h⟩ ∧ w'.handles i = some ⟨t, k, h⟩ ∧
      w'.handles j = some ⟨t, k, .detached⟩
  /-- What is released is alive before, and afterwards its block heads the chain of free blocks. -/
  released : ∀ act w', Step w act w' → ∀ (s o : Nat) mid,
    w'.history = .released (.place s o) :: (mid ++ w.history) →
      ∃ c, w.heap (.place s o) = some c ∧ w'.process.Returned s o c.target.layout
  /-- Between two releases at one address a new target was built there. -/
  once : ∀ x later mid past, w.history = later ++ .released x :: (mid ++ .released x :: past) →
    ∃ c, .built x c ∈ mid

namespace Sound

variable {w w' : World} {act : Act} {i j : Nat} {h g : AnyHandle}

theorem handles_made {t : Target} {k : Kind} {v : t.Val} {y : Layout} {bs : List Patch}
    {gone : Option Address} (hm : w.Made i t k v y bs gone w') (hj : w'.handles j = some h) :
    w.handles j = some h ∨ j = i := by
  rcases hm with ⟨p', rfl⟩ | ⟨z, p', rfl, -⟩
  · exact .inl hj
  · rcases of_update_some hj with ⟨hji, -⟩ | hj
    · exact .inr hji
    · exact .inl hj

/-- Where the handles come from that there are after an operation. -/
theorem handles_step (hw : w.Sound) (hs : Step w act w') (hi : w'.handles i = some h) :
    w.handles i = some h ∨ act = .build i ∨ act = .init i ∨
      (h.handle.owner = false ∧ (act = .lead i ∨ act = .follow i)) ∨
      (∃ j, act = .assign i j ∧ w.handles j = some h) ∨
      ∃ j, act = .assign j i ∧ h.handle.owner = false := by
  cases hs with
  | allocate ha hy =>
    rw [allocate_handles] at hi
    exact .inl hi
  | free | write | abandon | enroll => exact .inl hi
  | build hi' ha ht k args =>
    rcases handles_made (hw.make hi' (hw.makes_build ha ht args)).2 hi with hi | rfl
    · exact .inl hi
    · exact .inr (.inl rfl)
  | buildAt hi' hb ha ht hh args =>
    rcases handles_made (hw.make hi' (hw.makes_buildAt hb ha ht hh args)).2 hi with hi | rfl
    · exact .inl hi
    · exact .inr (.inl rfl)
  | init hi' ha ht args =>
    rcases handles_made (hw.remake hi' (hw.makes_build ha ht args)).2 hi with hi | rfl
    · exact .inl hi
    · exact .inr (.inr (.inl rfl))
  | initAt hi' hb ha ht hh args =>
    rcases handles_made (hw.remake hi' (hw.makes_buildAt hb ha ht hh args)).2 hi with hi | rfl
    · exact .inl hi
    · exact .inr (.inr (.inl rfl))
  | lead hi' hv =>
    obtain ⟨-, p', heq | ⟨g, hg, heq⟩⟩ := hw.lead hi' hv <;> rw [heq] at hi
    · exact .inl hi
    · rcases of_update_some hi with ⟨rfl, rfl⟩ | hi
      · exact .inr (.inr (.inr (.inl ⟨hg, .inl rfl⟩)))
      · exact .inl hi
  | follow hi' hx =>
    obtain ⟨-, p', heq, -⟩ := hw.follow hi' hx
    rw [heq] at hi
    rcases of_update_some hi with ⟨rfl, rfl⟩ | hi
    · exact .inr (.inr (.inr (.inl ⟨rfl, .inr rfl⟩)))
    · exact .inl hi
  | assign hij hi' hj =>
    obtain ⟨-, p', heq, -⟩ := hw.assign hij hi' hj
    rw [heq] at hi
    rcases of_update_some hi with ⟨rfl, rfl⟩ | hi
    · exact .inr (.inr (.inr (.inr (.inr ⟨_, rfl, rfl⟩))))
    · rcases of_update_some hi with ⟨rfl, rfl⟩ | hi
      · exact .inr (.inr (.inr (.inr (.inl ⟨_, rfl, hj⟩))))
      · exact .inl hi
  | set hi' hl v =>
    obtain ⟨-, p', heq⟩ := hw.set hi' hl v
    rw [heq] at hi
    exact .inl hi
  | push hi' hl v =>
    obtain ⟨-, heq | ⟨p', heq⟩⟩ := hw.push hi' hl v <;> rw [heq] at hi <;> exact .inl hi
  | destroy | drop => exact .inl (of_update_none hi).2

/-- Nobody becomes an owner except by building a target or by taking over from an owner. -/
theorem not_owner_step (hw : w.Sound) (hs : Step w act w') (he : ¬ w.Entitles i act)
    (ho : ∀ h, w.handles i = some h → h.handle.owner = false) (hi : w'.handles i = some h) :
    h.handle.owner = false := by
  rcases hw.handles_step hs hi with hi | rfl | rfl | ⟨ho, -⟩ | ⟨j, rfl, hj⟩ | ⟨j, rfl, ho⟩
  · exact ho h hi
  · exact absurd (.inl rfl) he
  · exact absurd (.inr (.inl rfl)) he
  · exact ho
  · cases hown : h.handle.owner with
    | false => rfl
    | true => exact absurd (.inr (.inr ⟨j, h, rfl, hj, hown⟩)) he
  · exact ho

theorem not_owner_of_led (hw : w.Sound) (hs : Step w act w') (ha : act = .lead i ∨ act = .follow i)
    (hi : w'.handles i = some h) : h.handle.owner = false := by
  rcases ha with rfl | rfl
  · cases hs with
    | lead hi' hv =>
      obtain ⟨-, p', heq | ⟨g, hg, heq⟩⟩ := hw.lead hi' hv <;> rw [heq] at hi
      · cases hi'.symm.trans hi
      · obtain rfl := of_update_self hi
        exact hg
  · cases hs with
    | follow hi' hx =>
      obtain ⟨-, p', heq, -⟩ := hw.follow hi' hx
      rw [heq] at hi
      obtain rfl := of_update_self hi
      rfl

theorem led (hw : w.Sound) {w₁ w₂ : World} (ha : act = .lead i ∨ act = .follow i)
    (hs : Step w act w₁)
    (hr : Relation.ReflTransGen (fun u u' => ∃ act, Step u act u' ∧ ¬ u.Entitles i act) w₁ w₂) :
    w₂.Sound ∧ ∀ h, w₂.handles i = some h → h.handle.owner = false := by
  induction hr with
  | refl => exact ⟨hw.step hs, fun h hi => hw.not_owner_of_led hs ha hi⟩
  | tail _ hs' ih =>
    obtain ⟨act', hs', he⟩ := hs'
    exact ⟨ih.1.step hs', fun h hi => ih.1.not_owner_step hs' he ih.2 hi⟩

theorem assigned (hw : w.Sound) (hs : Step w (.assign i j) w') :
    ∃ (t : Target) (k : Kind) (h : Handle t k), w.handles j = some ⟨t, k, h⟩ ∧
      w'.handles i = some ⟨t, k, h⟩ ∧ w'.handles j = some ⟨t, k, .detached⟩ := by
  cases hs with
  | @assign _ _ hij t k h other hi hj =>
    obtain ⟨-, p', heq, -⟩ := hw.assign hij hi hj
    refine ⟨t, k, other, hj, ?_, ?_⟩ <;> rw [heq]
    · exact (Function.update_of_ne hij ..).trans (Function.update_self ..)
    · exact Function.update_self ..

/-- What an operation releases was alive, and its block is the one that was returned last. -/
theorem released_step (hw : w.Sound) (hs : Step w act w') {s o : Nat} {mid : List Deed}
    (hh : w'.history = .released (.place s o) :: (mid ++ w.history)) :
    ∃ c, w.heap (.place s o) = some c ∧ w'.process.Returned s o c.target.layout := by
  obtain ⟨gone, ds, ha⟩ := hw.adds hs
  have hds := ha.history.symm.trans hh
  rw [← List.append_assoc, ← List.cons_append] at hds
  have hds := List.append_cancel_right hds
  cases gone with
  | none =>
    obtain rfl : ds = _ := hds
    exact absurd List.mem_cons_self (ha.kept (.place s o))
  | some x =>
    obtain rfl := Deed.released.inj (List.cons.inj hds).1
    obtain ⟨-, c, hc, hret⟩ := ha.gone _ rfl
    exact ⟨c, hc, hret s o rfl⟩

end Sound

/-- Whatever is done with handles, each target has one owner at most, and is released once at
most. -/
theorem singleOwnership_of_reachable {rs : List (AllocatorId × Region)} {p : Process}
    (hr : Ready rs p) {w : World} (h : Reachable rs p w) : w.SingleOwnership := by
  have hw := Sound.reachable hr h
  refine ⟨hw.attached, fun i j g g' hi hj hij ho ho' ha => ?_, hw.named,
    fun s o c => hw.stands.holds, fun i act w₁ w₂ ha hs hrun => (hw.led ha hs hrun).2,
    fun i j w' hs => hw.assigned hs, fun act w' hs s o mid hh => hw.released_step hs hh,
    fun x later mid past hh => ?_⟩
  · obtain ⟨x, v, hx, -⟩ := hw.named i g hi ho
    exact hij (hw.unique i j x ⟨g, hi, ho, hx⟩ ⟨g', hj, ho', ha ▸ hx⟩)
  · have hf := hw.fair
    rw [hh] at hf
    exact hf.of_append.exists_built

/-- An owner of a number in the page. -/
def numberAt (o : Nat) : AnyHandle :=
  ⟨.plain (.int .u64), .unique, some ⟨.place 0 o, some ⟨page⟩⟩, true⟩

/-- A handle owns a number in a page. -/
@[irreducible] def pageOwner : World :=
  (start [(⟨1, 0⟩, page)] pageProcess).build (t := .plain (.int .u64)) 0 .unique ⟨page⟩ 10#64

/-- Another handle owns another one. -/
@[irreducible] def pageOwners : World :=
  pageOwner.build (t := .plain (.int .u64)) 1 .unique ⟨page⟩ 20#64

/-- It takes over from the first one, and a third one borrows what it has. -/
@[irreducible] def pageTransfer : World :=
  (pageOwners.assign 1 0 (numberAt 336).handle (numberAt 320).handle).lead 2 (.borrow 1)

theorem pageOwner_reachable : Reachable [(⟨1, 0⟩, page)] pageProcess pageOwner := by
  unfold pageOwner
  exact .single ⟨_, .build rfl (page_serves List.mem_cons_self) (by decide) ..⟩

theorem pageOwners_reachable : Reachable [(⟨1, 0⟩, page)] pageProcess pageOwners := by
  have h : pageOwner.handles 1 = none ∧ page ∈ pageOwner.regions := by decide +kernel
  unfold pageOwners
  exact pageOwner_reachable.tail ⟨_, .build h.1 (page_serves h.2) (by decide) ..⟩

theorem pageTransfer_reachable : Reachable [(⟨1, 0⟩, page)] pageProcess pageTransfer := by
  have h : pageOwners.handles 0 = some (numberAt 320) ∧
      pageOwners.handles 1 = some (numberAt 336) ∧
      (pageOwners.assign 1 0 (numberAt 336).handle (numberAt 320).handle).handles 2 = none := by
    decide +kernel
  unfold pageTransfer
  exact (pageOwners_reachable.tail ⟨_, .assign (by decide) h.2.1 h.1⟩).tail ⟨_, .lead h.2.2 trivial⟩

/-- In the end the owner goes, and both numbers were released once. -/
theorem singleOwnership_pageTransfer :
    (pageTransfer.drop 1 (numberAt 320)).history = [.released (.place 0 320),
      .released (.place 0 336), .built (.place 0 336) ⟨.plain (.int .u64), 20#64⟩,
      .built (.place 0 320) ⟨.plain (.int .u64), 10#64⟩] ∧
    (pageTransfer.drop 1 (numberAt 320)).SingleOwnership := by
  have h : pageTransfer.handles 1 = some (numberAt 320) ∧
      pageTransfer.history = [.released (.place 0 336),
        .built (.place 0 336) ⟨.plain (.int .u64), 20#64⟩,
        .built (.place 0 320) ⟨.plain (.int .u64), 10#64⟩] := by
    decide +kernel
  refine ⟨congrArg (Deed.released (.place 0 320) :: ·) h.2, ?_⟩
  exact singleOwnership_of_reachable page_ready (pageTransfer_reachable.tail ⟨_, .drop h.1⟩)

end World

end SharedHeap
