import SharedHeap.Proofs.Registrars
import SharedHeap.Proofs.World

/-!
# What runs of handles keep up

`World.Sound` is what is true of a process with handles at any time: the targets that are alive
stand on the blocks which the regions have handed out, and each of them has one owner at most.
Whatever an operation on handles does is made of a few things that keep this up: a target comes to
be, changes or goes (`record`), a handle goes or comes (`vacate`, `bind`), and an owner lets go of
its target (`release`).
-/

namespace SharedHeap

open SharedHeap.Action (Ends)

/-- The target that a deed is about. -/
def Deed.address : Deed → Address
  | built x _ | stored x _ | pushed x _ _ | released x | abandoned x => x

/-- What is done only if the target is alive, or, if one is built, is not. -/
def Deed.Fair (H : Heap) : Deed → Prop
  | built x _ => H x = none
  | stored x c => ∃ v, H x = some ⟨c.target, v⟩
  | pushed x e _ => ∃ vs, H x = some ⟨.list e, vs⟩
  | released x | abandoned x => ∃ c, H x = some c

/-- All deeds of a history were fair when they were done. -/
def Fair : List Deed → Prop
  | [] => True
  | d :: past => d.Fair (standing past) ∧ Fair past

theorem standing_of_ne {d : Deed} {past : List Deed} {x : Address} (h : x ≠ d.address) :
    standing (d :: past) x = standing past x := by
  cases d <;> exact Function.update_of_ne h ..

theorem standing_built (x : Address) (c : Cell) (past : List Deed) :
    standing (.built x c :: past) x = some c := Function.update_self ..

theorem standing_released (x : Address) (past : List Deed) :
    standing (.released x :: past) x = none := Function.update_self ..

theorem standing_pushed {past : List Deed} {x : Address} {e : Plain} {vs : List e.Val}
    (h : standing past x = some ⟨.list e, vs⟩) (v : e.Val) :
    standing (.pushed x e v :: past) =
      Function.update (standing past) x (some ⟨.list e, vs ++ [v]⟩) := by
  simp only [standing, h, Option.map_some, Cell.push_list]

/-- What was alive before a target was built is not that target, so its release leaves the target
alive. -/
theorem standing_remade {past : List Deed} {x : Address} (c : Cell) {gone : Option Address}
    (hx : standing past x = none) (hg : ∀ y, gone = some y → ∃ c, standing past y = some c) :
    standing ((gone.map .released).toList ++ .built x c :: past) x = some c := by
  cases gone with
  | none => exact standing_built ..
  | some y =>
    obtain ⟨c', hc⟩ := hg y rfl
    have hne : x ≠ y := by
      rintro rfl
      rw [hx] at hc
      cases hc
    exact (standing_of_ne (d := .released y) hne).trans (standing_built ..)

theorem mem_history_of_map {d : Deed} (f : Address → Deed) {z : Option Address} {past : List Deed}
    (hd : d ∈ (z.map f).toList ++ past) (hf : ∀ x, d ≠ f x) : d ∈ past := by
  rcases List.mem_append.1 hd with hd | hd
  · obtain ⟨x, -, rfl⟩ := Option.map_eq_some_iff.1 (Option.mem_toList.1 hd)
    exact absurd rfl (hf x)
  · exact hd

section

variable {α : Type} {f : Nat → Option α} {i j : Nat} {a b : α}

theorem of_update_none (h : Function.update f i none j = some b) : j ≠ i ∧ f j = some b := by
  rw [Function.update_apply] at h
  split at h
  · cases h
  · next hji => exact ⟨hji, h⟩

theorem of_update_self (h : Function.update f i (some a) i = some b) : b = a :=
  Option.some.inj (h.symm.trans (Function.update_self ..))

theorem of_update_some (h : Function.update f i (some a) j = some b) :
    (j = i ∧ b = a) ∨ f j = some b := by
  rw [Function.update_apply] at h
  split at h
  · next hji => exact .inl ⟨hji, (Option.some.inj h).symm⟩
  · exact .inr h

end

namespace Target

variable {t : Target} {x : t.Ref} {r : Region} {rs : List Region} {o : Nat}

theorem Leads.fits (h : t.Leads x r o) (hr : r ∈ rs) : t.Fits x rs := fun _ ha =>
  ⟨r, hr, h.allocator _ ha, _, h.address⟩

theorem Fits.resolved (h : t.Fits x rs) {y : Resolved} (hy : t.resolved? x = some y) :
    y.Fits rs := by
  cases t with
  | plain e =>
    simp only [resolved?, PlainRef.resolved?] at hy
    split at hy
    · cases hy
    · obtain ⟨a, ha, rfl⟩ := Option.map_eq_some_iff.1 hy
      exact h a ha
  | list e =>
    obtain rfl := Option.some.inj hy
    exact h _ rfl

theorem fits_ofResolved {k : Kind} {y : Resolved} (h : y.Fits rs) :
    AnyHandle.Fits ⟨t, k, .ofResolved y⟩ rs := by
  rintro x ⟨⟩
  cases t <;> rintro a ⟨⟩ <;> exact h

/-- A reference whose allocator fits leads to the target that is alive at its address. -/
theorem Fits.leads {H : Heap} {L : Layouts} {p : Process} {bs : List Patch}
    {lossy : Nat → Prop} {c : Cell} (h : t.Fits x rs) (hs : H.Stands L p rs bs lossy)
    (hx : H (t.address x) = some c) :
    ∃ r ∈ rs, ∃ o : Nat, t.Leads x r o := by
  obtain ⟨r, hr, o, ho⟩ := hs.place hx
  obtain ⟨items, lost, hl, -⟩ := hs
  refine ⟨r, hr, o, ho, fun a ha => ?_⟩
  obtain ⟨r', hr', hover, d, hd⟩ := h a ha
  obtain ⟨hseg, -⟩ := Address.place.inj (ho.symm.trans hd)
  rwa [hl.estate.distinct r hr r' hr' hseg]

end Target

/-- What is found at an offset is the address of the offset, and not null. -/
theorem Allocator.of_resolve {a : Allocator} {p : Process} {o : Offset} {y : Layout} {x : Address}
    (h : a.resolve p o y = some x) : x = a.toAddress o ∧ x.isNull = false := by
  simp only [resolve] at h
  split at h
  · cases h
  · next hn =>
    split at h
    · obtain rfl := Option.some.inj h
      simp only [Bool.or_eq_true, not_or, Bool.not_eq_true] at hn
      exact ⟨rfl, hn.1⟩
    · cases h

theorem Allocator.resolve_place {a : Allocator} {p : Process} {o : Offset} {y : Layout}
    {x : Address} (h : a.resolve p o y = some x) : ∃ d, x = .place a.region.segment d := by
  obtain ⟨rfl, hn⟩ := of_resolve h
  simp only [toAddress, Region.toAddress] at hn ⊢
  split at hn
  · cases hn
  · next ho => exact ⟨_, if_neg ho⟩

namespace Registry

variable {g : Registry} {rs : List Region} {a : Allocator}

theorem Serves.of_get? (h : g.Serves rs) {id : AllocatorId} (ha : g.get? id = some a) :
    a.Serves rs := by
  obtain ⟨before, after, he, -⟩ := List.lookup_eq_some_iff.1 ha
  exact h (id, a) (he ▸ List.mem_append_right _ List.mem_cons_self)

/-- The allocator that is found for an address is that of its place. -/
theorem Serves.of_findOwner (h : g.Serves rs) {x : Address} (ha : g.findOwner x = some a) :
    Resolved.Fits ⟨x, a⟩ rs := by
  obtain ⟨e, he, rfl⟩ := Option.map_eq_some_iff.1 ha
  obtain ⟨r, hr, hover⟩ := h e (List.mem_of_find?_eq_some he)
  have hc := List.find?_some he
  refine ⟨r, hr, hover, ?_⟩
  cases x with
  | null => cases hc
  | place s d =>
    obtain ⟨rfl, -⟩ := Region.contains_place_iff.1 hc
    exact ⟨d, by rw [hover.segment]⟩

end Registry

namespace AnyHandle

variable {t : Target} {k : Kind} {h : Handle t k} {x : t.Ref}

theorem address?_eq (hx : h.object = some x) :
    (AnyHandle.mk t k h).address? = some (t.address x) := by simp [address?, hx]

theorem borrow?_fits {g g' : AnyHandle} {rs : List Region} (hf : g.Fits rs)
    (hg : g.handle.borrow?.map (⟨g.target, .borrowed, ·⟩) = some g') :
    g'.Fits rs ∧ g'.handle.owner = false := by
  obtain ⟨b, hb, rfl⟩ := Option.map_eq_some_iff.1 hg
  obtain ⟨y, hy, rfl⟩ := Option.map_eq_some_iff.1 hb
  obtain ⟨x, hx, hxy⟩ := Option.bind_eq_some_iff.1 hy
  exact ⟨Target.fits_ofResolved ((hf x hx).resolved hxy), rfl⟩

theorem clone?_fits {g g' : AnyHandle} {rs : List Region} (hf : g.Fits rs)
    (hg : g.clone? = some g') : g'.Fits rs ∧ g'.handle.owner = false := by
  obtain ⟨t, k, g⟩ := g
  rw [clone?] at hg
  split at hg
  · next hk =>
    obtain rfl : k = .borrowed := hk
    obtain rfl := Option.some.inj hg
    cases t with
    | plain e => exact ⟨hf, rfl⟩
    | list e =>
      refine ⟨?_, rfl⟩
      intro x hx
      obtain ⟨l, hl, rfl⟩ := Option.map_eq_some_iff.1 hx
      rintro a ⟨⟩
      exact hf l hl _ rfl
  · cases hg

theorem of_destroys? {g : AnyHandle} {y : Address} (hg : g.destroys? = some y) :
    g.address? = some y := by
  rw [destroys?] at hg
  split at hg
  · exact hg
  · cases hg

theorem of_releases? {g : AnyHandle} {y : Address} (hg : g.releases? = some y) :
    g.isOwner ∧ g.address? = some y := by
  rw [releases?] at hg
  split at hg
  · next ho => exact ⟨ho, of_destroys? hg⟩
  · cases hg

/-- What a new owner may release is on a block for its layout, if it was built on such a block. -/
theorem suited_owner {y : Layout} (hy : k.isDestructible → y.Shares t.layout) (L : Layouts)
    {z : Address} (hz : (AnyHandle.mk t k ⟨some x, true⟩).releases? = some z) :
    (Function.update L (t.address x) y z).Shares t.layout := by
  obtain ⟨-, hx⟩ := of_releases? hz
  obtain rfl : t.address x = z := Option.some.inj hx
  have hd : k.isDestructible := by
    by_contra hd
    simp [releases?, destroys?, hd] at hz
  rw [Function.update_self]
  exact hy hd

/-- What destroying a handle releases is its target, by the allocator that it knows. -/
theorem destroys?_cases (hx : h.object = some x) :
    (k.isDestructible = true ∧ (∃ a, t.allocator? x = some a) ∧
      (AnyHandle.mk t k h).destroys? = some (t.address x)) ∨
    ((k.isDestructible = false ∨ t.allocator? x = none) ∧
      (AnyHandle.mk t k h).destroys? = none) := by
  have ha : h.allocator? = t.allocator? x := by simp [Handle.allocator?, hx]
  simp only [destroys?, ha, address?_eq hx]
  cases k.isDestructible with
  | false => exact .inr ⟨.inl rfl, rfl⟩
  | true =>
    cases t.allocator? x with
    | none => exact .inr ⟨.inr rfl, rfl⟩
    | some a => exact .inl ⟨rfl, ⟨a, rfl⟩, rfl⟩

end AnyHandle

namespace World

/-- What is true of a process with handles at any time. Blocks that nobody will ever return are in
lossy segments. -/
structure Sound (w : World) (lossy : Nat → Prop := fun _ => True) : Prop where
  stands : w.heap.Stands w.layouts w.process w.regions w.patches lossy
  registry : ∀ g, w.process.registry = some g → g.Serves w.regions
  fits : ∀ i h, w.handles i = some h → h.Fits w.regions
  attached : ∀ i h, w.handles i = some h → h.handle.owner = true → h.isDetached = false
  /-- What has an owner is alive. -/
  named : ∀ i h, w.handles i = some h → h.isOwner →
    ∃ x v, h.address? = some x ∧ w.heap x = some ⟨h.target, v⟩
  unique : ∀ i j x, w.Owns i x → w.Owns j x → i = j
  /-- What an owner may release is on a block for its layout. -/
  suited : ∀ i h x, w.handles i = some h → h.releases? = some x →
    (w.layouts x).Shares h.target.layout
  fair : Fair w.history

namespace Sound

variable {w : World} {lossy : Nat → Prop} {p' : Process} {bs : List Patch} {i : Nat} {t : Target}
  {k : Kind}

theorem live_of_owns (h : w.Sound lossy) {x : Address} (hx : w.Owns i x) :
    ∃ c, w.heap x = some c := by
  obtain ⟨g, hg, ho, hgx⟩ := hx
  obtain ⟨y, v, hy, hH⟩ := h.named i g hg ho
  obtain rfl := Option.some.inj (hgx.symm.trans hy)
  exact ⟨_, hH⟩

/-! ## One thing at a time -/

/-- The process goes on, and no target is touched. -/
theorem proceed (h : w.Sound lossy) (hs : w.heap.Stands w.layouts p' w.regions bs lossy)
    (hr : ∀ g, p'.registry = some g → g.Serves w.regions) :
    Sound { w with process := p', patches := bs } lossy :=
  { h with stands := hs, registry := hr }

/-- Something happens to one target. Its owner, if it has one, still has a target. -/
theorem record (h : w.Sound lossy) {d : Deed} {L : Layouts} (hd : d.Fair w.heap)
    (hs : Heap.Stands (standing (d :: w.history)) L p' w.regions bs lossy)
    (hr : p'.registry = w.process.registry) (hL : ∀ i x, w.Owns i x → L x = w.layouts x)
    (ho : ∀ i, w.Owns i d.address → ∀ t v, w.heap d.address = some ⟨t, v⟩ →
      ∃ v', standing (d :: w.history) d.address = some ⟨t, v'⟩) :
    Sound { w with process := p', patches := bs, layouts := L, history := d :: w.history }
      lossy where
  stands := hs
  registry g hg := h.registry g (hr.symm.trans hg)
  fits := h.fits
  attached := h.attached
  named i g hi hown := by
    obtain ⟨x, v, hx, hH⟩ := h.named i g hi hown
    by_cases hd : x = d.address
    · subst hd
      obtain ⟨v', hv'⟩ := ho i ⟨g, hi, hown, hx⟩ _ _ hH
      exact ⟨_, v', hx, hv'⟩
    · exact ⟨x, v, hx, (standing_of_ne hd).trans hH⟩
  unique := h.unique
  suited i g x hi hx := by
    change (L x).Shares g.target.layout
    rw [hL i x ⟨g, hi, AnyHandle.of_releases? hx⟩]
    exact h.suited i g x hi hx
  fair := ⟨hd, h.fair⟩

theorem owns_of_vacate {x : Address} {j : Nat}
    (hj : Owns { w with handles := Function.update w.handles i none } j x) :
    j ≠ i ∧ w.Owns j x := by
  obtain ⟨g, hg, ho⟩ := hj
  obtain ⟨hji, hg⟩ := of_update_none hg
  exact ⟨hji, g, hg, ho⟩

theorem vacate (h : w.Sound lossy) (i : Nat) :
    Sound { w with handles := Function.update w.handles i none } lossy := by
  refine ⟨h.stands, h.registry, fun j g hj => h.fits j g (of_update_none hj).2,
    fun j g hj => h.attached j g (of_update_none hj).2,
    fun j g hj => h.named j g (of_update_none hj).2, fun j j' x hj hj' => ?_,
    fun j g x hj => h.suited j g x (of_update_none hj).2, h.fair⟩
  exact h.unique j j' x (owns_of_vacate hj).2 (owns_of_vacate hj').2

/-- A new handle. If it is an owner, its target is alive, has no other one, and is on a block for
its layout if the handle may release it. -/
theorem bind (h : w.Sound lossy) (hi : w.handles i = none) {g : AnyHandle} (hf : g.Fits w.regions)
    (ha : g.handle.owner = true → g.isDetached = false)
    (ho : g.isOwner → ∃ x v, g.address? = some x ∧ w.heap x = some ⟨g.target, v⟩ ∧
      ∀ j, ¬ w.Owns j x)
    (hs : ∀ x, g.releases? = some x → (w.layouts x).Shares g.target.layout) :
    Sound { w with handles := Function.update w.handles i (some g) } lossy := by
  refine ⟨h.stands, h.registry, fun j g' hj => ?_, fun j g' hj => ?_, fun j g' hj hown => ?_,
    ?_, fun j g' x hj hx => ?_, h.fair⟩
  · rcases of_update_some hj with ⟨-, rfl⟩ | hj
    · exact hf
    · exact h.fits j g' hj
  · rcases of_update_some hj with ⟨-, rfl⟩ | hj
    · exact ha
    · exact h.attached j g' hj
  · rcases of_update_some hj with ⟨-, rfl⟩ | hj
    · obtain ⟨x, v, hx, hH, -⟩ := ho hown
      exact ⟨x, v, hx, hH⟩
    · exact h.named j g' hj hown
  · -- the new handle shares its target with no owner, so two owners are old ones or the same
    have hnew : ∀ j x, g.isOwner → g.address? = some x → ¬ w.Owns j x := by
      intro j x hgo hgx
      obtain ⟨y, v, hy, -, hno⟩ := ho hgo
      obtain rfl := Option.some.inj (hgx.symm.trans hy)
      exact hno j
    rintro j j' x ⟨g₁, hj, ho₁, hx₁⟩ ⟨g₂, hj', ho₂, hx₂⟩
    rcases of_update_some hj with ⟨rfl, rfl⟩ | hj₁ <;>
      rcases of_update_some hj' with ⟨rfl, rfl⟩ | hj₂
    · rfl
    · exact (hnew j' x ho₁ hx₁ ⟨g₂, hj₂, ho₂, hx₂⟩).elim
    · exact (hnew j x ho₂ hx₂ ⟨g₁, hj₁, ho₁, hx₁⟩).elim
    · exact h.unique j j' x ⟨g₁, hj₁, ho₁, hx₁⟩ ⟨g₂, hj₂, ho₂, hx₂⟩
  · rcases of_update_some hj with ⟨-, rfl⟩ | hj
    · exact hs x hx
    · exact h.suited j g' x hj hx

/-- A new handle that is no owner. -/
theorem bind_guest (h : w.Sound lossy) (hi : w.handles i = none) {g : AnyHandle}
    (hf : g.Fits w.regions) (ho : g.handle.owner = false) :
    Sound { w with handles := Function.update w.handles i (some g) } lossy := by
  have hn : ¬ g.isOwner := by simp [AnyHandle.isOwner, Handle.isOwner, ho]
  refine h.bind hi hf (fun hg => ?_) (fun hg => absurd hg hn) fun x hx => ?_
  · rw [ho] at hg
    cases hg
  · exact absurd (AnyHandle.of_releases? hx).1 hn

/-! ## Letting go of targets -/

theorem retire (h : w.Sound lossy) {x : t.Ref} {v : t.Val} {a : Allocator} {ε : Type}
    (hf : t.Fits x w.regions) (ha : t.allocator? x = some a)
    (hx : w.heap (t.address x) = some ⟨t, v⟩) (hy : (w.layouts (t.address x)).Shares t.layout)
    (ho : ∀ i, ¬ w.Owns i (t.address x)) :
    ∃ x' p', Ends (t.destroy x true : Action Process ε _) w.process (.ok x') p' ∧
      Sound { w with process := p', history := .released (t.address x) :: w.history } lossy ∧
      ∀ s o : Nat, t.address x = .place s o → p'.Returned s o t.layout := by
  obtain ⟨r, hr, o, hl⟩ := hf.leads h.stands hx
  obtain ⟨x', p', hd, hreg, hs, hret⟩ := h.stands.destroy (ε := ε) hr hl ha hx hy
  refine ⟨x', p', hd, h.record (d := .released _) ⟨_, hx⟩ hs hreg (fun _ _ _ => rfl)
    fun i hi => absurd hi (ho i), ?_⟩
  intro s o' hso
  obtain ⟨rfl, hoo⟩ := Address.place.inj (hso.symm.trans hl.address)
  obtain rfl := Int.ofNat.inj hoo
  exact hret

/-- What an owner may release is alive, on a block for its layout, and has no other owner. -/
theorem alone (h : w.Sound lossy) {g : AnyHandle} (hi : w.handles i = some g) (ho : g.isOwner)
    {x : Address} (hd : g.destroys? = some x) :
    (∃ v, w.heap x = some ⟨g.target, v⟩) ∧ (w.layouts x).Shares g.target.layout ∧
      ∀ j, j ≠ i → ¬ w.Owns j x := by
  have hx := AnyHandle.of_destroys? hd
  obtain ⟨y, v, hy, hv⟩ := h.named i g hi ho
  obtain rfl := Option.some.inj (hx.symm.trans hy)
  refine ⟨⟨v, hv⟩, h.suited i g x hi ?_, fun j hji hj => ?_⟩
  · rwa [AnyHandle.releases?, if_pos ho]
  · exact hji (h.unique j i x hj ⟨g, hi, ho, hx⟩)

/-- The target of a handle that goes is destroyed, if it may be. -/
theorem part (h : w.Sound lossy) {g : Handle t k} (hi : w.handles i = some ⟨t, k, g⟩) {x : t.Ref}
    (hx : g.object = some x) {ε : Type}
    (hl : (AnyHandle.mk t k g).destroys? = some (t.address x) →
      (∃ v, w.heap (t.address x) = some ⟨t, v⟩) ∧ (w.layouts (t.address x)).Shares t.layout ∧
        ∀ j, j ≠ i → ¬ w.Owns j (t.address x)) :
    ∃ x' p', Ends (t.destroy x k.isDestructible : Action Process ε _) w.process (.ok x') p' ∧
      Sound { w with
        process := p'
        handles := Function.update w.handles i none
        history := ((AnyHandle.mk t k g).destroys?.map .released).toList ++ w.history } lossy ∧
      ∀ s o : Nat, (AnyHandle.mk t k g).destroys? = some (.place s o) →
        p'.Returned s o t.layout := by
  rcases AnyHandle.destroys?_cases (k := k) hx with ⟨hd, ⟨a, ha⟩, hdes⟩ | ⟨hd, hdes⟩
  · obtain ⟨⟨v, hH⟩, hy, hno⟩ := hl hdes
    obtain ⟨x', p', hdest, hsound, hret⟩ := (h.vacate i).retire (ε := ε) (h.fits i _ hi x hx) ha hH
      hy fun j hj => hno j (owns_of_vacate hj).1 (owns_of_vacate hj).2
    rw [hdes, hd]
    exact ⟨x', p', hdest, hsound, fun s o hso => hret s o (Option.some.inj hso)⟩
  · obtain ⟨x', hdest⟩ := Target.destroy_ends_of_not (ε := ε) hd w.process
    rw [hdes]
    refine ⟨x', w.process, hdest, h.vacate i, fun s o hso => ?_⟩
    cases hso

/-- A handle lets go of its target: it releases it if it is the owner and may. -/
theorem release (h : w.Sound lossy) {g : Handle t k} (hi : w.handles i = some ⟨t, k, g⟩)
    {ε : Type} :
    ∃ p', Ends (g.release : Action Process ε Unit) w.process (.ok ()) p' ∧
      Sound { w with
        process := p'
        handles := Function.update w.handles i none
        history := ((AnyHandle.mk t k g).releases?.map .released).toList ++ w.history } lossy ∧
      ∀ s o : Nat, (AnyHandle.mk t k g).releases? = some (.place s o) →
        p'.Returned s o t.layout := by
  cases hown : g.isOwner with
  | false =>
    have hrel : (AnyHandle.mk t k g).releases? = none := by
      simp [AnyHandle.releases?, AnyHandle.isOwner, hown]
    rw [hrel]
    refine ⟨w.process, ?_, h.vacate i, nofun⟩
    rw [Handle.release, hown]
    exact .pure
  | true =>
    have hrel : (AnyHandle.mk t k g).releases? = (AnyHandle.mk t k g).destroys? := if_pos hown
    obtain ⟨y, v, hy, -⟩ := h.named i _ hi hown
    obtain ⟨x, hx, rfl⟩ := Option.map_eq_some_iff.1 hy
    obtain ⟨x', p', hd, hs, hret⟩ := h.part (ε := ε) hi hx (h.alone hi hown)
    rw [hrel]
    refine ⟨p', ?_, hs, hret⟩
    rw [Handle.release, hown, hx]
    exact .bind hd .pure

theorem drop_ends {g : Handle t k} {p p' : Process} {ε : Type}
    (h : Ends (g.release : Action Process ε Unit) p (.ok ()) p') :
    Ends (g.drop : Action Process ε Unit) p (.ok ()) p' := by
  rw [Handle.drop]
  split
  · exact .bind (Process.say_ends .pure) h
  · next hown =>
    rw [Handle.release, if_neg hown] at h
    exact h

theorem replace_ends {g f : Handle t k} {p p' : Process} {ε : Type}
    (h : Ends (g.release : Action Process ε Unit) p (.ok ()) p') :
    Ends (g.replace f : Action Process ε _) p (.ok f) p' := .bind h.onFault .pure

theorem renewed_ends {g f : Handle t k} {p p' : Process} {ε : Type}
    (h : Ends (g.release : Action Process ε Unit) p (.ok ()) p') :
    Ends (g.renewed (.ok f) : Action Process ε _) p (.ok (f, .ok ())) p' :=
  .bind (replace_ends h) .pure

/-- A handle that gets no new target is answered as it was. -/
theorem renewed_error (g : Handle t k) (e : HandleError) (p : Process) {ε : Type} :
    Ends (g.renewed (.error e) : Action Process ε _) p (.ok (g, .error e)) p := .pure

theorem serves (h : w.Sound lossy) (hr : p'.registry = w.process.registry) (g : Registry)
    (hg : p'.registry = some g) : g.Serves w.regions := h.registry g (hr.symm.trans hg)

/-! ## Blocks without targets -/

theorem allocate (h : w.Sound lossy) {a : Allocator} (ha : a.Serves w.regions) {y : Layout}
    (hy : y.Valid) : (w.allocate a y).Sound lossy := by
  obtain ⟨r, hr, hover⟩ := ha
  rcases h.stands.allocate hr hover hy with ⟨o, p', hal, hs, hreg, ho⟩ | ⟨e, hal⟩
  · have heq : w.allocate a y =
        { w with process := p', patches := ⟨r.segment, o, y⟩ :: w.patches } := by
      simp only [World.allocate, hal.outcome, hal.state, ho, hover.segment]
    rw [heq]
    exact h.proceed hs (h.serves hreg)
  · have heq : w.allocate a y = w := by
      simp only [World.allocate, hal.outcome, hal.state]
    rwa [heq]

theorem free (h : w.Sound lossy) {b : Patch} (hb : b ∈ w.patches) {a : Allocator}
    (ha : Resolved.Fits ⟨b.address, a⟩ w.regions) : (w.free a b).Sound lossy := by
  obtain ⟨r, hr, hover, d, hd⟩ := ha
  obtain ⟨p', hf, hs, hreg⟩ := h.stands.free (ε := MemoryError) hr hover hb
    (Address.place.inj hd).1
  simp only [World.free, hf.state]
  exact h.proceed hs (h.serves hreg)

theorem write (h : w.Sound lossy) {b : Patch} (hb : b ∈ w.patches) {n : Nat} {vs : List UInt8}
    (hn : n + vs.length ≤ b.plot.extent.size) : (w.write b n vs).Sound lossy := by
  obtain ⟨p', hst, hs, hreg⟩ := h.stands.write (ε := MemoryError) hb vs hn
  simp only [World.write, hst.state]
  exact h.proceed hs (h.serves hreg)

theorem abandon (h : w.Sound lossy) {s o : Nat} {c : Cell} (hc : w.heap (.place s o) = some c)
    (ho : ∀ i, ¬ w.Owns i (.place s o)) (hs : lossy s) : (w.abandon s o).Sound lossy :=
  h.record (d := .abandoned _) ⟨c, hc⟩ (h.stands.abandon hc hs) rfl (fun _ _ _ => rfl)
    fun i hi => absurd hi (ho i)

theorem enroll (h : w.Sound lossy) {g : Registry} (hg : g.Serves w.regions) :
    (w.enroll g).Sound lossy := by
  refine h.proceed (h.stands.congr rfl) ?_
  rintro g' ⟨⟩
  exact hg

end Sound

end World

end SharedHeap
