import SharedHeap.Proofs.Sequences

/-!
# How many blocks a run hands out

Operations on handles and lists hand out blocks one by one, and return some of them. Whatever a
segment has handed out more after an operation than before, it has counted (`Process.Accounts`). So
a run from the start never has more blocks handed out than it has handed out altogether
(`World.Tally`), and as long as these are numbers that a word can count, its two counters tell how
many blocks there are.
-/

namespace SharedHeap

open SharedHeap.Action (Ends)

/-! ## One segment -/

namespace Process

variable {p p' p'' : Process} {s : Nat}

theorem handed_lt (p p' : Process) (s : Nat) : p.handed p' s < 2 ^ 64 := UInt64.toNat_lt _

theorem pending_of_bytes (h : p'.bytes s = p.bytes s) : p'.pending s = p.pending s := by
  rw [pending, h, pending]

/-- Whatever blocks of the segment are handed out more than before were handed out meanwhile. -/
def Accounts (p p' : Process) (s : Nat) : Prop := p'.pending s ≤ p.pending s + p.handed p' s

/-- No block of the segment is handed out, and no more are than before. -/
structure Eases (p p' : Process) (s : Nat) : Prop where
  handed : p.handed p' s = 0
  pending_le : p'.pending s ≤ p.pending s

theorem Eases.of_bytes (h : p'.bytes s = p.bytes s) : p.Eases p' s :=
  ⟨handed_of_bytes h, Nat.le_of_eq (pending_of_bytes h)⟩

theorem Eases.accounts (h : p.Eases p' s) : p.Accounts p' s := Nat.le_add_right_of_le h.pending_le

theorem Accounts.of_bytes (h : p'.bytes s = p.bytes s) : p.Accounts p' s :=
  (Eases.of_bytes h).accounts

theorem Accounts.trans_eases (h : p.Accounts p' s) (h' : p'.Eases p'' s) : p.Accounts p'' s := by
  have hlt : p.handed p' s + p'.handed p'' s < 2 ^ 64 := by
    rw [h'.handed, Nat.add_zero]
    exact handed_lt ..
  rw [Accounts, handed_trans hlt, h'.handed, Nat.add_zero]
  exact Nat.le_trans h'.pending_le h

end Process

namespace Estate

variable {p p' : Process} {rs : List Region} {r : Region} {xs : List Plot} {s : Nat}

/-- Some blocks of one segment are exchanged for others, and there are more of these by no more than
were handed out. -/
theorem accounts (zs ws : List Plot) (h : Estate p rs (zs ++ xs)) (h' : Estate p' rs (ws ++ xs))
    (hz : ∀ x ∈ zs, x.segment = s) (hw : ∀ x ∈ ws, x.segment = s)
    (hn : ws.length ≤ zs.length + p.handed p' s) (hr : r ∈ rs) : p.Accounts p' r.segment := by
  rw [Process.Accounts, h.pending hr, h'.pending hr, Plot.within_append, Plot.within_append,
    List.length_append, List.length_append]
  by_cases hs : s = r.segment
  · subst hs
    rw [Plot.within_of_forall hz, Plot.within_of_forall hw, List.length_map, List.length_map]
    omega
  · have hnone : Plot.within r.segment ws = [] :=
      Plot.within_eq_nil fun x hx he => hs ((hw x hx).symm.trans he)
    rw [hnone, List.length_nil]
    omega

end Estate

/-! ## Operations -/

namespace Handle

variable {t : Target} {k : Kind}

theorem state_build (a : Allocator) (args : t.Args) (p : Process) :
    ((build a args : Action _ _ (Handle t k)) p).state = (t.build a args p).state :=
  congrArg Ran.state (Action.andThen_pure ..)

theorem state_buildAt (x : Address) (a : Allocator) (args : t.Args) (p : Process) :
    ((buildAt x a args : Action _ _ (Handle t k)) p).state = (t.buildAt x a args p).state :=
  congrArg Ran.state (Action.andThen_pure ..)

theorem state_assign (g f : Handle t k) (p : Process) {ε : Type} :
    ((g.assign f : Action Process ε _) p).state = ((g.replace f : Action _ ε _) p).state :=
  congrArg Ran.state (Action.andThen_pure ..)

end Handle

namespace World

variable {w w' : World} {act : Act} {r : Region} {i : Nat} {t : Target} {k : Kind}

namespace Sound

theorem accounts_allocate (hw : w.Sound) {a : Allocator} (ha : a.Serves w.regions) {y : Layout}
    (hy : y.Valid) (hr : r ∈ w.regions) :
    w.process.Accounts (a.allocate y w.process).state r.segment := by
  obtain ⟨xs, he⟩ := hw.estate
  obtain ⟨r₀, hr₀, hover⟩ := ha
  rcases he.allocate hr₀ hover hy with ⟨o, p', hal, he', -⟩ | ⟨e, hal⟩
  · have hn := (he.deals_allocate hr₀ hover hy hal).handed
    rw [hal.state]
    exact he.accounts [] [⟨r₀.segment, y.extent o⟩] he' nofun
      (List.forall_mem_singleton.2 rfl) (Nat.le_of_eq (hn.symm.trans (Nat.zero_add _).symm)) hr
  · rw [hal.state]
    exact .of_bytes rfl

theorem accounts_free (hw : w.Sound) {b : Patch} (hb : b ∈ w.patches) {a : Allocator}
    (ha : Resolved.Fits ⟨b.address, a⟩ w.regions) (hr : r ∈ w.regions) :
    w.process.Accounts (w.free a b).process r.segment := by
  obtain ⟨items, lost, hlaid, -⟩ := hw.stands
  obtain ⟨hv, hle⟩ := hlaid.patches b hb
  have he := hlaid.patch hb
  obtain ⟨s, o, y⟩ := b
  obtain ⟨r₀, hr₀, hover, d, hd⟩ := ha
  obtain rfl : s = r₀.segment := (Address.place.inj hd).1
  obtain ⟨p', hf, he', -⟩ := he.free (ε := MemoryError) hr₀ hover hle hv
  have hstate : (w.free a ⟨r₀.segment, o, y⟩).process = p' := hf.state
  rw [hstate]
  exact he.accounts [y.plot r₀.segment o] [] he' (List.forall_mem_singleton.2 rfl) nofun
    (Nat.zero_le _) hr

theorem accounts_write (hw : w.Sound) {b : Patch} (hb : b ∈ w.patches) {n : Nat} {vs : List UInt8}
    (hn : n + vs.length ≤ b.plot.extent.size) (hr : r ∈ w.regions) :
    w.process.Accounts (w.write b n vs).process r.segment := by
  obtain ⟨items, lost, hlaid, -⟩ := hw.stands
  have hoff : b.plot.extent.offset = b.offset := rfl
  have hstop : b.plot.extent.stop = b.offset + b.plot.extent.size := rfl
  have he : Estate w.process w.regions (⟨b.segment, b.plot.extent⟩ :: _) := hlaid.patch hb
  obtain ⟨p', hst, he', -⟩ := he.store (ε := MemoryError) (i := b.offset + n) vs (by omega)
    (by omega)
  rw [Int.natCast_add] at hst
  have hstate : (w.write b n vs).process = p' := hst.state
  rw [hstate]
  exact he.accounts [b.plot] [b.plot] he' (List.forall_mem_singleton.2 rfl)
    (List.forall_mem_singleton.2 rfl) (Nat.le_add_right ..) hr

theorem accounts_build (hw : w.Sound) {a : Allocator} (ha : a.Serves w.regions) (ht : t.Valid)
    (args : t.Args) (hr : r ∈ w.regions) :
    w.process.Accounts ((Handle.build a args : Action _ _ (Handle t k)) w.process).state
      r.segment := by
  obtain ⟨xs, he⟩ := hw.estate
  obtain ⟨r₀, hr₀, hover⟩ := ha
  obtain ⟨out, p', hb, -, hout⟩ := Target.build_ends hr₀ hover ht he args
  rw [Handle.state_build, hb.state]
  cases out with
  | ok x =>
    obtain ⟨o, -, -, he', -, hn⟩ := hout
    exact he.accounts [] _ he' nofun (fun _ => t.segment_plots) (Nat.le_add_left_of_le hn) hr
  | error e => exact he.accounts (s := r₀.segment) [] [] hout.1 nofun nofun (Nat.zero_le _) hr
  | fault f =>
    obtain ⟨-, lost, he', hlost, hn⟩ := hout
    exact he.accounts [] lost he' nofun hlost (Nat.le_add_left_of_le hn) hr

theorem accounts_buildAt (hw : w.Sound) {b : Patch} (hb : b ∈ w.patches) {a : Allocator}
    (ha : Resolved.Fits ⟨b.address, a⟩ w.regions) (ht : t.Valid) (hh : b.Hosts t k)
    (args : t.Args) (hr : r ∈ w.regions) :
    w.process.Accounts ((Handle.buildAt b.address a args : Action _ _ (Handle t k))
      w.process).state r.segment := by
  obtain ⟨items, lost, hlaid, -⟩ := hw.stands
  have he := hlaid.patch hb
  obtain ⟨s, o, y⟩ := b
  obtain ⟨r₀, hr₀, hover, d, hd⟩ := ha
  obtain rfl : s = r₀.segment := (Address.place.inj hd).1
  obtain ⟨out, p', hba, -, hout⟩ := Target.buildAt_ends hr₀ hover ht hh.1.room he args
  have hplot : ∀ x ∈ [y.plot r₀.segment o], x.segment = r₀.segment :=
    List.forall_mem_singleton.2 rfl
  rw [Handle.state_buildAt, show (t.buildAt (Patch.address ⟨r₀.segment, o, y⟩) a args
    w.process).state = p' from hba.state]
  cases out with
  | ok x =>
    obtain ⟨-, he', -, hn⟩ := hout
    exact he.accounts [y.plot r₀.segment o] _ he' hplot (fun _ => t.segment_plots)
      (Nat.le_trans hn (Nat.le_of_eq (Nat.add_comm ..))) hr
  | error e =>
    exact he.accounts [y.plot r₀.segment o] [y.plot r₀.segment o] hout hplot hplot
      (Nat.le_add_right ..) hr
  | fault f =>
    obtain ⟨-, lost, he', hlost, hn⟩ := hout
    refine he.accounts [y.plot r₀.segment o] (y.plot r₀.segment o :: lost) he' hplot
      (List.forall_mem_cons.2 ⟨rfl, hlost⟩) ?_ hr
    rw [List.length_cons, Nat.add_comm]
    exact Nat.add_le_add_left hn 1

theorem accounts_set (hw : w.Sound) {e : Plain} {g : Handle (.plain e) k}
    (hi : w.handles i = some ⟨.plain e, k, g⟩)
    (hl : ∀ x, (AnyHandle.mk _ k g).address? = some x → ∃ v, w.heap x = some ⟨.plain e, v⟩)
    (v : e.Val) (hr : r ∈ w.regions) : w.process.Accounts (w.set g v).process r.segment := by
  rw [process_set]
  cases hx : g.object with
  | none =>
    rw [(Handle.set_detached hx v w.process).state]
    exact .of_bytes rfl
  | some x =>
    obtain ⟨v₀, hv₀⟩ := hl _ (AnyHandle.address?_eq hx)
    obtain ⟨r₀, -, o, hlead⟩ := (hw.fits i _ hi x hx).leads hw.stands hv₀
    have haddr : x.address = .place r₀.segment o := hlead.address
    have hv₁ : w.heap (.place r₀.segment o) = some ⟨.plain e, v₀⟩ := haddr ▸ hv₀
    obtain ⟨items, lost, hlaid, -⟩ := hw.stands.focus hv₁
    have he := hlaid.estate
    rw [List.flatMap_cons, List.append_assoc] at he
    obtain ⟨p', hrep, he', -⟩ := Target.replace_ends (ε := HandleError) haddr
      (hlaid.lodged _ List.mem_cons_self).room he (hlaid.stored _ List.mem_cons_self).1 v
    have hrun : Ends (g.set v : Action Process HandleError Unit) w.process (.ok ()) p' := by
      rw [Handle.set, Handle.target, hx]
      exact .bind .pure hrep
    rw [hrun.state]
    exact he.accounts _ _ he' (fun _ => Target.segment_plots _) (fun _ => Target.segment_plots _)
      (Nat.le_add_right ..) hr

theorem accounts_push (hw : w.Sound) {e : Plain} {g : Handle (.list e) k}
    (hi : w.handles i = some ⟨.list e, k, g⟩)
    (hl : ∀ x, (AnyHandle.mk _ k g).address? = some x → ∃ vs, w.heap x = some ⟨.list e, vs⟩)
    (v : e.Val) (hr : r ∈ w.regions) : w.process.Accounts (w.push g v).process r.segment := by
  rw [process_push]
  cases hx : g.object with
  | none =>
    rw [(Handle.push_detached hx v w.process).state]
    exact .of_bytes rfl
  | some x =>
    obtain ⟨vs, hvs⟩ := hl _ (AnyHandle.address?_eq hx)
    obtain ⟨r₀, hr₀, o, hlead⟩ := (hw.fits i _ hi x hx).leads hw.stands hvs
    obtain ⟨y, xs, hheld, -⟩ := hw.stands.held hr₀ hlead hvs
    rw [Handle.push_eq hx]
    rcases hheld.push v with ⟨p', hd', hp, hheld', -, hc, hfull, hroom⟩ | ⟨-, out, -, -, -, hp⟩
    · have hn := (hheld.grows hc hfull hroom).length_rooms_le e
      have hplots (h : ListHeader) :
          ∀ x ∈ y.plot r₀.segment o :: h.rooms r₀.segment e, x.segment = r₀.segment :=
        List.forall_mem_cons.2 ⟨rfl, fun _ => ListHeader.segment_rooms⟩
      rw [hp.mapError.state]
      refine hheld.estate.accounts (_ :: _) (_ :: _) hheld'.estate (hplots _) (hplots _) ?_ hr
      rw [List.length_cons, List.length_cons, Nat.add_right_comm]
      exact Nat.succ_le_succ hn
    · rw [hp.mapError.state]
      exact .of_bytes rfl

/-! ### Giving up targets -/

theorem eases_retire (hw : w.Sound) {x : t.Ref} {v : t.Val} {a : Allocator} {ε : Type}
    (hf : t.Fits x w.regions) (ha : t.allocator? x = some a)
    (hx : w.heap (t.address x) = some ⟨t, v⟩) (hy : (w.layouts (t.address x)).Shares t.layout)
    (hr : r ∈ w.regions) :
    w.process.Eases ((t.destroy x true : Action Process ε _) w.process).state r.segment := by
  obtain ⟨r₀, hr₀, o, hl⟩ := hf.leads hw.stands hx
  have hover := hl.allocator a ha
  rw [hl.address] at hx hy
  obtain ⟨items, lost, hlaid, -⟩ := hw.stands.focus hx
  have he := hlaid.estate
  rw [List.flatMap_cons, List.append_assoc] at he
  obtain ⟨x', p', hd, he', -, -, hn⟩ := Target.destroy_ends (ε := ε) hr₀ hl ha hy
    (hlaid.lodged _ List.mem_cons_self).suits.align_le he (hlaid.stored _ List.mem_cons_self)
  by_cases hs : r.segment = r₀.segment
  · have hacc := he.accounts _ [] he' (fun _ => t.segment_plots) nofun (Nat.zero_le _) hr
    rw [Process.Accounts, hs, hn, Nat.add_zero] at hacc
    rw [hd.state, hs]
    exact ⟨hn, hacc⟩
  · -- nothing is stored in other segments
    refine .of_bytes ((Target.destroy_confined (S := (· = r₀.segment)) (fun a' ha' => ?_)
      true).retains w.process r.segment hs).bytes
    exact (hl.allocator a' ha').segment

theorem eases_part (hw : w.Sound) {g : Handle t k} (hi : w.handles i = some ⟨t, k, g⟩) {x : t.Ref}
    (hx : g.object = some x) {ε : Type}
    (hl : (AnyHandle.mk t k g).destroys? = some (t.address x) →
      (∃ v, w.heap (t.address x) = some ⟨t, v⟩) ∧ (w.layouts (t.address x)).Shares t.layout)
    (hr : r ∈ w.regions) :
    w.process.Eases ((t.destroy x k.isDestructible : Action Process ε _) w.process).state
      r.segment := by
  rcases AnyHandle.destroys?_cases (k := k) hx with ⟨hd, ⟨a, ha⟩, hdes⟩ | ⟨hd, -⟩
  · obtain ⟨⟨v, hv⟩, hy⟩ := hl hdes
    rw [hd]
    exact hw.eases_retire (hw.fits i _ hi x hx) ha hv hy hr
  · obtain ⟨x', hdest⟩ := Target.destroy_ends_of_not (ε := ε) hd w.process
    rw [hdest.state]
    exact .of_bytes rfl

theorem eases_release (hw : w.Sound) {g : Handle t k} (hi : w.handles i = some ⟨t, k, g⟩)
    {ε : Type} (hr : r ∈ w.regions) :
    w.process.Eases ((g.release : Action Process ε Unit) w.process).state r.segment := by
  cases hown : g.isOwner with
  | false =>
    rw [Handle.release, hown]
    exact .of_bytes rfl
  | true =>
    obtain ⟨y, v, hy, -⟩ := hw.named i _ hi hown
    obtain ⟨x, hx, rfl⟩ := Option.map_eq_some_iff.1 hy
    have hl := hw.alone hi hown (x := t.address x)
    have heases := hw.eases_part (ε := ε) hi hx (fun hd => ⟨(hl hd).1, (hl hd).2.1⟩) hr
    obtain ⟨x', p', hd, -⟩ := hw.part (ε := ε) hi hx hl
    have hrun : Ends (g.release : Action Process ε Unit) w.process (.ok ()) p' := by
      rw [Handle.release, hown, hx]
      exact .bind hd .pure
    rwa [hrun.state, ← hd.state]

theorem eases_replace (hw : w.Sound) {g f : Handle t k} (hi : w.handles i = some ⟨t, k, g⟩)
    {ε : Type} (hr : r ∈ w.regions) :
    w.process.Eases ((g.replace f : Action Process ε _) w.process).state r.segment := by
  have heases := hw.eases_release (ε := ε) hi hr
  obtain ⟨p', hrel, -⟩ := hw.release (ε := ε) hi
  rw [hrel.state] at heases
  rwa [(replace_ends hrel).state]

theorem eases_drop (hw : w.Sound) {g : AnyHandle} (hi : w.handles i = some g) {ε : Type}
    (hr : r ∈ w.regions) :
    w.process.Eases ((g.handle.drop : Action Process ε Unit) w.process).state r.segment := by
  have heases := hw.eases_release (ε := ε) hi hr
  obtain ⟨p', hrel, -⟩ := hw.release (ε := ε) hi
  rw [hrel.state] at heases
  rwa [(drop_ends hrel).state]

theorem eases_destroy (hw : w.Sound) {g : AnyHandle} (hi : w.handles i = some g)
    (hd : g.isOwner = false → ∀ x, g.destroys? = some x →
      (∃ v, w.heap x = some ⟨g.target, v⟩) ∧ (w.layouts x).Shares g.target.layout ∧
        ∀ j, ¬ w.Owns j x) {ε : Type} (hr : r ∈ w.regions) :
    w.process.Eases ((g.handle.destroy : Action Process ε Unit) w.process).state r.segment := by
  obtain ⟨t, k, g⟩ := g
  cases hx : g.object with
  | none =>
    rw [Handle.destroy, hx]
    exact .of_bytes rfl
  | some x =>
    have hl := hw.alone_of_destroys hi hd (x := t.address x)
    have heases := hw.eases_part (ε := ε) hi hx (fun hdes => ⟨(hl hdes).1, (hl hdes).2.1⟩) hr
    obtain ⟨x', p', hdest, -⟩ := hw.part (ε := ε) hi hx hl
    have hrun : Ends (g.destroy : Action Process ε Unit) w.process (.ok ()) p' := by
      rw [Handle.destroy, hx]
      exact .bind hdest.onFault .pure
    rwa [hrun.state, ← hdest.state]

/-- A handle that gets a new target gives up its old one after that. -/
theorem accounts_remake (hw : w.Sound) {g : Handle t k} (hi : w.handles i = some ⟨t, k, g⟩)
    {x : Action Process HandleError (Handle t k)} {v : t.Val} {y : Layout} {bs : List Patch}
    (hm : w.Makes x v y bs) (hr : r ∈ w.regions)
    (hx : w.process.Accounts (x w.process).state r.segment) :
    w.process.Accounts ((.attempt x >>= g.renewed : Action Process HandleError _) w.process).state
      r.segment := by
  obtain ⟨-, out, p₁, hrun, hreg, hout⟩ := hm
  rw [hrun.state] at hx
  cases out with
  | ok f =>
    obtain ⟨z, rfl, hf, hn, hs⟩ := hout
    have h₁ := hw.built hn hs hreg
    have heases := h₁.eases_release (ε := HandleError) hi hr
    obtain ⟨p₂, hrel, -⟩ := h₁.release (ε := HandleError) hi
    rw [hrel.state] at heases
    rw [(hrun.attempt.bind (renewed_ends hrel)).state]
    exact hx.trans_eases heases
  | error e =>
    rw [(hrun.attempt_error.bind (renewed_error g e p₁)).state]
    exact hx
  | fault f =>
    rw [(Ends.bind_fault hrun.attempt_fault).state]
    exact hx

/-! ## Runs -/

theorem accounts_step (hw : w.Sound) (hs : Step w act w') (hr : r ∈ w.regions) :
    w.process.Accounts w'.process r.segment := by
  cases hs with
  | allocate ha hy =>
    rw [process_allocate]
    exact hw.accounts_allocate ha hy hr
  | free hb ha => exact hw.accounts_free hb ha hr
  | write hb hi => exact hw.accounts_write hb hi hr
  | abandon | enroll => exact .of_bytes rfl
  | build hi ha ht k args =>
    rw [build, process_make]
    exact hw.accounts_build ha ht args hr
  | buildAt hi hb ha ht hh args =>
    rw [buildAt, process_make]
    exact hw.accounts_buildAt hb ha ht hh args hr
  | lead hi hv =>
    rw [process_lead]
    exact .of_bytes ((seen_confined (S := fun _ => False) w _).retains _ _ id).bytes
  | follow hi hx =>
    rw [process_follow]
    exact (hw.eases_replace hi hr).accounts
  | init hi ha ht args =>
    rw [init, process_remake]
    exact hw.accounts_remake hi (hw.makes_build ha ht args) hr (hw.accounts_build ha ht args hr)
  | initAt hi hb ha ht hh args =>
    rw [initAt, process_remake]
    exact hw.accounts_remake hi (hw.makes_buildAt hb ha ht hh args) hr
      (hw.accounts_buildAt hb ha ht hh args hr)
  | assign hij hi hj =>
    rw [process_assign, Handle.state_assign]
    exact (hw.eases_replace hi hr).accounts
  | set hi hl v => exact hw.accounts_set hi hl v hr
  | push hi hl v => exact hw.accounts_push hi hl v hr
  | destroy hi hd => exact (hw.eases_destroy hi hd hr).accounts
  | drop hi => exact (hw.eases_drop hi hr).accounts

end Sound

/-- A run from the start that handed out so many blocks of each segment. -/
inductive Tally (rs : List (AllocatorId × Region)) (p : Process) : World → (Nat → Nat) → Prop
  | start : Tally rs p (start rs p) fun _ => 0
  | step {w w' : World} {act : Act} {n : Nat → Nat} (h : Tally rs p w n) (hs : Step w act w') :
    Tally rs p w' fun s => n s + w.process.handed w'.process s

namespace Tally

variable {rs : List (AllocatorId × Region)} {p : Process} {n : Nat → Nat}

theorem reachable (h : Tally rs p w n) : Reachable rs p w := by
  induction h with
  | start => exact .refl
  | step _ hs ih => exact ih.tail ⟨_, hs⟩

/-- The counter of a region tells how many blocks were handed out, and there are no more of them
now. -/
theorem counts (hrs : Ready rs p) (h : Tally rs p w n) :
    ∀ r ∈ w.regions, Header.allocations (w.process.bytes r.segment) = .ofNat (n r.segment) ∧
      w.process.pending r.segment ≤ n r.segment := by
  induction h with
  | start =>
    intro r hr
    obtain ⟨he, -, hn⟩ := Sound.start_estate hrs
    exact ⟨hn r hr, Nat.le_of_eq (he.pending hr)⟩
  | @step w w' act n h hs ih =>
    intro r hr
    rw [regions_step hs] at hr
    obtain ⟨hn, hle⟩ := ih r hr
    have hacc := (Sound.reachable hrs h.reachable).accounts_step hs hr
    refine ⟨?_, Nat.le_trans hacc (Nat.add_le_add_right hle _)⟩
    rw [UInt64.ofNat_add, ← hn, Process.handed, UInt64.ofNat_toNat, UInt64.add_comm,
      UInt64.sub_add_cancel]

/-- As long as a word can count the blocks that were handed out, the counters tell how many of them
there are. -/
theorem live_ends (hrs : Ready rs p) (h : Tally rs p w n) (hr : r ∈ w.regions)
    (hn : n r.segment < 2 ^ 64) :
    ∃ l, r.Keeps w.process l ∧ ∀ a : Allocator, a.Over r →
      Ends ((a.stats w.process).live : Action Process MemoryError Nat) w.process
        (.ok l.live.length) w.process := by
  obtain ⟨xs, he⟩ := (Sound.reachable hrs h.reachable).estate
  obtain ⟨l, hk, hl⟩ := he.ledgers r hr
  obtain ⟨hcount, hle⟩ := h.counts hrs r hr
  refine ⟨l, hk, fun a ha => hk.live_ends_of_le ?_ ha⟩
  rw [he.pending hr, ← hl.length_eq] at hle
  rwa [hcount, toNat_word hn]

end Tally

end World

end SharedHeap
