import SharedHeap.Proofs.Copies
import SharedHeap.Registry.Use

/-!
# Calls on registries

What each call on a registry answers, and which registry and which process it leaves behind, be it
after an error. The process-wide registry is found empty by whoever asks for it first, and calls on
it are calls on a registry.
-/

namespace SharedHeap

open SharedHeap.Action (Ends)

variable {p p' : Process} {ε α : Type}

/-- The process has the memory that it had, as it was, and perhaps more. -/
structure Process.Grows (p p' : Process) : Prop where
  size_le : p.segments.size ≤ p'.segments.size
  retains : ∀ s < p.segments.size, p.Retains p' s
  registry : p'.registry = p.registry

namespace Process.Grows

protected theorem refl (p : Process) : p.Grows p := ⟨Nat.le_refl _, fun _ _ => .refl .., rfl⟩

theorem asked (p : Process) : p.Grows p.asked :=
  ⟨Nat.le_refl _, fun _ _ => retains_of_segments rfl, rfl⟩

theorem extended (p : Process) (b : Bytes) : p.Grows (p.extended b) :=
  ⟨by simp [Process.extended], fun _ hs => retains_extended b hs, rfl⟩

/-- The memory that was granted is written. -/
theorem formatted (p : Process) (b c : Bytes) :
    p.Grows ((p.extended b).setBytes p.segments.size c) where
  size_le := by simp [Process.extended]
  retains _ hs := (retains_extended b hs).trans (retains_setBytes (Nat.ne_of_gt hs))
  registry := rfl

end Process.Grows

/-! ## New allocators -/

namespace Allocator

/-- The allocator over the region that the process obtains next. -/
def next (p : Process) (n : Nat) : Allocator := ⟨p.segments.size, n, true⟩

/-- Why there is no new allocator over `n` bytes, if there is none: none of them is asked for, they
are more than an object may have, the system does not grant them, or no header has room in them. -/
def denial? (p : Process) (n : Nat) : Option MemoryError :=
  if n = 0 then some (.regionTooSmall 0 1)
  else if (Layout.mk n Region.alignment).Valid ∧ p.grants n then
    if n < minRegionSize then some (.regionTooSmall n minRegionSize) else none
  else some (.regionAllocationFailed n)

theorem new_denied {n : Nat} {e : MemoryError} (id : AllocatorId) (h : denial? p n = some e) :
    ∃ p', Ends (new id n) p (.error e) p' ∧ p.Grows p' := by
  have hregion := Region.ofBytes_apply (.zeros n) p
  have hnew {e : MemoryError} {p' : Process}
      (h : Region.ofBytes (.zeros n) p = ⟨.error e, p', []⟩) : Ends (new id n) p (.error e) p' :=
    .bind_error ⟨congrArg Ran.outcome h, congrArg Ran.state h⟩
  rw [Bytes.size_zeros] at hregion
  unfold denial? at h
  by_cases h₀ : n = 0
  · rw [if_pos h₀] at h hregion
    cases h
    exact ⟨p, hnew hregion, .refl p⟩
  rw [if_neg h₀] at h hregion
  by_cases hv : (Layout.mk n Region.alignment).Valid
  · rw [if_pos hv] at hregion
    by_cases hg : p.grants n
    · -- the region is there, but no header has room in it
      rw [if_pos ⟨hv, hg⟩] at h
      split at h
      · next hmin =>
        cases h
        have hcheck : Ends (check ⟨p.segments.size, n, true⟩) (p.extended (.zeros n))
            (.error (.regionTooSmall n minRegionSize)) (p.extended (.zeros n)) := by
          refine .bind .get ?_
          rw [if_pos hmin]
          exact .throw
        exact ⟨_, .bind (Region.ofBytes_ends h₀ hv hg) (.bind_error hcheck), .extended ..⟩
      · cases h
    · rw [if_neg fun hc => hg hc.2] at h
      rw [if_neg hg] at hregion
      cases h
      exact ⟨_, hnew hregion, .asked p⟩
  · rw [if_neg fun hc => hv hc.1] at h
    rw [if_neg hv] at hregion
    cases h
    exact ⟨p, hnew hregion, .refl p⟩

theorem of_denial?_eq_none {n : Nat} (h : denial? p n = none) :
    n ≠ 0 ∧ (Layout.mk n Region.alignment).Valid ∧ p.grants n ∧ minRegionSize ≤ n := by
  unfold denial? at h
  split at h
  · cases h
  · next h₀ =>
    split at h
    · next hg =>
      split at h
      · cases h
      · next hmin => exact ⟨h₀, hg.1, hg.2, Nat.not_lt.1 hmin⟩
    · cases h

/-- A new allocator has a region of its own. -/
theorem new_granted {n : Nat} (id : AllocatorId) (h : denial? p n = none) :
    ∃ b, Ends (new id n) p (.ok (next p n)) ((p.extended (.zeros n)).setBytes p.segments.size b) ∧
      (next p n).region.Keeps ((p.extended (.zeros n)).setBytes p.segments.size b)
        (.fresh id n) := by
  obtain ⟨h₀, hv, hg, hmin⟩ := of_denial?_eq_none h
  have hnew : Ends (Region.new n) p (.ok ⟨p.segments.size, n, true⟩) (p.extended (.zeros n)) :=
    Region.ofBytes_ends h₀ hv hg
  have hback : Region.Backed ⟨p.segments.size, n, true⟩ (p.extended (.zeros n)) :=
    Process.backed_extended (b := .zeros n) hv
  obtain ⟨b, hc, hk, -⟩ := Region.Keeps.create id hback hmin (p.isAligned_extended _ n)
  exact ⟨b, .bind hnew hc, hk⟩

/-- Whether there is a new allocator, and why not. -/
theorem outcome_new (id : AllocatorId) (n : Nat) (p : Process) :
    (new id n p).outcome = (denial? p n).elim (.ok (next p n)) .error := by
  cases h : denial? p n with
  | some e =>
    obtain ⟨p', hnew, -⟩ := new_denied id h
    exact hnew.outcome
  | none =>
    obtain ⟨b, hnew, -⟩ := new_granted id h
    exact hnew.outcome

end Allocator

/-! ## Calls -/

namespace Registry

/-- The registry without an identity, and without the default that has it. -/
def without (g : Registry) (id : AllocatorId) (p : Process) : Registry :=
  { g.erase id with default := g.default.filter fun d => d.id p != id }

/-- The registry with an allocator that is its default. -/
def adding (g : Registry) (id : AllocatorId) (a : Allocator) : Registry :=
  { g.insert id a with default := some a }

end Registry

namespace Registrar

variable {s : Registrar} {a : Allocator} {id : AllocatorId}

theorem lift_ends {x : Action Process ε α} {o : Outcome ε α} (h : Ends x s.process o p) :
    Ends (lift x) s o { s with process := p } :=
  ⟨h.outcome, congrArg (fun p => { s with process := p }) h.state⟩

theorem say_ends {level : Log.Level} {text : String} :
    Ends (say level (pure text) : Action Registrar ε Unit) s (.ok ()) s :=
  lift_ends (Process.say_ends .pure)

theorem register_free (h : s.registry.get? (a.id s.process) = none) :
    Ends (register a) s (.ok ())
      { s with registry := s.registry.insert (a.id s.process) a } := by
  refine .bind .get ?_
  rw [if_neg (by simp [Registry.contains, h])]
  exact .bind .modify say_ends

theorem register_taken {b : Allocator} (h : s.registry.get? (a.id s.process) = some b) :
    Ends (register a) s (.error (.allocatorExists (a.id s.process))) s := by
  refine .bind .get ?_
  rw [if_pos (by simp [Registry.contains, h])]
  exact .throw

theorem unregister_found (h : s.registry.get? id = some a) :
    Ends (unregister id : Action Registrar ε _) s (.ok (some a))
      { s with registry := s.registry.without id s.process } := by
  refine .bind .get ?_
  simp only [h]
  exact .bind .modify (.bind .modify (.bind say_ends .pure))

theorem unregister_absent (h : s.registry.get? id = none) :
    Ends (unregister id : Action Registrar ε _) s (.ok none) s := by
  refine .bind .get ?_
  simp only [h]
  exact .pure

theorem resolve_found (h : s.registry.get? id = some a) : Ends (resolve id) s (.ok a) s := by
  refine .bind .get ?_
  simp only [h]
  exact .pure

theorem resolve_absent (h : s.registry.get? id = none) :
    Ends (resolve id) s (.error (.allocatorNotFound id)) s := by
  refine .bind .get ?_
  simp only [h]
  exact .bind say_ends .throw

theorem setDefault_found (h : s.registry.get? id = some a) :
    Ends (setDefault id) s (.ok ()) { s with registry.default := some a } :=
  .bind (resolve_found h) (.bind .modify say_ends)

theorem setDefault_absent (h : s.registry.get? id = none) :
    Ends (setDefault id) s (.error (.allocatorNotFound id)) s := .bind_error (resolve_absent h)

theorem default_current (h : s.registry.default = some a) :
    Ends defaultAllocator s (.ok a) s := by
  refine .bind .get ?_
  simp only [h]
  exact .pure

theorem default_adopted (h : s.registry.default = none)
    (ha : s.registry.get? s.registry.config.defaultId = some a) :
    Ends defaultAllocator s (.ok a) { s with registry.default := some a } := by
  refine .bind .get ?_
  simp only [h, ha]
  exact .bind .pure (.bind .modify .pure)

theorem default_made (h : s.registry.default = none)
    (hn : s.registry.get? s.registry.config.defaultId = none)
    (ha : Ends (Allocator.new s.registry.config.defaultId s.registry.config.regionSize) s.process
      (.ok a) p) (hid : a.id p = s.registry.config.defaultId) :
    Ends defaultAllocator s (.ok a) ⟨p, s.registry.adding s.registry.config.defaultId a⟩ := by
  have hr := register_free (s := ⟨p, s.registry⟩) (a := a) (hid.symm ▸ hn)
  simp only [hid] at hr
  refine .bind .get ?_
  simp only [h, hn]
  exact .bind (.bind .get (.bind (lift_ends ha) (.bind hr .pure))) (.bind .modify .pure)

/-- Without a new allocator there is no default, and the registry is left as it is. -/
theorem default_denied {e : MemoryError} (h : s.registry.default = none)
    (hn : s.registry.get? s.registry.config.defaultId = none)
    (he : Ends (Allocator.new s.registry.config.defaultId s.registry.config.regionSize) s.process
      (.error e) p) :
    Ends defaultAllocator s (.error e) { s with process := p } := by
  refine .bind .get ?_
  simp only [h, hn]
  exact .bind_error (.bind .get (.bind_error (lift_ends he)))

/-- How the default allocator is found. -/
theorem default_cases (s : Registrar) :
    (∃ a, s.registry.default = some a ∧ Ends defaultAllocator s (.ok a) s) ∨
    (∃ a, s.registry.default = none ∧ s.registry.get? s.registry.config.defaultId = some a ∧
      Ends defaultAllocator s (.ok a) { s with registry.default := some a }) ∨
    s.registry.default = none ∧ s.registry.get? s.registry.config.defaultId = none ∧
      let id := s.registry.config.defaultId
      let n := s.registry.config.regionSize
      let a := Allocator.next s.process n
      ((∃ e p, s.process.Grows p ∧ Ends defaultAllocator s (.error e) { s with process := p }) ∨
        ∃ p b, p = (s.process.extended (.zeros n)).setBytes s.process.segments.size b ∧
          a.region.Keeps p (.fresh id n) ∧
          Ends defaultAllocator s (.ok a) ⟨p, s.registry.adding id a⟩) := by
  cases hd : s.registry.default with
  | some a => exact .inl ⟨a, rfl, default_current hd⟩
  | none =>
    cases hget : s.registry.get? s.registry.config.defaultId with
    | some a => exact .inr (.inl ⟨a, rfl, rfl, default_adopted hd hget⟩)
    | none =>
      refine .inr (.inr ⟨rfl, rfl, ?_⟩)
      cases hden : Allocator.denial? s.process s.registry.config.regionSize with
      | some e =>
        obtain ⟨p, hnew, hp⟩ := Allocator.new_denied s.registry.config.defaultId hden
        exact .inl ⟨e, p, hp, default_denied hd hget hnew⟩
      | none =>
        obtain ⟨b, hnew, hk⟩ := Allocator.new_granted s.registry.config.defaultId hden
        have hid := congrArg Header.Fields.id hk.books.header
        exact .inr ⟨_, b, rfl, hk, default_made hd hget hnew hid⟩

end Registrar

/-! ## The process-wide registry -/

namespace Process

variable {g : Registry}

theorem heed_ends {es : List Log.Event} :
    Ends (heed es : Action Process ε Unit) p (.ok ())
      { p with level := (Log.play p.level es).1 } := ⟨rfl, rfl⟩

theorem theRegistry_known (hg : p.registry = some g) :
    Ends (theRegistry : Action Process ε _) p (.ok g) p := by
  refine .bind .get ?_
  simp only [hg]
  exact .pure

/-- Whoever asks first for the process-wide registry finds it empty. The environment may have named
another level for the log. -/
theorem theRegistry_cases (p : Process) :
    (∃ g, p.registry = some g ∧ Ends (theRegistry : Action Process ε _) p (.ok g) p) ∨
    ∃ config l, p.registry = none ∧
      Ends (theRegistry : Action Process ε _) p (.ok (.empty config))
        { p with level := l, registry := some (.empty config) } := by
  cases hreg : p.registry with
  | some g => exact .inl ⟨g, rfl, theRegistry_known hreg⟩
  | none =>
    rcases hc : Config.fromEnvironment p.environment.regionSize with ⟨config, events⟩
    let named := (Log.play p.level (Log.fromEnvironment p.environment.level)).1
    refine .inr ⟨config, (Log.play named events).1, rfl, .bind .get ?_⟩
    simp only [hreg, hc]
    exact .bind heed_ends (.bind heed_ends (.bind .modify .pure))

theorem install_ends {x : Action Registrar ε α} {o : Outcome ε α} {s : Registrar}
    (h : Ends x ⟨p, g⟩ o s) :
    Ends (install g x) p o { s.process with registry := some s.registry } := by
  obtain ⟨rfl, rfl⟩ := h
  exact ⟨rfl, rfl⟩

/-- However a call on the process-wide registry ends, the registry that it leaves is kept. -/
theorem withRegistry_ends {x : Action Registrar ε α} {o : Outcome ε α} {s : Registrar}
    (hg : p.registry = some g) (h : Ends x ⟨p, g⟩ o s) :
    Ends (withRegistry x) p o { s.process with registry := some s.registry } :=
  .bind (theRegistry_known hg) (install_ends h)

end Process

end SharedHeap
