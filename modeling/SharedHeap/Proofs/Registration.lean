import SharedHeap.Proofs.Failures

/-!
# Registries in use

A registry has a table of allocators and, apart from it, a default. The calls on it compare
identities, which lie in the headers of the allocators, and never the allocators themselves. As long
as nobody rewrites an identity, the two stay in step whatever is called in which order: the table
lists its allocators under the identities that they have, and the default is one of them
(`Registry.Tidy`). From that, each call does what it is there for
(`Registrar.orderly_of_reachable`).
-/

namespace SharedHeap

open SharedHeap.Action (Ends)

variable {p p' : Process} {g g' : Registry} {a : Allocator} {id : AllocatorId} {r : Region}

/-! ## Where allocators stand -/

namespace Allocator

/-- The allocator's region is there, begins on a page, and has room for a header. -/
structure Grounded (a : Allocator) (p : Process) : Prop where
  segment_lt : a.region.segment < p.segments.size
  aligned : p.isAligned a.region.base Region.alignment
  length_le : minRegionSize ≤ a.region.length

theorem Grounded.mono (h : a.Grounded p) (hn : p.segments.size ≤ p'.segments.size)
    (hs : p'.skew a.region.segment = p.skew a.region.segment) : a.Grounded p' where
  segment_lt := Nat.lt_of_lt_of_le h.segment_lt hn
  aligned := by
    rw [Process.isAligned_base_iff, hs]
    exact Process.isAligned_base_iff.1 h.aligned
  length_le := h.length_le

theorem id_of_retains (h : p.Retains p' a.region.segment) : a.id p' = a.id p := by
  rw [id, bytes, h.bytes, id, bytes]

/-- A new allocator stands in the region that it has for itself, under the identity that it was
given. -/
theorem of_new {n : Nat} (h : Ends (new id n) p (.ok a) p') :
    a = next p n ∧ a.id p' = id ∧ a.Grounded p' ∧ p.Grows p' := by
  cases hden : denial? p n with
  | some e =>
    obtain ⟨q, hnew, -⟩ := new_denied id hden
    cases (hnew.unique h).1
  | none =>
    obtain ⟨b, hnew, hk⟩ := new_granted id hden
    obtain ⟨ho, rfl⟩ := hnew.unique h
    obtain rfl := Outcome.ok.inj ho
    obtain ⟨-, hv, -, hmin⟩ := of_denial?_eq_none hden
    have hg : (next p n).Grounded (p.extended (.zeros n)) :=
      ⟨(Process.backed_extended (b := .zeros n) hv).segment_lt, p.isAligned_extended _ n, hmin⟩
    exact ⟨rfl, congrArg Header.Fields.id hk.books.header,
      hg.mono (by simp) (Process.skew_setBytes ..), .formatted p _ b⟩

end Allocator

/-- All registered allocators stand where they were made or attached. -/
def Registry.Grounded (g : Registry) (p : Process) : Prop :=
  ∀ id a, g.get? id = some a → a.Grounded p

namespace Registry

theorem mem_of_get? (h : g.get? id = some a) : (id, a) ∈ g.entries := by
  obtain ⟨before, after, he, -⟩ := List.lookup_eq_some_iff.1 h
  exact he ▸ List.mem_append_right _ List.mem_cons_self

theorem get?_eq_none_iff : g.get? id = none ↔ id ∉ g.ids := by
  rw [get?, List.lookup_eq_none_iff, ids]
  simp only [bne_iff_ne, List.mem_map, not_exists, not_and]
  exact forall₂_congr fun e _ => ne_comm

/-! ## Registries in order -/

/-- The table lists its allocators under the identities that they have, each identity once, and the
default is the allocator that is found under its identity. -/
structure Tidy (g : Registry) (p : Process) : Prop where
  id_eq : ∀ e ∈ g.entries, e.2.id p = e.1
  nodup : g.ids.Nodup
  default : ∀ a, g.default = some a → g.get? (a.id p) = some a
  grounded : ∀ e ∈ g.entries, e.2.Grounded p

namespace Tidy

protected theorem empty (config : Config) (p : Process) : (Registry.empty config).Tidy p :=
  ⟨nofun, .nil, nofun, nofun⟩

theorem id_of_get? (h : g.Tidy p) (ha : g.get? id = some a) : a.id p = id :=
  h.id_eq (id, a) (mem_of_get? ha)

theorem grounded_of_get? (h : g.Tidy p) (ha : g.get? id = some a) : a.Grounded p :=
  h.grounded _ (mem_of_get? ha)

theorem get?_iff (h : g.Tidy p) : g.get? id = some a ↔ (id, a) ∈ g.entries := by
  refine ⟨mem_of_get?, fun hm => ?_⟩
  obtain ⟨before, after, he⟩ := List.append_of_mem hm
  refine List.lookup_eq_some_iff.2 ⟨before, after, he, fun e hmem => ?_⟩
  have hn := h.nodup
  rw [ids, he, List.map_append, List.map_cons] at hn
  have hne := (List.nodup_append.1 hn).2.2 e.1 (List.mem_map_of_mem hmem) id List.mem_cons_self
  exact bne_iff_ne.2 hne.symm

/-- The process goes on, with the same identities in the same places. -/
theorem proceed (h : g.Tidy p) (hn : p.segments.size ≤ p'.segments.size)
    (hs : ∀ s < p.segments.size, p'.skew s = p.skew s)
    (hid : ∀ e ∈ g.entries, e.2.id p' = e.2.id p) : g.Tidy p' where
  id_eq e he := (hid e he).trans (h.id_eq e he)
  nodup := h.nodup
  default a ha := by
    have hget := h.default a ha
    rw [hid _ (mem_of_get? hget)]
    exact hget
  grounded e he := (h.grounded e he).mono hn (hs _ (h.grounded e he).segment_lt)

theorem grows (h : g.Tidy p) (hp : p.Grows p') : g.Tidy p' := by
  refine h.proceed hp.size_le (fun s hs => (hp.retains s hs).skew) fun e he => ?_
  exact Allocator.id_of_retains (hp.retains _ (h.grounded e he).segment_lt)

theorem insert (h : g.Tidy p) (ha : a.Grounded p) (hn : g.get? (a.id p) = none) :
    (g.insert (a.id p) a).Tidy p where
  id_eq e he := by
    rcases List.mem_append.1 he with he | he
    · exact h.id_eq e he
    · obtain rfl := List.mem_singleton.1 he
      rfl
  nodup := by
    have hne (i : AllocatorId) (hi : i ∈ g.ids) : i ≠ a.id p :=
      ne_of_mem_of_not_mem hi (get?_eq_none_iff.1 hn)
    rw [ids, Registry.insert, List.map_append, List.nodup_append]
    refine ⟨h.nodup, List.nodup_singleton _, fun i hi j hj => ?_⟩
    rw [List.mem_singleton.1 hj]
    exact hne i hi
  default d hd := by
    have hget := h.default d hd
    rw [get?_insert _ _ hn, if_neg, hget]
    rintro e
    rw [e, hn] at hget
    cases hget
  grounded e he := by
    rcases List.mem_append.1 he with he | he
    · exact h.grounded e he
    · obtain rfl := List.mem_singleton.1 he
      exact ha

theorem setDefault (h : g.Tidy p) (ha : g.get? id = some a) :
    { g with default := some a : Registry }.Tidy p where
  id_eq := h.id_eq
  nodup := h.nodup
  default d hd := by
    obtain rfl := Option.some.inj hd
    rw [h.id_of_get? ha]
    exact ha
  grounded := h.grounded

theorem without (h : g.Tidy p) (id : AllocatorId) : (g.without id p).Tidy p where
  id_eq e he := h.id_eq e (List.mem_filter.1 he).1
  nodup := h.nodup.sublist (List.filter_sublist.map _)
  default d hd := by
    obtain ⟨hd, hne⟩ := Option.filter_eq_some_iff.1 hd
    have hget := (get?_erase g id (d.id p)).trans (if_neg (bne_iff_ne.1 hne))
    exact hget.trans (h.default d hd)
  grounded e he := h.grounded e (List.mem_filter.1 he).1

end Tidy

/-! ## Calls -/

/-- The calls on a registry. -/
inductive Call
  | register (a : Allocator)
  | unregister (id : AllocatorId)
  | get (id : AllocatorId)
  | resolve (id : AllocatorId)
  | setDefault (id : AllocatorId)
  | default

/-- Makes a call. Answers the allocator that was asked for. -/
def Call.run : Call → Action Registrar MemoryError (Option Allocator)
  | register a => do
    Registrar.register a
    pure (some a)
  | unregister id => Registrar.unregister id
  | get id => do return (← .get).registry.get? id
  | resolve id => do return some (← Registrar.resolve id)
  | setDefault id => do
    Registrar.setDefault id
    pure none
  | default => do return some (← Registrar.defaultAllocator)

/-- Only allocators that were made or attached are registered. -/
def Call.Allowed (p : Process) : Call → Prop
  | register a => a.Grounded p
  | _ => True

/-- The call takes the default away from an identity. -/
def Call.Displaces (id : AllocatorId) : Call → Prop
  | unregister j => j = id
  | setDefault j => j ≠ id
  | _ => False

/-- The registry has an allocator under an identity, or none, and else what another one has. -/
structure Puts (g : Registry) (id : AllocatorId) (x : Option Allocator) (g' : Registry) : Prop where
  get? : g'.get? = Function.update g.get? id x
  config : g'.config = g.config

theorem puts_insert (h : g.get? id = none) : g.Puts id (some a) (g.insert id a) where
  get? := funext fun j => (get?_insert a j h).trans (Function.update_apply ..).symm
  config := rfl

theorem puts_adding (h : g.get? id = none) : g.Puts id (some a) (g.adding id a) :=
  ⟨(puts_insert h).get?, rfl⟩

theorem puts_without (g : Registry) (id : AllocatorId) (p : Process) :
    g.Puts id none (g.without id p) where
  get? := funext fun j => (get?_erase g id j).trans (Function.update_apply ..).symm
  config := rfl

theorem puts_none (h : g.get? id = none) : g.Puts id none g where
  get? := (Function.update_eq_self_iff.2 h.symm).symm
  config := rfl

namespace Tidy

theorem default_without (h : g.Tidy p) (id : AllocatorId) (d : Allocator) :
    (g.without id p).default = some d ↔ g.default = some d ∧ g.get? id ≠ some d := by
  refine Option.filter_eq_some_iff.trans (and_congr_right fun hd => bne_iff_ne.trans (not_congr ?_))
  refine ⟨fun e => ?_, fun e => h.id_of_get? e⟩
  rw [← e]
  exact h.default d hd

theorem adding (h : g.Tidy p) (hn : g.get? id = none) (ha : a.Grounded p) (hid : a.id p = id) :
    (g.adding id a).Tidy p := by
  subst hid
  exact (h.insert ha hn).setDefault ((get?_insert a _ hn).trans (if_pos rfl))

end Tidy

end Registry

namespace Registrar

open Registry (Call)

variable {s s' : Registrar} {c : Call}

/-- What a call makes of a registry in order: it stays in order and keeps its configuration, and
memory is as it was. After an error, the registry is the same. -/
structure Tidies (c : Call) (s : Registrar) (o : Outcome MemoryError (Option Allocator))
    (s' : Registrar) : Prop where
  run : Ends c.run s o s'
  grows : s.process.Grows s'.process
  tidy : s'.registry.Tidy s'.process
  error : ∀ e, o = .error e → s'.registry = s.registry
  noFault : ∀ f, o ≠ .fault f

theorem Tidies.ok {x : Option Allocator} (hrun : Ends c.run s (.ok x) s')
    (hp : s.process.Grows s'.process) (ht : s'.registry.Tidy s'.process) :
    Tidies c s (.ok x) s' := ⟨hrun, hp, ht, nofun, nofun⟩

/-- A call that fails without touching the registry. -/
theorem Tidies.fails {e : MemoryError} (h : s.registry.Tidy s.process)
    (hrun : Ends c.run s (.error e) { s with process := p }) (hp : s.process.Grows p) :
    Tidies c s (.error e) { s with process := p } := ⟨hrun, hp, h.grows hp, fun _ _ => rfl, nofun⟩

/-- Each call leaves the registry in order. -/
theorem tidies (h : s.registry.Tidy s.process) (hc : c.Allowed s.process) :
    ∃ o s', Tidies c s o s' := by
  cases c with
  | register a =>
    cases hget : s.registry.get? (a.id s.process) with
    | some b => exact ⟨_, _, .fails h (.bind_error (register_taken hget)) (.refl _)⟩
    | none => exact ⟨_, _, .ok (.bind (register_free hget) .pure) (.refl _) (h.insert hc hget)⟩
  | unregister id =>
    cases hget : s.registry.get? id with
    | some a => exact ⟨_, _, .ok (unregister_found hget) (.refl _) (h.without id)⟩
    | none => exact ⟨_, _, .ok (unregister_absent hget) (.refl _) h⟩
  | get id => exact ⟨_, _, .ok (.bind .get .pure) (.refl _) h⟩
  | resolve id =>
    cases hget : s.registry.get? id with
    | some a => exact ⟨_, _, .ok (.bind (resolve_found hget) .pure) (.refl _) h⟩
    | none => exact ⟨_, _, .fails h (.bind_error (resolve_absent hget)) (.refl _)⟩
  | setDefault id =>
    cases hget : s.registry.get? id with
    | some a =>
      exact ⟨_, _, .ok (.bind (setDefault_found hget) .pure) (.refl _) (h.setDefault hget)⟩
    | none => exact ⟨_, _, .fails h (.bind_error (setDefault_absent hget)) (.refl _)⟩
  | default =>
    cases hdef : s.registry.default with
    | some a => exact ⟨_, _, .ok (.bind (default_current hdef) .pure) (.refl _) h⟩
    | none =>
      cases hget : s.registry.get? s.registry.config.defaultId with
      | some a =>
        exact ⟨_, _, .ok (.bind (default_adopted hdef hget) .pure) (.refl _) (h.setDefault hget)⟩
      | none =>
        cases hden : Allocator.denial? s.process s.registry.config.regionSize with
        | some e =>
          obtain ⟨p, hnew, hp⟩ := Allocator.new_denied s.registry.config.defaultId hden
          exact ⟨_, _, .fails h (.bind_error (default_denied hdef hget hnew)) hp⟩
        | none =>
          obtain ⟨b, hnew, -⟩ := Allocator.new_granted s.registry.config.defaultId hden
          obtain ⟨-, hid, ha, hp⟩ := Allocator.of_new hnew
          exact ⟨_, _, .ok (.bind (default_made hdef hget hnew hid) .pure) hp
            ((h.grows hp).adding hget ha hid)⟩

/-- Only two calls change a default that there is. -/
theorem default_of_call (h : s.registry.Tidy s.process) (hd : s.registry.default = some a)
    (hc : ¬ c.Displaces (a.id s.process)) {x : Option Allocator}
    (hrun : Ends c.run s (.ok x) s') : s'.registry.default = some a := by
  cases c with
  | register b =>
    obtain ⟨u, s₁, hreg, hrest⟩ := hrun.of_bind_ok
    obtain ⟨-, rfl⟩ := hrest.unique .pure
    cases hget : s.registry.get? (b.id s.process) with
    | some b' => cases (hreg.unique (register_taken hget)).1
    | none =>
      obtain ⟨-, rfl⟩ := hreg.unique (register_free hget)
      exact hd
  | unregister id =>
    cases hget : s.registry.get? id with
    | some b =>
      obtain ⟨-, rfl⟩ := hrun.unique (unregister_found hget)
      refine (h.default_without id a).2 ⟨hd, fun e => hc ?_⟩
      exact (h.id_of_get? e).symm
    | none =>
      obtain ⟨-, rfl⟩ := hrun.unique (unregister_absent hget)
      exact hd
  | get id =>
    obtain ⟨-, rfl⟩ := hrun.unique (.bind .get .pure)
    exact hd
  | resolve id =>
    cases hget : s.registry.get? id with
    | some b =>
      obtain ⟨-, rfl⟩ := hrun.unique (.bind (resolve_found hget) .pure)
      exact hd
    | none => cases (hrun.unique (.bind_error (resolve_absent hget))).1
  | setDefault id =>
    -- the default is set anew, to the allocator that it is
    obtain rfl := not_not.1 hc
    obtain ⟨-, rfl⟩ := hrun.unique (.bind (setDefault_found (h.default a hd)) .pure)
    rfl
  | default =>
    obtain ⟨-, rfl⟩ := hrun.unique (.bind (default_current hd) .pure)
    exact hd

theorem default_of_defaultAllocator (h : Ends defaultAllocator s (.ok a) s') :
    s'.registry.default = some a := by
  rcases s.default_cases with ⟨b, hd, hrun⟩ | ⟨b, -, -, hrun⟩ |
    ⟨-, -, ⟨e, q, -, hrun⟩ | ⟨q, c, -, -, hrun⟩⟩
  · obtain ⟨ho, rfl⟩ := hrun.unique h
    exact hd.trans (congrArg some (Outcome.ok.inj ho))
  · obtain ⟨ho, rfl⟩ := hrun.unique h
    exact congrArg some (Outcome.ok.inj ho)
  · cases (hrun.unique h).1
  · obtain ⟨ho, rfl⟩ := hrun.unique h
    exact congrArg some (Outcome.ok.inj ho)

/-- After a call, however it ended. -/
def call (s : Registrar) (c : Call) : Registrar := (c.run s).state

/-- One turn: a call, or whatever happens elsewhere in the process, as long as the memory stays
where it is and the registered allocators keep their identities. -/
inductive Step (s : Registrar) : Option Call → Registrar → Prop
  | call (c : Call) (hc : c.Allowed s.process) : Step s (some c) (s.call c)
  | elsewhere (p : Process) (hn : s.process.segments.size ≤ p.segments.size)
      (hs : ∀ i < s.process.segments.size, p.skew i = s.process.skew i)
      (hid : ∀ e ∈ s.registry.entries, e.2.id p = e.2.id s.process) : Step s none ⟨p, s.registry⟩

/-- The registry was new in some process, and was used since. -/
def Reachable (s : Registrar) : Prop :=
  ∃ p config, Relation.ReflTransGen (fun s s' => ∃ c, Step s c s') ⟨p, .empty config⟩ s

theorem tidy_step {c : Option Call} (h : s.registry.Tidy s.process) (hs : s.Step c s') :
    s'.registry.Tidy s'.process := by
  cases hs with
  | call c hc =>
    obtain ⟨o, s₁, ht⟩ := tidies h hc
    rw [call, ht.run.state]
    exact ht.tidy
  | elsewhere p hn hs hid => exact h.proceed hn hs hid

theorem tidy_of_reachable (h : s.Reachable) : s.registry.Tidy s.process := by
  obtain ⟨p, config, hrun⟩ := h
  induction hrun with
  | refl => exact .empty config p
  | tail _ hs ih => exact tidy_step ih hs.choose_spec

theorem grounded_of_reachable (h : s.Reachable) : s.registry.Grounded s.process :=
  fun _ _ => (tidy_of_reachable h).grounded_of_get?

/-- An allocator is registered in a new registry. -/
theorem reachable_insert (ha : a.Grounded p) (config : Config) :
    Reachable ⟨p, (Registry.empty config).insert (a.id p) a⟩ := by
  have hrun : Ends (Call.run (.register a)) ⟨p, .empty config⟩ (.ok (some a))
      ⟨p, (Registry.empty config).insert (a.id p) a⟩ := .bind (register_free rfl) .pure
  have hstep := Step.call (s := ⟨p, .empty config⟩) (.register a) ha
  rw [call, hrun.state] at hstep
  exact ⟨p, config, .single ⟨_, hstep⟩⟩

/-- A default stays while others are registered and looked up. -/
theorem default_step {c : Option Call} (h : s.registry.Tidy s.process)
    (ha : s.registry.default = some a) (hs : s.Step c s')
    (hc : ∀ d ∈ c, ¬ d.Displaces (a.id s.process)) :
    s'.registry.default = some a ∧ a.id s'.process = a.id s.process := by
  have hget := h.default a ha
  cases hs with
  | elsewhere p hn hskew hid => exact ⟨ha, hid (a.id s.process, a) (Registry.mem_of_get? hget)⟩
  | call c hallowed =>
    obtain ⟨o, s₁, ht⟩ := tidies h hallowed
    rw [call, ht.run.state]
    refine ⟨?_, Allocator.id_of_retains
      (ht.grows.retains _ (h.grounded_of_get? hget).segment_lt)⟩
    cases o with
    | ok x => exact default_of_call h ha (hc c rfl) ht.run
    | error e =>
      rw [ht.error e rfl]
      exact ha
    | fault f => exact absurd rfl (ht.noFault f)

/-- The default stays until it is unregistered or another one is set. -/
theorem default_run (h : s.registry.Tidy s.process) (ha : s.registry.default = some a)
    (hrun : Relation.ReflTransGen (fun t t' => ∃ c, Step t c t' ∧
      ∀ d ∈ c, ¬ d.Displaces (a.id s.process)) s s') : s'.registry.default = some a := by
  suffices s'.registry.Tidy s'.process ∧ s'.registry.default = some a ∧
      a.id s'.process = a.id s.process from this.2.1
  induction hrun with
  | refl => exact ⟨h, ha, rfl⟩
  | tail _ hs ih =>
    obtain ⟨ht, hd, hid⟩ := ih
    obtain ⟨c, hs, hc⟩ := hs
    obtain ⟨hd', hid'⟩ := default_step ht hd hs (by rwa [hid])
    exact ⟨tidy_step ht hs, hd', hid'.trans hid⟩

/-- A registry is in order, and each call on it does what it is there for. -/
structure Orderly (s : Registrar) : Prop where
  /-- Allocators are found under the identities that they have. -/
  own : ∀ id a, s.registry.get? id = some a → a.id s.process = id
  /-- Each identity stands for one allocator. -/
  listed : ∀ id a, (id, a) ∈ s.registry.entries ↔ s.registry.get? id = some a
  nodup : s.registry.ids.Nodup
  /-- The default is the very allocator that is registered under its identity. -/
  default : ∀ a, s.registry.default = some a → s.registry.get? (a.id s.process) = some a
  register_taken : ∀ a b, s.registry.get? (a.id s.process) = some b →
    Ends (register a) s (.error (.allocatorExists (a.id s.process))) s
  register_free : ∀ a, s.registry.get? (a.id s.process) = none →
    ∃ g, Ends (register a) s (.ok ()) { s with registry := g } ∧
      s.registry.Puts (a.id s.process) (some a) g ∧ g.default = s.registry.default
  /-- The allocator is answered if it was there, and the default goes if it was that one. -/
  unregister : ∀ id, ∃ g,
    Ends (unregister id : Action Registrar MemoryError _) s (.ok (s.registry.get? id))
      { s with registry := g } ∧
    s.registry.Puts id none g ∧
    ∀ d, g.default = some d ↔ s.registry.default = some d ∧ s.registry.get? id ≠ some d
  resolve_found : ∀ id a, s.registry.get? id = some a → Ends (resolve id) s (.ok a) s
  resolve_absent : ∀ id, s.registry.get? id = none →
    Ends (resolve id) s (.error (.allocatorNotFound id)) s
  setDefault_found : ∀ id a, s.registry.get? id = some a →
    Ends (setDefault id) s (.ok ()) { s with registry.default := some a }
  setDefault_absent : ∀ id, s.registry.get? id = none →
    Ends (setDefault id) s (.error (.allocatorNotFound id)) s
  default_current : ∀ a, s.registry.default = some a → Ends defaultAllocator s (.ok a) s
  default_adopted : ∀ a, s.registry.default = none →
    s.registry.get? s.registry.config.defaultId = some a →
    Ends defaultAllocator s (.ok a) { s with registry.default := some a }
  /-- Otherwise there is a new allocator of the configured size with the configured identity. It is
  registered and is the default. -/
  default_made : s.registry.default = none →
    s.registry.get? s.registry.config.defaultId = none → ∀ a p,
    Ends (Allocator.new s.registry.config.defaultId s.registry.config.regionSize) s.process
      (.ok a) p →
    ∃ g, Ends defaultAllocator s (.ok a) ⟨p, g⟩ ∧
      a.region.length = s.registry.config.regionSize ∧ a.id p = s.registry.config.defaultId ∧
      s.process.Grows p ∧ s.registry.Puts s.registry.config.defaultId (some a) g ∧
      g.default = some a
  /-- If that cannot be made, the error is the reason, and nothing is registered. -/
  default_denied : s.registry.default = none →
    s.registry.get? s.registry.config.defaultId = none → ∀ e p,
    Ends (Allocator.new s.registry.config.defaultId s.registry.config.regionSize) s.process
      (.error e) p →
    Ends defaultAllocator s (.error e) { s with process := p }
  /-- It can be made if the system grants as many bytes, and a header has room in them. -/
  outcome_new : ∀ id n, (Allocator.new id n s.process).outcome =
    (Allocator.denial? s.process n).elim (.ok (.next s.process n)) .error
  /-- The default is the same one until it is unregistered or another one is set. -/
  lasts : ∀ a t, Ends defaultAllocator s (.ok a) t → ∀ u,
    Relation.ReflTransGen (fun u u' => ∃ c, Step u c u' ∧
      ∀ d ∈ c, ¬ d.Displaces (a.id t.process)) t u →
    Ends defaultAllocator u (.ok a) u
  /-- A call that fails leaves the registry, and the memory that there was. -/
  failing : ∀ (c : Call) e t, c.Allowed s.process → Ends c.run s (.error e) t →
    t.registry = s.registry ∧ s.process.Grows t.process
  /-- The process-wide registry goes the same way: what a call leaves is kept. -/
  shared : s.process.registry = some s.registry → ∀ (c : Call) o t, Ends c.run s o t →
    Ends (Process.withRegistry c.run) s.process o
      { t.process with registry := some t.registry }
  /-- It is configured before its first use, or not at all. -/
  configured : s.process.registry = some s.registry → ∀ config,
    Ends (Process.configure config) s.process (.ok false : Outcome MemoryError Bool) s.process

/-- Whatever was called before, the registry is in order. -/
theorem orderly_of_reachable (h : s.Reachable) : s.Orderly where
  own id a ha := (tidy_of_reachable h).id_of_get? ha
  listed id a := (tidy_of_reachable h).get?_iff.symm
  nodup := (tidy_of_reachable h).nodup
  default := (tidy_of_reachable h).default
  register_taken a b hb := register_taken hb
  register_free a hn := ⟨_, register_free hn, Registry.puts_insert hn, rfl⟩
  unregister id := by
    cases hget : s.registry.get? id with
    | some a =>
      refine ⟨_, unregister_found hget, Registry.puts_without .., fun d => ?_⟩
      rw [(tidy_of_reachable h).default_without id d, hget]
    | none =>
      refine ⟨_, unregister_absent hget, Registry.puts_none hget, fun d => ?_⟩
      exact (and_iff_left nofun).symm
  resolve_found id a ha := resolve_found ha
  resolve_absent id hn := resolve_absent hn
  setDefault_found id a ha := setDefault_found ha
  setDefault_absent id hn := setDefault_absent hn
  default_current a ha := default_current ha
  default_adopted a hn ha := default_adopted hn ha
  default_made hd hn a p hnew := by
    obtain ⟨ha, hid, -, hp⟩ := Allocator.of_new hnew
    exact ⟨_, default_made hd hn hnew hid, congrArg (fun a => a.region.length) ha, hid, hp,
      Registry.puts_adding hn, rfl⟩
  default_denied hd hn e p hnew := default_denied hd hn hnew
  outcome_new id n := Allocator.outcome_new id n s.process
  lasts a t hrun u hu := by
    have hcall : Ends (Call.run .default) s (.ok (some a)) t := .bind hrun .pure
    obtain ⟨o, s', ht⟩ := tidies (tidy_of_reachable h) (c := .default) trivial
    obtain ⟨-, rfl⟩ := ht.run.unique hcall
    exact default_current (default_run ht.tidy (default_of_defaultAllocator hrun) hu)
  failing c e t hc hrun := by
    obtain ⟨o, s', ht⟩ := tidies (tidy_of_reachable h) hc
    obtain ⟨rfl, rfl⟩ := ht.run.unique hrun
    exact ⟨ht.error e rfl, ht.grows⟩
  shared hg c o t hrun := Process.withRegistry_ends hg hrun
  configured hg config := by
    refine .bind .get ?_
    simp only [hg]
    exact .pure

/-- A process with an allocator over a page, and a registry that is new. -/
def pageRegistrar : Registrar :=
  ⟨(Allocator.create ⟨1, 0⟩ World.page World.pageProcess).state, .empty ⟨4096, ⟨0, 0⟩⟩⟩

/-- The page becomes the default, is unregistered, and is registered once more. -/
@[irreducible] def pageAgain : Registrar :=
  (((pageRegistrar.call (.register ⟨World.page⟩)).call (.setDefault ⟨1, 0⟩)).call
    (.unregister ⟨1, 0⟩)).call (.register ⟨World.page⟩)

theorem pageAgain_reachable : pageAgain.Reachable := by
  unfold pageAgain
  refine ⟨_, _, (((Relation.ReflTransGen.single ⟨_, .call _ ?_⟩).tail
    ⟨_, .call (.setDefault _) trivial⟩).tail ⟨_, .call (.unregister _) trivial⟩).tail
    ⟨_, .call _ ?_⟩⟩
  · exact ⟨by decide +kernel, by decide +kernel, by decide +kernel⟩
  · exact ⟨by decide +kernel, by decide +kernel, by decide +kernel⟩

/-- It is not the default again by that. A new allocator is, once one is asked for. -/
theorem orderly_pageAgain : pageAgain.Orderly ∧
    pageAgain.registry.get? ⟨1, 0⟩ = some ⟨World.page⟩ ∧ pageAgain.registry.default = none ∧
    (pageAgain.call .default).registry.default = some ⟨⟨1, 4096, true⟩⟩ :=
  ⟨orderly_of_reachable pageAgain_reachable, by decide +kernel⟩

end Registrar

end SharedHeap
