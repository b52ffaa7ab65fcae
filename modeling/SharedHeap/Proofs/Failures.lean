import SharedHeap.Proofs.Copies
import SharedHeap.Proofs.Refinement

/-!
# Operations that fail

Building a target takes blocks one after the other and may find that there is no further one. Then
what it took is returned, so an error leaves things as they were: the same blocks are handed out,
with the same bytes in them, and the handle that was to get the new target keeps the one it has
(`World.FailsClean`). That goes for the default allocator, too, which is made when it is first asked
for: a new region may be there afterwards, with nothing in it.
-/

namespace SharedHeap

open SharedHeap.Action (Ends)

variable {rs rs' : List Region} {p p' : Process}

/-! ## More regions -/

theorem Allocator.Serves.mono {a : Allocator} (h : a.Serves rs) (hr : rs ⊆ rs') : a.Serves rs' := by
  obtain ⟨r, hmem, hover⟩ := h
  exact ⟨r, hr hmem, hover⟩

theorem AnyHandle.Fits.mono {h : AnyHandle} (hf : h.Fits rs) (hr : rs ⊆ rs') : h.Fits rs' := by
  intro x hx a ha
  obtain ⟨r, hmem, hover⟩ := hf x hx a ha
  exact ⟨r, hr hmem, hover⟩

/-- The process goes on to have other regions besides, of which no block is handed out. -/
structure Process.Widens (p p' : Process) (rs rs' : List Region) : Prop where
  regions : rs ⊆ rs'
  retains : ∀ r ∈ rs, p.Retains p' r.segment
  estate : ∀ xs, Estate p rs xs → Estate p' rs' xs

namespace Process.Widens

theorem of_retains (h : ∀ r ∈ rs, p.Retains p' r.segment) : p.Widens p' rs rs :=
  ⟨fun _ => id, h, fun _ he => he.retains h⟩

theorem of_segments (h : p'.segments = p.segments) : p.Widens p' rs rs :=
  of_retains fun _ _ => retains_of_segments h

theorem trans {p'' : Process} {rs'' : List Region} (h : p.Widens p' rs rs')
    (h' : p'.Widens p'' rs' rs'') : p.Widens p'' rs rs'' where
  regions := fun _ hr => h'.regions (h.regions hr)
  retains r hr := (h.retains r hr).trans (h'.retains r (h.regions hr))
  estate xs he := h'.estate xs (h.estate xs he)

end Process.Widens

theorem Process.Grows.widens (h : p.Grows p') (hs : ∀ r ∈ rs, r.segment < p.segments.size) :
    p.Widens p' rs rs := .of_retains fun r hr => h.retains _ (hs r hr)

/-- The default allocator is one that there was, or a new one. -/
theorem Registrar.default_widens {s : Registrar} (hg : s.registry.Serves rs)
    (hd : ∀ a, s.registry.default = some a → a.Serves rs)
    (hs : ∀ r ∈ rs, r.segment < s.process.segments.size) :
    ∃ out s' rs', Ends defaultAllocator s out s' ∧ s.process.Widens s'.process rs rs' ∧
      s'.registry.Serves rs' ∧ ∀ a, out = .ok a → a.Serves rs' := by
  rcases s.default_cases with ⟨a, ha, hrun⟩ | ⟨a, -, ha, hrun⟩ |
    ⟨-, -, ⟨e, p, hp, hrun⟩ | ⟨p, b, rfl, hk, hrun⟩⟩
  · refine ⟨_, s, rs, hrun, .of_segments rfl, hg, ?_⟩
    rintro _ ⟨⟩
    exact hd a ha
  · refine ⟨_, _, rs, hrun, .of_segments rfl, hg, ?_⟩
    rintro _ ⟨⟩
    exact hg.of_get? ha
  · exact ⟨_, _, rs, hrun, hp.widens hs, hg, nofun⟩
  · -- the new allocator has a region of its own
    have hne (r : Region) (hr : r ∈ rs) : r.segment ≠ s.process.segments.size :=
      Nat.ne_of_lt (hs r hr)
    have hmem : rs ⊆ rs ++ [(Allocator.next s.process s.registry.config.regionSize).region] :=
      fun _ => List.mem_append_left _
    have hserves : (Allocator.next s.process s.registry.config.regionSize).Serves
        (rs ++ [(Allocator.next s.process s.registry.config.regionSize).region]) :=
      ⟨_, List.mem_append_right _ List.mem_cons_self, rfl, rfl⟩
    refine ⟨_, _, _, hrun, ⟨hmem, fun r hr => ?_, fun xs he => ?_⟩, fun e he => ?_, ?_⟩
    · exact (Process.Grows.formatted s.process _ b).retains _ (hs r hr)
    · exact (he.retains fun r hr => Process.retains_extended _ (hs r hr)).add hk hne
    · rcases List.mem_append.1 he with he | he
      · exact (hg e he).mono hmem
      · obtain rfl := List.mem_singleton.1 he
        exact hserves
    · rintro _ ⟨⟩
      exact hserves

/-- A new target was to be made for a handle, and was not: the handle is answered as it was. -/
theorem Handle.of_renewed_error {t : Target} {k : Kind} {ε : Type}
    {x : Action Process HandleError (Handle t k)} {g g' : Handle t k} {e : HandleError}
    (h : Ends (.attempt x >>= g.renewed : Action Process ε _) p (.ok (g', .error e)) p') :
    g' = g ∧ Ends x p (.error e) p' := by
  obtain ⟨r, q, hx, hr⟩ := h.of_bind_ok
  cases r with
  | ok f =>
    obtain ⟨f', q', -, hpure⟩ := hr.of_bind_ok
    cases (hpure.unique .pure).1
  | error e' =>
    obtain ⟨he, rfl⟩ := hr.unique (World.Sound.renewed_error g e' q)
    cases he
    exact ⟨rfl, hx.of_attempt_error⟩

/-- There is no default allocator, or it turns a request down that building a target comes to in the
process that the allocator was found in. -/
def Target.RefusedDefault (t : Target) (args : t.Args) (p : Process) (m : MemoryError) : Prop :=
  (∃ q, Ends Process.defaultAllocator p (.error m) q) ∨
    ∃ a q, Ends Process.defaultAllocator p (.ok a) q ∧ t.Refused a args q m

/-- The default allocator of the process, if there is one already, works on one of the regions. -/
def Process.Defaults (p : Process) (rs : List Region) : Prop :=
  ∀ g a, p.registry = some g → g.default = some a → a.Serves rs

namespace World

/-- A handle gets a new target, in the default allocator. -/
def initDefault {t : Target} {k : Kind} (w : World) (i : Nat) (h : Handle t k) (args : t.Args) :
    World :=
  w.remake i (h.initDefault args) (t.initial args) t.layout w.patches
    (AnyHandle.mk t k h).releases?

/-- What was handed out and what was stored is in a later state of the process as it was. There may
be other regions besides. -/
structure Survives (w : World) (p' : Process) (rs' : List Region) : Prop where
  regions : w.regions ⊆ rs'
  booked : ∃ xs, Estate w.process w.regions xs
  /-- The same blocks are handed out, with the same bytes in them. -/
  blocks : ∀ xs, Estate w.process w.regions xs →
    Estate p' rs' xs ∧ ∀ x ∈ xs, x.Same w.process p'
  counted : ∀ a : Allocator, a.Serves w.regions →
    (a.stats p').allocations - (a.stats p').frees =
        (a.stats w.process).allocations - (a.stats w.process).frees ∧
      (a.stats p').bytesInUse = (a.stats w.process).bytesInUse
  /-- Handles read what they read before. -/
  values : ∀ i (t : Target) (k : Kind) (h : Handle t k) x v, w.handles i = some ⟨t, k, h⟩ →
    (AnyHandle.mk t k h).address? = some x → w.heap x = some ⟨t, v⟩ →
      Ends (h.value : Action Process HandleError t.Val) p' (.ok v) p'

/-- Errors are those of allocators and of the registry, and leave everything as it was. -/
structure FailsClean (w : World) : Prop where
  /-- The error is that of a request of this very attempt. -/
  build : ∀ (t : Target) (k : Kind) a (args : t.Args) e p', a.Serves w.regions → t.Valid →
    Ends (Handle.build a args : Action _ _ (Handle t k)) w.process (.error e) p' →
      w.Survives p' w.regions ∧ ∃ m, e = .memory m ∧ t.Refused a args w.process m
  /-- The handle keeps its target, and is the owner if it was. -/
  init : ∀ i (t : Target) (k : Kind) (h g : Handle t k) a (args : t.Args) e p',
    w.handles i = some ⟨t, k, h⟩ → a.Serves w.regions → t.Valid →
    Ends (h.init a args : Action Process HandleError _) w.process (.ok (g, .error e)) p' →
      g = h ∧ w.init i h a args = { w with process := p' } ∧ w.Survives p' w.regions ∧
        ∃ m, e = .memory m ∧ t.Refused a args w.process m
  buildDefault : ∀ (t : Target) (k : Kind) (args : t.Args) e p', w.process.Defaults w.regions →
    t.Valid → Ends (Handle.buildDefault args : Action _ _ (Handle t k)) w.process (.error e) p' →
      ∃ rs', w.Survives p' rs' ∧ ∃ m, e = .memory m ∧ t.RefusedDefault args w.process m
  initDefault : ∀ i (t : Target) (k : Kind) (h g : Handle t k) (args : t.Args) e p',
    w.handles i = some ⟨t, k, h⟩ → w.process.Defaults w.regions → t.Valid →
    Ends (h.initDefault args : Action Process HandleError _) w.process (.ok (g, .error e)) p' →
      g = h ∧ w.initDefault i h args = { w with process := p' } ∧
        ∃ rs', w.Survives p' rs' ∧ ∃ m, e = .memory m ∧ t.RefusedDefault args w.process m
  /-- Nothing was done to the list, nor to anything else. -/
  push : ∀ i (e : Plain) (k : Kind) (h : Handle (.list e) k) x vs v err p',
    w.handles i = some ⟨.list e, k, h⟩ → (AnyHandle.mk _ k h).address? = some x →
    w.heap x = some ⟨.list e, vs⟩ → Ends (h.push v) w.process (.error err) p' →
      p' = w.process ∧ ∃ l m, h.object = some l ∧ err = .memory m ∧ l.Refused e w.process m

namespace Sound

variable {w : World} {lossy : Nat → Prop} {i : Nat} {t : Target} {k : Kind} {e : HandleError}

theorem estate (h : w.Sound lossy) : ∃ xs, Estate w.process w.regions xs := by
  obtain ⟨items, lost, hl, -⟩ := h.stands
  exact ⟨_, hl.estate⟩

theorem segment_lt (h : w.Sound lossy) {r : Region} (hr : r ∈ w.regions) :
    r.segment < w.process.segments.size := by
  obtain ⟨xs, he⟩ := h.estate
  obtain ⟨l, hk, -⟩ := he.ledgers r hr
  exact hk.segment_lt

theorem widen (h : w.Sound lossy) (hp : w.process.Widens p' w.regions rs')
    (hr : ∀ g, p'.registry = some g → g.Serves rs') :
    Sound { w with process := p', regions := rs' } lossy :=
  { h with
    stands := h.stands.widen hp.retains hp.estate
    registry := hr
    fits := fun i g hi => (h.fits i g hi).mono hp.regions }

theorem survives (h : w.Sound) (hs : Sound { w with process := p', regions := rs' })
    (hr : w.regions ⊆ rs')
    (hb : ∀ xs, Estate w.process w.regions xs → Estate p' rs' xs ∧ ∀ x ∈ xs, x.Same w.process p') :
    w.Survives p' rs' where
  regions := hr
  booked := h.estate
  blocks := hb
  counted a ha := by
    obtain ⟨xs, he⟩ := h.estate
    obtain ⟨r, hmem, hover⟩ := ha
    have h₁ := he.counted hmem hover
    have h₂ := (hb xs he).1.counted (hr hmem) hover
    exact ⟨h₂.1.trans h₁.1.symm, h₂.2.trans h₁.2.symm⟩
  values _ _ _ _ _ _ hi hx hv := hs.reads hi hx hv

/-! ## Building -/

/-- Whoever cannot build a target leaves a sound world, where nothing was touched. -/
theorem build_error (h : w.Sound) {a : Allocator} (ha : a.Serves w.regions) (ht : t.Valid)
    {args : t.Args}
    (hx : Ends (Handle.build a args : Action _ _ (Handle t k)) w.process (.error e) p') :
    w.Survives p' w.regions ∧ ∃ m, e = .memory m ∧ t.Refused a args w.process m := by
  have hsound : Sound { w with process := p' } := by
    obtain ⟨-, out, p₁, hx₁, hreg, hout⟩ := h.makes_build (k := k) ha ht args
    obtain ⟨rfl, rfl⟩ := hx₁.unique hx
    exact h.proceed hout (h.serves hreg)
  obtain ⟨m, rfl, hb⟩ : ∃ m, e = .memory m ∧ Ends (t.build a args) w.process (.error m) p' := by
    rcases hx.of_bind_error with hb | ⟨x, p₁, -, hp⟩
    · exact hb.of_mapError_error
    · cases hp.outcome
  obtain ⟨r, hr, hover⟩ := ha
  have hfail (xs : List Plot) (he : Estate w.process w.regions xs) :
      (Estate p' w.regions xs ∧ t.Refused a args w.process m) ∧ ∀ x ∈ xs, x.Same w.process p' := by
    obtain ⟨out, p₁, hb₁, hsp, hout⟩ := Target.build_ends hr hover ht he args
    obtain ⟨rfl, rfl⟩ := hb₁.unique hb
    exact ⟨hout, hsp.same⟩
  obtain ⟨xs, he⟩ := h.estate
  exact ⟨h.survives hsound (fun _ => id) fun xs he => ⟨(hfail xs he).1.1, (hfail xs he).2⟩,
    m, rfl, (hfail xs he).1.2⟩

/-! ## The default allocator -/

/-- Asking for the default allocator leaves a sound world, in which it works on a region. -/
theorem defaultAllocator (h : w.Sound) (hd : w.process.Defaults w.regions) :
    ∃ out p' rs', Ends Process.defaultAllocator w.process out p' ∧
      w.process.Widens p' w.regions rs' ∧ Sound { w with process := p', regions := rs' } ∧
      ∀ a, out = .ok a → a.Serves rs' := by
  obtain ⟨g, p₁, hg, hseg, hserves, hreg, hdef⟩ : ∃ g p₁,
      Ends (Process.theRegistry : Action Process MemoryError _) w.process (.ok g) p₁ ∧
      p₁.segments = w.process.segments ∧ g.Serves w.regions ∧ p₁.registry = some g ∧
      ∀ a, g.default = some a → a.Serves w.regions := by
    rcases w.process.theRegistry_cases (ε := MemoryError) with ⟨g, hg, hrun⟩ | ⟨config, l, -, hrun⟩
    · exact ⟨g, _, hrun, rfl, h.registry g hg, hg, fun a => hd g a hg⟩
    · exact ⟨_, _, hrun, rfl, nofun, rfl, nofun⟩
  obtain ⟨out, s, rs', hrun, hw, hserves', hout⟩ := Registrar.default_widens (s := ⟨p₁, g⟩) hserves
    hdef fun r hr => hseg ▸ h.segment_lt hr
  have hw' : w.process.Widens { s.process with registry := some s.registry } w.regions rs' :=
    (Process.Widens.of_segments hseg).trans (hw.trans (.of_segments rfl))
  refine ⟨out, _, rs', .bind hg (Process.install_ends hrun), hw', h.widen hw' ?_, hout⟩
  rintro _ ⟨⟩
  exact hserves'

/-- What survives in a process with more regions survives. -/
theorem survives_widens (h : w.Sound) {p₁ : Process} {rs₁ : List Region}
    (hw : w.process.Widens p₁ w.regions rs₁)
    (hs : Survives { w with process := p₁, regions := rs₁ } p' rs') : w.Survives p' rs' where
  regions := fun _ hr => hs.regions (hw.regions hr)
  booked := h.estate
  blocks xs he := by
    obtain ⟨he', hsame⟩ := hs.blocks xs (hw.estate xs he)
    refine ⟨he', fun x hx i hi => ?_⟩
    obtain ⟨r, hr, hseg⟩ := he.placed x hx
    rw [hsame x hx i hi, ← hseg, (hw.retains r hr).bytes]
  counted a ha := by
    obtain ⟨r, hr, hover⟩ := id ha
    have hstats : a.stats p₁ = a.stats w.process := by
      rw [Allocator.stats, Allocator.stats, Allocator.bytes, Allocator.bytes, hover.segment,
        (hw.retains r hr).bytes]
    rw [← hstats]
    exact hs.counted a (ha.mono hw.regions)
  values := hs.values

/-- Building by default is building with the default allocator, if there is one. -/
theorem buildDefault_cases (h : w.Sound) (hd : w.process.Defaults w.regions) (ht : t.Valid)
    (args : t.Args) :
    ∃ p₁ rs₁, w.process.Widens p₁ w.regions rs₁ ∧ Sound { w with process := p₁, regions := rs₁ } ∧
      ((∃ m, t.RefusedDefault args w.process m ∧ Ends
          (Handle.buildDefault args : Action _ _ (Handle t k)) w.process (.error (.memory m)) p₁) ∨
        (∃ f, Ends (Handle.buildDefault args : Action _ _ (Handle t k)) w.process (.fault f) p₁) ∨
        ∃ a, Ends Process.defaultAllocator w.process (.ok a) p₁ ∧ a.Serves rs₁ ∧
          ∀ out p', Ends (Handle.build a args : Action _ _ (Handle t k)) p₁ out p' →
            Ends (Handle.buildDefault args : Action _ _ (Handle t k)) w.process out p') := by
  obtain ⟨out, p₁, rs₁, hrun, hw, hs, hout⟩ := h.defaultAllocator hd
  cases out with
  | ok a =>
    refine ⟨p₁, rs₁, hw, hs, .inr (.inr ⟨a, hrun, hout a rfl, fun out p' hb => ?_⟩)⟩
    rw [Handle.buildDefault]
    exact .bind hrun.attempt hb
  | fault f => exact ⟨p₁, rs₁, hw, hs, .inr (.inl ⟨f, .bind_fault hrun.attempt_fault⟩)⟩
  | error m =>
    have hrefused {t : Target} (args : t.Args) : t.RefusedDefault args w.process m :=
      .inl ⟨p₁, hrun⟩
    cases t with
    | plain e =>
      exact ⟨p₁.finalizing e.finalizers, rs₁, hw.trans (.of_segments rfl),
        hs.proceed (hs.stands.congr rfl) hs.registry,
        .inl ⟨m, hrefused args, .bind hrun.attempt_error (.bind (Process.finalize_ends ..) .throw)⟩⟩
    | list e =>
      exact ⟨p₁, rs₁, hw, hs,
        .inl ⟨m, hrefused args, .bind hrun.attempt_error (.bind .pure .throw)⟩⟩

theorem buildDefault_error (h : w.Sound) (hd : w.process.Defaults w.regions) (ht : t.Valid)
    {args : t.Args}
    (hx : Ends (Handle.buildDefault args : Action _ _ (Handle t k)) w.process (.error e) p') :
    ∃ rs', w.Survives p' rs' ∧ ∃ m, e = .memory m ∧ t.RefusedDefault args w.process m := by
  obtain ⟨p₁, rs₁, hw, hs, ⟨m, hrefused, hrun⟩ | ⟨f, hrun⟩ | ⟨a, hrun, ha, hbuild⟩⟩ :=
    h.buildDefault_cases (k := k) hd ht args
  · obtain ⟨he, rfl⟩ := hrun.unique hx
    obtain rfl := Outcome.error.inj he
    have hsurv := hs.survives hs (fun _ => id) fun xs he => ⟨he, fun _ _ _ _ => rfl⟩
    exact ⟨rs₁, h.survives_widens hw hsurv, m, rfl, hrefused⟩
  · cases (hrun.unique hx).1
  · have hb : Ends (Handle.build a args : Action _ _ (Handle t k)) p₁ (.error e) p' := by
      obtain ⟨h₁, h₂⟩ := (hbuild _ _ ⟨rfl, rfl⟩).unique hx
      exact ⟨h₁, h₂⟩
    obtain ⟨hsurv, m, rfl, hrefused⟩ := hs.build_error ha ht hb
    exact ⟨rs₁, h.survives_widens hw hsurv, m, rfl, .inr ⟨a, p₁, hrun, hrefused⟩⟩

/-! ## Pushing -/

theorem push_error (h : w.Sound) {f : Plain} {g : Handle (.list f) k} {x : Address}
    {vs : List f.Val} {v : f.Val} (hi : w.handles i = some ⟨.list f, k, g⟩)
    (hx : (AnyHandle.mk _ k g).address? = some x) (hvs : w.heap x = some ⟨.list f, vs⟩)
    (hp : Ends (g.push v) w.process (.error e) p') :
    p' = w.process ∧
      ∃ l m, g.object = some l ∧ e = .memory m ∧ l.Refused f w.process m := by
  obtain ⟨l, hl, rfl⟩ := Option.map_eq_some_iff.1 hx
  obtain ⟨r, hr, o, hlead⟩ := (h.fits i _ hi l hl).leads h.stands hvs
  rw [Handle.push_eq hl] at hp
  obtain ⟨m, rfl, hpush⟩ := hp.of_mapError_error
  rcases h.stands.push hr hlead hvs v with ⟨p₁, hok, -⟩ | ⟨out, -, hcause, -, hfail⟩
  · cases (hok.unique hpush).1
  · obtain ⟨rfl, rfl⟩ := hfail.unique hpush
    exact ⟨rfl, l, m, hl, rfl, hcause m rfl⟩

end Sound

/-- Whatever was done before, operations that fail leave everything as it was. -/
theorem failsClean_of_reachable {rs : List (AllocatorId × Region)} {p : Process} (hr : Ready rs p)
    {w : World} (h : Reachable rs p w) : w.FailsClean := by
  have hw := Sound.reachable hr h
  refine ⟨fun t k a args e p' ha ht hx => hw.build_error ha ht hx,
    fun i t k h g a args e p' hi ha ht hx => ?_,
    fun t k args e p' hd ht hx => hw.buildDefault_error hd ht hx,
    fun i t k h g args e p' hi hd ht hx => ?_,
    fun i e k g x vs v err p' hi hx hvs hp => hw.push_error hi hx hvs hp⟩
  · obtain ⟨rfl, hbuild⟩ := Handle.of_renewed_error hx
    exact ⟨rfl, remake_error hi hbuild, hw.build_error ha ht hbuild⟩
  · obtain ⟨rfl, hbuild⟩ := Handle.of_renewed_error hx
    exact ⟨rfl, remake_error hi hbuild, hw.buildDefault_error hd ht hbuild⟩

/-- Rows of numbers; a page has room for four of them, but not for eight. -/
def row : Plain := .array (.int .u64) 33

/-- Builds a list of five rows in the page. -/
def fiveRows : Action Process HandleError (Handle (.list row) .unique) :=
  Handle.build ⟨page⟩ (.parts [.replicate 33 0] (.replicate 4 (.replicate 33 0)))

/-- Four rows find room, and the fifth one asks for a block that is not there. What was built before
survives that. -/
theorem failsClean_pagePushed : pagePushed.FailsClean ∧ ∃ p',
    Ends fiveRows pagePushed.process (.error (.memory (.outOfMemory 4096 0))) p' ∧
      pagePushed.Survives p' pagePushed.regions := by
  have h := failsClean_of_reachable page_ready pagePushed_reachable
  have hrun : (fiveRows pagePushed.process).outcome = .error (.memory (.outOfMemory 4096 0)) := by
    decide +kernel
  have hmem : page ∈ pagePushed.regions := by decide +kernel
  refine ⟨h, _, ⟨hrun, rfl⟩, ?_⟩
  exact (h.build (.list row) _ _ _ _ _ (page_serves hmem) trivial ⟨hrun, rfl⟩).1

end World

end SharedHeap
