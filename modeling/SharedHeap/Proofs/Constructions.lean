import SharedHeap.Proofs.Ranges

/-!
# Ways to build a list

A list of two groups of elements can be built from the groups, from one list of all elements, or
from nothing with a push for each element; and its header can be in a block that the operation takes
or in one that its caller took before. All of them ask the allocator for the same blocks in the same
order, so they come to the same list at the same place in the same memory, or meet with the same
error (`World.concurs_of_reachable`). After an error, a list whose header is in a block of its own
is gone without a trace, and if the block was the caller's, it is gone once the caller returns it.
-/

namespace SharedHeap

open SharedHeap.Action (Ends)

theorem Action.mapError_bind {σ ε ε' α β : Type} (g : ε → ε') (x : Action σ ε α)
    (f : α → Action σ ε β) : (x >>= f).mapError g = x.mapError g >>= fun a => (f a).mapError g := by
  funext s
  rcases h : x s with ⟨_ | _ | _, _, _⟩ <;> simp [h, Outcome.mapError]

/-- Ways to come by a list of two groups of elements. -/
inductive Route
  /-- It is built from the two groups. -/
  | parts
  /-- It is built from all elements. -/
  | elements
  /-- It is built from nothing, and the elements are pushed. -/
  | pushes
deriving DecidableEq

namespace Route

variable {α : Type}

/-- What the list is built from. -/
def args : Route → List α → List α → ListArgs α
  | parts, xs, ys => .parts xs ys
  | elements, xs, ys => .elements (xs ++ ys)
  | pushes, _, _ => .nothing

/-- What is pushed afterwards. -/
def rest : Route → List α → List α → List α
  | pushes, xs, ys => xs ++ ys
  | _, _, _ => []

end Route

variable {p p' p₁ p₂ p₃ q : Process} {rs : List Region} {r : Region} {a : Allocator} {o : Nat}
  {zs : List Plot} {e : Plain} {k : Kind} {x : Address} {l : SharedList}

theorem SharedList.pushAll_append (l : SharedList) (vs ws : List e.Val) :
    l.pushAll e (vs ++ ws) = (do
      l.pushAll e vs
      l.pushAll e ws) := by
  induction vs with
  | nil => rfl
  | cons v vs ih => rw [List.cons_append, pushAll, ih, pushAll, bind_assoc]

namespace Handle

/-- Pushes elements in order, up to the first that finds no room. -/
def pushAll (h : Handle (.list e) k) : List e.Val → Action Process HandleError Unit
  | [] => pure ()
  | v :: vs => do
    h.push v
    h.pushAll vs

theorem pushAll_eq {h : Handle (.list e) k} (hl : h.object = some l) (vs : List e.Val) :
    h.pushAll vs = .mapError .memory (l.pushAll e vs) := by
  induction vs with
  | nil => rfl
  | cons v vs ih => rw [pushAll, ih, push_eq hl, SharedList.pushAll, Action.mapError_bind]

/-- Makes a list along a route. -/
def follow (way : Route) (make : ListArgs e.Val → Action Process HandleError (Handle (.list e) k))
    (xs ys : List e.Val) : Action Process HandleError (Handle (.list e) k) := do
  let h ← make (way.args xs ys)
  h.pushAll (way.rest xs ys)
  pure h

/-- Builds a list along a route, in a block that is taken for its header. -/
def along (way : Route) (a : Allocator) (xs ys : List e.Val) :
    Action Process HandleError (Handle (.list e) k) := follow way (build (t := .list e) a) xs ys

/-- Builds a list along a route, with its header at an address. -/
def alongAt (way : Route) (x : Address) (a : Allocator) (xs ys : List e.Val) :
    Action Process HandleError (Handle (.list e) k) := follow way (buildAt (t := .list e) x a) xs ys

/-- Takes a block for a header, and builds a list there. -/
def alongSlot (way : Route) (a : Allocator) (xs ys : List e.Val) :
    Action Process HandleError (Handle (.list e) k) := do
  let (x, _) ← .mapError .memory (a.allocate Target.listHeader)
  alongAt way x a xs ys

end Handle

/-! ## One list, header first -/

/-- A header is stored and the elements are pushed; if one of them finds no room, the blocks can be
returned. -/
theorem SharedList.fill_ends (hr : r ∈ rs) (ha : a.Over r)
    (he : Estate p rs (Target.listHeader.plot r.segment o :: zs)) (vs : List e.Val) :
    let l : SharedList := ⟨.place r.segment o, a, false⟩
    ∃ p₁ out p₂,
      Ends (l.storeHeader .empty : Action Process MemoryError Unit) p (.ok ()) p₁ ∧
      Ends (l.pushAll e vs) p₁ out p₂ ∧
      match out with
      | .ok _ => Ends (l.toList e : Action Process HandleError _) p₂ (.ok vs) p₂
      | .error _ => ∃ hd p₃ p₄,
        Ends (l.loadHeader : Action Process MemoryError _) p₂ (.ok hd) p₂ ∧
        Ends (l.freeData e hd : Action Process MemoryError Unit) p₂ (.ok ()) p₃ ∧
        Ends (a.free (.place r.segment o) Target.listHeader : Action Process MemoryError Unit) p₃
          (.ok ()) p₄
      | .fault _ => e.Overflows vs.length := by
  intro l
  obtain ⟨p₁, hst, h₁, -⟩ := storeEmpty (ε := MemoryError) (l := l) hr rfl
    Target.listHeader.hasRoom_size ha he e
  obtain ⟨out, p₂, hd, us, hps, h₂, -, -, hus, -, -, hhazard⟩ := h₁.pushAll vs
  refine ⟨p₁, out, p₂, hst, hps, ?_⟩
  cases out with
  | ok u =>
    have hread := h₂.toList (ε := HandleError)
    rwa [hus u rfl] at hread
  | error err =>
    obtain ⟨p₃, hf, he₃, -⟩ := h₂.freeData (ε := MemoryError)
    obtain ⟨p₄, hf', -⟩ := Estate.free (ε := MemoryError) he₃ hr ha (by decide) (by decide)
    exact ⟨hd, p₃, p₄, h₂.load, hf, hf'⟩
  | fault f => exact hhazard f rfl

/-! ## Handles to lists that were built -/

namespace Handle

variable {args : ListArgs e.Val} {z : Offset} {err : MemoryError} {f : Fault}

/-- The handle to a list that was built with its header at an address. -/
def builtAt (x : Address) (a : Allocator) : Handle (.list e) k := ⟨some ⟨x, a, false⟩, true⟩

theorem buildAt_list_ok (h : Ends (SharedList.build ⟨x, a, false⟩ e args.toList) p (.ok ()) p') :
    Ends (buildAt x a args : Action _ _ (Handle (.list e) k)) p (.ok (builtAt x a)) p' := by
  have ht : Ends ((Target.list e).buildAt x a args) p (.ok ⟨x, a, false⟩) p' := .bind h .pure
  exact .bind ht.mapError .pure

theorem buildAt_list_error
    (h : Ends (SharedList.build ⟨x, a, false⟩ e args.toList) p (.error err) p') :
    Ends (buildAt x a args : Action _ _ (Handle (.list e) k)) p (.error (.memory err)) p' := by
  have ht : Ends ((Target.list e).buildAt x a args) p (.error err) p' := .bind_error h
  exact .bind_error ht.mapError

theorem buildAt_list_fault
    (h : Ends (SharedList.build ⟨x, a, false⟩ e args.toList) p (.fault f) p') :
    Ends (buildAt x a args : Action _ _ (Handle (.list e) k)) p (.fault f) p' := by
  have ht : Ends ((Target.list e).buildAt x a args) p (.fault f) p' := .bind_fault h
  exact .bind_fault ht.mapError

theorem build_list_refused (hal : Ends (a.allocate Target.listHeader) p (.error err) p') :
    Ends (build a args : Action _ _ (Handle (.list e) k)) p (.error (.memory err)) p' := by
  have ht : Ends ((Target.list e).build a args) p (.error err) p' := .bind_error hal
  exact .bind_error ht.mapError

section

variable (hal : Ends (a.allocate Target.listHeader) p (.ok (x, z)) q)
include hal

theorem build_list_ok (h : Ends (SharedList.build ⟨x, a, false⟩ e args.toList) q (.ok ()) p') :
    Ends (build a args : Action _ _ (Handle (.list e) k)) p (.ok (builtAt x a)) p' := by
  have ht : Ends ((Target.list e).build a args) p (.ok ⟨x, a, false⟩) p' :=
    .bind hal (.bind h.attempt .pure)
  exact .bind ht.mapError .pure

/-- The block of the header is returned. -/
theorem build_list_error
    (h : Ends (SharedList.build ⟨x, a, false⟩ e args.toList) q (.error err) p₁)
    (hf : Ends (a.free x Target.listHeader : Action Process MemoryError Unit) p₁ (.ok ()) p') :
    Ends (build a args : Action _ _ (Handle (.list e) k)) p (.error (.memory err)) p' := by
  have ht : Ends ((Target.list e).build a args) p (.error err) p' :=
    .bind hal (.bind h.attempt_error (.bind hf .throw))
  exact .bind_error ht.mapError

theorem build_list_fault
    (h : Ends (SharedList.build ⟨x, a, false⟩ e args.toList) q (.fault f) p') :
    Ends (build a args : Action _ _ (Handle (.list e) k)) p (.fault f) p' := by
  have ht : Ends ((Target.list e).build a args) p (.fault f) p' :=
    .bind hal (.bind_fault h.attempt_fault)
  exact .bind_fault ht.mapError

end

/-! ## Routes that meet -/

section

variable {make : ListArgs e.Val → Action Process HandleError (Handle (.list e) k)}
  {h : Handle (.list e) k} {vs ys : List e.Val} {e' : HandleError}
  (hempty : Ends (make .nothing) p (.ok h) p₁)
include hempty

/-- If pushing all elements leads to where making the list of them leads, all routes lead there. -/
theorem follow_ok (hpush : Ends (h.pushAll (vs ++ ys)) p₁ (.ok ()) p')
    (hfull : ∀ args, args.toList = vs ++ ys → Ends (make args) p (.ok h) p') (way : Route) :
    Ends (follow way make vs ys) p (.ok h) p' := by
  cases way with
  | parts | elements => exact .bind (hfull _ rfl) (.bind .pure .pure)
  | pushes => exact .bind hempty (.bind hpush .pure)

theorem follow_error (hpush : Ends (h.pushAll (vs ++ ys)) p₁ (.error e') p₂)
    (hfull : ∀ args, args.toList = vs ++ ys → Ends (make args) p (.error e') p') (way : Route) :
    ∃ q, Ends (follow way make vs ys) p (.error e') q ∧ (way ≠ .pushes → q = p') := by
  cases way with
  | parts | elements => exact ⟨p', .bind_error (hfull _ rfl), fun _ => rfl⟩
  | pushes => exact ⟨p₂, .bind hempty (.bind_error hpush), fun hne => absurd rfl hne⟩

theorem follow_fault (hpush : Ends (h.pushAll (vs ++ ys)) p₁ (.fault f) p₂)
    (hfull : ∀ args, args.toList = vs ++ ys → Ends (make args) p (.fault f) p') (way : Route) :
    ∃ q, Ends (follow way make vs ys) p (.fault f) q := by
  cases way with
  | parts | elements => exact ⟨p', .bind_fault (hfull _ rfl)⟩
  | pushes => exact ⟨p₂, .bind hempty (.bind_fault hpush)⟩

end

end Handle

/-- All routes lead to the same handle, and so to the same descriptor, in the same memory, and all
elements are read through it. -/
def Allocator.Joins (a : Allocator) (p : Process) (k : Kind) (xs ys : List e.Val) : Prop :=
  ∃ (h : Handle (.list e) k) (p' : Process),
    (∀ way, Ends (Handle.along way a xs ys) p (.ok h) p') ∧
    (∀ way, Ends (Handle.alongSlot way a xs ys) p (.ok h) p') ∧
    Ends (h.value : Action Process HandleError (List e.Val)) p' (.ok (xs ++ ys)) p'

/-- All routes meet with the same error. Those that build the list with its elements leave the same
memory, and so do those in a slot as soon as the slot is returned. -/
def Allocator.Halts (a : Allocator) (p : Process) (k : Kind) (xs ys : List e.Val) : Prop :=
  ∃ (err : MemoryError) (p' : Process),
    (∀ way, ∃ q, Ends (Handle.along way a xs ys : Action _ _ (Handle (.list e) k)) p
      (.error (.memory err)) q ∧ (way ≠ .pushes → q = p')) ∧
    (∀ way, ∃ q, Ends (Handle.alongSlot way a xs ys : Action _ _ (Handle (.list e) k)) p
      (.error (.memory err)) q) ∧
    ∀ x z p₁, Ends (a.allocate Target.listHeader) p (.ok (x, z)) p₁ → ∀ way ≠ .pushes, ∃ q,
      Ends (Handle.alongAt way x a xs ys : Action _ _ (Handle (.list e) k)) p₁
        (.error (.memory err)) q ∧
      Ends (a.free x Target.listHeader : Action Process MemoryError Unit) q (.ok ()) p'

/-- All routes stop with the same fault. -/
def Allocator.Breaks (a : Allocator) (p : Process) (k : Kind) (xs ys : List e.Val) : Prop :=
  ∃ f, ∀ way, ∃ q q',
    Ends (Handle.along way a xs ys : Action _ _ (Handle (.list e) k)) p (.fault f) q ∧
    Ends (Handle.alongSlot way a xs ys : Action _ _ (Handle (.list e) k)) p (.fault f) q'

namespace Estate

theorem routes (he : Estate p rs zs) (hr : r ∈ rs) (ha : a.Over r) (k : Kind)
    (xs ys : List e.Val) : a.Joins p k xs ys ∨ a.Halts p k xs ys ∨
      (e.Overflows (xs ++ ys).length ∧ a.Breaks p k xs ys) := by
  rcases he.allocate hr ha (y := Target.listHeader) (by decide) with
    ⟨o, p₁, hal, he₁, -⟩ | ⟨err, hal⟩
  · obtain ⟨p₂, out, p₃, hst, hps, hout⟩ := SharedList.fill_ends hr ha he₁ (xs ++ ys)
    have hslot := hal.mapError (g := HandleError.memory)
    -- the list with its header alone, which the pushes start from
    have hempty : Ends (SharedList.build ⟨.place r.segment o, a, false⟩ e []) p₁ (.ok ()) p₂ :=
      .bind hst (.bind (Action.Ends.attempt .pure) .pure)
    have hnew : Ends (Handle.build a .nothing : Action _ _ (Handle (.list e) k)) p
        (.ok (.builtAt (.place r.segment o) a)) p₂ := Handle.build_list_ok hal hempty
    have hnewAt : Ends (Handle.buildAt (.place r.segment o) a .nothing :
        Action _ _ (Handle (.list e) k)) p₁ (.ok (.builtAt (.place r.segment o) a)) p₂ :=
      Handle.buildAt_list_ok hempty
    have hpush : Ends ((Handle.builtAt (.place r.segment o) a : Handle (.list e) k).pushAll
        (xs ++ ys)) p₂ (out.mapError .memory) p₃ := by
      rw [Handle.pushAll_eq rfl]
      exact hps.mapError
    cases out with
    | ok u =>
      have hfull : Ends (SharedList.build ⟨.place r.segment o, a, false⟩ e (xs ++ ys)) p₁
          (.ok ()) p₃ := .bind hst (.bind hps.attempt .pure)
      exact .inl ⟨_, p₃,
        Handle.follow_ok hnew hpush fun _ h => Handle.build_list_ok hal (h.symm ▸ hfull),
        fun way => .bind hslot (Handle.follow_ok hnewAt hpush
          (fun _ h => Handle.buildAt_list_ok (h.symm ▸ hfull)) way), .bind .pure hout⟩
    | error err =>
      obtain ⟨hd, p₄, p₅, hload, hf, hf'⟩ := hout
      have hfull : Ends (SharedList.build ⟨.place r.segment o, a, false⟩ e (xs ++ ys)) p₁
          (.error err) p₄ :=
        .bind hst (.bind hps.attempt_error (.bind hload (.bind hf .throw)))
      have hat := Handle.follow_error hnewAt hpush
        fun _ h => Handle.buildAt_list_error (h.symm ▸ hfull)
      refine .inr (.inl ⟨err, p₅, Handle.follow_error hnew hpush
        fun _ h => Handle.build_list_error hal (h.symm ▸ hfull) hf', fun way => ?_, ?_⟩)
      · obtain ⟨q, hrun, -⟩ := hat way
        exact ⟨q, .bind hslot hrun⟩
      · intro x z q hq way hway
        obtain ⟨hz, rfl⟩ := hq.unique hal
        obtain ⟨rfl, -⟩ := Prod.mk.inj (Outcome.ok.inj hz)
        obtain ⟨q', hrun, hq'⟩ := hat way
        obtain rfl := hq' hway
        exact ⟨_, hrun, hf'⟩
    | fault f =>
      have hfull : Ends (SharedList.build ⟨.place r.segment o, a, false⟩ e (xs ++ ys)) p₁
          (.fault f) p₃ := .bind hst (.bind_fault hps.attempt_fault)
      refine .inr (.inr ⟨hout, f, fun way => ?_⟩)
      obtain ⟨q, hrun⟩ := Handle.follow_fault hnew hpush
        (fun _ h => Handle.build_list_fault hal (h.symm ▸ hfull)) way
      obtain ⟨q', hrun'⟩ := Handle.follow_fault hnewAt hpush
        (fun _ h => Handle.buildAt_list_fault (h.symm ▸ hfull)) way
      exact ⟨q, q', hrun, .bind hslot hrun'⟩
  · -- there is not even a block for the header
    have hslot := hal.mapError (g := HandleError.memory)
    refine .inr (.inl ⟨err, p, fun way => ⟨p, ?_, fun _ => rfl⟩,
      fun way => ⟨p, .bind_error hslot⟩, fun x z q hq => ?_⟩)
    · exact .bind_error (Handle.build_list_refused hal)
    · cases (hq.unique hal).1

end Estate

namespace World

variable {w : World}

/-- All ways to build a list of two groups come to the same. Beyond the elements that a list can
have, they may also stop, and then all of them do. -/
def Concurs (w : World) (a : Allocator) (k : Kind) (xs ys : List e.Val) : Prop :=
  a.Joins w.process k xs ys ∨ a.Halts w.process k xs ys ∨
    (¬ e.Admits (xs ++ ys).length ∧ a.Breaks w.process k xs ys)

/-- Whatever was done with handles before, and wherever the allocator runs out of memory. -/
theorem concurs_of_reachable {rs : List (AllocatorId × Region)} (hr : Ready rs p)
    (h : Reachable rs p w) (ha : a.Serves w.regions) (k : Kind) (xs ys : List e.Val) :
    w.Concurs a k xs ys := by
  obtain ⟨zs, he⟩ := (Sound.reachable hr h).estate
  obtain ⟨r, hmem, hover⟩ := ha
  exact (he.routes hmem hover k xs ys).imp_right
    (Or.imp_right (And.imp_left fun hover hadm => hadm.not_overflows hover))

namespace Concurs

variable {way : Route} {xs ys : List e.Val}

/-- It is enough to know where one of the ways leads. -/
theorem joins (h : w.Concurs a k xs ys) {g : Handle (.list e) k}
    (hrun : Ends (Handle.along way a xs ys) w.process (.ok g) p) : a.Joins w.process k xs ys := by
  rcases h with h | ⟨err, p', h, -⟩ | ⟨-, f, h⟩
  · exact h
  · obtain ⟨q, hq, -⟩ := h way
    cases (hq.unique hrun).1
  · obtain ⟨q, q', hq, -⟩ := h way
    cases (hq.unique hrun).1

theorem halts (h : w.Concurs a k xs ys) {err : HandleError}
    (hrun : Ends (Handle.along way a xs ys : Action _ _ (Handle (.list e) k)) w.process
      (.error err) p) : a.Halts w.process k xs ys := by
  rcases h with ⟨g, p', h, -⟩ | h | ⟨-, f, h⟩
  · cases ((h way).unique hrun).1
  · exact h
  · obtain ⟨q, q', hq, -⟩ := h way
    cases (hq.unique hrun).1

end Concurs

/-- Two lists in the page that was used before: five numbers find room, and five rows do not. -/
theorem concurs_pagePushed :
    Allocator.Joins (e := .int .u8) ⟨page⟩ pagePushed.process .unique [1, 2] [3, 4, 5] ∧
    Allocator.Halts (e := row) ⟨page⟩ pagePushed.process .unique [.replicate 33 0]
      (.replicate 4 (.replicate 33 0)) := by
  obtain ⟨hmem, hnumbers, hrows⟩ : page ∈ pagePushed.regions ∧
      (Handle.along (e := .int .u8) (k := .unique) .parts ⟨page⟩ [1, 2] [3, 4, 5]
        pagePushed.process).outcome = .ok (.builtAt (.place 0 416) ⟨page⟩) ∧
      (Handle.along (e := row) (k := .unique) .parts ⟨page⟩ [.replicate 33 0]
        (.replicate 4 (.replicate 33 0)) pagePushed.process).outcome =
        .error (.memory (.outOfMemory 4096 0)) := by
    decide +kernel
  have h (e : Plain) (xs ys : List e.Val) : pagePushed.Concurs ⟨page⟩ .unique xs ys :=
    concurs_of_reachable page_ready pagePushed_reachable (page_serves hmem) .unique xs ys
  exact ⟨(h _ _ _).joins ⟨hnumbers, rfl⟩, (h _ _ _).halts ⟨hrows, rfl⟩⟩

/-- Of `2 ^ 63` units and one more, no list can be built in an unused page, on any of the ways. All
of them stop at the last unit, when the capacity would have to be doubled to a number that is no
word. -/
theorem crowd_breaks :
    let w := start [(⟨1, 0⟩, page)] pageProcess
    Reachable [(⟨1, 0⟩, page)] pageProcess w ∧ Allocator.Serves ⟨page⟩ w.regions ∧
    Allocator.Breaks (e := .unit) ⟨page⟩ w.process .unique units [()] ∧
    ¬ Allocator.Joins (e := .unit) ⟨page⟩ w.process .unique units [()] ∧
    ¬ Allocator.Halts (e := .unit) ⟨page⟩ w.process .unique units [()] := by
  intro w
  have hlen : units.length = 2 ^ 63 := by
    unfold units
    exact List.length_replicate
  have hzero : ListHeader.empty.length.toNat = 0 := rfl
  obtain ⟨p₁, p₂, l₀, hal, hst, hcrowd⟩ := Crowd.begin (ε := MemoryError)
  obtain ⟨p₃, l, hd, hps, h, hfull⟩ := hcrowd.pushAll units (by omega)
  obtain ⟨-, hlast⟩ := h.push_fault (by omega)
  have hpushes : Ends (crowdView.pushAll .unit (units ++ [()])) p₂ (.fault .overflow) p₃ := by
    rw [SharedList.pushAll_append]
    exact .bind hps (.bind_fault hlast)
  have hbuild : Ends (SharedList.build crowdView .unit (units ++ [()])) p₁ (.fault .overflow) p₃ :=
    .bind hst (.bind_fault hpushes.attempt_fault)
  have hrun : Ends (Handle.along .parts ⟨page⟩ units [()] :
      Action _ _ (Handle (.list .unit) .unique)) w.process (.fault .overflow) p₃ :=
    .bind_fault (Handle.build_list_fault hal hbuild)
  have hjoins : ¬ Allocator.Joins (e := .unit) ⟨page⟩ w.process .unique units [()] := by
    rintro ⟨g, p', hg, -⟩
    cases ((hg .parts).unique hrun).1
  have hhalts : ¬ Allocator.Halts (e := .unit) ⟨page⟩ w.process .unique units [()] := by
    rintro ⟨err, p', hg, -⟩
    obtain ⟨q, hq, -⟩ := hg .parts
    cases (hq.unique hrun).1
  have hroutes := (Sound.start_estate page_ready).1.routes (a := ⟨page⟩) (e := .unit)
    List.mem_cons_self ⟨rfl, rfl⟩ .unique units [()]
  exact ⟨.refl, page_serves List.mem_cons_self,
    ((hroutes.resolve_left hjoins).resolve_left hhalts).2, hjoins, hhalts⟩

end World

end SharedHeap
