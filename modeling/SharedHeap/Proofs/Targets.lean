import SharedHeap.Handle
import SharedHeap.Proofs.Lists

/-!
# Targets on blocks

A target takes the block of its stored form and, if it is a list with room for elements, the block
of these (`Target.plots`); `Target.Stored` says which value stands there. Building, reading,
changing and destroying a target are told by what they do to its blocks and to its value, alike for
plain values and for lists, and spare the blocks of all others.
-/

namespace SharedHeap

open SharedHeap.Action (Ends)

namespace Process

variable {p : Process} {ε : Type}

/-- The process after values were finalized. -/
def finalizing (p : Process) (n : Nat) : Process := { p with finalized := p.finalized + n }

theorem finalize_ends (p : Process) (n : Nat) :
    Ends (finalize n : Action Process ε Unit) p (.ok ()) (p.finalizing n) := .modify

theorem Spares.finalizing (p : Process) (n : Nat) (xs : List Plot) :
    p.Spares (p.finalizing n) xs := .of_segments rfl rfl

end Process

theorem Estate.finalizing {p : Process} {rs : List Region} {xs : List Plot} (h : Estate p rs xs)
    (n : Nat) : Estate (p.finalizing n) rs xs := h.congr rfl

namespace Target

/-- Types have a layout. -/
def Valid : Target → Prop
  | plain t => t.layout.Valid
  | list _ => True

instance : (t : Target) → Decidable t.Valid
  | plain t => inferInstanceAs (Decidable t.layout.Valid)
  | list _ => .isTrue trivial

/-- The address of the stored form. -/
def address : (t : Target) → t.Ref → Address
  | plain _, r => r.address
  | list _, l => l.header

/-- The value that a target is built with. -/
def initial : (t : Target) → t.Args → t.Val
  | plain _, v => v
  | list _, args => args.toList

/-- There may be no layout for what a list is built from. -/
def Overflows : (t : Target) → t.Args → Prop
  | plain _, _ => False
  | list e, args => e.Overflows args.toList.length

/-- All blocks of a target whose stored form has a block for the layout `y`. -/
def plots (t : Target) (p : Process) (y : Layout) (s o : Nat) : List Plot :=
  y.plot s o ::
    match t with
    | plain _ => []
    | list elem => (ListHeader.ofBytes (p.bytes s) o).rooms s elem

/-- The value that stands at a place. A list has no more room than its elements needed. -/
def Stored (p : Process) (s o : Nat) : (t : Target) → t.Val → Prop
  | plain t, v => t.layout.Valid ∧ (p.bytes s).read o t.size = t.encode v
  | list elem, vs => (ListHeader.ofBytes (p.bytes s) o).Stores (p.bytes s) elem vs ∧
    SharedList.Snug vs.length (ListHeader.ofBytes (p.bytes s) o).capacity.toNat

/-- The reference leads to a place of a region, by an allocator over that region if by any. -/
structure Leads (t : Target) (x : t.Ref) (r : Region) (o : Nat) : Prop where
  address : t.address x = .place r.segment o
  allocator : ∀ a, t.allocator? x = some a → a.Over r

variable {t : Target} {p p' : Process} {rs : List Region} {r : Region} {y : Layout} {s o : Nat}
  {v : t.Val} {xs : List Plot} {a : Allocator} {x : t.Ref} {ε : Type}

theorem Valid.layout (h : t.Valid) : t.layout.Valid := by
  cases t with
  | plain t => exact h
  | list e => exact show listHeader.Valid by decide

theorem plot_mem (t : Target) (p : Process) (y : Layout) (s o : Nat) :
    y.plot s o ∈ t.plots p y s o := List.mem_cons_self

/-- All blocks of a target are in one segment. -/
theorem segment_plots (t : Target) {z : Plot} (hz : z ∈ t.plots p y s o) : z.segment = s := by
  rcases List.mem_cons.1 hz with rfl | hz
  · rfl
  · cases t with
    | plain t => cases hz
    | list e => exact ListHeader.segment_rooms hz

theorem length_plots (elem : Plain) (p : Process) (y : Layout) (s o : Nat) :
    ((list elem).plots p y s o).length =
      ((ListHeader.ofBytes (p.bytes s) o).rooms s elem).length + 1 := rfl

/-- Where the bytes of the block of the stored form are the same, so are all blocks. -/
theorem plots_carry {s' : Nat} (hy : y.HasRoom t.layout.size)
    (hbc : ∀ i, (y.extent o).Covers i → (p'.bytes s').get i = (p.bytes s).get i) :
    t.plots p' y s' o = (t.plots p y s o).map fun x => { x with segment := s' } := by
  cases t with
  | plain t => rfl
  | list e =>
    have hh : ListHeader.ofBytes (p'.bytes s') o = ListHeader.ofBytes (p.bytes s) o :=
      ListHeader.ofBytes_carry hy hbc
    simp only [plots, hh, List.map_cons, ListHeader.rooms]
    split <;> rfl

/-- Where the bytes of all blocks are the same, so is the value. -/
theorem Stored.carry {s' : Nat} (hs : t.Stored p s o v) (hy : y.HasRoom t.layout.size)
    (hbc : ∀ x ∈ t.plots p y s o, ∀ i, x.extent.Covers i →
      (p'.bytes s').get i = (p.bytes s).get i) : t.Stored p' s' o v := by
  have hbc' := hbc _ (plot_mem ..)
  cases t with
  | plain t =>
    refine ⟨hs.1, ?_⟩
    rw [← hs.2]
    exact Bytes.read_congr fun i h₁ h₂ =>
      hbc' i ⟨h₁, Nat.lt_of_lt_of_le h₂ (hy.le_stop s o)⟩
  | list e =>
    have hh : ListHeader.ofBytes (p'.bytes s') o = ListHeader.ofBytes (p.bytes s) o :=
      ListHeader.ofBytes_carry hy hbc'
    rw [Stored, hh]
    exact ⟨hs.1.carry fun x hx => hbc x (List.mem_cons_of_mem _ hx), hs.2⟩

theorem plots_spares (hy : y.HasRoom t.layout.size) (hp : p.Spares p' (t.plots p y s o)) :
    t.plots p' y s o = t.plots p y s o := by
  have hmap : (t.plots p y s o).map (fun x => { x with segment := s }) = t.plots p y s o := by
    refine (List.map_congr_left fun x hx => ?_).trans (List.map_id _)
    rw [← t.segment_plots hx]
    rfl
  rw [← hmap]
  exact plots_carry hy (hp.same _ (t.plot_mem p y s o))

theorem Stored.spares (hs : t.Stored p s o v) (hy : y.HasRoom t.layout.size)
    (hp : p.Spares p' (t.plots p y s o)) : t.Stored p' s o v := by
  refine hs.carry hy fun x hx i hi => ?_
  obtain rfl : x.segment = s := t.segment_plots hx
  exact hp.same x hx i hi

/-- A list on its blocks, as those who work on lists see it. -/
theorem held {elem : Plain} {l : SharedList} {vs : List elem.Val} (hr : r ∈ rs)
    (hl : (list elem).Leads l r o) (hy : y.HasRoom 24)
    (he : Estate p rs ((list elem).plots p y r.segment o ++ xs))
    (hs : (list elem).Stored p r.segment o vs) :
    l.Held p rs r y o (ListHeader.ofBytes (p.bytes r.segment) o) elem vs xs :=
  ⟨hr, hl.address, hy, hl.allocator _ rfl, rfl, he, hs.1⟩

theorem plots_of_held {elem : Plain} {l : SharedList} {hd : ListHeader} {vs : List elem.Val}
    (h : l.Held p rs r y o hd elem vs xs) (hs : SharedList.Snug vs.length hd.capacity.toNat) :
    Estate p rs ((list elem).plots p y r.segment o ++ xs) ∧
      (list elem).Stored p r.segment o vs := by
  have hfound := h.found
  subst hfound
  exact ⟨h.estate, h.stores, hs⟩

/-! ## Reading -/

theorem load_ends (hr : r ∈ rs) (hx : t.Leads x r o) (hy : y.HasRoom t.layout.size)
    (he : Estate p rs (t.plots p y r.segment o ++ xs)) (hs : t.Stored p r.segment o v) :
    Ends (t.load x : Action Process ε _) p (.ok v) p := by
  cases t with
  | plain t =>
    have hload : Ends (Process.load (.place r.segment o) t.size : Action Process ε _) p
        (.ok ((p.bytes r.segment).read o t.size)) p :=
      he.load List.mem_cons_self (hy.le_stop r.segment o)
    have ha : x.address = .place r.segment o := hx.address
    rw [load, PlainRef.load, ha]
    refine .bind hload ?_
    rw [hs.2, Plain.decode_encode]
    exact .pure
  | list e => exact (held hr hx hy he hs).toList

/-! ## Building -/

theorem store_ends {t : Plain} {x : PlainRef} (hx : x.address = .place s o)
    (hy : y.HasRoom t.size) (he : Estate p rs (y.plot s o :: xs)) (ht : t.layout.Valid)
    (v : t.Val) :
    ∃ p', Ends (x.store t v : Action Process ε Unit) p (.ok ()) p' ∧
      Estate p' rs ((plain t).plots p' y s o ++ xs) ∧ (plain t).Stored p' s o v ∧
      p.Spares p' xs ∧ p.Deals p' s 0 0 := by
  have hstop : o + (t.encode v).length ≤ (y.plot s o).extent.stop := by
    rw [Plain.length_encode]
    exact hy.le_stop s o
  obtain ⟨p', hst, he', hsp, hb⟩ := he.store (ε := ε) (i := o) (t.encode v) (Nat.le_refl _) hstop
  have hdeals := he.deals_store (Nat.le_refl _) hstop hst
  have hin := Nat.le_trans (hy.le_stop s o) (he.inside List.mem_cons_self).2
  rw [← hx] at hst
  refine ⟨p', hst, he', ⟨ht, ?_⟩, hsp, hdeals⟩
  rw [hb]
  exact Bytes.read_write_of_length (Plain.length_encode t v) hin

/-- A target is built in a block that is there for it. After an error the block is left. -/
theorem buildAt_ends (hr : r ∈ rs) (ha : a.Over r) (ht : t.Valid)
    (hy : y.HasRoom t.layout.size) (he : Estate p rs (y.plot r.segment o :: xs)) (args : t.Args) :
    ∃ out p', Ends (t.buildAt (.place r.segment o) a args) p out p' ∧ p.Spares p' xs ∧
      match out with
      | .ok x => t.Leads x r o ∧ Estate p' rs (t.plots p' y r.segment o ++ xs) ∧
        t.Stored p' r.segment o (t.initial args) ∧
        (t.plots p' y r.segment o).length ≤ p.handed p' r.segment + 1
      | .error _ => Estate p' rs (y.plot r.segment o :: xs)
      | .fault _ => t.Overflows args ∧ ∃ lost,
        Estate p' rs (y.plot r.segment o :: (lost ++ xs)) ∧ (∀ x ∈ lost, x.segment = r.segment) ∧
        lost.length ≤ p.handed p' r.segment := by
  cases t with
  | plain t =>
    obtain ⟨p', hst, he', hs, hsp, -⟩ := store_ends (ε := MemoryError)
      (x := ⟨.place r.segment o, some a⟩) rfl hy he ht args
    refine ⟨_, p', .bind hst .pure, hsp, ⟨rfl, ?_⟩, he', hs, Nat.le_add_left ..⟩
    rintro a' ⟨⟩
    exact ha
  | list e =>
    obtain ⟨out, p', hb, hsp, hout⟩ := SharedList.build_ends
      (l := ⟨.place r.segment o, a, false⟩) hr rfl hy ha he args.toList
    cases out with
    | ok u =>
      obtain ⟨hd, hh, hsnug, hgrows⟩ := hout
      obtain ⟨he', hs⟩ := plots_of_held hh hsnug
      have hplots : ((list e).plots p' y r.segment o).length ≤ p.handed p' r.segment + 1 := by
        rw [length_plots, hh.found]
        exact Nat.succ_le_succ (hgrows.length_rooms_le_handed e)
      refine ⟨_, p', .bind hb .pure, hsp, ⟨rfl, ?_⟩, he', hs, hplots⟩
      rintro a' ⟨⟩
      exact ha
    | error e => exact ⟨_, p', .bind_error hb, hsp, hout.1⟩
    | fault f =>
      obtain ⟨hover, hd, us, hh, hgrows⟩ := hout
      exact ⟨_, p', .bind_fault hb, hsp, hover, _, hh.estate, fun _ => ListHeader.segment_rooms,
        hgrows.length_rooms_le_handed e⟩

/-- Building a target from arguments, begun in the process `p`, comes to ask the allocator for a
block with the layout `y` in the process `q`. -/
inductive Asks (a : Allocator) : (t : Target) → t.Args → (p : Process) → (y : Layout) →
    (q : Process) → Prop
  | value {t : Plain} (v : t.Val) (p : Process) : Asks a (.plain t) v p t.layout p
  | header {elem : Plain} (args : ListArgs elem.Val) (p : Process) :
    Asks a (.list elem) args p listHeader p
  /-- The first `n` elements are there, and there is no room for another one. -/
  | room {elem : Plain} {args : ListArgs elem.Val} {p p₁ p₂ q : Process} {x : Address} {o : Offset}
    {n : Nat} {y : Layout} (hx : Ends (a.allocate listHeader) p (.ok (x, o)) p₁)
    (hst : Ends (SharedList.storeHeader ⟨x, a, false⟩ .empty : Action Process MemoryError Unit) p₁
      (.ok ()) p₂)
    (hn : n < args.toList.length)
    (hps : Ends (SharedList.pushAll ⟨x, a, false⟩ elem (args.toList.take n)) p₂ (.ok ()) q)
    (hy : SharedList.Wants ⟨x, a, false⟩ elem q y) : Asks a (.list elem) args p y q

/-- Building a target comes to a request that the allocator turns down. -/
def Refused (t : Target) (a : Allocator) (args : t.Args) (p : Process) (e : MemoryError) : Prop :=
  ∃ y q, Asks a t args p y q ∧ Ends (a.allocate y) q (.error e) q

/-- A target is built in new blocks, or takes none. What a fault leaves is lost. -/
theorem build_ends (hr : r ∈ rs) (ha : a.Over r) (ht : t.Valid) (he : Estate p rs xs)
    (args : t.Args) :
    ∃ out p', Ends (t.build a args) p out p' ∧ p.Spares p' xs ∧
      match out with
      | .ok x => ∃ o, t.Leads x r o ∧ t.layout.Served ∧
        Estate p' rs (t.plots p' t.layout r.segment o ++ xs) ∧
        t.Stored p' r.segment o (t.initial args) ∧
        (t.plots p' t.layout r.segment o).length ≤ p.handed p' r.segment
      | .error e => Estate p' rs xs ∧ t.Refused a args p e
      | .fault _ => t.Overflows args ∧
        ∃ lost, Estate p' rs (lost ++ xs) ∧ (∀ x ∈ lost, x.segment = r.segment) ∧
        lost.length ≤ p.handed p' r.segment := by
  have hlay := ht.layout
  cases t with
  | plain t =>
    rcases he.allocate hr ha hlay with ⟨o, p₁, hal, he₁, hsp₁, -, hle⟩ | ⟨e, hal⟩
    · obtain ⟨p₂, hst, he₂, hs, hsp₂, hdeals₂⟩ := store_ends (ε := MemoryError)
        (x := ⟨.place r.segment o, some a⟩) rfl (plain t).layout.hasRoom_size he₁ ht args
      have hdeals := (he.deals_allocate hr ha hlay hal).trans_idle hdeals₂
      refine ⟨_, p₂, .bind hal.attempt.onFault (.bind hst .pure), hsp₁.trans hsp₂, o,
        ⟨rfl, ?_⟩, ⟨hlay, hle⟩, he₂, hs, Nat.le_of_eq hdeals.handed.symm⟩
      rintro a' ⟨⟩
      exact ha
    · exact ⟨.error e, _, .bind hal.attempt_error.onFault
        (.bind (Process.finalize_ends p t.finalizers) .throw), .finalizing .., he.finalizing _,
        _, p, .value args p, hal⟩
  | list elem =>
    rcases he.allocate hr ha hlay with ⟨o, p₁, hal, he₁, hsp₁, -, hle⟩ | ⟨e, hal⟩
    · obtain ⟨out, p₂, hb, hsp₂, hout⟩ := SharedList.build_ends
        (l := ⟨.place r.segment o, a, false⟩) hr rfl listHeader.hasRoom_size ha he₁ args.toList
      have hsp := hsp₁.trans hsp₂
      have hdeals := he.deals_allocate hr ha hlay hal
      cases out with
      | ok u =>
        obtain ⟨hd, hh, hsnug, hgrows⟩ := hout
        obtain ⟨he', hs⟩ := plots_of_held hh hsnug
        have hplots : ((list elem).plots p₂ listHeader r.segment o).length ≤
            p.handed p₂ r.segment := by
          rw [length_plots, hh.found]
          exact hgrows.length_rooms_succ_le hdeals elem
        refine ⟨_, p₂, .bind hal (.bind hb.attempt .pure), hsp, o, ⟨rfl, ?_⟩, ⟨hlay, hle⟩, he',
          hs, hplots⟩
        rintro a' ⟨⟩
        exact ha
      | error e =>
        obtain ⟨p₃, hf, he₃, hsp₃, -⟩ := Estate.free (ε := MemoryError) hout.1 hr ha (by decide)
          (by decide)
        obtain ⟨n, hn, q₁, q, hst, hps, y', hy', href⟩ := hout.2
        exact ⟨.error e, p₃, .bind hal (.bind hb.attempt_error (.bind hf .throw)),
          hsp.trans hsp₃, he₃, y', q, .room hal hst hn hps hy', href⟩
      | fault f =>
        obtain ⟨hover, hd, us, hh, hgrows⟩ := hout
        exact ⟨.fault f, p₂, .bind hal (.bind_fault hb.attempt_fault), hsp, hover,
          listHeader.plot r.segment o :: hd.rooms r.segment elem, hh.estate,
          List.forall_mem_cons.2 ⟨rfl, fun _ => ListHeader.segment_rooms⟩,
          hgrows.length_rooms_succ_le hdeals elem⟩
    · exact ⟨.error e, p, .bind_error hal, .refl .., he, _, p, .header args p, hal⟩

/-! ## Changing and destroying -/

theorem replace_ends {t : Plain} {x : PlainRef} (hx : x.address = .place s o)
    (hy : y.HasRoom t.size) (he : Estate p rs ((plain t).plots p y s o ++ xs))
    (ht : t.layout.Valid) (v : t.Val) :
    ∃ p', Ends (x.replace t v : Action Process ε Unit) p (.ok ()) p' ∧
      Estate p' rs ((plain t).plots p' y s o ++ xs) ∧ (plain t).Stored p' s o v ∧
      p.Spares p' xs := by
  obtain ⟨p', hst, he', hs, hsp, -⟩ :=
    store_ends (ε := ε) hx hy (he.finalizing t.finalizers) ht v
  exact ⟨p', .bind (Process.finalize_ends ..) hst, he', hs,
    (Process.Spares.finalizing ..).trans hsp⟩

theorem push_ends {elem : Plain} {l : SharedList} {vs : List elem.Val} (hr : r ∈ rs)
    (hl : (list elem).Leads l r o) (hy : y.HasRoom 24)
    (he : Estate p rs ((list elem).plots p y r.segment o ++ xs))
    (hs : (list elem).Stored p r.segment o vs) (v : elem.Val) :
    (∃ p', Ends (l.push elem v) p (.ok ()) p' ∧
      Estate p' rs ((list elem).plots p' y r.segment o ++ xs) ∧
      (list elem).Stored p' r.segment o (vs ++ [v]) ∧ p.Spares p' xs) ∨
    SharedList.Fails (l.push elem v) p (l.Refused elem p)
      (elem.Overflows (vs.length + 1)) := by
  rcases (held hr hl hy he hs).push v with ⟨p', hd, hp, hh, hsp, hc, -⟩ | ⟨-, hf⟩
  · have hsnug := hs.2.push hs.1.length_le
    rw [← hc, ← List.length_concat (a := v), List.concat_eq_append] at hsnug
    obtain ⟨he', hs'⟩ := plots_of_held hh hsnug
    exact .inl ⟨p', hp, he', hs', hsp⟩
  · exact .inr hf

/-- A target that may be released, and whose allocator is known, returns its blocks. -/
theorem destroy_ends (hr : r ∈ rs) (hx : t.Leads x r o) (ha : t.allocator? x = some a)
    (hy : y.Shares t.layout) (hal : t.layout.align ≤ SizeClass.maxAlign)
    (he : Estate p rs (t.plots p y r.segment o ++ xs)) (hs : t.Stored p r.segment o v) :
    ∃ x' p', Ends (t.destroy x true : Action Process ε _) p (.ok x') p' ∧ Estate p' rs xs ∧
      p.Spares p' xs ∧ p'.Returned r.segment o t.layout ∧ p.handed p' r.segment = 0 := by
  have hover := hx.allocator a ha
  cases t with
  | plain t =>
    obtain ⟨address, allocator⟩ := x
    obtain rfl : address = .place r.segment o := hx.address
    obtain rfl : allocator = some a := ha
    have he₁ : Estate (p.finalizing t.finalizers) rs (y.plot r.segment o :: xs) :=
      he.finalizing _
    rw [hy.plot_eq] at he₁
    obtain ⟨p', hf, he', hsp, hret⟩ := he₁.free (ε := ε) hr hover hal hs.1
    have hdeals := he₁.deals_free hr hover hal hs.1 hf
    exact ⟨⟨.null, some a⟩, p', .bind (Process.say_ends (.bind .get .pure))
      (.bind (Process.finalize_ends ..) (.bind hf .pure)), he',
      (Process.Spares.finalizing ..).trans hsp, hret, hdeals.handed⟩
  | list e =>
    have hh := held hr hx (hy.hasRoom) he hs
    have hh' : ({ x with owned := true } : SharedList).Held p rs r y o _ e v xs :=
      ⟨hh.region, hh.header, hh.room, hh.allocator, rfl, hh.estate, hh.stores⟩
    obtain ⟨p', hd, he', hsp⟩ := hh'.destroy (ε := ε) rfl hy
    exact ⟨_, p', hd, he', hsp⟩

/-- A target that must not be released, or whose allocator nobody knows, stays. -/
theorem destroy_ends_of_not {d : Bool} (h : d = false ∨ t.allocator? x = none) (p : Process) :
    ∃ x', Ends (t.destroy x d : Action Process ε _) p (.ok x') p := by
  cases t with
  | plain t =>
    cases d with
    | false => exact ⟨x, .pure⟩
    | true =>
      obtain ⟨address, allocator⟩ := x
      obtain rfl : allocator = none := h.resolve_left nofun
      refine ⟨⟨.null, none⟩, ?_⟩
      cases address with
      | null => exact .pure
      | place s o => exact .bind (Process.say_ends .pure) .pure
  | list e =>
    obtain rfl : d = false := h.resolve_right nofun
    exact ⟨_, .pure⟩

end Target

end SharedHeap
