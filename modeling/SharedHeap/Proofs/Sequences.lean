import SharedHeap.Proofs.Footprints

/-!
# Lists are sequences

A list in a region is the sequence of the elements that it was built with and of those that were
pushed since, through whichever view (`World.Sequenced`). Every view shows the whole sequence and
each of its elements, the header has no more room than the sequence needs, and a push takes a block
only when there is no room, for the block that it returns.
-/

namespace SharedHeap

open SharedHeap.Action (Ends)

/-! ## Histories of lists -/

/-- The elements that were put at the end of the list at an address, the first one first. -/
def pushedTo (x : Address) (e : Plain) : List Deed → List e.Val
  | .pushed y f v :: past =>
    if h : y = x ∧ f = e then pushedTo x e past ++ [h.2 ▸ v] else pushedTo x e past
  | _ :: past => pushedTo x e past
  | [] => []

section

variable {x : Address} {e : Plain} {past : List Deed}

theorem pushedTo_self (v : e.Val) :
    pushedTo x e (.pushed x e v :: past) = pushedTo x e past ++ [v] := dif_pos ⟨rfl, rfl⟩

theorem pushedTo_of_ne {d : Deed} (h : x ≠ d.address) :
    pushedTo x e (d :: past) = pushedTo x e past := by
  cases d with
  | pushed y f v => exact dif_neg fun hy => h hy.1.symm
  | built | stored | released | abandoned => rfl

/-- A list in whose place nothing else is built has got what was pushed since, or is gone. -/
theorem Fair.elements {ds : List Deed} {us : List e.Val} (hf : Fair (ds ++ past))
    (hs : ∀ y c, .stored y c ∈ ds → ∃ e v, c = ⟨.plain e, v⟩)
    (hx : standing past x = some ⟨.list e, us⟩) (hb : ∀ c, .built x c ∉ ds) :
    standing (ds ++ past) x = none ∨
      standing (ds ++ past) x = some ⟨.list e, us ++ pushedTo x e ds⟩ := by
  induction ds with
  | nil =>
    refine .inr (hx.trans ?_)
    rw [pushedTo, List.append_nil]
  | cons d ds ih =>
    have ih := ih hf.2 (fun y c hc => hs y c (List.mem_cons_of_mem _ hc))
      fun c hc => hb c (List.mem_cons_of_mem _ hc)
    by_cases hd : x = d.address
    · cases d with
      | built y c =>
        obtain rfl : x = y := hd
        exact absurd List.mem_cons_self (hb c)
      | stored y c =>
        obtain rfl : x = y := hd
        obtain ⟨f, v, rfl⟩ := hs x c List.mem_cons_self
        obtain ⟨w, hw⟩ := hf.1
        rcases ih with hn | hl
        · cases hn.symm.trans hw
        · cases hl.symm.trans hw
      | pushed y f v =>
        obtain rfl : x = y := hd
        obtain ⟨ws, hws⟩ := hf.1
        have hself := (congrFun (standing_pushed hws v) x).trans (Function.update_self ..)
        rcases ih with hn | hl
        · cases hn.symm.trans hws
        · cases hl.symm.trans hws
          rw [pushedTo_self, ← List.append_assoc]
          exact .inr hself
      | released y =>
        obtain rfl : x = y := hd
        exact .inl (standing_released ..)
      | abandoned y =>
        obtain rfl : x = y := hd
        exact .inl (Function.update_self ..)
    · rw [List.cons_append, standing_of_ne hd, pushedTo_of_ne hd]
      exact ih

end

/-! ## Views of a list -/

/-- A view of a list shows a sequence, and reading changes nothing. -/
structure SharedList.Shows (l : SharedList) (p : Process) (e : Plain) (vs : List e.Val) : Prop where
  toList : Ends (l.toList e : Action Process HandleError _) p (.ok vs) p
  item : ∀ i, Ends (l.item e i : Action Process HandleError _) p (.ok vs[i]?) p
  length : Ends (l.length : Action Process HandleError _) p (.ok vs.length) p

theorem SharedList.Held.shows {l : SharedList} {p : Process} {rs : List Region} {r : Region}
    {y : Layout} {o : Nat} {hd : ListHeader} {e : Plain} {vs : List e.Val} {xs : List Plot}
    (h : l.Held p rs r y o hd e vs xs) : l.Shows p e vs := ⟨h.toList, h.item, h.length⟩

/-- The header of a list of `n` elements has no more room than it needs, and the elements lie in a
block that is handed out. -/
structure ListHeader.Measures (hd : ListHeader) (p : Process) (rs : List Region) (s : Nat)
    (e : Plain) (n : Nat) : Prop where
  length : hd.length.toNat = n
  length_le : hd.length ≤ hd.capacity
  null_iff : hd.capacity = 0 ↔ hd.data.isNull
  empty_iff : hd.capacity = 0 ↔ hd.length = 0
  /-- The room is the least of 4, 8, 16 and so on that is enough. -/
  least : hd.length ≠ 0 →
    IsLeast {m | (∃ k, m = 4 * 2 ^ k) ∧ hd.length.toNat ≤ m} hd.capacity.toNat
  live : hd.capacity ≠ 0 → ∃ r ∈ rs, r.segment = s ∧ ∃ l, r.Keeps p l ∧
    (hd.room e).extent hd.data.toNat ∈ l.live
  inside : ∀ i < hd.capacity.toNat,
    hd.data.toNat + i * e.size + e.size ≤ ((hd.room e).extent hd.data.toNat).stop

theorem SharedList.Held.measures {l : SharedList} {p : Process} {rs : List Region} {r : Region}
    {y : Layout} {o : Nat} {hd : ListHeader} {e : Plain} {vs : List e.Val} {xs : List Plot}
    (h : l.Held p rs r y o hd e vs xs) (hs : Snug vs.length hd.capacity.toNat) :
    hd.Measures p rs r.segment e vs.length := by
  have hlen := h.stores.length
  have hzero (w : UInt64) : w = 0 ↔ w.toNat = 0 := UInt64.toNat_inj.symm
  refine ⟨hlen, ?_, ⟨fun hc => ?_, fun hn => ?_⟩, ?_, fun hne => ?_, fun hc => ?_,
    fun i => hd.element_le e⟩
  · rw [UInt64.le_iff_toNat_le, hlen]
    exact h.stores.length_le
  · rw [h.stores.null hc]
    rfl
  · by_contra hc
    rw [h.isNull_data hc] at hn
    cases hn
  · rw [hzero, hzero, hlen]
    refine ⟨fun hc => ?_, fun hn => ?_⟩
    · exact Nat.le_zero.1 (hc ▸ h.stores.length_le)
    · rwa [Snug, if_pos hn] at hs
  · rw [Ne, hzero, hlen] at hne
    rw [hlen]
    rwa [Snug, if_neg hne] at hs
  · obtain ⟨r', hr', hseg, l, hk, hl⟩ := h.estate.live (Held.room_mem hc)
    exact ⟨r', hr', hseg, l, hk, hl⟩

/-- A live list, with the blocks of all others. -/
theorem Heap.Stands.held {H : Heap} {L : Layouts} {p : Process} {rs : List Region} {bs : List Patch}
    {lossy : Nat → Prop} {r : Region} {o : Nat} {e : Plain} {vs : List e.Val} {l : SharedList}
    (h : H.Stands L p rs bs lossy) (hr : r ∈ rs) (hl : (Target.list e).Leads l r o)
    (hx : H l.header = some ⟨.list e, vs⟩) :
    ∃ y xs, l.Held p rs r y o (ListHeader.ofBytes (p.bytes r.segment) o) e vs xs ∧
      SharedList.Snug vs.length
        (ListHeader.ofBytes (p.bytes r.segment) o).capacity.toNat := by
  have haddr : l.header = .place r.segment o := hl.address
  rw [haddr] at hx
  obtain ⟨items, lost, hlaid, -⟩ := h.focus hx
  have he := hlaid.estate
  rw [List.flatMap_cons, List.append_assoc] at he
  have hstored := hlaid.stored _ List.mem_cons_self
  exact ⟨_, _, Target.held hr hl (hlaid.lodged _ List.mem_cons_self).room he hstored, hstored.2⟩

namespace World

variable {w w' : World} {act : Act} {x : Address} {c : Cell} {e : Plain}

/-! ## Only plain values are stored -/

theorem stored_gain {i : Nat} {p : Process} {t : Target} {k : Kind} {g : Handle t k} {v : t.Val}
    {y : Layout} {bs : List Patch} {gone : Option Address}
    (h : .stored x c ∈ (w.gain i p g v y bs gone).history) : .stored x c ∈ w.history := by
  rw [gain, List.append_assoc] at h
  exact mem_history_of_map (.built · _) (mem_history_of_map .released h (by simp)) (by simp)

theorem stored_make {i : Nat} {t : Target} {k : Kind} {f : Action Process HandleError (Handle t k)}
    {v : t.Val} {y : Layout} {bs : List Patch}
    (h : .stored x c ∈ (w.make i f v y bs).history) : .stored x c ∈ w.history := by
  simp only [make] at h
  split at h
  · exact stored_gain h
  · exact h

theorem stored_remake {i : Nat} {t : Target} {k : Kind}
    {f : Action Process HandleError (Handle t k × Except HandleError Unit)}
    {v : t.Val} {y : Layout} {bs : List Patch} {gone : Option Address}
    (h : .stored x c ∈ (w.remake i f v y bs gone).history) : .stored x c ∈ w.history := by
  simp only [remake] at h
  split at h
  · exact stored_gain h
  · exact h
  · exact h

theorem stored_step (hs : Step w act w') (h : .stored x c ∈ w'.history) :
    .stored x c ∈ w.history ∨ ∃ e v, c = ⟨.plain e, v⟩ := by
  cases hs with
  | build | buildAt => exact .inl (stored_make h)
  | init | initAt => exact .inl (stored_remake h)
  | allocate ha hy =>
    rw [allocate_history] at h
    exact .inl h
  | free | write | enroll => exact .inl h
  | abandon hc ho => exact .inl (mem_history_of_map .abandoned (z := some _) h (by simp))
  | lead hi hv =>
    simp only [lead] at h
    split at h <;> exact .inl h
  | follow hi hx =>
    simp only [follow] at h
    split at h
    · exact .inl (mem_history_of_map .released h (by simp))
    · exact .inl h
  | assign hij hi hj =>
    simp only [assign] at h
    split at h
    · exact .inl (mem_history_of_map .released h (by simp))
    · exact .inl h
  | set hi hl v =>
    simp only [set] at h
    split at h
    · rcases List.mem_append.1 h with h | h
      · obtain ⟨y, -, hy⟩ := Option.map_eq_some_iff.1 (Option.mem_toList.1 h)
        cases hy
        exact .inr ⟨_, v, rfl⟩
      · exact .inl h
    · exact .inl h
  | push hi hl v =>
    simp only [push] at h
    split at h
    · exact .inl (mem_history_of_map (.pushed · _ v) h (by simp))
    · exact .inl h
  | destroy | drop => exact .inl (mem_history_of_map .released h (by simp))

theorem stored_of_reachable {rs : List (AllocatorId × Region)} {p : Process}
    (h : Reachable rs p w) : ∀ y c, .stored y c ∈ w.history → ∃ e v, c = ⟨.plain e, v⟩ := by
  induction h with
  | refl => nofun
  | tail _ hs ih =>
    obtain ⟨act, hs⟩ := hs
    intro y c hc
    rcases stored_step hs hc with hc | hc
    · exact ih y c hc
    · exact hc

theorem Sound.history_extends (hw : w.Sound)
    (h : Relation.ReflTransGen (fun u u' => ∃ act, Step u act u') w w') :
    ∃ ds, w'.history = ds ++ w.history := by
  induction h with
  | refl => exact ⟨[], rfl⟩
  | tail hrun hs ih =>
    obtain ⟨ds, hds⟩ := ih
    obtain ⟨act, hs⟩ := hs
    obtain ⟨gone, more, ha⟩ := (hw.run hrun).1.adds hs
    refine ⟨(gone.map .released).toList ++ (more ++ ds), ?_⟩
    rw [ha.history, hds, List.append_assoc, List.append_assoc]

/-! ## Lists of a process -/

/-- The header of what stands at a place. -/
def headerAt (w : World) (s o : Nat) : ListHeader := .ofBytes (w.process.bytes s) o

/-- What a push does to the blocks of a list. If there was room, it takes and returns none. If there
was none, it takes one and returns the one that the elements were in, if any. The blocks of all
others stay. -/
structure Exchanges (w w' : World) (s o : Nat) (e : Plain) : Prop where
  room : (w.headerAt s o).length ≠ (w.headerAt s o).capacity →
    w'.headerAt s o = { w.headerAt s o with length := (w.headerAt s o).length + 1 } ∧
      w.process.Deals w'.process s 0 0
  full : (w.headerAt s o).length = (w.headerAt s o).capacity →
    w.process.Deals w'.process s 1 (if (w.headerAt s o).capacity = 0 then 0 else 1)
  blocks : ∃ xs, Estate w.process w.regions ((w.headerAt s o).rooms s e ++ xs) ∧
    Estate w'.process w.regions ((w'.headerAt s o).rooms s e ++ xs)

/-- Lists behave as sequences. -/
structure Sequenced (w : World) : Prop where
  /-- A list that is built has the elements that it was built from. -/
  built : ∀ i (k : Kind) (a : Allocator) (e : Plain) (args : ListArgs e.Val), w.handles i = none →
    a.Serves w.regions → w.Gives i ⟨.list e, args.toList⟩ (w.build (t := .list e) i k a args)
  builtAt : ∀ i (k : Kind) b (a : Allocator) (e : Plain) (args : ListArgs e.Val),
    w.handles i = none → b ∈ w.patches → Resolved.Fits ⟨b.address, a⟩ w.regions →
    b.Hosts (.list e) k → w.Gives i ⟨.list e, args.toList⟩ (w.buildAt (t := .list e) i k b a args)
  init : ∀ i (e : Plain) (k : Kind) (h : Handle (.list e) k) a (args : ListArgs e.Val),
    w.handles i = some ⟨.list e, k, h⟩ → a.Serves w.regions →
      w.Gives i ⟨.list e, args.toList⟩ (w.init i h a args)
  initAt : ∀ i (e : Plain) (k : Kind) (h : Handle (.list e) k) b a (args : ListArgs e.Val),
    w.handles i = some ⟨.list e, k, h⟩ → b ∈ w.patches → Resolved.Fits ⟨b.address, a⟩ w.regions →
    b.Hosts (.list e) k → w.Gives i ⟨.list e, args.toList⟩ (w.initAt i h b a args)
  /-- From then on it has these and what was pushed, in order, as long as it is alive and nothing
  else is built in its place. -/
  elements : ∀ x (e : Plain) (us : List e.Val) w', w.heap x = some ⟨.list e, us⟩ →
    Relation.ReflTransGen (fun u u' => ∃ act, Step u act u') w w' →
      ∃ ds, w'.history = ds ++ w.history ∧ ((∀ c, .built x c ∉ ds) →
        w'.heap x = none ∨ w'.heap x = some ⟨.list e, us ++ pushedTo x e ds⟩)
  /-- Every view of it shows that. -/
  views : ∀ (l : SharedList) (e : Plain) (vs : List e.Val), l.resolved.Fits w.regions →
    w.heap l.header = some ⟨.list e, vs⟩ → l.Shows w.process e vs
  handles : ∀ i (e : Plain) (k : Kind) (h : Handle (.list e) k) (l : SharedList),
    w.handles i = some ⟨.list e, k, h⟩ → h.object = some l → l.resolved.Fits w.regions
  headers : ∀ (s o : Nat) (e : Plain) (vs : List e.Val),
    w.heap (.place s o) = some ⟨.list e, vs⟩ →
      (w.headerAt s o).Measures w.process w.regions s e vs.length
  /-- A push succeeds, or there was no room and nothing changes. -/
  pushes : ∀ i (e : Plain) (k : Kind) (h : Handle (.list e) k) (s o : Nat) vs v,
    w.handles i = some ⟨.list e, k, h⟩ → (AnyHandle.mk _ k h).address? = some (.place s o) →
    w.heap (.place s o) = some ⟨.list e, vs⟩ →
      ((h.push v w.process : Ran Process HandleError Unit).outcome = .ok () ∧
        (w.push h v).heap =
          Function.update w.heap (.place s o) (some ⟨.list e, vs ++ [v]⟩) ∧
        w.Exchanges (w.push h v) s o e) ∨
      ((h.push v w.process : Ran Process HandleError Unit).outcome ≠ .ok () ∧
        (w.headerAt s o).length = (w.headerAt s o).capacity ∧ w.push h v = w)

namespace Sound

theorem views (hw : w.Sound) {l : SharedList} {vs : List e.Val} (hl : l.resolved.Fits w.regions)
    (hx : w.heap l.header = some ⟨.list e, vs⟩) : l.Shows w.process e vs := by
  have hfits : (Target.list e).Fits l w.regions := by
    rintro a ⟨⟩
    exact hl
  obtain ⟨r, hr, o, hlead⟩ := hfits.leads hw.stands hx
  obtain ⟨y, xs, hheld, -⟩ := hw.stands.held hr hlead hx
  exact hheld.shows

/-- A live list is held by a view of it. -/
theorem held (hw : w.Sound) {s o : Nat} {vs : List e.Val}
    (hx : w.heap (.place s o) = some ⟨.list e, vs⟩) :
    ∃ r ∈ w.regions, r.segment = s ∧ ∃ (l : SharedList) (y : Layout) (xs : List Plot),
      l.Held w.process w.regions r y o (w.headerAt s o) e vs xs ∧
        SharedList.Snug vs.length (w.headerAt s o).capacity.toNat := by
  obtain ⟨r, hr, o', heq⟩ := hw.stands.place hx
  obtain ⟨rfl, ho⟩ := Address.place.inj heq
  obtain rfl := Int.ofNat.inj ho
  have hlead : (Target.list e).Leads ⟨.place r.segment o, ⟨r⟩, false⟩ r o := by
    refine ⟨rfl, ?_⟩
    rintro a ⟨⟩
    exact ⟨rfl, rfl⟩
  obtain ⟨y, xs, hheld⟩ := hw.stands.held hr hlead hx
  exact ⟨r, hr, rfl, _, y, xs, hheld⟩

theorem measures (hw : w.Sound) {s o : Nat} {vs : List e.Val}
    (hx : w.heap (.place s o) = some ⟨.list e, vs⟩) :
    (w.headerAt s o).Measures w.process w.regions s e vs.length := by
  obtain ⟨r, -, rfl, l, y, xs, hheld, hsnug⟩ := hw.held hx
  exact hheld.measures hsnug

theorem exchanges (hw : w.Sound) {i : Nat} {k : Kind} {h : Handle (.list e) k} {s o : Nat}
    {vs : List e.Val} (hi : w.handles i = some ⟨.list e, k, h⟩)
    (hx : (AnyHandle.mk _ k h).address? = some (.place s o))
    (hvs : w.heap (.place s o) = some ⟨.list e, vs⟩) (v : e.Val) :
    ((h.push v w.process : Ran Process HandleError Unit).outcome = .ok () ∧
      (w.push h v).heap = Function.update w.heap (.place s o) (some ⟨.list e, vs ++ [v]⟩) ∧
      w.Exchanges (w.push h v) s o e) ∨
    ((h.push v w.process : Ran Process HandleError Unit).outcome ≠ .ok () ∧
      (w.headerAt s o).length = (w.headerAt s o).capacity ∧ w.push h v = w) := by
  obtain ⟨l, hl, hlx⟩ := Option.map_eq_some_iff.1 hx
  have hlx : l.header = .place s o := hlx
  obtain ⟨r, hr, o', hlead⟩ := (hw.fits i _ hi l hl).leads hw.stands (hlx ▸ hvs)
  obtain ⟨rfl, ho⟩ := Address.place.inj (hlx.symm.trans hlead.address)
  obtain rfl := Int.ofNat.inj ho
  obtain ⟨y, xs, hheld, -⟩ := hw.stands.held hr hlead (hlx ▸ hvs)
  have hcode := Handle.push_eq hl v
  rcases hheld.push v with ⟨p', hd', hp, hheld', -, -, hfull, hroom⟩ | ⟨hfull, out, hne, -, -, hp⟩
  · have hrun : Ends (h.push v) w.process (.ok ()) p' := hcode ▸ hp.mapError
    have heq : w.push h v = { w with
        process := p', history := .pushed (.place r.segment o) e v :: w.history } := by
      simp only [World.push, hrun.outcome, hrun.state, hx]
      rfl
    have hfound : (w.push h v).headerAt r.segment o = hd' := by
      rw [heq]
      exact hheld'.found
    refine .inl ⟨hrun.outcome, ?_, ⟨fun hn => ?_, fun hf => ?_, ?_⟩⟩
    · rw [heq]
      exact standing_pushed hvs v
    · rw [hfound, heq]
      exact hroom hn
    · rw [heq]
      exact hfull hf
    · rw [hfound, heq]
      exact ⟨y.plot r.segment o :: xs, hheld.estate.perm List.perm_middle.symm,
        hheld'.estate.perm List.perm_middle.symm⟩
  · have hrun : Ends (h.push v) w.process (out.mapError .memory) w.process :=
      hcode ▸ hp.mapError
    refine .inr ⟨fun hok => ?_, hfull, ?_⟩
    · rw [hrun.outcome] at hok
      cases out with
      | ok u => exact hne u rfl
      | error | fault => cases hok
    · cases out with
      | ok u => exact absurd rfl (hne u)
      | error | fault => simp only [World.push, hrun.outcome, hrun.state, Outcome.mapError]

end Sound

/-- Whatever is done with handles, lists are sequences. -/
theorem sequenced_of_reachable {rs : List (AllocatorId × Region)} {p : Process} (hr : Ready rs p)
    (h : Reachable rs p w) : w.Sequenced := by
  have hw := Sound.reachable hr h
  have href := refines_of_reachable hr h
  exact {
    built := fun i k a e args hi ha => href.built i k a (.list e) args hi ha trivial
    builtAt := fun i k b a e args hi hb ha hh =>
      href.builtAt i k b a (.list e) args hi hb ha trivial hh
    init := fun i e k h a args hi ha => href.init i (.list e) k h a args hi ha trivial
    initAt := fun i e k h b a args hi hb ha hh =>
      href.initAt i (.list e) k h b a args hi hb ha trivial hh
    elements := fun x e us w' hx hrun => by
      obtain ⟨ds, hds⟩ := hw.history_extends hrun
      have hr' := h.trans hrun
      have hf := (Sound.reachable hr hr').fair
      have hst := stored_of_reachable hr'
      rw [hds] at hf hst
      refine ⟨ds, hds, fun hb => ?_⟩
      rw [heap, hds]
      exact hf.elements (fun y c hc => hst y c (List.mem_append_left _ hc)) hx hb
    views := fun l e vs hl hx => hw.views hl hx
    handles := fun i e k h l hi hl => hw.fits i _ hi l hl _ rfl
    headers := fun s o e vs hx => hw.measures hx
    pushes := fun i e k h s o vs v hi hx hvs => hw.exchanges hi hx hvs v }

theorem pageBuilt_step : Step (start [(⟨1, 0⟩, page)] pageProcess) (.build 0) pageBuilt := by
  unfold pageBuilt
  exact .build rfl (page_serves List.mem_cons_self) (by decide) ..

theorem pageBuilt_reachable : Reachable [(⟨1, 0⟩, page)] pageProcess pageBuilt :=
  .single ⟨_, pageBuilt_step⟩

/-- A list of four elements that gets a fifth one takes another block and returns its own. -/
theorem sequenced_pageGrown : pageBuilt.Sequenced ∧
    pageBuilt.process.Deals pageGrown.process 0 1 1 ∧
    (pageGrown.headerAt 0 320).capacity = 8 ∧
    Ends (SharedList.item ⟨.place 0 320, ⟨page⟩, false⟩ (.int .u8) 4 :
      Action Process HandleError (Option (BitVec 8))) pageGrown.process (.ok (some 5#8))
      pageGrown.process := by
  obtain ⟨hi, hx, hcap, hgrown, hcap', hx', hr⟩ : pageBuilt.handles 0 = some ⟨_, _, pageRow⟩ ∧
      pageBuilt.heap (.place 0 320) = some ⟨.list (.int .u8), [1#8, 2#8, 3#8, 4#8]⟩ ∧
      pageBuilt.headerAt 0 320 = ⟨4, 4, .ofNat 352⟩ ∧
      (pageRow.push 5#8 pageBuilt.process).outcome = .ok () ∧
      (pageGrown.headerAt 0 320).capacity = 8 ∧
      pageGrown.heap (.place 0 320) = some ⟨.list (.int .u8), [1#8, 2#8, 3#8, 4#8, 5#8]⟩ ∧
      page ∈ pageGrown.regions := by
    decide +kernel
  have hw := sequenced_of_reachable page_ready pageBuilt_reachable
  have hpage : Reachable [(⟨1, 0⟩, page)] pageProcess pageGrown := by
    unfold pageGrown
    refine pageBuilt_reachable.tail ⟨_, .push hi ?_ _⟩
    rintro x ⟨⟩
    exact ⟨_, hx⟩
  have hviews := (sequenced_of_reachable page_ready hpage).views ⟨.place 0 320, ⟨page⟩, false⟩ _ _
    ⟨page, hr, ⟨rfl, rfl⟩, 320, rfl⟩ hx'
  refine ⟨hw, ?_, hcap', hviews.item 4⟩
  rcases hw.pushes 0 _ _ pageRow 0 320 _ 5#8 hi rfl hx with ⟨-, -, hex⟩ | ⟨hne, -⟩
  · have hdeals := hex.full (by rw [hcap])
    rw [hcap] at hdeals
    unfold pageGrown
    exact hdeals
  · exact absurd hgrown hne

end World

end SharedHeap
