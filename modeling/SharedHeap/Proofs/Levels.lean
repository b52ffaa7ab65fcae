import SharedHeap.Proofs.Silence
import SharedHeap.Session.Allocators
import SharedHeap.Session.References
import SharedHeap.Session.Slots

/-!
# Operations at different levels

A session holds the level in effect beside everything else. Each operation is put together from
actions that do and tell the same at all levels (`Action.Quiet`), so it does so too, by its own
text. None changes the level but the one whose business that is and, once, whoever asks first for
the process-wide registry.
-/

namespace SharedHeap

open SharedHeap.Action (Quiet Blind)
open Log (Event Level)

namespace Session

variable {α β ε : Type}

abbrev Settled (s : Session) : Prop := s.process.Settled

theorem lift_quiet {g : ε → Refusal} {I : Process → Prop} {x : Action Process ε α}
    (hx : Quiet I x) : Quiet (fun s => I s.process) (lift g x) := by
  refine ⟨fun s => ?_⟩
  obtain ⟨o, p, es, hrun, hkept⟩ := hx.tells s.process
  refine ⟨o.mapError g, { s with process := p }, es, fun l => ?_, hkept⟩
  have hrun : x (withLevel s l).process = _ := hrun l
  simp only [lift, hrun]
  rfl

/-! ## Names and arguments -/

section

variable {name : String}

theorem find_quiet {n : Noun} {table : Session → Table α}
    (h : ∀ s l, table (withLevel s l) = table s) : Quiet Settled (find n table name) := by
  refine .ask (fun s l => ?_) fun s => ?_
  · rw [h]
  · split
    · exact .pure
    · exact .throw

theorem findAllocator_quiet : Quiet Settled (findAllocator name) :=
  .bind (find_quiet fun _ _ => rfl) fun _ => .pure

theorem findBlock_quiet : Quiet Settled (findBlock name) := find_quiet fun _ _ => rfl

theorem findDescriptor_quiet : Quiet Settled (findDescriptor name) := find_quiet fun _ _ => rfl

theorem findSlot_quiet : Quiet Settled (findSlot name) := find_quiet fun _ _ => rfl

theorem findHandle_quiet : Quiet Settled (findHandle name) := find_quiet fun _ _ => rfl

theorem findReference_quiet : Quiet Settled (findReference name) := find_quiet fun _ _ => rfl

theorem bindAllocator_quiet {a : Allocator} {b : Bool} : Quiet Settled (bindAllocator name a b) :=
  .modify (fun _ _ => rfl) fun _ => id

theorem bindBlock_quiet {x : Address} {y : Layout} : Quiet Settled (bindBlock name x y) :=
  .modify (fun _ _ => rfl) fun _ => id

theorem bindDescriptor_quiet {c : DescriptorCell} : Quiet Settled (bindDescriptor name c) :=
  .modify (fun _ _ => rfl) fun _ => id

theorem bindSlot_quiet {x : Slot} : Quiet Settled (bindSlot name x) :=
  .modify (fun _ _ => rfl) fun _ => id

theorem bindReference_quiet {r : BareRef} : Quiet Settled (bindReference name r) :=
  .modify (fun _ _ => rfl) fun _ => id

theorem storeHandle_quiet {h : AnyHandle} : Quiet Settled (storeHandle name h) :=
  .modify (fun _ _ => rfl) fun _ => id

theorem address_quiet {place : Place} : Quiet Settled (address place) := by
  cases place with
  | null | outside => exact .pure
  | within name distance => exact .bind findAllocator_quiet fun _ => .pure

theorem addressOfObject_quiet {place : Place} : Quiet Settled (addressOfObject place) :=
  .bind address_quiet fun _ => .ite .throw .pure

theorem keep_quiet {bs : List UInt8} : Quiet Settled (keep bs) :=
  .ite .pure (.bind (lift_quiet (Process.addSegment_quiet ..)) fun _ => .pure)

theorem layout_quiet {size align : Nat} : Quiet Settled (layout size align) := by
  rw [layout]
  split
  · exact .pure
  · exact .throw

theorem readable_quiet {v : Option α} : Quiet Settled (readable v) := by
  cases v with
  | some v => exact .pure
  | none => exact .throw

theorem readPlain_quiet {e : Plain} {v : Literal} : Quiet Settled (readPlain e v) := readable_quiet

theorem arguments_quiet {t : Target} {v : Literal} : Quiet Settled (arguments t v) := readable_quiet

end

/-! ## Operations on allocators -/

theorem opened_quiet {name : String} {a : Allocator} : Quiet Settled (opened name a) :=
  .bind (lift_quiet a.remaining_quiet) fun _ => .bind bindAllocator_quiet fun _ =>
    .ask (fun _ _ => rfl) fun _ => .pure

theorem allocatorFacts_quiet {x : NamedAllocator} : Quiet Settled (allocatorFacts x) := by
  refine .ask (fun _ _ => rfl) fun s => .bind (Allocator.live_quiet _) fun _ =>
    .ite (.bind .pure fun _ => .pure) ?_
  exact .bind (lift_quiet x.allocator.remaining_quiet) fun _ => .bind .pure fun _ => .pure

theorem patched_quiet {b : Bytes} {patches : List (Nat × List UInt8)} :
    Quiet Settled (patched b patches) := by
  induction patches generalizing b with
  | nil => exact .pure
  | cons patch patches ih => exact .ite ih .throw

theorem view_quiet {a : Allocator} {length : Option Nat} : Quiet Settled (view a length) :=
  .ask (fun _ _ => rfl) fun _ => .pure

theorem layoutToFree_quiet {own : Layout} {size align : Option Nat} :
    Quiet Settled (layoutToFree own size align) := by
  cases size with
  | some size => exact layout_quiet
  | none => exact .pure

end Session

open Session in
theorem AllocatorOp.run_quiet (op : AllocatorOp) : Quiet Session.Settled op.run := by
  cases op with
  | create name id length =>
    exact .bind (lift_quiet (Allocator.new_quiet ..)) fun _ => opened_quiet
  | createLent name id length skew =>
    refine .bind (lift_quiet ?_) fun _ => opened_quiet
    exact .bind (Region.lend_quiet ..) fun r => Allocator.create_quiet id r
  | attachShared name source length =>
    exact .bind findAllocator_quiet fun _ => .bind view_quiet fun r =>
      .bind (lift_quiet (Allocator.attach_quiet r)) fun _ => opened_quiet
  | reformat name source id length =>
    exact .bind findAllocator_quiet fun _ => .bind view_quiet fun r =>
      .bind (lift_quiet (Allocator.create_quiet id r)) fun _ => opened_quiet
  | attachCopy name source length patches =>
    refine .bind findAllocator_quiet fun _ => .ask (fun _ _ => rfl) fun _ =>
      .bind patched_quiet fun b => .bind (lift_quiet ?_) fun _ => opened_quiet
    exact .bind (Region.ofBytes_quiet b) Allocator.attach_quiet
  | attachBytes name bytes =>
    refine .bind (lift_quiet ?_) fun _ => opened_quiet
    exact .bind (Region.ofBytes_quiet _) Allocator.attach_quiet
  | describe name =>
    exact .bind (find_quiet fun _ _ => rfl) fun _ =>
      .bind allocatorFacts_quiet fun _ => .pure
  | allocate name block size align =>
    exact .bind findAllocator_quiet fun a => .bind layout_quiet fun y =>
      .bind (lift_quiet (a.allocate_quiet y)) fun _ => .bind bindBlock_quiet fun _ => .pure
  | free name block size align =>
    exact .bind findAllocator_quiet fun a => .bind findBlock_quiet fun _ =>
      .bind (.modify (fun _ _ => rfl) fun _ => id) fun _ =>
      .bind layoutToFree_quiet fun y => .bind (lift_quiet (a.free_quiet _ y)) fun _ => .pure
  | freeAt name place size align =>
    exact .bind findAllocator_quiet fun a => .bind addressOfObject_quiet fun x =>
      .bind layout_quiet fun y => .bind (lift_quiet (a.free_quiet x y)) fun _ => .pure
  | fill name size align limit =>
    exact .bind findAllocator_quiet fun a => .bind layout_quiet fun y =>
      .bind (lift_quiet (a.fill_quiet y limit)) fun _ => .pure
  | toOffset name place =>
    exact .bind findAllocator_quiet fun _ => .bind address_quiet fun _ => .pure
  | toAddress name offset =>
    exact .bind findAllocator_quiet fun _ => .ask (fun _ _ => rfl) fun _ => .pure
  | resolve name offset size align =>
    exact .bind findAllocator_quiet fun _ => .bind layout_quiet fun _ =>
      .ask (fun _ _ => rfl) fun _ => .pure
  | resolveTarget name offset target =>
    exact .bind findAllocator_quiet fun _ => .ask (fun _ _ => rfl) fun _ => .pure
  | peek name offset length =>
    exact .bind findAllocator_quiet fun _ => .ask (fun _ _ => rfl) fun _ => .pure
  | poke name offset bytes =>
    refine .bind findAllocator_quiet fun a => .ite (.bind ?_ fun _ => .pure) .throw
    exact .modify (fun _ _ => rfl) fun _ h => h.congr rfl rfl

/-! ## Operations on registries, descriptors and slots -/

namespace Session

theorem withRegistry_quiet {name : RegistryName} {x : Action Registrar MemoryError α}
    (hx : Quiet Registrar.Settled x) : Quiet Settled (withRegistry name x) := by
  cases name with
  | processWide => exact lift_quiet (Process.withRegistry_quiet hx)
  | named name =>
    refine .bind (find_quiet fun _ _ => rfl) fun g => ⟨fun s => ?_⟩
    obtain ⟨o, t, es, hrun, hkept⟩ := hx.tells ⟨s.process, g⟩
    let registries := s.registries.insert name t.registry
    refine ⟨o.mapError .memory, { s with process := t.process, registries := registries }, es,
      fun l => ?_, hkept⟩
    have hrun : x ⟨(withLevel s l).process, g⟩ = _ := hrun l
    simp only [hrun]
    rfl

theorem findRegistry_quiet {name : RegistryName} : Quiet Settled (findRegistry name) :=
  withRegistry_quiet (.ask (fun _ _ => rfl) fun _ => .pure)

theorem referTo_quiet {a : Option Allocator} : Quiet Settled (referTo a) :=
  .ask (fun _ _ => rfl) fun _ => .pure

theorem descriptorOf_quiet {d : DescriptorArg} : Quiet Settled (descriptorOf d) := by
  cases d with
  | stored name => exact .bind findDescriptor_quiet fun _ => .pure
  | given d => exact .pure

theorem swapOffset_quiet {name : String} {o : Offset} : Quiet Settled (swapOffset name o) := by
  refine .bind ?_ fun _ => .bind bindDescriptor_quiet fun _ => .pure
  exact .bind findDescriptor_quiet fun _ => .ite .pure .throw

theorem storeDescriptor_quiet {name : String} {d : Descriptor} :
    Quiet Settled (storeDescriptor name d) :=
  .bind findDescriptor_quiet fun _ => .bind bindDescriptor_quiet fun _ => .pure

theorem reserve_quiet {name : String} {slot : Slot} : Quiet Settled (reserve name slot) :=
  .bind bindSlot_quiet fun _ => .ask (fun _ _ => rfl) fun _ => .pure

end Session

/-- The operation changes the level. -/
def RegistryOp.SetsLevel : RegistryOp → Prop
  | setLevel text => ∃ l, Level.parse text = .ok l
  | _ => False

open Session in
theorem RegistryOp.run_quiet {op : RegistryOp} (h : ¬ op.SetsLevel) :
    Quiet Session.Settled op.run := by
  cases op with
  | create name config => exact .bind (.modify (fun _ _ => rfl) fun _ => id) fun _ => .pure
  | register registry allocator =>
    exact .bind findAllocator_quiet fun a =>
      .bind (withRegistry_quiet (Registrar.register_quiet a)) fun _ =>
      .ask (fun _ _ => rfl) fun _ => .pure
  | registerNew registry name id length =>
    exact .bind (lift_quiet (Allocator.new_quiet ..)) fun a =>
      .bind (withRegistry_quiet (Registrar.register_quiet a)) fun _ =>
      .bind bindAllocator_quiet fun _ => .ask (fun _ _ => rfl) fun _ => .pure
  | unregister registry id =>
    exact .bind (withRegistry_quiet (Registrar.unregister_quiet id)) fun _ => referTo_quiet
  | get registry id => exact .bind findRegistry_quiet fun _ => referTo_quiet
  | resolve registry id =>
    exact .bind (withRegistry_quiet (Registrar.resolve_quiet id)) fun _ => referTo_quiet
  | default registry name =>
    refine .bind (withRegistry_quiet Registrar.defaultAllocator_quiet) fun _ => ?_
    cases name with
    | some name => exact .bind bindAllocator_quiet fun _ => referTo_quiet
    | none => exact referTo_quiet
  | setDefault registry id =>
    exact .bind (withRegistry_quiet (Registrar.setDefault_quiet id)) fun _ => .pure
  | findOwner registry place =>
    exact .bind address_quiet fun _ => .bind findRegistry_quiet fun _ =>
      referTo_quiet
  | describe registry => exact .bind findRegistry_quiet fun _ => .pure
  | configure config => exact .bind (lift_quiet (Process.configure_quiet config)) fun _ => .pure
  | setLevel text =>
    cases hparse : Level.parse text with
    | ok l => exact absurd ⟨l, hparse⟩ h
    | error u =>
      simp only [run, Log.setLevel, hparse]
      exact .throw

theorem RegistryOp.run_blind (op : RegistryOp) : Blind op.run := by
  by_cases h : op.SetsLevel
  · cases op with
    | setLevel text =>
      obtain ⟨l, hl⟩ := h
      simp only [run, Log.setLevel, hl]
      exact .bind (Session.lift_quiet (Process.heed_quiet fun _ => False.elim)) fun _ => .pure
    | _ => cases h
  · exact (run_quiet h).blind

open Session in
theorem DescriptorOp.run_quiet (op : DescriptorOp) : Quiet Session.Settled op.run := by
  cases op with
  | create name value isAtomic =>
    cases value with
    | some d =>
      exact .bind descriptorOf_quiet fun _ => .bind bindDescriptor_quiet fun _ => .pure
    | none => exact .bind .pure fun _ => .bind bindDescriptor_quiet fun _ => .pure
  | describe name => exact .bind findDescriptor_quiet fun _ => .pure
  | store name d => exact storeDescriptor_quiet
  | swap name offset | storeOffset name offset =>
    exact .bind swapOffset_quiet fun _ => .pure
  | equal left right =>
    exact .bind descriptorOf_quiet fun _ => .bind descriptorOf_quiet fun _ => .pure

open Session in
theorem SlotOp.run_quiet (op : SlotOp) : Quiet Session.Settled op.run := by
  cases op with
  | create name target allocator =>
    exact .bind findAllocator_quiet fun a =>
      .bind (lift_quiet (a.allocate_quiet _)) fun _ => reserve_quiet
  | createIn name target block distance =>
    exact .bind findBlock_quiet fun _ => .ask (fun _ _ => rfl) fun _ =>
      .ite reserve_quiet .throw
  | createOutside name target => exact .bind keep_quiet fun _ => reserve_quiet
  | describe name allocator =>
    exact .bind findSlot_quiet fun _ => .bind findAllocator_quiet fun _ =>
      .ask (fun _ _ => rfl) fun _ => .pure

/-! ## Operations on handles -/

namespace Session

variable {name : String} {t : Target} {k : Kind}

theorem handleAnswer_quiet {h : AnyHandle} : Quiet Settled (handleAnswer h) :=
  .ask (fun _ _ => rfl) fun _ => .pure

theorem bindHandle_quiet {h : Handle t k} : Quiet Settled (bindHandle name h) := by
  refine .bind handleAnswer_quiet fun _ => .ask (fun _ _ => rfl) fun s =>
    .bind storeHandle_quiet fun _ => ?_
  cases s.handles[name]? with
  | some old => exact .bind (lift_quiet Handle.drop_quiet) fun _ => .pure
  | none => exact .pure

theorem takeHandle_quiet : Quiet Settled (takeHandle name) :=
  .bind findHandle_quiet fun _ => .bind (.modify (fun _ _ => rfl) fun _ => id) fun _ => .pure

theorem update_quiet {h : Handle t k} : Quiet Settled (update name h) :=
  .bind storeHandle_quiet fun _ => handleAnswer_quiet

theorem renew_quiet {r : Handle t k × Except HandleError Unit} : Quiet Settled (renew name r) := by
  refine .bind update_quiet fun _ => ?_
  cases r.2 with
  | ok u => exact .pure
  | error e => exact .throw

theorem findAllocator?_quiet {name : Option String} : Quiet Settled (findAllocator? name) := by
  cases name with
  | some name => exact .bind findAllocator_quiet fun _ => .pure
  | none => exact .pure

theorem asSame_quiet {h : AnyHandle} : Quiet Settled (asSame h t k) := by
  rw [asSame]
  cases h.as? t k with
  | some h => exact .pure
  | none => exact .throw

theorem readAs_quiet {e source : Plain} {v : Literal} : Quiet Settled (readAs e source v) := by
  refine .ite (.bind readPlain_quiet fun v => ?_) .throw
  cases Plain.convert? source e v with
  | some v => exact .pure
  | none => exact .throw

theorem convertedArguments_quiet {source : Option Plain} {v : Literal} :
    Quiet Settled (convertedArguments t source v) := by
  cases source with
  | none => exact arguments_quiet
  | some s =>
    cases t with
    | plain e => exact readAs_quiet
    | list e => exact .throw

theorem resolve_quiet {d : DescriptorArg} {registry : RegistryName} :
    Quiet Settled (resolve t d registry) :=
  .bind descriptorOf_quiet fun _ => .bind findRegistry_quiet fun _ =>
    lift_quiet (Resolved.ofDescriptor_quiet ..)

theorem refuse_quiet {h : Handle t k} : Quiet Settled (refuse h : Run α) :=
  .bind (lift_quiet Handle.target_quiet) fun _ => .throw

theorem append_quiet {v : Literal} : Quiet Settled (append name v) := by
  refine .bind findHandle_quiet fun h => ?_
  obtain ⟨t, k, h⟩ := h
  cases t with
  | plain e => exact refuse_quiet
  | list e =>
    exact .bind (lift_quiet Handle.target_quiet) fun _ => .bind readPlain_quiet fun v =>
      lift_quiet (Handle.push_quiet v)

theorem lead_quiet {x : Resolved} : Quiet Settled (lead name t x) :=
  .bind findHandle_quiet fun _ =>
    .ite (.bind (lift_quiet Handle.replace_quiet) fun _ => update_quiet) .throw

theorem handleFacts_quiet {h : AnyHandle} : Quiet Settled (handleFacts name h) :=
  .bind (lift_quiet Handle.value?_quiet) fun _ => .ask (fun _ _ => rfl) fun _ => .pure

end Session

open Session in
theorem HandleOp.run_quiet (op : HandleOp) : Quiet Session.Settled op.run := by
  cases op with
  | build name kind target value allocator source =>
    refine .bind findAllocator?_quiet fun a => .bind convertedArguments_quiet fun args =>
      .bind (lift_quiet ?_) fun _ => bindHandle_quiet
    cases a with
    | some a => exact Handle.build_quiet args
    | none => exact Handle.buildDefault_quiet args
  | buildAt name kind slot allocator value =>
    exact .bind findSlot_quiet fun _ => .bind findAllocator_quiet fun _ =>
      .bind arguments_quiet fun args => .bind (lift_quiet (Handle.buildAt_quiet _ args)) fun _ =>
      bindHandle_quiet
  | ofSlot name kind slot allocator =>
    exact .bind findSlot_quiet fun _ => .bind findAllocator_quiet fun _ => bindHandle_quiet
  | ofDescriptor name kind target d registry =>
    exact .bind resolve_quiet fun _ => bindHandle_quiet
  | ofHandle name kind source =>
    refine .bind findHandle_quiet fun h => ?_
    cases h.handle.resolved? with
    | some x => exact bindHandle_quiet
    | none => exact .pure
  | ofValueOf name kind source =>
    refine .bind findHandle_quiet fun h => ?_
    obtain ⟨t, k, h⟩ := h
    cases t with
    | plain e =>
      exact .bind (lift_quiet Handle.target_quiet) fun _ =>
        .bind (lift_quiet (Handle.ofAddress_quiet _)) fun _ => bindHandle_quiet
    | list e => exact .bind (lift_quiet Handle.target_quiet) fun _ => bindHandle_quiet
  | ofPlace name kind target place =>
    cases target with
    | plain e =>
      exact .bind addressOfObject_quiet fun x =>
        .bind (lift_quiet (Handle.ofAddress_quiet x)) fun _ => bindHandle_quiet
    | list e => exact .throw
  | ofValue name kind target value =>
    cases target with
    | plain e =>
      exact .bind readPlain_quiet fun _ => .bind keep_quiet fun x =>
        .bind (lift_quiet (Handle.ofAddress_quiet x)) fun _ => bindHandle_quiet
    | list e => exact .throw
  | borrow name source =>
    refine .bind findHandle_quiet fun h => ?_
    cases h.handle.borrow? with
    | some h => exact bindHandle_quiet
    | none => exact .pure
  | clone name source =>
    refine .bind findHandle_quiet fun h => ?_
    split
    · exact bindHandle_quiet
    · exact .throw
  | init name value allocator =>
    refine .bind findHandle_quiet fun h => .bind findAllocator?_quiet fun a =>
      .bind arguments_quiet fun args => .bind (lift_quiet ?_) fun _ => renew_quiet
    cases a with
    | some a => exact Handle.init_quiet args
    | none => exact Handle.initDefault_quiet args
  | initAt name slot allocator value =>
    refine .bind findHandle_quiet fun h => .bind findSlot_quiet fun x =>
      .bind findAllocator_quiet fun a => .ite (.bind arguments_quiet fun args => ?_) .throw
    exact .bind (lift_quiet (Handle.initAt_quiet _ args)) fun _ => renew_quiet
  | assign name source =>
    refine .bind findHandle_quiet fun h => .ite .throw (.bind findHandle_quiet fun g => ?_)
    exact .bind asSame_quiet fun _ => .bind takeHandle_quiet fun _ =>
      .bind (lift_quiet Handle.assign_quiet) fun _ => .bind storeHandle_quiet fun _ => update_quiet
  | follow name source =>
    refine .bind findHandle_quiet fun h => ?_
    cases h.handle.resolved? with
    | some x => exact lead_quiet
    | none => exact .pure
  | followDescriptor name target d registry => exact .bind resolve_quiet fun _ => lead_quiet
  | serialize name cell =>
    exact .bind findHandle_quiet fun _ => .ask (fun _ _ => rfl) fun _ => storeDescriptor_quiet
  | archive name =>
    exact .bind findHandle_quiet fun _ => .ask (fun _ _ => rfl) fun _ => .pure
  | describe name => exact .bind findHandle_quiet fun _ => .bind handleFacts_quiet fun _ => .pure
  | read? name =>
    exact .bind findHandle_quiet fun _ => .bind (lift_quiet Handle.value?_quiet) fun _ => .pure
  | read name =>
    exact .bind findHandle_quiet fun _ => .bind (lift_quiet Handle.value_quiet) fun _ => .pure
  | set name value =>
    refine .bind findHandle_quiet fun h => ?_
    obtain ⟨t, k, h⟩ := h
    cases t with
    | plain e =>
      exact .bind (lift_quiet Handle.target_quiet) fun _ => .bind readPlain_quiet fun v =>
        .bind (lift_quiet (Handle.set_quiet v)) fun _ => .pure
    | list e => exact refuse_quiet
  | push name value => exact .bind append_quiet fun _ => .pure
  | pushAll name values =>
    exact .bind findHandle_quiet fun _ => .bind (.forM fun _ => append_quiet) fun _ => .pure
  | item name index =>
    refine .bind findHandle_quiet fun h => ?_
    obtain ⟨t, k, h⟩ := h
    cases t with
    | plain e => exact refuse_quiet
    | list e => exact .bind (lift_quiet (Handle.item_quiet index)) fun _ => .pure
  | length name =>
    refine .bind findHandle_quiet fun h => ?_
    obtain ⟨t, k, h⟩ := h
    cases t with
    | plain e => exact refuse_quiet
    | list e => exact .bind (lift_quiet Handle.length_quiet) fun _ => .pure
  | fingerprint name =>
    refine .bind findHandle_quiet fun h => ?_
    obtain ⟨t, k, h⟩ := h
    cases t with
    | plain e => exact .ite (.bind (lift_quiet Handle.words_quiet) fun _ => .pure) .throw
    | list e => exact .throw
  | shown name =>
    refine .bind findHandle_quiet fun h => ?_
    obtain ⟨t, k, h⟩ := h
    cases t with
    | plain e => exact .bind (lift_quiet Handle.shown_quiet) fun _ => .pure
    | list e => exact .throw
  | same name other =>
    refine .bind findHandle_quiet fun h => ?_
    obtain ⟨t, k, h⟩ := h
    cases t with
    | plain e =>
      exact .bind findHandle_quiet fun _ => .bind asSame_quiet fun _ =>
        .bind (lift_quiet Handle.same_quiet) fun _ => .pure
    | list e => exact .bind findHandle_quiet fun _ => .bind asSame_quiet fun _ => .throw
  | sameAddress name other =>
    exact .bind findHandle_quiet fun _ => .bind findHandle_quiet fun _ => .pure
  | destroy name =>
    exact .bind takeHandle_quiet fun _ => .bind (lift_quiet Handle.destroy_quiet) fun _ => .pure
  | drop name =>
    exact .bind takeHandle_quiet fun _ => .bind (lift_quiet Handle.drop_quiet) fun _ => .pure
  | forget name => exact .bind takeHandle_quiet fun _ => .pure

/-! ## Operations on bare references -/

theorem Session.bareFacts_quiet {r : PlainRef} : Quiet Settled (bareFacts r) := by
  refine .ite (.bind .pure fun _ => .ask (fun _ _ => rfl) fun _ => .pure) ?_
  exact .bind (.map (lift_quiet PlainRef.load_quiet)) fun _ => .ask (fun _ _ => rfl) fun _ => .pure

open Session in
theorem ReferenceOp.run_quiet (op : ReferenceOp) : Quiet Session.Settled op.run := by
  cases op with
  | create name isDestructible => exact .bind bindReference_quiet fun _ => .pure
  | init name allocator value =>
    exact .bind findReference_quiet fun _ => .bind findAllocator_quiet fun a =>
      .bind (lift_quiet (PlainRef.build_quiet a _).mapError) fun _ =>
      .bind bindReference_quiet fun _ => .pure
  | ofValue name value =>
    exact .bind findReference_quiet fun _ => .bind keep_quiet fun x =>
      .bind (lift_quiet (PlainRef.ofAddress_quiet x)) fun _ =>
      .bind bindReference_quiet fun _ => .pure
  | copy name source =>
    refine .bind findReference_quiet fun x => .ask (fun _ _ => rfl) fun s => ?_
    cases s.references[source]? with
    | some y => exact .ite (.bind bindReference_quiet fun _ => .pure) .throw
    | none => exact .throw
  | destroy name =>
    exact .bind findReference_quiet fun _ => .bind (lift_quiet (PlainRef.destroy_quiet _)) fun _ =>
      .bind bindReference_quiet fun _ => .pure
  | describe name =>
    exact .bind findReference_quiet fun _ => .bind bareFacts_quiet fun _ => .pure

end SharedHeap
