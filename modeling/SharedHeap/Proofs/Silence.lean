import SharedHeap.Allocator.Fill
import SharedHeap.Session.Handles

/-!
# Who listens makes no difference

The level in effect is a part of the state, and an operation looks at it whenever it has something
to tell: only if somebody listens, the text is put together. So an operation takes other steps at
another level. `Action.Quiet` says that it comes to the same: with the same outcome, in the same
state but for the level, and with a story that is the same at all levels and of which those records
are written that are severe enough. It is closed under all that actions are put together from, so
each operation is quiet by its own text.

Next to nothing changes the level itself. The process-wide registry takes over the level of the
environment when it is first asked for, and that is all (`Process.Settled`).
-/

namespace SharedHeap

open Log (Event Level Record play)

/-- A state that a level is in effect in. -/
class Leveled (σ : Type) where
  withLevel : σ → Level → σ

export Leveled (withLevel)

instance : Leveled Process := ⟨fun p l => { p with level := l }⟩

instance : Leveled Registrar := ⟨fun s l => { s with process := withLevel s.process l }⟩

instance : Leveled Session := ⟨fun s l => { s with process := withLevel s.process l }⟩

namespace Action

variable {σ ε ε' α β : Type} [Leveled σ] {I : σ → Prop} {x : Action σ ε α}

/-- From the state `s`, but at whatever level, the action ends with `o` in the state `s'`. What
there is to tell are the events `es`: a filter at the level decides what is written of them. -/
def Tells (x : Action σ ε α) (s : σ) (o : Outcome ε α) (s' : σ) (es : List Event) : Prop :=
  ∀ l, x (withLevel s l) = ⟨o, withLevel s' (play l es).1, (play l es).2⟩

/-- The action does and tells the same at all levels. Where `I` holds of the state, it keeps that up
and does not change the level. -/
structure Quiet (I : σ → Prop) (x : Action σ ε α) : Prop where
  tells : ∀ s, ∃ o s' es, Tells x s o s' es ∧ (I s → I s' ∧ ∀ l, .level l ∉ es)

namespace Quiet

/-- An action that tells nothing, and does not look at the level. -/
theorem of_run {o : σ → Outcome ε α} {f : σ → σ} (hx : ∀ s l, x (withLevel s l) =
    ⟨o s, withLevel (f s) l, []⟩) (hf : ∀ s, I s → I (f s)) : Quiet I x :=
  ⟨fun s => ⟨o s, f s, [], hx s, fun hs => ⟨hf s hs, nofun⟩⟩⟩

protected theorem pure {a : α} : Quiet I (pure a : Action σ ε α) :=
  of_run (fun _ _ => rfl) fun _ => id

protected theorem throw {e : ε} : Quiet I (throw e : Action σ ε α) :=
  of_run (fun _ _ => rfl) fun _ => id

protected theorem fault {f : Fault} : Quiet I (fault f : Action σ ε α) :=
  of_run (fun _ _ => rfl) fun _ => id

protected theorem modify {f : σ → σ} (h : ∀ s l, f (withLevel s l) = withLevel (f s) l)
    (hf : ∀ s, I s → I (f s)) : Quiet I (modify f : Action σ ε Unit) := by
  refine of_run (o := fun _ => .ok ()) (fun s l => ?_) hf
  rw [modify_apply, h]

protected theorem ite {c : Prop} [Decidable c] {y : Action σ ε α} (hx : Quiet I x)
    (hy : Quiet I y) : Quiet I (if c then x else y) := by
  split
  · exact hx
  · exact hy

protected theorem require {c : Prop} [Decidable c] {f : Fault} :
    Quiet I (require c f : Action σ ε Unit) := .ite .pure .fault

protected theorem bind {f : α → Action σ ε β} (hx : Quiet I x) (hf : ∀ a, Quiet I (f a)) :
    Quiet I (x >>= f) := by
  refine ⟨fun s => ?_⟩
  obtain ⟨o, s₁, es, hrun, hkept⟩ := hx.tells s
  cases o with
  | ok a =>
    obtain ⟨o', s₂, fs, hrun', hkept'⟩ := (hf a).tells s₁
    refine ⟨o', s₂, es ++ fs, fun l => ?_, fun hs => ?_⟩
    · simp only [bind_apply, hrun l, andThen_ok, hrun' _, Log.play_append]
    · obtain ⟨h₁, h₂⟩ := hkept hs
      obtain ⟨h₃, h₄⟩ := hkept' h₁
      exact ⟨h₃, fun l hl => (List.mem_append.1 hl).elim (h₂ l) (h₄ l)⟩
  | error e =>
    refine ⟨.error e, s₁, es, fun l => ?_, hkept⟩
    simp only [bind_apply, hrun l, andThen_error]
  | fault y =>
    refine ⟨.fault y, s₁, es, fun l => ?_, hkept⟩
    simp only [bind_apply, hrun l, andThen_fault]

protected theorem map {f : α → β} (hx : Quiet I x) : Quiet I (f <$> x) := by
  rw [← bind_pure_comp]
  exact hx.bind fun _ => .pure

/-- Where the state that is asked was one with `I`, this is known of the rest. -/
theorem ask_of {f : σ → Action σ ε β} (h : ∀ s l, f (withLevel s l) = f s)
    (hf : ∀ s, Quiet (fun s' => I s ∧ I s') (f s)) : Quiet I (get >>= f) := by
  refine ⟨fun s => ?_⟩
  obtain ⟨o, s', es, hrun, hkept⟩ := (hf s).tells s
  refine ⟨o, s', es, fun l => ?_, fun hs => ?_⟩
  · rw [bind_apply, get_apply, andThen_ok, h, hrun]
    rfl
  · obtain ⟨⟨-, hs'⟩, hes⟩ := hkept ⟨hs, hs⟩
    exact ⟨hs', hes⟩

/-- What is asked of the state is nothing that has to do with the level. -/
protected theorem ask {f : σ → Action σ ε β} (h : ∀ s l, f (withLevel s l) = f s)
    (hf : ∀ s, Quiet I (f s)) : Quiet I (get >>= f) := by
  refine ask_of h fun s => ⟨fun s₁ => ?_⟩
  obtain ⟨o, s', es, hrun, hkept⟩ := (hf s).tells s₁
  exact ⟨o, s', es, hrun, fun hs => ⟨⟨hs.1, (hkept hs.2).1⟩, (hkept hs.2).2⟩⟩

protected theorem mapError {g : ε → ε'} (hx : Quiet I x) : Quiet I (x.mapError g) := by
  refine ⟨fun s => ?_⟩
  obtain ⟨o, s', es, hrun, hkept⟩ := hx.tells s
  refine ⟨o.mapError g, s', es, fun l => ?_, hkept⟩
  rw [mapError_apply, hrun]

protected theorem settle (hx : Quiet I x) : Quiet I (settle x : Action σ ε' Unit) := by
  refine ⟨fun s => ?_⟩
  obtain ⟨o, s', es, hrun, hkept⟩ := hx.tells s
  refine ⟨.ok (), s', es, fun l => ?_, hkept⟩
  rw [settle_apply, hrun]

protected theorem attempt (hx : Quiet I x) :
    Quiet I (attempt x : Action σ ε' (Except ε α)) := by
  refine ⟨fun s => ?_⟩
  obtain ⟨o, s', es, hrun, hkept⟩ := hx.tells s
  cases o with
  | ok a => exact ⟨.ok (.ok a), s', es, fun l => by simp only [attempt, hrun l], hkept⟩
  | error e => exact ⟨.ok (.error e), s', es, fun l => by simp only [attempt, hrun l], hkept⟩
  | fault y => exact ⟨.fault y, s', es, fun l => by simp only [attempt, hrun l], hkept⟩

protected theorem onFault {c : Action σ ε Unit} (hx : Quiet I x) (hc : Quiet I c) :
    Quiet I (x.onFault c) := by
  refine ⟨fun s => ?_⟩
  obtain ⟨o, s₁, es, hrun, hkept⟩ := hx.tells s
  cases o with
  | ok a => exact ⟨.ok a, s₁, es, fun l => by simp only [onFault, hrun l], hkept⟩
  | error e => exact ⟨.error e, s₁, es, fun l => by simp only [onFault, hrun l], hkept⟩
  | fault y =>
    obtain ⟨o', s₂, fs, hrun', hkept'⟩ := hc.tells s₁
    refine ⟨.fault y, s₂, es ++ fs, fun l => ?_, fun hs => ?_⟩
    · simp only [onFault, hrun l, hrun' _, Log.play_append]
    · obtain ⟨h₁, h₂⟩ := hkept hs
      obtain ⟨h₃, h₄⟩ := hkept' h₁
      exact ⟨h₃, fun l hl => (List.mem_append.1 hl).elim (h₂ l) (h₄ l)⟩

protected theorem forM {f : α → Action σ ε Unit} {as : List α} (hf : ∀ a, Quiet I (f a)) :
    Quiet I (as.forM f) := by
  induction as with
  | nil => exact .pure
  | cons a as ih => exact .bind (hf a) fun _ => ih

end Quiet

/-- The action does and tells the same at all levels, whatever becomes of the level. -/
abbrev Blind (x : Action σ ε α) : Prop := Quiet (fun _ => False) x

theorem Quiet.blind (hx : Quiet I x) : Blind x := by
  refine ⟨fun s => ?_⟩
  obtain ⟨o, s', es, hrun, -⟩ := hx.tells s
  exact ⟨o, s', es, hrun, False.elim⟩

end Action

open SharedHeap.Action (Quiet)

/-! ## Blocks -/

namespace Block

variable {ε α β : Type} {c : SizeClass} {x : Level → Action Bytes ε α}

/-- The action does and tells the same, whatever level it is told. -/
def Filtered (x : Level → Action Bytes ε α) : Prop :=
  ∀ b, ∃ (o : Outcome ε α) (b' : Bytes) (rs : List Record),
    ∀ l, x l b = ⟨o, b', rs.filter fun r => r.level ≤ l⟩

namespace Filtered

/-- An action that tells nothing. -/
theorem of_written {x : Action Bytes ε α} (h : ∀ b, (x b).written = []) :
    Filtered fun _ => x :=
  fun b => ⟨(x b).outcome, (x b).state, [], fun _ => by rw [List.filter_nil, ← h b]⟩

protected theorem pure {a : α} : Filtered fun _ => (pure a : Action Bytes ε α) :=
  of_written fun _ => rfl

protected theorem throw {e : ε} : Filtered fun _ => (.throw e : Action Bytes ε α) :=
  of_written fun _ => rfl

protected theorem get : Filtered fun _ => (.get : Action Bytes ε Bytes) :=
  of_written fun _ => rfl

protected theorem set {b : Bytes} : Filtered fun _ => (.set b : Action Bytes ε Unit) :=
  of_written fun _ => rfl

protected theorem modify {f : Bytes → Bytes} :
    Filtered fun _ => (.modify f : Action Bytes ε Unit) := of_written fun _ => rfl

protected theorem ite {p : Prop} [Decidable p] {y : Level → Action Bytes ε α} (hx : Filtered x)
    (hy : Filtered y) : Filtered fun l => if p then x l else y l := by
  by_cases hp : p
  · simpa only [if_pos hp] using hx
  · simpa only [if_neg hp] using hy

protected theorem require {p : Prop} [Decidable p] {f : Fault} :
    Filtered fun _ => (.require p f : Action Bytes ε Unit) :=
  .ite .pure (of_written fun _ => rfl)

protected theorem bind {f : Level → α → Action Bytes ε β} (hx : Filtered x)
    (hf : ∀ a, Filtered fun l => f l a) : Filtered fun l => x l >>= f l := by
  intro b
  obtain ⟨o, b₁, rs, hrun⟩ := hx b
  cases o with
  | ok a =>
    obtain ⟨o', b₂, rs', hrun'⟩ := hf a b₁
    refine ⟨o', b₂, rs ++ rs', fun l => ?_⟩
    simp only [Action.bind_apply, hrun, Action.andThen_ok, hrun', List.filter_append]
  | error e =>
    refine ⟨.error e, b₁, rs, fun l => ?_⟩
    simp only [Action.bind_apply, hrun, Action.andThen_error]
  | fault y =>
    refine ⟨.fault y, b₁, rs, fun l => ?_⟩
    simp only [Action.bind_apply, hrun, Action.andThen_fault]

/-- A record is told whose text can be put together and has no effect. -/
protected theorem tell {level : Level} {target : String} {text : Action Bytes ε String}
    {w : Bytes → String} (h : ∀ b, text b = ⟨.ok (w b), b, []⟩) :
    Filtered fun l => Action.tell l level target text := by
  intro b
  refine ⟨.ok (), b, [⟨level, target, w b⟩], fun l => ?_⟩
  by_cases hl : level ≤ l <;> simp [Action.tell, hl, h]

protected theorem afterwards {f : Bytes → Bytes} (hx : Filtered x) :
    Filtered fun l => (x l).afterwards f := by
  intro b
  obtain ⟨o, b', rs, hrun⟩ := hx b
  refine ⟨o, f b', rs, fun l => ?_⟩
  simp only [Action.afterwards_apply, hrun]

end Filtered

theorem request_filtered (y : Layout) : Filtered fun _ => SizeClass.request y :=
  .ite .throw (.bind .require fun _ => .pure)

theorem remaining_filtered : Filtered fun _ => (remaining : Action Bytes ε Nat) :=
  .bind .get fun _ => .bind .require fun _ => .pure

theorem locked_filtered (hx : Filtered x) : Filtered fun l => locked (x l) :=
  .bind .get fun _ => .bind .require fun _ => .bind .set fun _ => hx.afterwards

theorem reuse_filtered (c : SizeClass) (head : UInt64) : Filtered fun _ => reuse c head :=
  .bind .get fun _ => .bind .require fun _ => .bind .set fun _ => .pure

theorem remaining_apply (b : Bytes) :
    (remaining : Action Bytes ε Nat) b =
      if (Header.cursor b).toNat ≤ (Header.capacity b).toNat then
        ⟨.ok ((Header.capacity b).toNat - (Header.cursor b).toNat), b, []⟩
      else ⟨.fault .overflow, b, []⟩ := by
  by_cases h : (Header.cursor b).toNat ≤ (Header.capacity b).toNat <;>
    simp [remaining, Action.require, h]

/-- How much is free is worked out for the record as well as for the error, and neither can be done
if the cursor is beyond the end. So it makes no difference whether there is a record. -/
theorem carve_filtered (c : SizeClass) : Filtered fun l => carve l c := by
  refine .bind .get fun b => .bind .require fun _ => .ite (fun b' => ?_) ?_
  · by_cases h : (Header.cursor b').toNat ≤ (Header.capacity b').toNat
    · let free := (Header.capacity b').toNat - (Header.cursor b').toNat
      let text := s!"allocator {Header.id b} exhausted: {c.blockSize} bytes requested, {free} free"
      refine ⟨.error (.outOfMemory c.blockSize free), b', [⟨.warn, speaker, text⟩], fun l => ?_⟩
      by_cases hl : Level.warn ≤ l <;> simp [Action.tell, remaining_apply, h, hl, text, free]
    · refine ⟨.fault .overflow, b', [], fun l => ?_⟩
      by_cases hl : Level.warn ≤ l <;> simp [Action.tell, remaining_apply, h, hl]
  · exact .bind .set fun _ => .pure

theorem allocate_filtered (y : Layout) : Filtered fun l => allocate l y := by
  refine .bind (request_filtered y) fun c => .ite (.bind remaining_filtered fun _ => .throw) ?_
  refine .bind (locked_filtered ?_) fun _ => .bind .modify fun _ =>
    .bind (.tell fun _ => rfl) fun _ => .pure
  exact .bind .get fun _ => .ite (carve_filtered c) (reuse_filtered c _)

theorem release_filtered (c : SizeClass) (o : Offset) :
    Filtered fun l => (release l c o : Action Bytes ε Unit) := by
  refine .bind (locked_filtered ?_) fun _ => .bind .modify fun _ => .tell fun _ => rfl
  exact .bind .require fun _ => .bind .get fun _ => .bind .require fun _ => .set

end Block

/-! ## Processes -/

namespace Process

variable {ε α : Type}

/-- Asking for the process-wide registry changes no level: somebody has asked for it before, or the
environment names none. -/
structure Settled (p : Process) : Prop where
  unnamed : p.registry = none →
    ∀ text l, p.environment.level = some text → Level.parse text ≠ .ok l

/-- An action that leaves the registry and the environment alone. -/
theorem Settled.congr {p p' : Process} (h : p.Settled) (hr : p'.registry = p.registry)
    (he : p'.environment = p.environment) : p'.Settled := by
  constructor
  rw [hr, he]
  exact h.unnamed

theorem Settled.enrolled {p : Process} {g : Registry} :
    Settled { p with registry := some g } := ⟨nofun⟩

/-- A text that can always be put together, without any effect, and is the same at all levels. -/
def Worded (text : Action Process ε String) : Prop :=
  ∀ p, ∃ w, ∀ l, text (withLevel p l) = ⟨.ok w, withLevel p l, []⟩

theorem Worded.pure {w : String} : Worded (Pure.pure w : Action Process ε String) :=
  fun _ => ⟨w, fun _ => rfl⟩

theorem Worded.ask {f : Process → String} (h : ∀ p l, f (withLevel p l) = f p) :
    Worded (do return f (← .get) : Action Process ε String) :=
  fun p => ⟨f p, fun l => by rw [← h p l]; rfl⟩

theorem say_quiet {level : Level} {target : String} {text : Action Process ε String}
    (h : Worded text) : Quiet Settled (say level target text) := by
  refine ⟨fun p => ?_⟩
  obtain ⟨w, hw⟩ := h p
  refine ⟨.ok (), p, [.record ⟨level, target, w⟩], fun l => ?_, fun hp => ⟨hp, by simp⟩⟩
  have hlevel : (withLevel p l).level = l := rfl
  by_cases hl : level ≤ l <;> simp [say, Action.tell, Log.play, hlevel, hw, hl]

theorem heed_quiet {I : Process → Prop} {es : List Event}
    (h : ∀ p, I p → ∀ l, .level l ∉ es) : Quiet I (heed es : Action Process ε Unit) :=
  ⟨fun p => ⟨.ok (), p, es, fun _ => rfl, fun hp => ⟨hp, h p hp⟩⟩⟩

/-- What is told of bytes are records, so they leave the level. -/
theorem onBytes_quiet {i : Nat} {x : Level → Action Bytes ε α} (hx : Block.Filtered x) :
    Quiet Settled (onBytes i x) := by
  refine ⟨fun p => ?_⟩
  obtain ⟨o, b, rs, hrun⟩ := hx (p.bytes i)
  refine ⟨o, p.setBytes i b, rs.map .record, fun l => ?_, fun hp => ⟨hp.congr rfl rfl, by simp⟩⟩
  have hrun : x l ((withLevel p l).bytes i) = _ := hrun l
  simp only [onBytes, show (withLevel p l).level = l from rfl, hrun, Log.play_records]
  rfl

theorem load_quiet (x : Address) (n : Nat) :
    Quiet Settled (load x n : Action Process ε (List UInt8)) := by
  refine .ite .pure (.ask (fun _ _ => rfl) fun p => ?_)
  cases p.extent? x n with
  | none => exact .fault
  | some place => exact .pure

theorem store_quiet (x : Address) (vs : List UInt8) :
    Quiet Settled (store x vs : Action Process ε Unit) := by
  refine .ite .pure (.ask (fun _ _ => rfl) fun p => ?_)
  cases p.extent? x vs.length with
  | none => exact .fault
  | some place => exact .modify (fun _ _ => rfl) fun _ hp => hp.congr rfl rfl

theorem request_quiet (n : Nat) : Quiet Settled (request n : Action Process ε Bool) :=
  .ask (fun _ _ => rfl) fun _ => .bind (.modify (fun _ _ => rfl) fun _ hp => hp.congr rfl rfl)
    fun _ => .pure

theorem addSegment_quiet (skew : Nat) (b : Bytes) :
    Quiet Settled (addSegment skew b : Action Process ε Nat) :=
  .of_run (o := fun p => .ok p.segments.size)
    (f := fun p => { p with segments := p.segments.push ⟨skew, b⟩ }) (fun _ _ => rfl)
    fun _ hp => hp.congr rfl rfl

theorem finalize_quiet (n : Nat) : Quiet Settled (finalize n : Action Process ε Unit) :=
  .modify (fun _ _ => rfl) fun _ hp => hp.congr rfl rfl

theorem theRegistry_quiet : Quiet Settled (theRegistry : Action Process ε Registry) := by
  refine .ask_of (fun _ _ => rfl) fun p => ?_
  cases hreg : p.registry with
  | some g => exact .pure
  | none =>
    have hlevel : p.Settled → ∀ l, .level l ∉ Log.fromEnvironment p.environment.level := by
      intro hp l hl
      unfold Log.fromEnvironment at hl
      split at hl
      · cases hl
      · next text htext =>
        split at hl
        · next m hm => exact hp.unnamed hreg text m htext hm
        · cases List.mem_singleton.1 hl
    have hsize : ∀ l, .level l ∉ (Config.fromEnvironment p.environment.regionSize).2 := by
      intro l hl
      unfold Config.fromEnvironment at hl
      split at hl
      · cases hl
      · split at hl
        · cases hl
        · cases List.mem_singleton.1 hl
    exact .bind (heed_quiet fun _ hp => hlevel hp.1) fun _ =>
      .bind (heed_quiet fun _ _ => hsize) fun _ =>
      .bind (.modify (fun _ _ => rfl) fun _ hp => ⟨hp.1, .enrolled⟩) fun _ => .pure

theorem configure_quiet (config : Config) :
    Quiet Settled (configure config : Action Process ε Bool) := by
  refine .ask (fun _ _ => rfl) fun p => ?_
  cases p.registry with
  | some g => exact .pure
  | none => exact .bind (.modify (fun _ _ => rfl) fun _ _ => .enrolled) fun _ => .pure

end Process

open Process (Settled Worded say_quiet)

/-! ## Allocators and registries -/

namespace Region

theorem ofBytes_quiet (b : Bytes) : Quiet Settled (ofBytes b) := by
  refine .ite .throw (.ite (.bind (Process.request_quiet _) fun granted => ?_) .throw)
  exact .ite (.bind (Process.addSegment_quiet ..) fun _ => .pure) .throw

theorem lend_quiet (skew length : Nat) : Quiet Settled (lend skew length) :=
  .bind (Process.addSegment_quiet ..) fun _ => .pure

end Region

namespace Allocator

variable {ε : Type}

theorem check_quiet (r : Region) : Quiet Settled (check r) :=
  .ask (fun _ _ => rfl) fun _ => .ite .throw (.ite .pure .throw)

theorem create_quiet (id : AllocatorId) (r : Region) : Quiet Settled (create id r) :=
  .bind (check_quiet r) fun _ => .bind (.modify (fun _ _ => rfl) fun _ hp => hp.congr rfl rfl)
    fun _ => .bind (say_quiet .pure) fun _ => .pure

theorem attach_quiet (r : Region) : Quiet Settled (attach r) :=
  .bind (check_quiet r) fun _ => .ask (fun _ _ => rfl) fun _ =>
    .ite (.bind (say_quiet (.ask fun _ _ => rfl)) fun _ => .pure) .throw

theorem new_quiet (id : AllocatorId) (length : Nat) : Quiet Settled (new id length) :=
  .bind (Region.ofBytes_quiet _) fun r => create_quiet id r

theorem allocate_quiet (a : Allocator) (y : Layout) : Quiet Settled (a.allocate y) :=
  .bind (Process.onBytes_quiet (Block.allocate_filtered y)) fun _ => .pure

theorem free_quiet (a : Allocator) (x : Address) (y : Layout) :
    Quiet Settled (a.free x y : Action Process ε Unit) := by
  have hclass : Quiet Settled (SizeClass.request y) := .ite .throw (.bind .require fun _ => .pure)
  refine .bind hclass.attempt fun r => ?_
  cases r with
  | error e => exact say_quiet .pure
  | ok c =>
    exact .ite (say_quiet (.ask fun _ _ => rfl))
      (Process.onBytes_quiet (Block.release_filtered c _))

theorem remaining_quiet (a : Allocator) : Quiet Settled (a.remaining : Action Process ε Nat) :=
  Process.onBytes_quiet Block.remaining_filtered

theorem fill_quiet (a : Allocator) (y : Layout) (n : Nat) :
    Quiet Settled (a.fill y n : Action Process ε _) := by
  induction n with
  | zero => exact .of_run (o := fun _ => .ok (0, none)) (fun _ _ => rfl) fun _ h => h
  | succ n ih =>
    rw [fill_succ]
    refine .bind (allocate_quiet a y).attempt fun r => ?_
    cases r with
    | ok x => exact .bind ih fun _ => .pure
    | error e => exact .pure

theorem live_quiet {σ : Type} [Leveled σ] {I : σ → Prop} (s : Stats) :
    Quiet I (s.live : Action σ ε Nat) := .bind .require fun _ => .pure

end Allocator

namespace Registrar

variable {ε α : Type} {s : Registrar}

abbrev Settled (s : Registrar) : Prop := s.process.Settled

theorem lift_quiet {x : Action Process ε α} (hx : Quiet Process.Settled x) :
    Quiet Settled (lift x) := by
  refine ⟨fun s => ?_⟩
  obtain ⟨o, p, es, hrun, hkept⟩ := hx.tells s.process
  refine ⟨o, { s with process := p }, es, fun l => ?_, hkept⟩
  have hrun : x (withLevel s l).process = _ := hrun l
  simp only [lift, hrun]
  rfl

theorem say_quiet {level : Level} {text : Action Process ε String} (h : Worded text) :
    Quiet Settled (say level text) := lift_quiet (Process.say_quiet h)

theorem register_quiet (a : Allocator) : Quiet Settled (register a) :=
  .ask (fun _ _ => rfl) fun _ => .ite .throw <|
    .bind (.modify (fun _ _ => rfl) fun _ h => h) fun _ => say_quiet .pure

theorem unregister_quiet (id : AllocatorId) :
    Quiet Settled (unregister id : Action Registrar ε _) := by
  refine .ask (fun _ _ => rfl) fun s => ?_
  cases s.registry.get? id with
  | none => exact .pure
  | some a =>
    exact .bind (.modify (fun _ _ => rfl) fun _ h => h) fun _ =>
      .bind (.modify (fun _ _ => rfl) fun _ h => h) fun _ => .bind (say_quiet .pure) fun _ => .pure

theorem resolve_quiet (id : AllocatorId) : Quiet Settled (resolve id) := by
  refine .ask (fun _ _ => rfl) fun s => ?_
  cases s.registry.get? id with
  | none => exact .bind (say_quiet .pure) fun _ => .throw
  | some a => exact .pure

theorem setDefault_quiet (id : AllocatorId) : Quiet Settled (setDefault id) :=
  .bind (resolve_quiet id) fun _ => .bind (.modify (fun _ _ => rfl) fun _ h => h) fun _ =>
    say_quiet .pure

theorem makeDefault_quiet : Quiet Settled makeDefault :=
  .ask (fun _ _ => rfl) fun _ => .bind (lift_quiet (Allocator.new_quiet ..)) fun a =>
    .bind (register_quiet a) fun _ => .pure

theorem defaultAllocator_quiet : Quiet Settled defaultAllocator := by
  refine .ask (fun _ _ => rfl) fun s => ?_
  dsimp only
  cases s.registry.default with
  | some a => exact .pure
  | none =>
    have hdefault (a : Allocator) : Quiet Settled (do
        .modify fun s => { s with registry.default := some a }
        pure a : Action Registrar MemoryError Allocator) :=
      .bind (.modify (fun _ _ => rfl) fun _ h => h) fun _ => .pure
    cases s.registry.get? s.registry.config.defaultId with
    | some a => exact .bind .pure hdefault
    | none => exact .bind makeDefault_quiet hdefault

end Registrar

namespace Process

variable {ε α : Type}

theorem install_quiet (g : Registry) {x : Action Registrar ε α} (hx : Quiet Registrar.Settled x) :
    Quiet Settled (install g x) := by
  refine ⟨fun p => ?_⟩
  obtain ⟨o, s, es, hrun, hkept⟩ := hx.tells ⟨p, g⟩
  refine ⟨o, { s.process with registry := some s.registry }, es, fun l => ?_, fun hp =>
    ⟨.enrolled, (hkept hp).2⟩⟩
  have hrun : x ⟨withLevel p l, g⟩ = _ := hrun l
  simp only [install, hrun]
  rfl

theorem withRegistry_quiet {x : Action Registrar ε α} (hx : Quiet Registrar.Settled x) :
    Quiet Settled (withRegistry x) :=
  .bind theRegistry_quiet fun g => install_quiet g hx

theorem defaultAllocator_quiet : Quiet Settled defaultAllocator :=
  withRegistry_quiet Registrar.defaultAllocator_quiet

end Process

/-! ## Plain values and lists -/

namespace PlainRef

variable {ε : Type} {r : PlainRef} {t : Plain}

theorem ofAddress_quiet (x : Address) :
    Quiet Settled (ofAddress x : Action Process ε PlainRef) :=
  .bind Process.theRegistry_quiet fun _ =>
    .ite (.bind (say_quiet .pure) fun _ => .pure) .pure

theorem load_quiet : Quiet Settled (r.load t : Action Process ε t.Val) :=
  .bind (Process.load_quiet ..) fun _ => .pure

theorem store_quiet (v : t.Val) : Quiet Settled (r.store t v : Action Process ε Unit) :=
  Process.store_quiet ..

theorem replace_quiet (v : t.Val) : Quiet Settled (r.replace t v : Action Process ε Unit) :=
  .bind (Process.finalize_quiet _) fun _ => store_quiet v

theorem build_quiet (a : Allocator) (v : t.Val) : Quiet Settled (build a t v) := by
  refine .bind (.onFault (Allocator.allocate_quiet ..).attempt (Process.finalize_quiet _))
    fun x => ?_
  cases x with
  | ok x => exact .bind (store_quiet v) fun _ => .pure
  | error e => exact .bind (Process.finalize_quiet _) fun _ => .throw

theorem buildAt_quiet (x : Address) (a : Allocator) (v : t.Val) :
    Quiet Settled (buildAt x a t v : Action Process ε PlainRef) :=
  .bind (store_quiet v) fun _ => .pure

theorem destroy_quiet (d : Bool) :
    Quiet Settled (r.destroy t d : Action Process ε PlainRef) := by
  refine .ite (.ite ?_ .pure) .pure
  cases r.allocator with
  | none => exact .bind (say_quiet .pure) fun _ => .pure
  | some a =>
    exact .bind (say_quiet (.ask fun _ _ => rfl)) fun _ => .bind (Process.finalize_quiet _) fun _ =>
      .bind (Allocator.free_quiet ..) fun _ => .pure

end PlainRef

namespace SharedList

variable {ε : Type} {l : SharedList} {e : Plain}

theorem loadHeader_quiet : Quiet Settled (l.loadHeader : Action Process ε ListHeader) :=
  .bind (Process.load_quiet ..) fun _ => .pure

theorem storeWord_quiet (i : Nat) (w : UInt64) :
    Quiet Settled (l.storeWord i w : Action Process ε Unit) := Process.store_quiet ..

theorem dataLayout_quiet (n : UInt64) :
    Quiet Settled (dataLayout e n : Action Process ε Layout) := by
  unfold dataLayout
  cases e.layout.array? n.toNat with
  | some y => exact .pure
  | none => exact .fault

theorem freeData_quiet (h : ListHeader) :
    Quiet Settled (l.freeData e h : Action Process ε Unit) :=
  .ite .pure (.bind (dataLayout_quiet _) fun _ => Allocator.free_quiet ..)

theorem grow_quiet : Quiet Settled (l.grow e) := by
  have hwords (o : Offset) (c : UInt64) : Quiet Settled (do
      l.storeWord ListHeader.dataAt o.word
      l.storeWord ListHeader.capacityAt c : Action Process MemoryError Unit) :=
    .bind (storeWord_quiet ..) fun _ => storeWord_quiet ..
  refine .bind loadHeader_quiet fun _ => .bind (.bind .require fun _ => .pure) fun c => ?_
  refine .bind (dataLayout_quiet c) fun y => .bind (Allocator.allocate_quiet ..) fun _ => ?_
  refine .bind loadHeader_quiet fun _ => .ite ?_ (hwords ..)
  exact .bind (Process.load_quiet ..) fun _ => .bind (Process.store_quiet ..) fun _ =>
    .bind loadHeader_quiet fun _ => .bind (freeData_quiet _) fun _ => hwords ..

theorem push_quiet (v : e.Val) : Quiet Settled (l.push e v) := by
  have hput : Quiet Settled (do
      let h ← l.loadHeader
      let block := l.allocator.toAddress h.data
      Process.store (block.nth e.size h.length.toNat) (e.encode v)
      let length := (← l.loadHeader).length
      .require (length.toNat + 1 < 2 ^ 64) .overflow
      l.storeWord ListHeader.lengthAt (length + 1) : Action Process MemoryError Unit) :=
    .bind loadHeader_quiet fun _ => .bind (Process.store_quiet ..) fun _ =>
      .bind loadHeader_quiet fun _ => .bind .require fun _ => storeWord_quiet ..
  exact .bind loadHeader_quiet fun _ => .ite (.bind grow_quiet fun _ => hput) hput

theorem pushAll_quiet (vs : List e.Val) : Quiet Settled (l.pushAll e vs) := by
  induction vs with
  | nil => exact .pure
  | cons v vs ih => exact .bind (push_quiet v) fun _ => ih

theorem build_quiet (vs : List e.Val) : Quiet Settled (l.build e vs) := by
  refine .bind (Process.store_quiet ..) fun _ => .bind (pushAll_quiet vs).attempt fun r => ?_
  cases r with
  | ok u => exact .pure
  | error err =>
    exact .bind loadHeader_quiet fun _ => .bind (freeData_quiet _) fun _ => .throw

theorem item_quiet (i : Nat) : Quiet Settled (l.item e i : Action Process ε _) :=
  .bind loadHeader_quiet fun _ => .ite (.bind (Process.load_quiet ..) fun _ => .pure) .pure

theorem toList_quiet : Quiet Settled (l.toList e : Action Process ε _) :=
  .bind loadHeader_quiet fun _ => .ite .pure (.bind (Process.load_quiet ..) fun _ => .pure)

theorem length_quiet : Quiet Settled (l.length : Action Process ε Nat) :=
  .bind loadHeader_quiet fun _ => .pure

theorem destroy_quiet : Quiet Settled (l.destroy e : Action Process ε SharedList) :=
  .ite (.bind loadHeader_quiet fun _ => .bind (freeData_quiet _) fun _ =>
    .bind (Allocator.free_quiet ..) fun _ => .pure) .pure

end SharedList

/-! ## Targets and handles -/

namespace Target

variable {ε : Type} {t : Target} {a : Allocator}

theorem load_quiet (x : t.Ref) : Quiet Settled (t.load x : Action Process ε t.Val) := by
  cases t with
  | plain t => exact PlainRef.load_quiet
  | list e => exact SharedList.toList_quiet

theorem build_quiet (args : t.Args) : Quiet Settled (t.build a args) := by
  cases t with
  | plain t => exact PlainRef.build_quiet a args
  | list e =>
    refine .bind (Allocator.allocate_quiet ..) fun _ =>
      .bind (SharedList.build_quiet _).attempt fun r => ?_
    cases r with
    | ok u => exact .pure
    | error err => exact .bind (Allocator.free_quiet ..) fun _ => .throw

theorem buildAt_quiet (x : Address) (args : t.Args) : Quiet Settled (t.buildAt x a args) := by
  cases t with
  | plain t => exact PlainRef.buildAt_quiet x a args
  | list e => exact .bind (SharedList.build_quiet _) fun _ => .pure

theorem destroy_quiet (x : t.Ref) (d : Bool) :
    Quiet Settled (t.destroy x d : Action Process ε _) := by
  cases t with
  | plain t => exact PlainRef.destroy_quiet d
  | list e => exact SharedList.destroy_quiet

end Target

theorem Resolved.ofDescriptor_quiet (g : Registry) (d : Descriptor) (t : Target) :
    Quiet Settled (ofDescriptor g d t) := by
  refine .ite .throw ?_
  cases g.get? d.id with
  | none => exact .bind (say_quiet .pure) fun _ => .throw
  | some a =>
    refine .ask (fun _ _ => rfl) fun p => ?_
    cases a.resolve p d.offset t.layout with
    | none => exact .bind (say_quiet .pure) fun _ => .throw
    | some x => exact .bind (say_quiet .pure) fun _ => .pure

namespace Handle

variable {ε : Type} {t : Target} {k : Kind} {h f : Handle t k} {a : Allocator}

theorem build_quiet (args : t.Args) :
    Quiet Settled (build a args : Action _ _ (Handle t k)) :=
  .bind (Target.build_quiet args).mapError fun _ => .pure

theorem buildAt_quiet (x : Address) (args : t.Args) :
    Quiet Settled (buildAt x a args : Action _ _ (Handle t k)) :=
  .bind (Target.buildAt_quiet x args).mapError fun _ => .pure

theorem buildDefault_quiet (args : t.Args) :
    Quiet Settled (buildDefault args : Action _ _ (Handle t k)) := by
  refine .bind Process.defaultAllocator_quiet.attempt fun r => ?_
  cases r with
  | ok a => exact build_quiet args
  | error e =>
    cases t with
    | plain t => exact .bind (Process.finalize_quiet _) fun _ => .throw
    | list e => exact .bind .pure fun _ => .throw

theorem release_quiet : Quiet Settled (h.release : Action Process ε Unit) := by
  unfold release
  refine .ite ?_ .pure
  cases h.object with
  | none => exact .pure
  | some x => exact .bind (Target.destroy_quiet ..) fun _ => .pure

theorem drop_quiet : Quiet Settled (h.drop : Action Process ε Unit) :=
  .ite (.bind (say_quiet .pure) fun _ => release_quiet) .pure

theorem replace_quiet : Quiet Settled (h.replace f : Action Process ε _) :=
  .bind (.onFault release_quiet drop_quiet) fun _ => .pure

theorem renewed_quiet (r : Except HandleError (Handle t k)) :
    Quiet Settled (h.renewed r : Action Process ε _) := by
  cases r with
  | ok fresh => exact .bind replace_quiet fun _ => .pure
  | error e => exact .pure

theorem init_quiet (args : t.Args) : Quiet Settled (h.init a args : Action Process ε _) :=
  .bind (build_quiet args).attempt renewed_quiet

theorem initAt_quiet (x : Address) (args : t.Args) :
    Quiet Settled (h.initAt x a args : Action Process ε _) :=
  .bind (buildAt_quiet x args).attempt renewed_quiet

theorem initDefault_quiet (args : t.Args) :
    Quiet Settled (h.initDefault args : Action Process ε _) :=
  .bind (buildDefault_quiet args).attempt renewed_quiet

theorem assign_quiet : Quiet Settled (h.assign f : Action Process ε _) :=
  .bind replace_quiet fun _ => .pure

theorem destroy_quiet : Quiet Settled (h.destroy : Action Process ε Unit) := by
  unfold destroy
  cases h.object with
  | none => exact .pure
  | some x => exact .bind (.onFault (Target.destroy_quiet ..) drop_quiet) fun _ => .pure

theorem target_quiet : Quiet Settled (h.target : Action Process ε t.Ref) := by
  unfold target
  cases h.object with
  | none => exact .fault
  | some x => exact .pure

theorem value?_quiet : Quiet Settled (h.value? : Action Process ε _) := by
  unfold value?
  cases h.object with
  | none => exact .pure
  | some x => exact .bind (Target.load_quiet x) fun _ => .pure

theorem value_quiet : Quiet Settled (h.value : Action Process ε t.Val) :=
  .bind target_quiet Target.load_quiet

theorem ofAddress_quiet {e : Plain} (x : Address) :
    Quiet Settled (ofAddress x : Action Process ε (Handle (.plain e) k)) :=
  .bind (PlainRef.ofAddress_quiet x) fun _ => .pure

section

variable {e : Plain} {h g : Handle (.plain e) k}

theorem set_quiet (v : e.Val) : Quiet Settled (h.set v : Action Process ε Unit) :=
  .bind target_quiet fun _ => PlainRef.replace_quiet v

theorem words_quiet : Quiet Settled (h.words : Action Process ε _) := by
  refine .bind value?_quiet fun v => ?_
  cases v with
  | none => exact .pure
  | some v => exact .pure

theorem same_quiet : Quiet Settled (h.same g : Action Process ε Bool) := by
  refine .bind value?_quiet fun v => .bind value?_quiet fun w => ?_
  cases v <;> cases w <;> exact .pure

theorem shown_quiet : Quiet Settled (h.shown : Action Process ε String) := by
  refine .bind value?_quiet fun v => ?_
  cases v with
  | none => exact .pure
  | some v => exact .pure

end

section

variable {e : Plain} {h : Handle (.list e) k}

theorem push_quiet (v : e.Val) : Quiet Settled (h.push v) :=
  .bind target_quiet fun _ => (SharedList.push_quiet v).mapError

theorem item_quiet (i : Nat) : Quiet Settled (h.item i : Action Process ε _) :=
  .bind target_quiet fun _ => SharedList.item_quiet i

theorem length_quiet : Quiet Settled (h.length : Action Process ε Nat) :=
  .bind target_quiet fun _ => SharedList.length_quiet

end

end Handle

end SharedHeap
