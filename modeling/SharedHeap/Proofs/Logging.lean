import SharedHeap.Proofs.Levels
import SharedHeap.Session.History

/-!
# Logging has no part in what is done

Whatever the level in effect is, a history ends with the same results and in the same state
(`Session.unswayed`). If nothing that is done changes the level, what is written at some level is
what is written at the lowest one, less the records that are not severe enough.
-/

namespace SharedHeap

open SharedHeap.Action (Quiet Blind Tells)
open Log (Event Level Record)

namespace Log

def Event.record? : Event → Option Record
  | .record r => some r
  | .level _ => none

/-- The records among events. -/
def records (es : List Event) : List Record := es.filterMap Event.record?

/-- Events that change no level are records. -/
theorem map_records {es : List Event} (h : ∀ l, .level l ∉ es) :
    (records es).map .record = es := by
  induction es with
  | nil => rfl
  | cons e es ih =>
    have ih := ih fun l hl => h l (List.mem_cons_of_mem _ hl)
    cases e with
    | record r => exact congrArg _ ih
    | level l => exact absurd List.mem_cons_self (h l)

/-- Where no level is changed, the filter passes the records that are severe enough. -/
theorem play_of_records {es : List Event} (h : ∀ l, .level l ∉ es) (l : Level) :
    play l es = (l, (records es).filter fun r => r.level ≤ l) := by
  rw [← play_records, map_records h]

/-- Behind a change of level it makes no difference what the level was in front of it. -/
theorem play_of_level {es : List Event} {m : Level} (h : .level m ∈ es) :
    ∃ n, ∀ l, (play l es).1 = n := by
  induction es with
  | nil => cases h
  | cons e es ih =>
    cases e with
    | level k => exact ⟨(play k es).1, fun _ => rfl⟩
    | record r => exact ih ((List.mem_cons.1 h).resolve_left nofun)

/-- A filter that keeps every level was told of no change. -/
theorem level_not_mem {es : List Event} (h : ∀ l, (play l es).1 = l) (m : Level) :
    .level m ∉ es := by
  intro hm
  obtain ⟨n, hn⟩ := play_of_level hm
  have herror : Level.error = n := (h .error).symm.trans (hn .error)
  have htrace : Level.trace = n := (h .trace).symm.trans (hn .trace)
  exact absurd (herror.trans htrace.symm) (by decide)

theorem filter_trace (rs : List Record) : (rs.filter fun r => r.level ≤ Level.trace) = rs :=
  List.filter_eq_self.2 fun r _ => decide_eq_true (Level.le_trace r.level)

end Log

namespace Op

/-- The operation changes the level. -/
def SetsLevel : Op → Prop
  | onRegistries op => op.SetsLevel
  | _ => False

theorem run_quiet {op : Op} (h : ¬ op.SetsLevel) : Quiet Session.Settled op.run := by
  cases op with
  | onAllocators op => exact op.run_quiet
  | onRegistries op => exact RegistryOp.run_quiet h
  | onDescriptors op => exact op.run_quiet
  | onSlots op => exact op.run_quiet
  | onHandles op => exact op.run_quiet
  | onReferences op => exact op.run_quiet
  | showInline => exact .pure

theorem run_blind (op : Op) : Blind op.run := by
  cases op with
  | onRegistries op => exact op.run_blind
  | _ => exact (run_quiet id).blind

end Op

namespace Session

variable {s : Session} {ops : List Op}

theorem dropAll_quiet : Quiet Settled dropAll :=
  .ask (fun _ _ => rfl) fun _ => .forM fun _ => .settle (HandleOp.run_quiet _)

/-- The records that are written in the course of a history, of each operation and of the drops at
the end. -/
def records : Session → List Op → List (List Record)
  | s, [] => [(dropAll s).written]
  | s, op :: ops => (op.run s).written :: (s.step op).2.records ops

/-- The level in effect behind each operation and behind the drops at the end. -/
def levels : Session → List Op → List Level
  | s, [] => [(dropAll s).state.process.level]
  | s, op :: ops => (s.step op).2.process.level :: (s.step op).2.levels ops

/-- Nothing that is done in the course of a history changes the level, whatever it is. -/
def KeepsLevel (s : Session) (ops : List Op) : Prop :=
  ∀ l, ∀ m ∈ (withLevel s l).levels ops, m = l

/-! ## Two levels -/

/-- At whatever level, the operations of a history have the same results, and but for the level
they end in the same state. -/
theorem steps_withLevel (s : Session) (ops : List Op) :
    ∃ outcomes tallies s', ∀ l, ((withLevel s l).steps ops).1.map Report.outcome = outcomes ∧
      ((withLevel s l).steps ops).1.map Report.tallies = tallies ∧
      ∃ m, ((withLevel s l).steps ops).2 = withLevel s' m := by
  induction ops generalizing s with
  | nil => exact ⟨[], [], s, fun l => ⟨rfl, rfl, l, rfl⟩⟩
  | cons op ops ih =>
    obtain ⟨o, s₁, es, hrun, -⟩ := op.run_blind.tells s
    obtain ⟨outcomes, tallies, s', hrest⟩ := ih s₁
    refine ⟨o :: outcomes, s₁.tallies :: tallies, s', fun l => ?_⟩
    obtain ⟨houtcomes, htallies, m, hm⟩ := hrest (Log.play l es).1
    simp only [steps, step, hrun l, List.map_cons, houtcomes, htallies, true_and]
    exact ⟨rfl, m, hm⟩

theorem finish_withLevel (s : Session) :
    ∃ tallies finalized s', ∀ l, (withLevel s l).finish.1.tallies = tallies ∧
      (withLevel s l).finish.1.finalized = finalized ∧
      ∃ m, (withLevel s l).finish.2 = withLevel s' m := by
  obtain ⟨o, s', es, hrun, -⟩ := dropAll_quiet.tells s
  refine ⟨s'.tallies, s'.process.finalized, s', fun l => ?_⟩
  simp only [finish, hrun l]
  exact ⟨rfl, rfl, _, rfl⟩

/-! ## What is written -/

/-- The lines of the reports and of the ending are those of the records. -/
theorem lines_eq (s : Session) (ops : List Op) :
    (s.steps ops).1.map Report.lines ++ [(s.steps ops).2.finish.1.lines] =
      (s.records ops).map Log.lines := by
  induction ops generalizing s with
  | nil => rfl
  | cons op ops ih => exact congrArg _ (ih (s.step op).2)

/-- What is written at a level is what is written at the lowest one, as far as it is severe
enough. -/
theorem KeepsLevel.records (h : s.KeepsLevel ops) (l : Level) :
    (withLevel s l).records ops =
      ((withLevel s .trace).records ops).map fun rs => rs.filter fun r => r.level ≤ l := by
  induction ops generalizing s with
  | nil =>
    obtain ⟨o, s', es, hrun, -⟩ := dropAll_quiet.tells s
    have hes : ∀ m, .level m ∉ es := Log.level_not_mem fun m => by
      have hm := h m
      simp only [levels, hrun m, List.mem_singleton, forall_eq] at hm
      exact hm
    simp only [Session.records, hrun _, Log.play_of_records hes, Log.filter_trace, List.map_cons,
      List.map_nil]
  | cons op ops ih =>
    obtain ⟨o, s₁, es, hrun, -⟩ := op.run_blind.tells s
    have hes : ∀ m, .level m ∉ es := Log.level_not_mem fun m => by
      have hm := (List.forall_mem_cons.1 (h m)).1
      simp only [step, hrun m] at hm
      exact hm
    have hstep (m : Level) : ((withLevel s m).step op).2 = withLevel s₁ m := by
      simp only [step, hrun m, Log.play_of_records hes]
    have hops : s₁.KeepsLevel ops := fun m => by
      have hm := (List.forall_mem_cons.1 (h m)).2
      rwa [hstep] at hm
    simp only [Session.records, hstep, hrun _, Log.play_of_records hes, Log.filter_trace,
      List.map_cons, ih hops]

/-- Operations whose business that is not do not change the level. -/
theorem keepsLevel_of_settled (hs : s.Settled) (h : ∀ op ∈ ops, ¬ op.SetsLevel) :
    s.KeepsLevel ops := by
  intro l
  induction ops generalizing s with
  | nil =>
    obtain ⟨o, s', es, hrun, hkept⟩ := dropAll_quiet.tells s
    simp only [levels, hrun l, Log.play_of_records (hkept hs).2, List.mem_singleton, forall_eq]
    rfl
  | cons op ops ih =>
    obtain ⟨hop, hops⟩ := List.forall_mem_cons.1 h
    obtain ⟨o, s₁, es, hrun, hkept⟩ := (Op.run_quiet hop).tells s
    obtain ⟨hs₁, hes⟩ := hkept hs
    simp only [levels, step, hrun l, Log.play_of_records hes]
    exact List.forall_mem_cons.2 ⟨rfl, ih hs₁ hops⟩

/-- Logging has no part in what a history does. -/
structure Unswayed (s : Session) (ops : List Op) : Prop where
  /-- At all levels there are the same results and errors. -/
  outcomes : ∀ l m, ((withLevel s l).steps ops).1.map Report.outcome =
    ((withLevel s m).steps ops).1.map Report.outcome
  /-- After each operation all allocators have the same counters. -/
  tallies : ∀ l m, ((withLevel s l).steps ops).1.map Report.tallies =
    ((withLevel s m).steps ops).1.map Report.tallies
  /-- The process, with its memory and its count of finalized values, and everything that has a name
  end up the same. -/
  state : ∀ l m n, withLevel ((withLevel s l).steps ops).2 n =
    withLevel ((withLevel s m).steps ops).2 n
  /-- So they do behind the drops at the end. -/
  ending : ∀ l m n, ((withLevel s l).steps ops).2.finish.1.tallies =
      ((withLevel s m).steps ops).2.finish.1.tallies ∧
    ((withLevel s l).steps ops).2.finish.1.finalized =
      ((withLevel s m).steps ops).2.finish.1.finalized ∧
    withLevel ((withLevel s l).steps ops).2.finish.2 n =
      withLevel ((withLevel s m).steps ops).2.finish.2 n
  /-- The lines of the reports and of the ending are those of the records. -/
  lines : ∀ l, ((withLevel s l).steps ops).1.map Report.lines ++
      [((withLevel s l).steps ops).2.finish.1.lines] =
    ((withLevel s l).records ops).map Log.lines
  /-- If nothing that is done changes the level, what is written at a level are the records of the
  lowest level that are severe enough, in the same order. -/
  filtered : s.KeepsLevel ops → ∀ l, (withLevel s l).records ops =
    ((withLevel s .trace).records ops).map fun rs => rs.filter fun r => r.level ≤ l
  /-- Only setting the level changes it, and asking for the process-wide registry if nobody has done
  so before and the environment names a level. -/
  keeps : s.process.Settled → (∀ op ∈ ops, ¬ op.SetsLevel) → s.KeepsLevel ops

/-- Logging has no part in what any history does. -/
theorem unswayed (s : Session) (ops : List Op) : s.Unswayed ops := by
  obtain ⟨outcomes, tallies, s', hsteps⟩ := s.steps_withLevel ops
  obtain ⟨tallies', finalized, s'', hfinish⟩ := s'.finish_withLevel
  exact {
    outcomes := fun l m => (hsteps l).1.trans (hsteps m).1.symm
    tallies := fun l m => (hsteps l).2.1.trans (hsteps m).2.1.symm
    state := by
      intro l m n
      obtain ⟨-, -, l', hl⟩ := hsteps l
      obtain ⟨-, -, m', hm⟩ := hsteps m
      rw [hl, hm]
      rfl
    ending := by
      intro l m n
      obtain ⟨-, -, l', hl⟩ := hsteps l
      obtain ⟨-, -, m', hm⟩ := hsteps m
      obtain ⟨hl₁, hl₂, l'', hl₃⟩ := hfinish l'
      obtain ⟨hm₁, hm₂, m'', hm₃⟩ := hfinish m'
      rw [hl, hm, hl₁, hm₁, hl₂, hm₂, hl₃, hm₃]
      exact ⟨rfl, rfl, rfl⟩
    lines := fun l => (withLevel s l).lines_eq ops
    filtered := KeepsLevel.records
    keeps := keepsLevel_of_settled }

/-- A session that nobody has done anything in, on a system that grants all requests. -/
def blank : Session := start ⟨fun _ _ => true, 0⟩ none ⟨none, none⟩ .info

/-- An allocator is made, and asked for more than its region has. -/
def exhausting : List Op :=
  [.onAllocators (.create "a" ⟨1, 0⟩ 4096), .onAllocators (.allocate "a" "b" 8000 8)]

/-- What is told of the refusal. -/
def exhausted : Record :=
  ⟨.warn, Block.speaker, "allocator 1.0 exhausted: 8192 bytes requested, 3776 free"⟩

/-- The level is kept, one record is told of each operation, and a filter at `warn` leaves that of
the second. -/
theorem unswayed_exhausting : blank.Unswayed exhausting ∧ blank.KeepsLevel exhausting ∧
    ((withLevel blank .trace).records exhausting).map (fun rs => rs.map Record.level) =
      [[.info], [.warn], []] ∧
    (withLevel blank .warn).records exhausting = [[], [exhausted], []] := by
  have h := unswayed blank exhausting
  have hsettled : blank.process.Settled := ⟨fun _ text l ht => nomatch ht⟩
  have hops : ∀ op ∈ exhausting, ¬ op.SetsLevel := by
    simp [exhausting, Op.SetsLevel]
  have hk := h.keeps hsettled hops
  refine ⟨h, hk, by decide +kernel, ?_⟩
  rw [h.filtered hk]
  decide +kernel

end Session

end SharedHeap
