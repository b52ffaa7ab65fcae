import SharedHeap.Log.Record

/-!
# Actions

An `Action σ ε α` runs on a state `σ`. It ends with an answer, with an error that its caller may
handle, or with a fault that stops everything up to the outermost caller; in each case the state
reached and the records written on the way remain.
-/

namespace SharedHeap

open Log (Level Record)

/-- Why an operation cannot go on. Nobody recovers from a fault. -/
inductive Fault
  /-- A number leaves the range of a 64-bit word. -/
  | overflow
  /-- A block size beyond the largest size class is taken for one of the classes. -/
  | noSuchClass
  /-- A handle that names nothing is read or written. -/
  | detached
  /-- An access leaves the memory that its address belongs to. -/
  | wildAccess
  /-- The lock of a region is held by nobody who could release it. -/
  | lockHeld
deriving DecidableEq, Repr, Inhabited

inductive Outcome (ε α : Type)
  | ok (a : α)
  | error (e : ε)
  | fault (f : Fault)
deriving DecidableEq, Repr

instance {ε α : Type} : Inhabited (Outcome ε α) := ⟨.fault .overflow⟩

namespace Outcome

variable {ε ε' α β : Type}

def map (f : α → β) : Outcome ε α → Outcome ε β
  | ok a => ok (f a)
  | error e => error e
  | fault f => fault f

def mapError (g : ε → ε') : Outcome ε α → Outcome ε' α
  | ok a => ok a
  | error e => error (g e)
  | fault f => fault f

def toOption : Outcome ε α → Option α
  | ok a => some a
  | _ => none

end Outcome

/-- How a run of an action ended, the state it reached, and what it wrote of itself, in order. -/
structure Ran (σ ε α : Type) where
  outcome : Outcome ε α
  state : σ
  written : List Record

/-- Runs `f` where a run with an answer stopped. -/
def Ran.andThen {σ ε α β : Type} (r : Ran σ ε α) (f : α → σ → Ran σ ε β) : Ran σ ε β :=
  match r.outcome with
  | .ok a =>
    let s := f a r.state
    ⟨s.outcome, s.state, r.written ++ s.written⟩
  | .error e => ⟨.error e, r.state, r.written⟩
  | .fault f => ⟨.fault f, r.state, r.written⟩

def Action (σ ε α : Type) := σ → Ran σ ε α

namespace Action

variable {σ τ ε ε' α β γ : Type}

instance : Monad (Action σ ε) where
  pure a := fun s => ⟨.ok a, s, []⟩
  bind x f := fun s => (x s).andThen fun a s => f a s

@[simp] theorem pure_apply (a : α) (s : σ) :
    (pure a : Action σ ε α) s = ⟨.ok a, s, []⟩ := rfl

@[simp] theorem bind_apply (x : Action σ ε α) (f : α → Action σ ε β) (s : σ) :
    (x >>= f) s = (x s).andThen fun a s => f a s := rfl

@[simp] theorem map_apply (g : α → β) (x : Action σ ε α) (s : σ) :
    (g <$> x) s = (x s).andThen fun a s => ⟨.ok (g a), s, []⟩ := rfl

@[simp] theorem andThen_ok (a : α) (s : σ) (rs : List Record) (f : α → σ → Ran σ ε β) :
    (Ran.mk (.ok a) s rs).andThen f =
      ⟨(f a s).outcome, (f a s).state, rs ++ (f a s).written⟩ := rfl

@[simp] theorem andThen_error (e : ε) (s : σ) (rs : List Record) (f : α → σ → Ran σ ε β) :
    (Ran.mk (.error e) s rs).andThen f = ⟨.error e, s, rs⟩ := rfl

@[simp] theorem andThen_fault (x : Fault) (s : σ) (rs : List Record) (f : α → σ → Ran σ ε β) :
    (Ran.mk (.fault x) s rs).andThen f = ⟨.fault x, s, rs⟩ := rfl

theorem andThen_assoc (r : Ran σ ε α) (f : α → σ → Ran σ ε β) (g : β → σ → Ran σ ε γ) :
    (r.andThen f).andThen g = r.andThen fun a s => (f a s).andThen g := by
  obtain ⟨o, s, rs⟩ := r
  cases o with
  | ok a =>
    cases h : (f a s).outcome <;> simp [Ran.andThen, h]
  | error | fault => rfl

theorem andThen_pure (r : Ran σ ε α) (g : α → β) :
    (r.andThen fun a s => ⟨.ok (g a), s, []⟩) =
      ⟨r.outcome.map g, r.state, r.written⟩ := by
  obtain ⟨o, s, rs⟩ := r
  cases o <;> simp [Ran.andThen, Outcome.map]

instance : LawfulMonad (Action σ ε) := LawfulMonad.mk' _
  (fun x => by
    funext s
    rcases h : x s with ⟨_ | _ | _, _, _⟩ <;> simp [h])
  (fun a f => by funext s; rfl)
  (fun x f g => by funext s; exact andThen_assoc (x s) _ _)

def get : Action σ ε σ := fun s => ⟨.ok s, s, []⟩

def set (s : σ) : Action σ ε Unit := fun _ => ⟨.ok (), s, []⟩

def modify (f : σ → σ) : Action σ ε Unit := fun s => ⟨.ok (), f s, []⟩

def throw (e : ε) : Action σ ε α := fun s => ⟨.error e, s, []⟩

def fault (f : Fault) : Action σ ε α := fun s => ⟨.fault f, s, []⟩

/-- Writes a record if a filter at a level lets it pass. -/
def write (l : Level) (r : Record) : Action σ ε Unit := fun s =>
  ⟨.ok (), s, if r.level ≤ l then [r] else []⟩

/-- Tells a record under a filter at the level `l`. Its text is put together only if the filter lets
records of its level pass. -/
def tell (l level : Level) (target : String) (text : Action σ ε String) : Action σ ε Unit := do
  if level ≤ l then
    write l ⟨level, target, ← text⟩

@[simp] theorem get_apply (s : σ) : (get : Action σ ε σ) s = ⟨.ok s, s, []⟩ := rfl

@[simp] theorem modify_apply (f : σ → σ) (s : σ) :
    (modify f : Action σ ε Unit) s = ⟨.ok (), f s, []⟩ := rfl

@[simp] theorem throw_apply (e : ε) (s : σ) :
    (throw e : Action σ ε α) s = ⟨.error e, s, []⟩ := rfl

@[simp] theorem fault_apply (f : Fault) (s : σ) :
    (fault f : Action σ ε α) s = ⟨.fault f, s, []⟩ := rfl

@[simp] theorem write_apply (l : Level) (r : Record) (s : σ) :
    (write l r : Action σ ε Unit) s = ⟨.ok (), s, if r.level ≤ l then [r] else []⟩ := rfl

/-- Faults unless a condition holds. -/
def require (p : Prop) [Decidable p] (f : Fault) : Action σ ε Unit :=
  if p then pure () else fault f

/-- Runs an action and hands its error to the caller as a value. Faults pass. -/
def attempt (x : Action σ ε α) : Action σ ε' (Except ε α) := fun s =>
  let r := x s
  match r.outcome with
  | .ok a => ⟨.ok (.ok a), r.state, r.written⟩
  | .error e => ⟨.ok (.error e), r.state, r.written⟩
  | .fault f => ⟨.fault f, r.state, r.written⟩

/-- Runs an action. If it faults, another one clears away what it leaves, and the fault passes. -/
def onFault (x : Action σ ε α) (clear : Action σ ε Unit) : Action σ ε α := fun s =>
  let r := x s
  match r.outcome with
  | .fault f =>
    let c := clear r.state
    ⟨.fault f, c.state, r.written ++ c.written⟩
  | _ => r

/-- Runs an action and then changes the state, however the action ended. -/
def afterwards (x : Action σ ε α) (f : σ → σ) : Action σ ε α := fun s =>
  let r := x s
  { r with state := f r.state }

/-- Runs an action for what it does, however it ends. -/
def settle (x : Action σ ε α) : Action σ ε' Unit := fun s =>
  let r := x s
  ⟨.ok (), r.state, r.written⟩

/-- Runs an action under another type of errors. -/
def mapError (g : ε → ε') (x : Action σ ε α) : Action σ ε' α := fun s =>
  let r := x s
  ⟨r.outcome.mapError g, r.state, r.written⟩

@[simp] theorem onFault_ok {x : Action σ ε α} {s : σ} {a : α} (h : (x s).outcome = .ok a)
    (clear : Action σ ε Unit) : onFault x clear s = x s := by
  simp [onFault, h]

@[simp] theorem afterwards_apply (x : Action σ ε α) (f : σ → σ) (s : σ) :
    afterwards x f s = ⟨(x s).outcome, f (x s).state, (x s).written⟩ := rfl

@[simp] theorem settle_apply (x : Action σ ε α) (s : σ) :
    (settle x : Action σ ε' Unit) s = ⟨.ok (), (x s).state, (x s).written⟩ := rfl

@[simp] theorem mapError_apply (g : ε → ε') (x : Action σ ε α) (s : σ) :
    mapError g x s = ⟨(x s).outcome.mapError g, (x s).state, (x s).written⟩ := rfl

end Action

end SharedHeap
