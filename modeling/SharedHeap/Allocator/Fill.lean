import SharedHeap.Allocator.Basic

/-!
# Filling a region

Allocating blocks of one layout until there is an error. The run is kept in an accumulator, since
there may be a great many blocks.
-/

namespace SharedHeap.Allocator

open Log (Record)

variable {ε : Type}

/-- Allocates at most `n` more blocks. `told` are the records so far, the last one first. -/
def fillFrom (a : Allocator) (l : Layout) :
    (n count : Nat) → Process → (told : List Record) → Ran Process ε (Nat × Option MemoryError)
  | 0, count, p, told => ⟨.ok (count, none), p, told.reverse⟩
  | n + 1, count, p, told =>
    let r := a.allocate l p
    let told := r.written.reverse ++ told
    match r.outcome with
    | .ok _ => fillFrom a l n (count + 1) r.state told
    | .error e => ⟨.ok (count, some e), r.state, told.reverse⟩
    | .fault f => ⟨.fault f, r.state, told.reverse⟩

/-- Allocates blocks of a layout, at most `n`. Answers how many there were, and the error that ended
it. -/
def fill (a : Allocator) (l : Layout) (n : Nat) :
    Action Process ε (Nat × Option MemoryError) := fun p => fillFrom a l n 0 p []

/-- What was told and counted before a run stands in front of what the run tells and counts. -/
theorem fillFrom_eq (a : Allocator) (l : Layout) (n count : Nat) (p : Process)
    (told : List Record) :
    (fillFrom a l n count p told : Ran Process ε _) =
      let r : Ran Process ε _ := a.fill l n p
      ⟨r.outcome.map fun x => (count + x.1, x.2), r.state, told.reverse ++ r.written⟩ := by
  suffices h : ∀ (count c : Nat) (told t : List Record),
      (fillFrom a l n (count + c) p (t ++ told) : Ran Process ε _) =
        let r : Ran Process ε _ := fillFrom a l n c p t
        ⟨r.outcome.map fun x => (count + x.1, x.2), r.state, told.reverse ++ r.written⟩ by
    simpa [fill] using h count 0 told []
  induction n generalizing p with
  | zero => simp [fillFrom, Outcome.map]
  | succ n ih =>
    intro count c told t
    simp only [fillFrom]
    cases (a.allocate l p).outcome with
    | ok x =>
      simp only [← List.append_assoc, Nat.add_assoc]
      exact ih _ count (c + 1) told _
    | error e | fault f => simp [Outcome.map]

/-- Filling goes on behind each block, and stops at the first error. -/
theorem fill_succ (a : Allocator) (l : Layout) (n : Nat) :
    (a.fill l (n + 1) : Action Process ε _) =
      Action.attempt (a.allocate l) >>= fun
        | .ok _ => (fun x => (x.1 + 1, x.2)) <$> a.fill l n
        | .error e => pure (0, some e) := by
  funext p
  simp only [fill, fillFrom, Action.bind_apply, Action.attempt]
  cases (a.allocate l p).outcome with
  | ok x =>
    rw [fillFrom_eq]
    simp only [Action.map_apply, fill, Ran.andThen]
    cases (fillFrom a l n 0 (a.allocate l p).state [] : Ran Process ε _).outcome <;>
      simp [Outcome.map, Nat.add_comm]
  | error e | fault f => simp [Ran.andThen]

end SharedHeap.Allocator
