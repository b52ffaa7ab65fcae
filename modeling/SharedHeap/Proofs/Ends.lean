import SharedHeap.Action

/-!
# How an action ends

`Ends x s o s'` says that the action `x`, started on the state `s`, ends with the outcome `o` on the
state `s'`. What it writes on the way is left open. There is one rule for each way to put actions
together, so a run is followed step by step from the runs of its parts.
-/

namespace SharedHeap.Action

variable {σ ε ε' α β : Type}

structure Ends (x : Action σ ε α) (s : σ) (o : Outcome ε α) (s' : σ) : Prop where
  outcome : (x s).outcome = o
  state : (x s).state = s'

namespace Ends

variable {x : Action σ ε α} {f : α → Action σ ε β} {s s' s'' : σ} {a : α} {e : ε} {y : Fault}

protected theorem pure : Ends (pure a : Action σ ε α) s (.ok a) s := ⟨rfl, rfl⟩

protected theorem get : Ends (Action.get : Action σ ε σ) s (.ok s) s := ⟨rfl, rfl⟩

protected theorem set : Ends (Action.set s' : Action σ ε Unit) s (.ok ()) s' := ⟨rfl, rfl⟩

protected theorem modify {g : σ → σ} : Ends (Action.modify g : Action σ ε Unit) s (.ok ()) (g s) :=
  ⟨rfl, rfl⟩

protected theorem throw : Ends (Action.throw e : Action σ ε α) s (.error e) s := ⟨rfl, rfl⟩

protected theorem fault : Ends (Action.fault y : Action σ ε α) s (.fault y) s := ⟨rfl, rfl⟩

theorem require {p : Prop} [Decidable p] (h : p) :
    Ends (Action.require p y : Action σ ε Unit) s (.ok ()) s := by
  rw [Action.require, if_pos h]
  exact .pure

theorem require_fault {p : Prop} [Decidable p] (h : ¬ p) :
    Ends (Action.require p y : Action σ ε Unit) s (.fault y) s := by
  rw [Action.require, if_neg h]
  exact .fault

protected theorem bind {o : Outcome ε β} (hx : Ends x s (.ok a) s') (hf : Ends (f a) s' o s'') :
    Ends (x >>= f) s o s'' := by
  obtain ⟨h₁, rfl⟩ := hx
  obtain ⟨rfl, rfl⟩ := hf
  constructor <;> simp [Ran.andThen, h₁]

/-- Whether or not anybody listens, telling something changes nothing. -/
protected theorem tell {l level : Log.Level} {target text : String} {x : Action σ ε String}
    (hx : Ends x s (.ok text) s) : Ends (Action.tell l level target x) s (.ok ()) s := by
  unfold Action.tell
  split
  · exact .bind hx ⟨rfl, rfl⟩
  · exact .pure

/-- What comes after a step that is taken under a condition only. -/
theorem ite_bind {c : Prop} [Decidable c] {x : Action σ ε Unit} {k : Unit → Action σ ε β}
    {o : Outcome ε β} (hx : Ends (if c then x else pure ()) s (.ok ()) s')
    (hk : Ends (k ()) s' o s'') : Ends (if c then x >>= k else k ()) s o s'' := by
  by_cases h : c
  · rw [if_pos h] at hx ⊢
    exact .bind hx hk
  · rw [if_neg h] at hx ⊢
    obtain ⟨-, rfl⟩ := hx
    exact hk

theorem bind_error (hx : Ends x s (.error e) s') : Ends (x >>= f) s (.error e) s' := by
  obtain ⟨h₁, rfl⟩ := hx
  constructor <;> simp [Ran.andThen, h₁]

theorem bind_fault (hx : Ends x s (.fault y) s') : Ends (x >>= f) s (.fault y) s' := by
  obtain ⟨h₁, rfl⟩ := hx
  constructor <;> simp [Ran.andThen, h₁]

protected theorem map {g : α → β} (hx : Ends x s (.ok a) s') :
    Ends (g <$> x) s (.ok (g a)) s' := by
  obtain ⟨h₁, rfl⟩ := hx
  constructor <;> simp [Ran.andThen, h₁]

theorem mapError {g : ε → ε'} {o : Outcome ε α} (hx : Ends x s o s') :
    Ends (x.mapError g) s (o.mapError g) s' := by
  obtain ⟨rfl, rfl⟩ := hx
  exact ⟨rfl, rfl⟩

theorem attempt (hx : Ends x s (.ok a) s') :
    Ends (Action.attempt x : Action σ ε' (Except ε α)) s (.ok (.ok a)) s' := by
  obtain ⟨h₁, rfl⟩ := hx
  constructor <;> simp [Action.attempt, h₁]

theorem attempt_error (hx : Ends x s (.error e) s') :
    Ends (Action.attempt x : Action σ ε' (Except ε α)) s (.ok (.error e)) s' := by
  obtain ⟨h₁, rfl⟩ := hx
  constructor <;> simp [Action.attempt, h₁]

theorem attempt_fault (hx : Ends x s (.fault y) s') :
    Ends (Action.attempt x : Action σ ε' (Except ε α)) s (.fault y) s' := by
  obtain ⟨h₁, rfl⟩ := hx
  constructor <;> simp [Action.attempt, h₁]

theorem onFault {clear : Action σ ε Unit} (hx : Ends x s (.ok a) s') :
    Ends (Action.onFault x clear) s (.ok a) s' := by
  obtain ⟨h₁, rfl⟩ := hx
  constructor <;> simp [h₁]

theorem afterwards {g : σ → σ} {o : Outcome ε α} (hx : Ends x s o s') :
    Ends (Action.afterwards x g) s o (g s') := by
  obtain ⟨rfl, rfl⟩ := hx
  exact ⟨rfl, rfl⟩

/-! ## Runs that are known to have ended -/

theorem unique {o o' : Outcome ε α} (h : Ends x s o s') (h' : Ends x s o' s'') :
    o = o' ∧ s' = s'' := ⟨h.outcome.symm.trans h'.outcome, h.state.symm.trans h'.state⟩

theorem of_bind {o : Outcome ε β} (h : Ends (x >>= f) s o s') :
    (∃ a s₁, Ends x s (.ok a) s₁ ∧ Ends (f a) s₁ o s') ∨
      (∃ e, o = .error e ∧ Ends x s (.error e) s') ∨
      ∃ y, o = .fault y ∧ Ends x s (.fault y) s' := by
  obtain ⟨rfl, rfl⟩ := h
  rw [bind_apply]
  rcases hx : x s with ⟨o, s₁, t⟩
  cases o with
  | ok a => exact .inl ⟨a, s₁, ⟨by rw [hx], by rw [hx]⟩, rfl, rfl⟩
  | error e => exact .inr (.inl ⟨e, rfl, by rw [hx], by rw [hx]; rfl⟩)
  | fault y => exact .inr (.inr ⟨y, rfl, by rw [hx], by rw [hx]; rfl⟩)

theorem of_bind_ok {b : β} (h : Ends (x >>= f) s (.ok b) s') :
    ∃ a s₁, Ends x s (.ok a) s₁ ∧ Ends (f a) s₁ (.ok b) s' := by
  rcases h.of_bind with h | ⟨e, he, -⟩ | ⟨y, hy, -⟩
  · exact h
  · cases he
  · cases hy

theorem of_bind_error (h : Ends (x >>= f) s (.error e) s') :
    Ends x s (.error e) s' ∨ ∃ a s₁, Ends x s (.ok a) s₁ ∧ Ends (f a) s₁ (.error e) s' := by
  rcases h.of_bind with h | ⟨e', he, hx⟩ | ⟨y, hy, -⟩
  · exact .inr h
  · obtain rfl := Outcome.error.inj he
    exact .inl hx
  · cases hy

theorem of_attempt_ok (h : Ends (Action.attempt x : Action σ ε' (Except ε α)) s
    (.ok (.ok a)) s') : Ends x s (.ok a) s' := by
  cases ho : (x s).outcome with
  | ok a' =>
    obtain ⟨ha, rfl⟩ := h.unique (attempt ⟨ho, rfl⟩)
    cases ha
    exact ⟨ho, rfl⟩
  | error e => cases (h.unique (attempt_error ⟨ho, rfl⟩)).1
  | fault y => cases (h.unique (attempt_fault ⟨ho, rfl⟩)).1

theorem of_attempt_error (h : Ends (Action.attempt x : Action σ ε' (Except ε α)) s
    (.ok (.error e)) s') : Ends x s (.error e) s' := by
  cases ho : (x s).outcome with
  | ok a => cases (h.unique (attempt ⟨ho, rfl⟩)).1
  | fault y => cases (h.unique (attempt_fault ⟨ho, rfl⟩)).1
  | error e' =>
    obtain ⟨he, rfl⟩ := h.unique (attempt_error ⟨ho, rfl⟩)
    cases he
    exact ⟨ho, rfl⟩

theorem of_mapError_ok {g : ε → ε'} (h : Ends (x.mapError g) s (.ok a) s') :
    Ends x s (.ok a) s' := by
  obtain ⟨h₁, rfl⟩ := h
  rw [mapError_apply] at h₁ ⊢
  cases ho : (x s).outcome with
  | ok b =>
    rw [ho] at h₁
    exact ⟨ho.trans (congrArg Outcome.ok (Outcome.ok.inj h₁)), rfl⟩
  | error | fault =>
    rw [ho] at h₁
    cases h₁

theorem of_mapError_error {g : ε → ε'} {e' : ε'} (h : Ends (x.mapError g) s (.error e') s') :
    ∃ e, e' = g e ∧ Ends x s (.error e) s' := by
  obtain ⟨h₁, rfl⟩ := h
  rw [mapError_apply] at h₁ ⊢
  cases ho : (x s).outcome with
  | error e =>
    rw [ho] at h₁
    exact ⟨e, (Outcome.error.inj h₁).symm, ho, rfl⟩
  | ok | fault =>
    rw [ho] at h₁
    cases h₁

end Ends

end SharedHeap.Action
