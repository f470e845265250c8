import Mathlib.Tactic.Common

/-!
# Operations that fail and keep their state

An operation on a state returns a result or an error, and in both cases the
state it had reached.  Unlike a state transformer over `Except`, a failure does
not undo the changes made before it, which is how a program with side effects
behaves.
-/

namespace Fallible

/-- An operation on states `σ` with errors `ε` and results `α`. -/
def Op (σ ε α : Type) : Type :=
  σ → Except ε α × σ

variable {σ τ ε α β : Type}

namespace Op

instance : Monad (Op σ ε) where
  pure value := fun state => (.ok value, state)
  bind op next := fun state =>
    match op state with
    | (.ok value, state) => next value state
    | (.error error, state) => (.error error, state)

/-- Fail without changing the state. -/
def fail (error : ε) : Op σ ε α :=
  fun state => (.error error, state)

/-- The current state. -/
def get : Op σ ε σ :=
  fun state => (.ok state, state)

/-- Change the state. -/
def modify (change : σ → σ) : Op σ ε Unit :=
  fun state => (.ok (), change state)

/-- Run an operation on a part of the state. -/
def onPart (part : σ → τ) (replace : σ → τ → σ) (op : Op τ ε α) : Op σ ε α :=
  fun state =>
    let (result, changed) := op (part state)
    (result, replace state changed)

@[simp]
theorem pure_apply (value : α) (state : σ) :
    (pure value : Op σ ε α) state = (.ok value, state) :=
  rfl

@[simp]
theorem fail_apply (error : ε) (state : σ) :
    (fail error : Op σ ε α) state = (.error error, state) :=
  rfl

@[simp]
theorem modify_apply (change : σ → σ) (state : σ) :
    (modify change : Op σ ε Unit) state = (.ok (), change state) :=
  rfl

@[simp]
theorem get_bind_apply (next : σ → Op σ ε α) (state : σ) :
    (get >>= next) state = next state state :=
  rfl

@[simp]
theorem modify_bind_apply (change : σ → σ) (next : Unit → Op σ ε α) (state : σ) :
    (modify change >>= next) state = next () (change state) :=
  rfl

theorem bind_apply_ok {op : Op σ ε α} {next : α → Op σ ε β} {state after : σ} {value : α}
    (result : op state = (.ok value, after)) :
    (op >>= next) state = next value after := by
  show (match op state with
    | (.ok value, state) => next value state
    | (.error error, state) => (.error error, state)) = _
  rw [result]

theorem bind_apply_error {op : Op σ ε α} {next : α → Op σ ε β} {state after : σ} {error : ε}
    (result : op state = (.error error, after)) :
    (op >>= next) state = (.error error, after) := by
  show (match op state with
    | (.ok value, state) => next value state
    | (.error error, state) => (.error error, state)) = _
  rw [result]

/-- A sequence succeeds when both of its parts do. -/
theorem bind_eq_ok {op : Op σ ε α} {next : α → Op σ ε β} {state after : σ} {value : β}
    (result : (op >>= next) state = (.ok value, after)) :
    ∃ first middle, op state = (.ok first, middle) ∧
      next first middle = (.ok value, after) := by
  cases step : op state with
  | mk outcome middle =>
      cases outcome with
      | ok first =>
          rw [bind_apply_ok step] at result
          exact ⟨first, middle, rfl, result⟩
      | error error =>
          rw [bind_apply_error step] at result
          cases result

/-- A sequence fails in its first part or in its second. -/
theorem bind_eq_error {op : Op σ ε α} {next : α → Op σ ε β} {state after : σ} {error : ε}
    (failed : (op >>= next) state = (.error error, after)) :
    op state = (.error error, after) ∨
      ∃ value middle, op state = (.ok value, middle) ∧
        next value middle = (.error error, after) := by
  cases step : op state with
  | mk outcome middle =>
      cases outcome with
      | error error' =>
          rw [bind_apply_error step] at failed
          obtain ⟨outcomeEq, rfl⟩ := Prod.mk.inj failed
          obtain rfl := Except.error.inj outcomeEq
          exact .inl rfl
      | ok value =>
          rw [bind_apply_ok step] at failed
          exact .inr ⟨value, middle, rfl, failed⟩

/-- Whatever its outcome, the operation moves along a relation. -/
def Moves (relation : σ → σ → Prop) (op : Op σ ε α) : Prop :=
  ∀ state, relation state (op state).2

theorem moves_pure {relation : σ → σ → Prop} (refl : ∀ state, relation state state)
    (value : α) :
    Moves relation (pure value : Op σ ε α) :=
  refl

theorem moves_bind {relation : σ → σ → Prop}
    (trans : ∀ first second third, relation first second → relation second third →
      relation first third)
    {op : Op σ ε α} {next : α → Op σ ε β} (first : Moves relation op)
    (second : ∀ value, Moves relation (next value)) :
    Moves relation (op >>= next) := by
  intro state
  have moved := first state
  cases step : op state with
  | mk outcome middle =>
      rw [step] at moved
      cases outcome with
      | ok value =>
          rw [bind_apply_ok step]
          exact trans _ _ _ moved (second value middle)
      | error error =>
          rw [bind_apply_error step]
          exact moved

/-- Whatever it fails with is an error of a kind. -/
def FailsOnly (kind : ε → Prop) (op : Op σ ε α) : Prop :=
  ∀ state error after, op state = (.error error, after) → kind error

theorem failsOnly_pure {kind : ε → Prop} (value : α) :
    FailsOnly kind (pure value : Op σ ε α) := by
  intro state error after failed
  cases failed

theorem failsOnly_modify {kind : ε → Prop} (change : σ → σ) :
    FailsOnly kind (modify change : Op σ ε Unit) := by
  intro state error after failed
  cases failed

theorem failsOnly_get {kind : ε → Prop} : FailsOnly kind (get : Op σ ε σ) := by
  intro state error after failed
  cases failed

theorem failsOnly_bind {kind : ε → Prop} {op : Op σ ε α} {next : α → Op σ ε β}
    (first : FailsOnly kind op) (second : ∀ value, FailsOnly kind (next value)) :
    FailsOnly kind (op >>= next) := by
  intro state error after failed
  rcases bind_eq_error failed with failed | ⟨value, middle, _, failed⟩
  · exact first state error after failed
  · exact second value middle error after failed

/-- From every state of a set the operation succeeds and stays in the set. -/
def Succeeds (healthy : σ → Prop) (op : Op σ ε α) : Prop :=
  ∀ state, healthy state → ∃ value after, op state = (.ok value, after) ∧ healthy after

theorem succeeds_pure {healthy : σ → Prop} (value : α) :
    Succeeds healthy (pure value : Op σ ε α) :=
  fun state isHealthy => ⟨value, state, rfl, isHealthy⟩

theorem succeeds_bind {healthy : σ → Prop} {op : Op σ ε α} {next : α → Op σ ε β}
    (first : Succeeds healthy op) (second : ∀ value, Succeeds healthy (next value)) :
    Succeeds healthy (op >>= next) := by
  intro state isHealthy
  obtain ⟨value, middle, result, middleHealthy⟩ := first state isHealthy
  obtain ⟨value', after, result', afterHealthy⟩ := second value middle middleHealthy
  exact ⟨value', after, by rw [bind_apply_ok result, result'], afterHealthy⟩

end Op

end Fallible
