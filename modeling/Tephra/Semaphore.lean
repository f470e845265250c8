import Mathlib.Tactic.Common

/-!
# Counting semaphores

The budgets of a connection are counting semaphores with at least one permit.
-/

namespace Tephra.Server

/-- A counting semaphore: the free permits, and how many there are in all. -/
structure Semaphore where
  permits : Nat
  capacity : Nat
deriving DecidableEq, Repr

namespace Semaphore

/-- `Semaphore::new`: a configured zero becomes one. -/
def new (permits : Nat) : Semaphore :=
  ⟨max permits 1, max permits 1⟩

/-- Takes a permit if one is free. -/
def tryAcquire (semaphore : Semaphore) : Option Semaphore :=
  if semaphore.permits = 0 then none
  else some { semaphore with permits := semaphore.permits - 1 }

def release (semaphore : Semaphore) : Semaphore :=
  { semaphore with permits := semaphore.permits + 1 }

@[simp]
theorem capacity_release (semaphore : Semaphore) :
    semaphore.release.capacity = semaphore.capacity :=
  rfl

@[simp]
theorem permits_release (semaphore : Semaphore) :
    semaphore.release.permits = semaphore.permits + 1 :=
  rfl

theorem one_le_capacity_new (permits : Nat) : 1 ≤ (new permits).capacity :=
  Nat.le_max_right permits 1

theorem tryAcquire_eq_some {semaphore taken : Semaphore}
    (acquired : semaphore.tryAcquire = some taken) :
    taken.capacity = semaphore.capacity ∧ taken.permits + 1 = semaphore.permits := by
  unfold tryAcquire at acquired
  split at acquired
  · simp at acquired
  · obtain rfl := Option.some.inj acquired
    constructor
    · rfl
    · simp only
      omega

end Semaphore

end Tephra.Server
