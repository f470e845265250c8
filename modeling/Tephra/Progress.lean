import Tephra.Histories
import Tephra.Parties

/-!
# Progress of a system

Every step costs something that a rank of the state pays for, and some steps raise the rank
again.  What a history has cost is then bounded by the rank of its first state and by what
was gained on the way.
-/

namespace Histories

open Parties

variable {State Step : Type} {step : State → Step → Option State} {rank : State → Nat}
  {cost gain : Step → Nat}

theorem cost_of_run {invariant : State → Prop}
    (paid : ∀ state label next, invariant state → step state label = some next →
      invariant next ∧ rank next + cost label ≤ rank state + gain label)
    {labels : List Step} {first last : State} (start : invariant first)
    (ran : run step first labels = some last) :
    rank last + total cost labels ≤ rank first + total gain labels := by
  induction labels generalizing first with
  | nil =>
      obtain rfl := Option.some.inj ran
      exact Nat.le_refl _
  | cons label labels ih =>
      rw [run] at ran
      cases taken : step first label with
      | none => simp [taken] at ran
      | some next =>
          simp only [taken] at ran
          obtain ⟨kept, here⟩ := paid first label next start taken
          have later := ih kept ran
          rw [total, total]
          omega

end Histories
