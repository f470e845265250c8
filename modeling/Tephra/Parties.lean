import Mathlib.Data.List.Basic

/-!
# Numbered parties

The parties of a concurrent system stand in a list and are named by their
places in it.  What holds of every party is kept when one party moves, when all
of them are changed alike, and when a new one joins.
-/

namespace Parties

variable {Party : Type}

/-- Every party satisfies a property that may depend on its place. -/
def Each (property : Nat → Party → Prop) (parties : List Party) : Prop :=
  ∀ place party, parties[place]? = some party → property place party

theorem each_nil (property : Nat → Party → Prop) : Each property [] := by
  intro place party found
  simp at found

theorem Each.imp {weak strong : Nat → Party → Prop} {parties : List Party}
    (each : Each strong parties)
    (weakens : ∀ place party, parties[place]? = some party →
      strong place party → weak place party) :
    Each weak parties := by
  intro place party found
  apply weakens place party found
  exact each place party found

/-- One party moves; what the others have must survive its move. -/
theorem Each.set {before after : Nat → Party → Prop} {parties : List Party} {mover : Nat}
    {moved : Party} (each : Each before parties) (own : after mover moved)
    (others : ∀ place party, place ≠ mover → parties[place]? = some party →
      before place party → after place party) :
    Each after (parties.set mover moved) := by
  intro place party found
  by_cases same : place = mover
  · subst same
    have inside : place < parties.length := by
      by_contra outside
      simp [outside] at found
    rw [List.getElem?_set_self inside] at found
    obtain rfl : moved = party := by simpa using found
    exact own
  · rw [List.getElem?_set_ne (Ne.symm same)] at found
    apply others place party same found
    exact each place party found

theorem Each.map {before after : Nat → Party → Prop} {parties : List Party}
    {change : Party → Party} (each : Each before parties)
    (changed : ∀ place party, before place party → after place (change party)) :
    Each after (parties.map change) := by
  intro place party found
  rw [List.getElem?_map] at found
  cases old : parties[place]? with
  | none => simp [old] at found
  | some former =>
      obtain rfl : change former = party := by simpa [old] using found
      apply changed place former
      exact each place former old

theorem Each.snoc {before after : Nat → Party → Prop} {parties : List Party} {joining : Party}
    (each : Each before parties) (own : after parties.length joining)
    (others : ∀ place party, place < parties.length → before place party →
      after place party) :
    Each after (parties ++ [joining]) := by
  intro place party found
  by_cases old : place < parties.length
  · rw [List.getElem?_append_left old] at found
    apply others place party old
    exact each place party found
  · rw [List.getElem?_append_right (by omega)] at found
    have first : place - parties.length = 0 := by
      by_contra later
      rw [List.getElem?_eq_none (by simp; omega)] at found
      simp at found
    have here : place = parties.length := by omega
    obtain rfl : joining = party := by simpa [first] using found
    rw [here]
    exact own

/-- The parties counted stay the same number when the mover counts as before. -/
theorem countP_set_eq {counted : Party → Bool} {parties : List Party} {mover : Nat}
    {former moved : Party} (found : parties[mover]? = some former)
    (same : counted moved = counted former) :
    (parties.set mover moved).countP counted = parties.countP counted := by
  obtain ⟨inside, rfl⟩ := List.getElem?_eq_some_iff.mp found
  rw [List.countP_set inside, same]
  have member : counted parties[mover] = true → 0 < parties.countP counted := by
    intro here
    exact List.countP_pos_iff.mpr ⟨_, List.getElem_mem inside, here⟩
  by_cases here : counted parties[mover] = true
  · have := member here
    simp [here]
    omega
  · simp [here]

/-- What a move does to the number of parties counted. -/
theorem countP_set_add {counted : Party → Bool} {parties : List Party} {mover : Nat}
    {former moved : Party} (found : parties[mover]? = some former) :
    (parties.set mover moved).countP counted + (counted former).toNat =
      parties.countP counted + (counted moved).toNat := by
  induction parties generalizing mover with
  | nil => simp at found
  | cons party parties ih =>
      cases mover with
      | zero =>
          obtain rfl : party = former := by simpa using found
          rw [List.set_cons_zero, List.countP_cons, List.countP_cons]
          cases counted party <;> cases counted moved <;> simp
      | succ mover =>
          have rest := ih (by simpa using found)
          rw [List.set_cons_succ, List.countP_cons, List.countP_cons]
          omega

/-- The sum of what the parties weigh. -/
def total (weight : Party → Nat) : List Party → Nat
  | [] => 0
  | party :: parties => weight party + total weight parties

theorem total_set {weight : Party → Nat} {parties : List Party} {mover : Nat}
    {former moved : Party} (found : parties[mover]? = some former) :
    total weight (parties.set mover moved) + weight former =
      total weight parties + weight moved := by
  induction parties generalizing mover with
  | nil => simp at found
  | cons party parties ih =>
      cases mover with
      | zero =>
          obtain rfl : party = former := by simpa using found
          rw [List.set_cons_zero, total, total]
          omega
      | succ mover =>
          have rest := ih (by simpa using found)
          rw [List.set_cons_succ, total, total]
          omega

theorem total_snoc (weight : Party → Nat) (parties : List Party) (joining : Party) :
    total weight (parties ++ [joining]) = total weight parties + weight joining := by
  induction parties with
  | nil => simp [total]
  | cons party parties ih =>
      rw [List.cons_append, total, total, ih, Nat.add_assoc]

theorem countP_set_pred {counted : Party → Bool} {parties : List Party} {mover : Nat}
    {former moved : Party} (found : parties[mover]? = some former)
    (before : counted former = true) (after : counted moved = false) :
    (parties.set mover moved).countP counted = parties.countP counted - 1 := by
  obtain ⟨inside, rfl⟩ := List.getElem?_eq_some_iff.mp found
  rw [List.countP_set inside]
  simp [before, after]

end Parties
