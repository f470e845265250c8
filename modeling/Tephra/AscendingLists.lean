import Mathlib.Data.List.Destutter
import Mathlib.Data.List.Sort

/-!
# Ascending lists

A strictly ascending list over a linear order is determined by its members.
This file has the operations on such lists that merging the answers of several
sources needs: sorting with repeats dropped, intersecting several lists, and
cutting a list at a bound.
-/

namespace AscendingLists

variable {α : Type} [LinearOrder α]

/-- The members of a list, ascending and without repeats. -/
def sortDedup (list : List α) : List α :=
  (list.insertionSort (· ≤ ·)).destutter (· ≠ ·)

private theorem mem_destutter'_ne {value first : α} {list : List α} :
    value ∈ list.destutter' (· ≠ ·) first ↔ value = first ∨ value ∈ list := by
  induction list generalizing first with
  | nil => simp
  | cons next list ih =>
      by_cases same : first = next
      · subst same
        rw [List.destutter'_cons_neg _ (by simp), ih]
        simp
      · rw [List.destutter'_cons_pos _ same, List.mem_cons, ih, List.mem_cons]

@[simp]
theorem mem_sortDedup {value : α} {list : List α} :
    value ∈ sortDedup list ↔ value ∈ list := by
  have members : value ∈ list.insertionSort (· ≤ ·) ↔ value ∈ list :=
    List.mem_insertionSort _
  rw [sortDedup, ← members]
  cases list.insertionSort (· ≤ ·) with
  | nil => simp
  | cons first rest => rw [List.destutter_cons', mem_destutter'_ne, List.mem_cons]

/-- An ascending list without adjacent repeats is strictly ascending. -/
private theorem isChain_lt {list : List α} (ordered : list.IsChain (· ≤ ·))
    (changes : list.IsChain (· ≠ ·)) :
    list.IsChain (· < ·) := by
  induction list with
  | nil => exact List.isChain_nil
  | cons first list ih =>
      cases list with
      | nil => exact List.isChain_singleton first
      | cons next list =>
          rw [List.isChain_cons_cons] at ordered changes ⊢
          exact ⟨lt_of_le_of_ne ordered.1 changes.1, ih ordered.2 changes.2⟩

theorem pairwise_sortDedup (list : List α) : (sortDedup list).Pairwise (· < ·) := by
  have ordered : (sortDedup list).Pairwise (· ≤ ·) :=
    (List.pairwise_insertionSort (· ≤ ·) list).sublist (List.destutter_sublist _ _)
  exact (isChain_lt ordered.isChain (List.isChain_destutter _ _)).pairwise

theorem sortDedup_eq {list ascending : List α} (ordered : ascending.Pairwise (· < ·))
    (members : ∀ value, value ∈ list ↔ value ∈ ascending) :
    sortDedup list = ascending := by
  apply (pairwise_sortDedup list).eq_of_mem_iff ordered
  intro value
  rw [mem_sortDedup, members]

/-- The members of the shortest list that every other list contains. -/
def intersect (lists : List (List α)) : List α :=
  match lists.insertionSort fun first second => first.length ≤ second.length with
  | [] => []
  | shortest :: rest => shortest.filter fun value => rest.all fun list => list.contains value

theorem mem_intersect {value : α} {lists : List (List α)} (some_list : lists ≠ []) :
    value ∈ intersect lists ↔ ∀ list ∈ lists, value ∈ list := by
  have members : ∀ list, list ∈ lists.insertionSort
      (fun first second => first.length ≤ second.length) ↔ list ∈ lists :=
    fun list => List.mem_insertionSort _
  rw [intersect]
  cases sorted : lists.insertionSort fun first second => first.length ≤ second.length with
  | nil =>
      rw [sorted] at members
      exact absurd (List.eq_nil_iff_forall_not_mem.mpr fun list member => by
        simpa using (members list).mpr member) some_list
  | cons shortest rest =>
      rw [sorted] at members
      simp [← members]

/-- The part of an ascending list below a bound is a prefix. -/
theorem takeWhile_lt_eq_filter {list : List α} (ordered : list.Pairwise (· < ·)) (bound : α) :
    list.takeWhile (· < bound) = list.filter (· < bound) := by
  induction list with
  | nil => rfl
  | cons first list ih =>
      obtain ⟨below, rest⟩ := List.pairwise_cons.mp ordered
      by_cases inside : first < bound
      · simp [inside, ih rest]
      · have beyond : ∀ value ∈ list, ¬ value < bound := fun value member small =>
          inside ((below value member).trans small)
        simpa [inside] using fun value member => not_lt.mp (beyond value member)

end AscendingLists
