import Tephra.SortedMaps

/-!
# High marks

A table of marks keeps the highest value that was seen of every key.  Raising the marks
by some entries puts each mark above the entries of its key, and lets no mark fall.
-/

namespace HighMarks

variable {Key : Type} [DecidableEq Key]

/-- Keep the highest value of a key. -/
def raise (value : Nat) (key : Key) : List (Key × Nat) → List (Key × Nat)
  | [] => [(key, value)]
  | (other, highest) :: marks =>
      if other = key then
        (other, max highest value) :: marks
      else
        (other, highest) :: raise value key marks

/-- Keep the highest values of many keys. -/
def raiseAll (marks entries : List (Key × Nat)) : List (Key × Nat) :=
  entries.foldl (fun marks entry => raise entry.2 entry.1 marks) marks

theorem lookup_raise (value : Nat) (key other : Key) (marks : List (Key × Nat)) :
    (raise value key marks).lookup other =
      if other = key then some (max ((marks.lookup key).getD 0) value)
      else marks.lookup other := by
  induction marks with
  | nil =>
      by_cases same : other = key
      · simp [raise, same]
      · have skip : (other == key) = false := by simpa using same
        simp [raise, same, skip, List.lookup_cons]
  | cons mark marks ih =>
      obtain ⟨name, highest⟩ := mark
      rw [raise]
      by_cases here : name = key
      · subst here
        rw [if_pos rfl]
        by_cases same : other = name
        · simp [same]
        · have skip : (other == name) = false := by simpa using same
          simp [same, skip, List.lookup_cons]
      · rw [if_neg here]
        have apart : (key == name) = false := by simpa using fun same => here same.symm
        by_cases same : other = name
        · subst same
          simp [here]
        · have skip : (other == name) = false := by simpa using same
          simp only [List.lookup_cons, skip, apart, ih]

theorem keys_raise (value : Nat) (key : Key) (marks : List (Key × Nat)) :
    (raise value key marks).map Prod.fst =
      if key ∈ marks.map Prod.fst then marks.map Prod.fst else marks.map Prod.fst ++ [key] := by
  induction marks with
  | nil => rfl
  | cons mark marks ih =>
      obtain ⟨name, highest⟩ := mark
      rw [raise]
      by_cases here : name = key
      · simp [here]
      · have apart : key ≠ name := fun same => here same.symm
        rw [if_neg here, List.map_cons, ih]
        by_cases known : key ∈ marks.map Prod.fst
        · simp [known]
        · simp [known, apart]

theorem nodup_raise {value : Nat} {key : Key} {marks : List (Key × Nat)}
    (distinct : (marks.map Prod.fst).Nodup) : ((raise value key marks).map Prod.fst).Nodup := by
  rw [keys_raise]
  by_cases known : key ∈ marks.map Prod.fst
  · rwa [if_pos known]
  · rw [if_neg known]
    exact distinct.append (List.nodup_singleton key) (by simpa using known)

theorem nodup_raiseAll {marks entries : List (Key × Nat)}
    (distinct : (marks.map Prod.fst).Nodup) :
    ((raiseAll marks entries).map Prod.fst).Nodup := by
  induction entries generalizing marks with
  | nil => exact distinct
  | cons entry entries ih => exact ih (nodup_raise distinct)

theorem le_lookup_raiseAll {marks entries : List (Key × Nat)} {key : Key} {highest : Nat}
    (found : marks.lookup key = some highest) :
    ∃ higher, (raiseAll marks entries).lookup key = some higher ∧ highest ≤ higher := by
  induction entries generalizing marks highest with
  | nil => exact ⟨highest, found, le_refl highest⟩
  | cons entry entries ih =>
      obtain ⟨name, value⟩ := entry
      have next := lookup_raise value name key marks
      by_cases same : key = name
      · subst same
        rw [if_pos rfl, found, Option.getD_some] at next
        obtain ⟨higher, kept, above⟩ := ih next
        exact ⟨higher, kept, le_trans (le_max_left _ _) above⟩
      · rw [if_neg same, found] at next
        exact ih next

theorem le_lookup_raiseAll_of_mem {marks entries : List (Key × Nat)} {entry : Key × Nat}
    (member : entry ∈ entries) :
    ∃ higher, (raiseAll marks entries).lookup entry.1 = some higher ∧ entry.2 ≤ higher := by
  induction entries generalizing marks with
  | nil => cases member
  | cons first entries ih =>
      rcases List.mem_cons.mp member with rfl | later
      · have next := lookup_raise entry.2 entry.1 entry.1 marks
        rw [if_pos rfl] at next
        obtain ⟨higher, kept, above⟩ := @le_lookup_raiseAll _ _ _ entries _ _ next
        exact ⟨higher, kept, le_trans (le_max_right _ _) above⟩
      · exact ih later

theorem lookup_raiseAll_cases {marks entries : List (Key × Nat)} {key : Key} {highest : Nat}
    (found : (raiseAll marks entries).lookup key = some highest) :
    marks.lookup key = some highest ∨ (key, highest) ∈ entries := by
  induction entries generalizing marks with
  | nil => exact .inl found
  | cons entry entries ih =>
      obtain ⟨name, value⟩ := entry
      rcases ih found with old | later
      · rw [lookup_raise] at old
        by_cases same : key = name
        · subst same
          rw [if_pos rfl] at old
          cases known : marks.lookup key with
          | none =>
              rw [known] at old
              simp only [Option.getD_none, Nat.zero_max, Option.some.injEq] at old
              exact .inr (by simp [old])
          | some before =>
              rw [known, Option.getD_some, Option.some.injEq] at old
              rcases max_choice before value with left | right
              · exact .inl (by rw [← old, left])
              · exact .inr (by rw [← old, right]; simp)
        · rw [if_neg same] at old
          exact .inl old
      · exact .inr (List.mem_cons_of_mem _ later)

end HighMarks
