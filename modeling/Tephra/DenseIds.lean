import Mathlib.Data.List.Basic
import Mathlib.Data.List.Nodup

/-!
# Dense identifiers

Interning gives each new key the next identifier, counted from zero.  The table
of such an interner holds every key once and under its rank, so that it is a
bijection between its keys and the identifiers below its length.
-/

namespace DenseIds

variable {Key : Type}

/-- The keys of a table, in the order of their identifiers. -/
def keys (table : List (Key × Nat)) : List Key := table.map Prod.fst

/-- Every key once, under its rank. -/
structure Dense (table : List (Key × Nat)) : Prop where
  keys_nodup : (keys table).Nodup
  ranked : table = (keys table).zipIdx

@[simp]
theorem length_keys (table : List (Key × Nat)) : (keys table).length = table.length := by
  simp [keys]

@[simp]
theorem keys_snoc (table : List (Key × Nat)) (key : Key) (id : Nat) :
    keys (table ++ [(key, id)]) = keys table ++ [key] := by
  simp [keys]

theorem dense_nil : Dense ([] : List (Key × Nat)) where
  keys_nodup := List.nodup_nil
  ranked := rfl

section Lookup

variable [DecidableEq Key]

private theorem lookup_zipIdx {names : List Key} (distinct : names.Nodup)
    {key : Key} {id start : Nat} :
    (names.zipIdx start).lookup key = some id ↔ start ≤ id ∧ names[id - start]? = some key := by
  induction names generalizing start with
  | nil => simp
  | cons name names ih =>
      obtain ⟨fresh, rest⟩ := List.nodup_cons.mp distinct
      rw [List.zipIdx_cons, List.lookup_cons]
      by_cases here : key = name
      · subst here
        simp only [beq_self_eq_true, Option.some.injEq]
        constructor
        · rintro rfl
          simp
        · rintro ⟨before, found⟩
          by_contra other
          obtain ⟨rank, sameRank⟩ : ∃ rank, id - start = rank + 1 := ⟨id - start - 1, by omega⟩
          rw [sameRank, List.getElem?_cons_succ] at found
          exact fresh (List.mem_of_getElem? found)
      · have skip : (key == name) = false := by simpa using here
        simp only [skip, ih rest]
        constructor
        · rintro ⟨before, found⟩
          refine ⟨by omega, ?_⟩
          rwa [show id - start = id - (start + 1) + 1 by omega, List.getElem?_cons_succ]
        · rintro ⟨before, found⟩
          rcases Nat.eq_or_lt_of_le before with rfl | beyond
          · simp [Ne.symm here] at found
          · refine ⟨beyond, ?_⟩
            rwa [show id - start = id - (start + 1) + 1 by omega,
              List.getElem?_cons_succ] at found

theorem Dense.lookup_eq_some_iff {table : List (Key × Nat)} (dense : Dense table)
    {key : Key} {id : Nat} :
    table.lookup key = some id ↔ (keys table)[id]? = some key := by
  rw [dense.ranked, lookup_zipIdx dense.keys_nodup, ← dense.ranked]
  simp

theorem Dense.lookup_lt {table : List (Key × Nat)} (dense : Dense table) {key : Key} {id : Nat}
    (found : table.lookup key = some id) :
    id < table.length := by
  rw [dense.lookup_eq_some_iff] at found
  simpa using (List.getElem?_eq_some_iff.mp found).1

theorem lookup_eq_none_iff {table : List (Key × Nat)} {key : Key} :
    table.lookup key = none ↔ key ∉ keys table := by
  rw [List.lookup_eq_none_iff]
  simp only [keys, List.mem_map, not_exists, not_and, bne_iff_ne]
  exact forall₂_congr fun entry member => ne_comm

theorem Dense.lookup_injective {table : List (Key × Nat)} (dense : Dense table)
    {first second : Key} {id : Nat} (foundFirst : table.lookup first = some id)
    (foundSecond : table.lookup second = some id) :
    first = second := by
  rw [dense.lookup_eq_some_iff] at foundFirst foundSecond
  exact Option.some.inj (foundFirst.symm.trans foundSecond)

/-- The first place of a key among the keys is its identifier. -/
theorem Dense.findIdx?_keys {table : List (Key × Nat)} (dense : Dense table) (key : Key) :
    (keys table).findIdx? (· == key) = table.lookup key := by
  ext id
  rw [dense.lookup_eq_some_iff, List.findIdx?_eq_some_iff_getElem]
  constructor
  · rintro ⟨inside, same, _⟩
    rw [List.getElem?_eq_getElem inside, eq_of_beq same]
  · intro found
    obtain ⟨inside, rfl⟩ := List.getElem?_eq_some_iff.mp found
    refine ⟨inside, beq_self_eq_true _, ?_⟩
    intro earlier before same
    have twin := (dense.keys_nodup.getElem_inj_iff).mp (eq_of_beq (by simpa using same))
    omega

theorem Dense.snoc {table : List (Key × Nat)} (dense : Dense table) {key : Key}
    (fresh : table.lookup key = none) :
    Dense (table ++ [(key, table.length)]) where
  keys_nodup := by
    rw [keys_snoc, List.nodup_append]
    refine ⟨dense.keys_nodup, List.nodup_singleton key, ?_⟩
    intro name member other isKey
    obtain rfl := List.mem_singleton.mp isKey
    rintro rfl
    exact lookup_eq_none_iff.mp fresh member
  ranked := by
    rw [keys_snoc, List.zipIdx_append, ← dense.ranked]
    simp

theorem lookup_snoc {table : List (Key × Nat)} {key other : Key} {id : Nat}
    (fresh : table.lookup key = none) :
    (table ++ [(key, id)]).lookup other =
      if other = key then some id else table.lookup other := by
  rw [List.lookup_append]
  by_cases same : other = key
  · subst same
    simp [fresh]
  · have skip : (other == key) = false := by simpa using same
    simp [same, List.lookup_cons, skip]

end Lookup

/-- Writing every key into the slot of its identifier lists the keys in order. -/
private theorem foldl_set_zipIdx {Value : Type} (value : Key → Value) (blank : Value)
    (names : List Key) (before : List Value) :
    (names.zipIdx before.length).foldl
        (fun slots entry => slots.set entry.2 (value entry.1))
        (before ++ List.replicate names.length blank) =
      before ++ names.map value := by
  induction names generalizing before with
  | nil => simp
  | cons name names ih =>
      have written : (before ++ List.replicate (name :: names).length blank).set before.length
          (value name) = (before ++ [value name]) ++ List.replicate names.length blank := by
        simp [List.replicate_succ]
      have shifted : (before ++ [value name]).length = before.length + 1 := by simp
      rw [List.zipIdx_cons, List.foldl_cons, written, ← shifted, ih]
      simp

theorem Dense.foldl_set {Value : Type} {table : List (Key × Nat)} (dense : Dense table)
    (value : Key → Value) (blank : Value) :
    table.foldl (fun slots entry => slots.set entry.2 (value entry.1))
        (List.replicate table.length blank) =
      (keys table).map value := by
  have filled := foldl_set_zipIdx value blank (keys table) []
  rwa [List.length_nil, ← dense.ranked, length_keys, List.nil_append, List.nil_append] at filled

end DenseIds
