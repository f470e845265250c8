import Mathlib.Data.List.Lex
import Mathlib.Data.List.Nodup
import Tephra.LittleEndian

/-!
# Maps built from sorted keys

Some maps are built once, by inserting byte strings in ascending order, are kept
as bytes, and are opened again to be looked up.  Such a format is lawful when the
map that is opened has exactly the entries that were inserted.
-/

namespace SortedMaps

open LittleEndian

section Lookup

variable {Key Value : Type} [DecidableEq Key]

/-- Where every key stands once, looking up is membership. -/
theorem lookup_eq_some_iff_mem {entries : List (Key × Value)}
    (distinct : (entries.map Prod.fst).Nodup) {key : Key} {value : Value} :
    entries.lookup key = some value ↔ (key, value) ∈ entries := by
  induction entries with
  | nil => simp
  | cons entry entries ih =>
      obtain ⟨name, own⟩ := entry
      rw [List.map_cons, List.nodup_cons] at distinct
      obtain ⟨fresh, rest⟩ := distinct
      rw [List.lookup_cons, List.mem_cons, Prod.mk.injEq]
      by_cases here : key = name
      · subst here
        have once : (key, value) ∉ entries := fun member =>
          fresh (List.mem_map.mpr ⟨_, member, rfl⟩)
        simp [once, eq_comm]
      · have skip : (key == name) = false := by simpa using here
        simp [skip, here, ih rest]

theorem lookup_congr {entries others : List (Key × Value)}
    (distinct : (entries.map Prod.fst).Nodup) (same : entries.Perm others) (key : Key) :
    entries.lookup key = others.lookup key := by
  have distinctOthers : (others.map Prod.fst).Nodup := (same.map Prod.fst).nodup_iff.mp distinct
  ext value
  rw [lookup_eq_some_iff_mem distinct, lookup_eq_some_iff_mem distinctOthers, same.mem_iff]

theorem lookup_map {Value' : Type} (change : Value → Value') (entries : List (Key × Value))
    (key : Key) :
    (entries.map fun entry => (entry.1, change entry.2)).lookup key =
      (entries.lookup key).map change := by
  induction entries with
  | nil => rfl
  | cons entry entries ih =>
      rw [List.map_cons, List.lookup_cons, List.lookup_cons]
      cases key == entry.1 with
      | true => rfl
      | false => exact ih

end Lookup

/-- A format of maps from byte strings to 64-bit numbers. -/
structure MapFormat where
  Builder : Type
  Map : Type
  memory : Builder
  insert : Builder → List UInt8 → UInt64 → Except String Builder
  intoInner : Builder → Except String (List UInt8)
  new : List UInt8 → Except String Map
  get : Map → List UInt8 → Option UInt64

/-- The keys of entries are strictly ascending byte strings. -/
def Ascending (entries : List (List UInt8 × UInt64)) : Prop :=
  entries.Pairwise fun first second =>
    first.1.map UInt8.toNat < second.1.map UInt8.toNat

/-- Entries with keys of bounded length. -/
def Bounded (entries : List (List UInt8 × UInt64)) : Prop :=
  ∀ entry ∈ entries, entry.1.length < 2 ^ 16

namespace MapFormat

/-- Insert entries in order. -/
def insertAll (format : MapFormat) (builder : format.Builder)
    (entries : List (List UInt8 × UInt64)) : Except String format.Builder :=
  entries.foldlM (fun builder entry => format.insert builder entry.1 entry.2) builder

theorem insertAll_cons {format : MapFormat} {builder next : format.Builder}
    {entry : List UInt8 × UInt64} (inserted : format.insert builder entry.1 entry.2 = .ok next)
    (entries : List (List UInt8 × UInt64)) :
    format.insertAll builder (entry :: entries) = format.insertAll next entries := by
  rw [insertAll, List.foldlM_cons, inserted]
  rfl

/-- Ascending entries can be inserted, and the map of the bytes they yield has
exactly these entries. -/
structure Lawful (format : MapFormat) : Prop where
  built : ∀ entries, Ascending entries → Bounded entries →
    ∃ builder bytes map, format.insertAll format.memory entries = .ok builder ∧
      format.intoInner builder = .ok bytes ∧ format.new bytes = .ok map ∧
      ∀ key, format.get map key = entries.lookup key

end MapFormat

/-- A row of a flat table: the length of the key, the key and the value. -/
def rowBytes (entry : List UInt8 × UInt64) : List UInt8 :=
  encode 2 entry.1.length ++ (entry.1 ++ encode 8 entry.2.toNat)

/-- The rows of a flat table. -/
def rows (bytes : List UInt8) : List (List UInt8 × UInt64) :=
  if bytes = [] then
    []
  else
    let len := fieldAt bytes 0 2
    ((bytes.drop 2).take len, UInt64.ofNat (fieldAt bytes (2 + len) 8)) ::
      rows (bytes.drop (2 + len + 8))
termination_by bytes.length
decreasing_by
  have positive := List.length_pos_of_ne_nil ‹bytes ≠ []›
  rw [List.length_drop]
  omega

/-- A table of rows, searched from the front. -/
def flatTable : MapFormat where
  Builder := List (List UInt8 × UInt64)
  Map := List (List UInt8 × UInt64)
  memory := []
  insert builder key value :=
    if builder.all fun entry => entry.1.map UInt8.toNat < key.map UInt8.toNat then
      .ok (builder ++ [(key, value)])
    else
      .error "keys out of order"
  intoInner builder := .ok (builder.flatMap rowBytes)
  new bytes := .ok (rows bytes)
  get map key := map.lookup key

theorem rows_cons {entry : List UInt8 × UInt64} (short : entry.1.length < 2 ^ 16)
    (bytes : List UInt8) :
    rows (rowBytes entry ++ bytes) = entry :: rows bytes := by
  obtain ⟨key, value⟩ := entry
  have len : fieldAt (rowBytes (key, value) ++ bytes) 0 2 = key.length := by
    rw [fieldAt, List.drop_zero, rowBytes, List.append_assoc, List.take_left' (by simp),
      decode_encode (by norm_num at short ⊢; exact short)]
  have keyAt : ((rowBytes (key, value) ++ bytes).drop 2).take key.length = key := by
    rw [rowBytes, List.append_assoc, List.drop_left' (by simp), List.append_assoc,
      List.take_left' rfl]
  have valueAt : fieldAt (rowBytes (key, value) ++ bytes) (2 + key.length) 8 = value.toNat := by
    rw [fieldAt, rowBytes, List.append_assoc, List.append_assoc, ← List.append_assoc,
      List.drop_left' (by simp), List.take_left' (by simp),
      decode_encode value.toNat_lt]
  have rest : (rowBytes (key, value) ++ bytes).drop (2 + key.length + 8) = bytes :=
    List.drop_left' (by simp [rowBytes, Nat.add_assoc])
  have nonempty : rowBytes (key, value) ++ bytes ≠ [] := by
    intro empty
    simpa [rowBytes] using congrArg List.length empty
  rw [rows, if_neg nonempty]
  simp only [len, keyAt, valueAt, rest, UInt64.ofNat_toNat]

theorem rows_flatMap {entries : List (List UInt8 × UInt64)} (bounded : Bounded entries) :
    rows (entries.flatMap rowBytes) = entries := by
  induction entries with
  | nil => rw [List.flatMap_nil, rows, if_pos rfl]
  | cons entry entries ih =>
      obtain ⟨first, others⟩ := List.forall_mem_cons.mp bounded
      rw [List.flatMap_cons, rows_cons first, ih others]

private theorem insertAll_flatTable {before entries : List (List UInt8 × UInt64)}
    (ascending : Ascending (before ++ entries)) :
    flatTable.insertAll before entries = .ok (before ++ entries) := by
  induction entries generalizing before with
  | nil =>
      rw [List.append_nil]
      rfl
  | cons entry entries ih =>
      obtain ⟨_, _, between⟩ := List.pairwise_append.mp ascending
      have behind : (before.all fun earlier =>
          earlier.1.map UInt8.toNat < entry.1.map UInt8.toNat) = true := by
        rw [List.all_eq_true]
        intro earlier member
        exact decide_eq_true (between earlier member entry (List.mem_cons_self ..))
      have inserted : flatTable.insert before entry.1 entry.2 = .ok (before ++ [entry]) :=
        if_pos behind
      have others := @ih (before ++ [entry]) (by rwa [List.append_assoc])
      rw [List.append_assoc, List.singleton_append] at others
      exact (MapFormat.insertAll_cons inserted entries).trans others

theorem flatTable_lawful : flatTable.Lawful where
  built entries ascending bounded :=
    ⟨entries, entries.flatMap rowBytes, entries,
      insertAll_flatTable (show Ascending ([] ++ entries) from ascending), rfl,
      congrArg Except.ok (rows_flatMap bounded), fun _ => rfl⟩

end SortedMaps
