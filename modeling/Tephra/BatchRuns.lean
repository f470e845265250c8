import Tephra.LogAppending

/-!
# Batches one behind the other

The batches of a segment stand one behind the other in its file, and each of them is a
run of records that its commit marker ends.  Within a smaller bound on the segment size
recovery finds the batches that end before the bound.
-/

namespace Tephra

namespace Log

open ByteImage FrameChain Seglog

variable (crc : List UInt8 → UInt32)

/-- The bytes of batches from a position on.  A marker names the last position of its
batch. -/
def batchesBytes : (base : Nat) → List (List (List UInt8)) → List UInt8
  | _, [] => []
  | base, records :: batches =>
      batchBytes crc records (base + records.length - 1) ++
        batchesBytes (base + records.length) batches

/-- The batches of a shelf stand in its file, from the header size up to an offset. -/
structure Shelf.Laid (headerSize : Nat) (shelf : Shelf) (stop : Nat) : Prop where
  nonempty : ∀ records ∈ shelf.batches, records ≠ []
  framable : ∀ records ∈ shelf.batches, Framable records
  positions : shelf.nextBase ≤ 2 ^ 64
  stop_eq : stop = headerSize + (batchesBytes crc shelf.base shelf.batches).length
  written : readExact shelf.file headerSize (batchesBytes crc shelf.base shelf.batches).length =
    some (batchesBytes crc shelf.base shelf.batches)

variable {crc}

theorem recordAt_eq_within (file : List UInt8) (size : Nat) :
    recordAt crc file size = within (recordAt crc file file.length) size := by
  funext offset
  apply Option.ext
  intro found
  obtain ⟨frame, next⟩ := found
  simp only [within_eq_some_iff]
  constructor
  · intro here
    obtain ⟨fits, inFile⟩ := next_le_of_recordAt here
    exact ⟨recordAt_congr here (.refl _ _ _) inFile, fits⟩
  · rintro ⟨here, fits⟩
    exact recordAt_congr here (.refl _ _ _) fits

theorem payloads_flatten (runs : List (List (Nat × Frame))) :
    payloads runs.flatten = (runs.map payloads).flatten := by
  induction runs with
  | nil => rfl
  | cons items runs ih => rw [List.flatten_cons, payloads_append, ih, List.map_cons, List.flatten_cons]

theorem batchesBytes_append (base : Nat) (left right : List (List (List UInt8))) :
    batchesBytes crc base (left ++ right) =
      batchesBytes crc base left ++ batchesBytes crc (base + left.flatten.length) right := by
  induction left generalizing base with
  | nil => rfl
  | cons records left ih =>
      rw [List.cons_append, batchesBytes, ih, batchesBytes, List.append_assoc, List.flatten_cons,
        List.length_append, Nat.add_assoc]

/-- The marker of the last of some runs counts the records of their batches. -/
def Counts (base : Nat) (runs : List (List (Nat × Frame))) : Prop :=
  ∀ count highest, lastMarkerPosition (runs.take count).flatten = some highest →
    highest + 1 = base + (payloads (runs.take count).flatten).length

theorem Counts.cons {base position : Nat} {items : List (Nat × Frame)}
    {runs : List (List (Nat × Frame))} (first : lastMarkerPosition items = some position)
    (positionEq : position + 1 = base + (payloads items).length)
    (later : Counts (base + (payloads items).length) runs) : Counts base (items :: runs) := by
  intro count highest found
  cases count with
  | zero => simp [lastMarkerPosition] at found
  | succ count =>
      rw [List.take_succ_cons, List.flatten_cons] at found ⊢
      rw [payloads_append, List.length_append]
      by_cases alone : (runs.take count).flatten = []
      · rw [alone, List.append_nil, first] at found
        cases found
        rw [alone, positionEq]
        rfl
      · rw [lastMarkerPosition_append alone] at found
        rw [later count highest found, Nat.add_assoc]

theorem runs_batchesBytes {file : List UInt8} {batches : List (List (List UInt8))}
    {base start : Nat} (nonempty : ∀ records ∈ batches, records ≠ [])
    (framable : ∀ records ∈ batches, Framable records)
    (positions : base + batches.flatten.length ≤ 2 ^ 64)
    (written : readExact file start (batchesBytes crc base batches).length =
      some (batchesBytes crc base batches)) :
    ∃ runs, Runs (recordAt crc file file.length) IsMarker start runs
        (start + (batchesBytes crc base batches).length) ∧
      runs.map payloads = batches ∧ Counts base runs := by
  induction batches generalizing base start with
  | nil =>
      refine ⟨[], .nil start, rfl, ?_⟩
      intro count highest found
      simp [lastMarkerPosition] at found
  | cons records batches ih =>
      rw [batchesBytes] at written ⊢
      rw [List.length_append] at written ⊢
      rw [List.flatten_cons, List.length_append] at positions
      have first := readExact_left written
      have rest := readExact_right written
      have fits := (readExact_eq_some_iff.mp first).1
      rw [length_batchBytes] at first rest fits ⊢
      have positive := List.length_pos_of_ne_nil (nonempty records (by simp))
      obtain ⟨items, chain, isRun, payloadsEq, -, marker⟩ :=
        chain_batchBytes (framable records (by simp)) fits first
      obtain ⟨runs, follow, batchesEq, counts⟩ := ih
        (fun other member => nonempty other (by simp [member]))
        (fun other member => framable other (by simp [member])) (by omega) rest
      refine ⟨items :: runs, ?_, ?_, ?_⟩
      · rw [← Nat.add_assoc]
        exact .cons isRun chain follow
      · rw [List.map_cons, payloadsEq, batchesEq]
      · refine Counts.cons (marker (by omega)) ?_ ?_
        · rw [payloadsEq]
          omega
        · rw [payloadsEq]
          exact counts

/-- Within any segment size recovery finds the first batches of a laid shelf: all of them
if they end within it, and not all of them otherwise. -/
theorem Shelf.Laid.markedPrefix {headerSize stop size : Nat} {shelf : Shelf}
    (laid : shelf.Laid crc headerSize stop)
    (clear : Unmarked (recordAt crc shelf.file shelf.file.length) IsMarker stop)
    (roomy : headerSize ≤ size) :
    ∃ count entries middle,
      MarkedPrefix (recordAt crc shelf.file size) IsMarker headerSize entries middle ∧
      payloads entries = (shelf.batches.take count).flatten ∧
      (∀ highest, lastMarkerPosition entries = some highest →
        highest + 1 = shelf.base + (payloads entries).length) ∧
      (stop ≤ size → count = shelf.batches.length) ∧ (size < stop → count < shelf.batches.length) := by
  have positions := laid.positions
  rw [Shelf.nextBase, Shelf.records] at positions
  obtain ⟨runs, follow, batchesEq, counts⟩ :=
    runs_batchesBytes laid.nonempty laid.framable positions laid.written
  rw [← laid.stop_eq] at follow
  obtain ⟨count, middle, longest, whole, cut⟩ := follow.markedPrefix_within
    (recordAt_inside shelf.file shelf.file.length) clear roomy
  have lengthEq : runs.length = shelf.batches.length := by
    rw [← batchesEq, List.length_map]
  rw [← recordAt_eq_within] at longest
  refine ⟨count, _, middle, longest, ?_, counts count, fun fits => ?_, fun behind => ?_⟩
  · rw [payloads_flatten, ← batchesEq, List.map_take]
  · rw [(whole fits).1, lengthEq]
  · rw [← lengthEq]
    exact cut behind

namespace Shelf

theorem laid_fresh {config : SegmentConfig} (now : UInt64) {base : Nat} (headerFits : segmentHeaderSize ≤ config.headerSize)
    (roomy : config.headerSize ≤ config.segmentSize) (baseFits : base ≤ 2 ^ 64) :
    (fresh crc config now base).Laid crc config.headerSize config.headerSize where
  nonempty := by simp [fresh]
  framable := by simp [fresh]
  positions := by simpa [nextBase, records, fresh] using baseFits
  stop_eq := rfl
  written := by
    have lengthEq := @length_fresh crc config now base headerFits roomy
    refine readExact_eq_some_iff.mpr ⟨?_, rfl⟩
    rw [lengthEq]
    exact roomy

/-- A shelf that keeps its batches and has another one behind them. -/
theorem Laid.extend {headerSize stop : Nat} {shelf : Shelf} {file : List UInt8}
    {records : List (List UInt8)} (laid : shelf.Laid crc headerSize stop)
    (nonempty : records ≠ []) (framable : Framable records)
    (positionFits : shelf.nextBase + records.length ≤ 2 ^ 64)
    (agree : AgreeOn shelf.file file 0 stop)
    (written : readExact file stop (batchSize records) =
      some (batchBytes crc records (shelf.nextBase + records.length - 1))) :
    Laid crc headerSize ⟨shelf.base, file, shelf.batches ++ [records]⟩
      (stop + batchSize records) := by
  have stopEq := laid.stop_eq
  have bytesEq : batchesBytes crc shelf.base (shelf.batches ++ [records]) =
      batchesBytes crc shelf.base shelf.batches ++
        batchBytes crc records (shelf.nextBase + records.length - 1) := by
    rw [batchesBytes_append]
    simp [batchesBytes, nextBase, Shelf.records]
  have fits := (readExact_eq_some_iff.mp written).1
  rw [← length_batchBytes crc records (shelf.nextBase + records.length - 1)] at written
  constructor
  · intro other member
    rcases List.mem_append.mp member with old | new
    · exact laid.nonempty other old
    · rwa [List.mem_singleton.mp new]
  · intro other member
    rcases List.mem_append.mp member with old | new
    · exact laid.framable other old
    · rwa [List.mem_singleton.mp new]
  · have whole : nextBase ⟨shelf.base, file, shelf.batches ++ [records]⟩ =
        shelf.nextBase + records.length := by
      simp [nextBase, Shelf.records, Nat.add_assoc]
    rw [whole]
    exact positionFits
  · rw [bytesEq, List.length_append, length_batchBytes, stopEq, Nat.add_assoc]
  · rw [bytesEq]
    apply readExact_append
    · have inside : headerSize + (batchesBytes crc shelf.base shelf.batches).length ≤
          file.length := by omega
      exact readExact_congr laid.written (agree.mono (Nat.zero_le _) (by omega)) inside
    · rw [← stopEq]
      exact written

theorem Laid.withFile {headerSize stop : Nat} {shelf : Shelf} {file : List UInt8}
    (laid : shelf.Laid crc headerSize stop) (agree : AgreeOn shelf.file file 0 stop)
    (inside : stop ≤ file.length) : (shelf.withFile file).Laid crc headerSize stop where
  nonempty := laid.nonempty
  framable := laid.framable
  positions := laid.positions
  stop_eq := laid.stop_eq
  written := by
    have stopEq := laid.stop_eq
    have before : AgreeOn shelf.file file headerSize
        (headerSize + (batchesBytes crc shelf.base shelf.batches).length) :=
      agree.mono (Nat.zero_le _) (by omega)
    have kept : headerSize + (batchesBytes crc shelf.base shelf.batches).length ≤ file.length := by
      omega
    exact readExact_congr laid.written before kept

end Shelf

end Log

end Tephra
