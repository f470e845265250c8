import Tephra.SealedIndex

/-!
# The layout of an index file

A header is accepted exactly when its version and its offsets follow the rules of the
layout, and its bytes are then determined by its fields.  In a file that is accepted the
four sections partition the bytes behind the header, so that no range that is sliced
later leaves the file.
-/

namespace Tephra

namespace Index

open LittleEndian SortedMaps

namespace IndexSegmentHeader

/-- The widths of the fields. -/
structure FieldsFit (header : IndexSegmentHeader) : Prop where
  version_lt : header.version < 2 ^ 16
  createdAtNanos_lt : header.createdAtNanos < 2 ^ 64
  basePosition_lt : header.basePosition < 2 ^ 64
  eventCount_lt : header.eventCount < 2 ^ 64
  typedictOff_lt : header.typedictOff < 2 ^ 32
  postingsOff_lt : header.postingsOff < 2 ^ 32
  fstOff_lt : header.fstOff < 2 ^ 32
  fstLen_lt : header.fstLen < 2 ^ 32
  bodyCrc_lt : header.bodyCrc < 2 ^ 32

/-- The rules of the layout: the version is known, the type column is as long as there are
events, the sections follow one another, and the end of the file has an offset. -/
structure LayoutRules (header : IndexSegmentHeader) : Prop where
  version_eq : header.version = currentVersion
  typedictOff_eq : header.typedictOff = header.eventCount * 2 + indexHeaderSize
  typedictOff_le : header.typedictOff ≤ header.postingsOff
  postingsOff_le : header.postingsOff ≤ header.fstOff
  segmentLen_lt : header.segmentLen < 2 ^ 32

theorem LayoutRules.wellFormed {self : IndexSegmentHeader} (rules : self.LayoutRules)
    (fits : self.FieldsFit) : self.WellFormed :=
  ⟨rules.version_eq, fits.createdAtNanos_lt, fits.basePosition_lt, rules.typedictOff_eq,
    rules.typedictOff_le, rules.postingsOff_le, fits.fstOff_lt, fits.fstLen_lt, fits.bodyCrc_lt⟩

variable {crc : List UInt8 → UInt32}

theorem fromBytes_toBytes_of_layoutRules {self : IndexSegmentHeader} (fits : self.FieldsFit)
    (rules : self.LayoutRules) : fromBytes crc (self.toBytes crc) = .ok self := by
  have below := rules.segmentLen_lt
  rw [fromBytes_toBytes crc self (rules.wellFormed fits), if_neg (by omega)]

/-- The widths of the fields before the padding. -/
def widths : List Nat := [4, 2, 8, 8, 8, 4, 4, 4, 4, 4, 4]

theorem expectedTypedict_eq_some {eventCount typedictOff : Nat}
    (expected : expectedTypedict eventCount = some typedictOff) :
    typedictOff = eventCount * 2 + indexHeaderSize := by
  rw [expectedTypedict] at expected
  by_cases product : eventCount * 2 ≥ 2 ^ 64
  · rw [if_pos product] at expected
    cases expected
  · rw [if_neg product] at expected
    by_cases sum : eventCount * 2 + indexHeaderSize ≥ 2 ^ 64
    · rw [if_pos sum] at expected
      cases expected
    · rw [if_neg sum] at expected
      exact (Option.some.inj expected).symm

theorem toBytes_of_parts {buf : List UInt8} (size : buf.length = indexHeaderSize)
    {self : IndexSegmentHeader} (fields : self.fields = readFields buf 0 widths)
    (padding : ∀ byte ∈ (buf.drop offPadding).take (offHeaderCrc - offPadding), byte = 0)
    (checksum : decode (buf.drop offHeaderCrc) = (crc (buf.take offHeaderCrc)).toNat) :
    self.toBytes crc = buf := by
  have sizes : buf.length = 64 := size
  have front : encodeFields self.fields = buf.take offPadding := by
    rw [fields, encodeFields_readFields (by rw [sizes]; decide), List.drop_zero]
    rfl
  have zeros : (buf.drop offPadding).take (offHeaderCrc - offPadding) =
      List.replicate (offHeaderCrc - offPadding) 0 := by
    rw [List.eq_replicate_iff]
    refine ⟨?_, padding⟩
    rw [List.length_take, List.length_drop, sizes]
    rfl
  have covered : self.covered = buf.take offHeaderCrc := by
    rw [IndexSegmentHeader.covered, front, ← zeros, ← List.take_add]
    rfl
  have last : (buf.drop offHeaderCrc).length = 4 := by
    rw [List.length_drop, sizes]
    rfl
  rw [toBytes, covered, ← checksum, encode_decode_of_length last, List.take_append_drop]

/-- What the parser accepts has fields that fit, follows the rules, and is determined by the
fields. -/
theorem of_fromBytes {buf : List UInt8} (size : buf.length = indexHeaderSize)
    {self : IndexSegmentHeader} (accepted : fromBytes crc buf = .ok self) :
    self.FieldsFit ∧ self.LayoutRules ∧ self.toBytes crc = buf := by
  rw [fromBytes] at accepted
  by_cases unwritten : buf.all (· == 0)
  · rw [if_pos unwritten] at accepted
    cases accepted
  rw [if_neg unwritten] at accepted
  dsimp only at accepted
  by_cases checksum : decode (buf.drop offHeaderCrc) = (crc (buf.take offHeaderCrc)).toNat
  · rw [if_neg (not_not_intro checksum)] at accepted
    by_cases magic : fieldAt buf 0 4 = magicBytes
    · rw [if_neg (not_not_intro magic)] at accepted
      by_cases version : fieldAt buf 4 2 > currentVersion
      · rw [if_pos version] at accepted
        cases accepted
      rw [if_neg version] at accepted
      by_cases dirty : ((buf.drop offPadding).take (offHeaderCrc - offPadding)).any (· != 0)
      · rw [if_pos dirty] at accepted
        cases accepted
      rw [if_neg dirty] at accepted
      by_cases typecol : fieldAt buf 30 4 = typeColumnOffset
      · rw [if_neg (not_not_intro typecol)] at accepted
        by_cases typedict : expectedTypedict (fieldAt buf 22 8) = some (fieldAt buf 34 4)
        · rw [if_neg (not_not_intro typedict)] at accepted
          by_cases ordered :
              fieldAt buf 34 4 ≤ fieldAt buf 38 4 ∧ fieldAt buf 38 4 ≤ fieldAt buf 42 4
          · rw [if_neg (not_not_intro ordered)] at accepted
            by_cases overflow : fieldAt buf 42 4 + fieldAt buf 46 4 ≥ 2 ^ 32
            · rw [if_pos overflow] at accepted
              cases accepted
            rw [if_neg overflow] at accepted
            cases accepted
            refine ⟨?_, ?_, ?_⟩
            · constructor
              all_goals exact fieldAt_lt ..
            · constructor
              · exact Nat.eq_zero_of_not_pos version
              · exact expectedTypedict_eq_some typedict
              · exact ordered.1
              · exact ordered.2
              · exact Nat.lt_of_not_le overflow
            · apply toBytes_of_parts size _ _ checksum
              · rw [fields, ← magic, ← typecol]
                rfl
              · simpa using dirty
          · rw [if_pos ordered] at accepted
            cases accepted
        · rw [if_pos typedict] at accepted
          cases accepted
      · rw [if_pos typecol] at accepted
        cases accepted
    · rw [if_pos magic] at accepted
      cases accepted
  · rw [if_pos checksum] at accepted
    cases accepted

variable (self : IndexSegmentHeader)

def typeColumnRange : Nat × Nat := (indexHeaderSize, self.typedictOff)

def typeDictRange : Nat × Nat := (self.typedictOff, self.postingsOff)

def postingsRange : Nat × Nat := (self.postingsOff, self.fstOff)

def fstRange : Nat × Nat := (self.fstOff, self.fstOff + self.fstLen)

/-- The ranges of all sections, in their order. -/
def ranges : List (Nat × Nat) :=
  [self.typeColumnRange, self.typeDictRange, self.postingsRange, self.fstRange]

end IndexSegmentHeader

namespace IndexSegment

theorem slice_append {data : List UInt8} {first middle last : Nat} (before : first ≤ middle)
    (behind : middle ≤ last) :
    slice data first middle ++ slice data middle last = slice data first last := by
  have split : last - first = (middle - first) + (last - middle) := by omega
  have place : first + (middle - first) = middle := by omega
  rw [slice, slice, slice, split, List.take_add, List.drop_drop, place]

variable {format : MapFormat} {crc : List UInt8 → UInt32}

/-- The sections of a file partition it, and its accessors stay inside of it. -/
structure Laid (segment : IndexSegment format) : Prop where
  partition : segment.header.ranges.flatMap (fun range => slice segment.data range.1 range.2) =
    segment.data.drop indexHeaderSize
  disjoint : segment.header.ranges.Pairwise fun first second => first.2 ≤ second.1
  inside : ∀ range ∈ segment.header.ranges,
    indexHeaderSize ≤ range.1 ∧ range.1 ≤ range.2 ∧ range.2 ≤ segment.data.length
  noOverflow : segment.header.eventCount * 2 + indexHeaderSize < 2 ^ 32 ∧
    segment.header.segmentLen < 2 ^ 32 ∧ segment.header.segmentLen = segment.data.length
  len_eq : SegmentIndex.len segment = segment.header.eventCount
  typeAt_inside : ∀ local', local' < SegmentIndex.len segment →
    indexHeaderSize + local' * 2 + 2 ≤ segment.header.typeColumnRange.2 ∧
      segment.typeAt local' = some (fieldAt segment.data (indexHeaderSize + local' * 2) 2)

/-- A file that is opened has a header that is accepted, and the length that the header
tells. -/
theorem header_of_fromBytes {data : List UInt8} {segment : IndexSegment format}
    (opened : fromBytes format crc data = .ok segment) :
    indexHeaderSize ≤ data.length ∧
      IndexSegmentHeader.fromBytes crc (data.take indexHeaderSize) = .ok segment.header ∧
      segment.header.segmentLen = data.length ∧ segment.data = data := by
  rw [fromBytes] at opened
  by_cases short : data.length < indexHeaderSize
  · rw [if_pos short] at opened
    cases opened
  rw [if_neg short] at opened
  cases accepted : IndexSegmentHeader.fromBytes crc (data.take indexHeaderSize) with
  | error error =>
      rw [accepted] at opened
      cases opened
  | ok header =>
      rw [accepted] at opened
      dsimp only at opened
      by_cases length : header.segmentLen = data.length
      · rw [if_neg (not_not_intro length)] at opened
        by_cases checksum : (crc (data.drop indexHeaderSize)).toNat = header.bodyCrc
        · rw [if_neg (not_not_intro checksum)] at opened
          cases names : parseTypeDict (slice data header.typedictOff header.postingsOff) with
          | error error =>
              rw [names] at opened
              cases opened
          | ok typeNames =>
              rw [names] at opened
              dsimp only at opened
              cases map : format.new (slice data header.fstOff (header.fstOff + header.fstLen)) with
              | error detail =>
                  rw [map] at opened
                  cases opened
              | ok map' =>
                  rw [map] at opened
                  cases opened
                  exact ⟨Nat.le_of_not_lt short, rfl, length, rfl⟩
        · rw [if_pos checksum] at opened
          cases opened
      · rw [if_pos length] at opened
        cases opened

theorem laid_of_fromBytes {data : List UInt8} {segment : IndexSegment format}
    (opened : fromBytes format crc data = .ok segment) : segment.Laid := by
  obtain ⟨long, accepted, length, rfl⟩ := header_of_fromBytes opened
  have size : (segment.data.take indexHeaderSize).length = indexHeaderSize := by
    rw [List.length_take, min_eq_left long]
  obtain ⟨-, rules, -⟩ := IndexSegmentHeader.of_fromBytes size accepted
  obtain ⟨-, typedictEq, typedictLe, postingsLe, lenLt⟩ := rules
  have lenEq : segment.header.segmentLen = segment.header.fstOff + segment.header.fstLen := rfl
  have column : indexHeaderSize ≤ segment.header.typedictOff := by omega
  have size64 : indexHeaderSize = 64 := rfl
  have count : SegmentIndex.len segment = segment.header.eventCount := by
    change segment.header.eventCount % 2 ^ 32 = _
    exact Nat.mod_eq_of_lt (by omega)
  constructor
  · simp only [IndexSegmentHeader.ranges, List.flatMap_cons, List.flatMap_nil, List.append_nil,
      IndexSegmentHeader.typeColumnRange, IndexSegmentHeader.typeDictRange,
      IndexSegmentHeader.postingsRange, IndexSegmentHeader.fstRange]
    rw [slice_append postingsLe (by omega), slice_append typedictLe (by omega),
      slice_append column (by omega), ← lenEq, length, slice, ← List.length_drop,
      List.take_length]
  · simp [IndexSegmentHeader.ranges, IndexSegmentHeader.typeColumnRange,
      IndexSegmentHeader.typeDictRange, IndexSegmentHeader.postingsRange,
      IndexSegmentHeader.fstRange]
    omega
  · simp only [IndexSegmentHeader.ranges, List.forall_mem_cons,
      IndexSegmentHeader.typeColumnRange, IndexSegmentHeader.typeDictRange,
      IndexSegmentHeader.postingsRange, IndexSegmentHeader.fstRange]
    refine ⟨by omega, by omega, by omega, by omega, by simp⟩
  · exact ⟨by omega, lenLt, length⟩
  · exact count
  · intro local' below
    rw [count] at below
    have inside : indexHeaderSize + local' * 2 + 2 ≤ segment.header.typedictOff := by omega
    refine ⟨inside, ?_⟩
    rw [typeAt]
    exact if_pos (by omega)

end IndexSegment

/-- Headers and files are validated completely: a header is accepted from its bytes exactly
when it follows the rules of the layout, its bytes are determined by it, and a file that is
opened is partitioned by its sections. -/
theorem fromBytes_validates (format : MapFormat) (crc : List UInt8 → UInt32) :
    (∀ header : IndexSegmentHeader, header.FieldsFit →
        (IndexSegmentHeader.fromBytes crc (header.toBytes crc) = .ok header ↔
          header.LayoutRules)) ∧
      (∀ (buf : List UInt8) (header : IndexSegmentHeader), buf.length = indexHeaderSize →
        IndexSegmentHeader.fromBytes crc buf = .ok header →
          header.LayoutRules ∧ header.toBytes crc = buf) ∧
      ∀ (data : List UInt8) (segment : IndexSegment format),
        IndexSegment.fromBytes format crc data = .ok segment →
          segment.data = data ∧ segment.Laid := by
  refine ⟨?_, ?_, ?_⟩
  · intro header fits
    constructor
    · intro accepted
      exact (IndexSegmentHeader.of_fromBytes (IndexSegmentHeader.length_toBytes crc header)
        accepted).2.1
    · exact IndexSegmentHeader.fromBytes_toBytes_of_layoutRules fits
  · intro buf header size accepted
    exact (IndexSegmentHeader.of_fromBytes size accepted).2
  · intro data segment opened
    exact ⟨(IndexSegment.header_of_fromBytes opened).2.2.2,
      IndexSegment.laid_of_fromBytes opened⟩

/-- The file of three events is laid out, and its header is accepted from its bytes again. -/
theorem fromBytes_validates_threePushes :
    ∃ bytes segment, IndexSegment.fromBytes flatTable Seglog.crc32 bytes = .ok segment ∧
      segment.header.eventCount = 3 ∧ segment.data = bytes ∧ segment.Laid ∧
      IndexSegmentHeader.fromBytes Seglog.crc32 (segment.header.toBytes Seglog.crc32) =
        .ok segment.header := by
  have computed : (((ActiveTail.new 1).pushAll threePushes).bind fun tail =>
      encodeAt flatTable Seglog.crc32 tail 7).any (fun bytes =>
        match IndexSegment.fromBytes flatTable Seglog.crc32 bytes with
        | .ok segment => decide (segment.header.eventCount = 3)
        | .error _ => false) = true := by
    decide +kernel
  obtain ⟨bytes, -, shown⟩ := (Option.any_eq_true _ _).mp computed
  split at shown
  · next segment opened =>
    obtain ⟨headers, -, laid⟩ := fromBytes_validates flatTable Seglog.crc32
    obtain ⟨same, parts⟩ := laid bytes segment opened
    obtain ⟨long, accepted, -⟩ := IndexSegment.header_of_fromBytes opened
    have size : (bytes.take indexHeaderSize).length = indexHeaderSize := by
      rw [List.length_take, min_eq_left long]
    obtain ⟨fits, rules, -⟩ := IndexSegmentHeader.of_fromBytes size accepted
    exact ⟨bytes, segment, opened, of_decide_eq_true shown, same, parts,
      (headers segment.header fits).mpr rules⟩
  · cases shown

end Index

end Tephra
