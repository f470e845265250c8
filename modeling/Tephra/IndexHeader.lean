import Tephra.LittleEndian

/-!
# The header of an index file

The index file of a sealed segment begins with 64 bytes: magic, version,
creation time, the positions it indexes, the offsets of its sections, a checksum
of these sections, padding, and a checksum of the header itself.  A header whose
offsets do not fit each other is refused like a damaged one.
-/

namespace Tephra

namespace Index

open LittleEndian

/-- Size of an index header in bytes. -/
def indexHeaderSize : Nat := 64

/-- The type column begins behind the header. -/
def typeColumnOffset : Nat := indexHeaderSize

/-- Offset of the checksum of the header. -/
def offHeaderCrc : Nat := indexHeaderSize - 4

/-- Offset of the padding. -/
def offPadding : Nat := 54

/-- The fields of an index header. -/
structure IndexSegmentHeader where
  version : Nat
  createdAtNanos : Nat
  basePosition : Nat
  eventCount : Nat
  typedictOff : Nat
  postingsOff : Nat
  fstOff : Nat
  fstLen : Nat
  bodyCrc : Nat
deriving DecidableEq, Repr

/-- The reasons an index header is refused. -/
inductive IndexHeaderError where
  | unwritten
  | badMagic (expected found : Nat)
  | unsupportedVersion (found supported : Nat)
  | checksumMismatch (expected computed : Nat)
  | dirtyPadding
  | badSectionLayout (detail : String)
deriving DecidableEq, Repr

namespace IndexSegmentHeader

/-- The magic bytes `EVIX`, read as a little-endian number. -/
def magicBytes : Nat := decode [0x45, 0x56, 0x49, 0x58]

/-- The version this build writes, and the highest it reads. -/
def currentVersion : Nat := 0

/-- The total size of the file. -/
def segmentLen (self : IndexSegmentHeader) : Nat := self.fstOff + self.fstLen

/-- The fields before the padding, with their widths. -/
def fields (self : IndexSegmentHeader) : List (Nat × Nat) :=
  [(4, magicBytes), (2, self.version), (8, self.createdAtNanos), (8, self.basePosition),
    (8, self.eventCount), (4, typeColumnOffset), (4, self.typedictOff), (4, self.postingsOff),
    (4, self.fstOff), (4, self.fstLen), (4, self.bodyCrc)]

/-- The header bytes the checksum covers. -/
def covered (self : IndexSegmentHeader) : List UInt8 :=
  encodeFields self.fields ++ List.replicate (offHeaderCrc - offPadding) 0

variable (crc : List UInt8 → UInt32)

/-- The bytes of a header. -/
def toBytes (self : IndexSegmentHeader) : List UInt8 :=
  self.covered ++ encode 4 (crc self.covered).toNat

/-- Where the type dictionary of a number of events begins, unless this
overflows. -/
def expectedTypedict (eventCount : Nat) : Option Nat :=
  if eventCount * 2 ≥ 2 ^ 64 then none
  else if eventCount * 2 + indexHeaderSize ≥ 2 ^ 64 then none
  else some (eventCount * 2 + indexHeaderSize)

/-- Parse a header: an all-zero one is unwritten, the checksum is looked at
before any field, and the sections must follow one another. -/
def fromBytes (buf : List UInt8) : Except IndexHeaderError IndexSegmentHeader :=
  if buf.all (· == 0) then
    .error .unwritten
  else
    let expected := decode (buf.drop offHeaderCrc)
    let computed := (crc (buf.take offHeaderCrc)).toNat
    if expected ≠ computed then
      .error (.checksumMismatch expected computed)
    else
      let magic := fieldAt buf 0 4
      if magic ≠ magicBytes then
        .error (.badMagic magicBytes magic)
      else
        let version := fieldAt buf 4 2
        if version > currentVersion then
          .error (.unsupportedVersion version currentVersion)
        else if ((buf.drop offPadding).take (offHeaderCrc - offPadding)).any (· != 0) then
          .error .dirtyPadding
        else
          let createdAtNanos := fieldAt buf 6 8
          let basePosition := fieldAt buf 14 8
          let eventCount := fieldAt buf 22 8
          let typecolOff := fieldAt buf 30 4
          let typedictOff := fieldAt buf 34 4
          let postingsOff := fieldAt buf 38 4
          let fstOff := fieldAt buf 42 4
          let fstLen := fieldAt buf 46 4
          let bodyCrc := fieldAt buf 50 4
          if typecolOff ≠ typeColumnOffset then
            .error (.badSectionLayout "type column must begin at offset 64")
          else if expectedTypedict eventCount ≠ some typedictOff then
            .error (.badSectionLayout "type dictionary offset does not match event_count")
          else if ¬ (typedictOff ≤ postingsOff ∧ postingsOff ≤ fstOff) then
            .error (.badSectionLayout "section offsets are not monotonically non-decreasing")
          else if fstOff + fstLen ≥ 2 ^ 32 then
            .error (.badSectionLayout "fst_off + fst_len overflows")
          else
            .ok ⟨version, createdAtNanos, basePosition, eventCount, typedictOff, postingsOff,
              fstOff, fstLen, bodyCrc⟩

/-- A header whose fields fit their widths and whose sections follow one
another. -/
structure WellFormed (self : IndexSegmentHeader) : Prop where
  version_eq : self.version = currentVersion
  createdAtNanos_lt : self.createdAtNanos < 2 ^ 64
  basePosition_lt : self.basePosition < 2 ^ 64
  typedictOff_eq : self.typedictOff = self.eventCount * 2 + indexHeaderSize
  typedictOff_le : self.typedictOff ≤ self.postingsOff
  postingsOff_le : self.postingsOff ≤ self.fstOff
  fstOff_lt : self.fstOff < 2 ^ 32
  fstLen_lt : self.fstLen < 2 ^ 32
  bodyCrc_lt : self.bodyCrc < 2 ^ 32

variable (self : IndexSegmentHeader)

@[simp]
theorem length_covered : self.covered.length = offHeaderCrc := by
  simp [covered, fields, encodeFields, offHeaderCrc, offPadding, indexHeaderSize]

@[simp]
theorem length_toBytes : (self.toBytes crc).length = indexHeaderSize := by
  simp [toBytes, offHeaderCrc, indexHeaderSize]

private theorem fieldAt_toBytes (index : Nat) {offset width number : Nat}
    (here : self.fields[index]? = some (width, number))
    (offsetEq : (encodeFields (self.fields.take index)).length = offset)
    (fits : number < 256 ^ width) :
    fieldAt (self.toBytes crc) offset width = number := by
  rw [toBytes, covered, List.append_assoc]
  exact fieldAt_encodeFields index here offsetEq fits _

/-- A header that is well formed is read back, unless the end of the file has no
offset. -/
theorem fromBytes_toBytes (wellFormed : self.WellFormed) :
    fromBytes crc (self.toBytes crc) =
      if self.segmentLen ≥ 2 ^ 32 then
        .error (.badSectionLayout "fst_off + fst_len overflows")
      else
        .ok self := by
  obtain ⟨versionEq, createdFits, baseFits, typedictEq, typedictLe, postingsLe, fstFits, lenFits,
    crcFits⟩ := wellFormed
  have written : ¬ (self.toBytes crc).all (· == 0) = true := by
    rw [List.all_eq_true]
    intro allZero
    have first := allZero 0x45 (by
      rw [toBytes, covered, List.append_assoc]
      apply List.mem_append_left
      rw [fields, encodeFields, List.flatMap_cons]
      exact List.mem_append_left _ (by decide))
    simp at first
  have checksum : decode ((self.toBytes crc).drop offHeaderCrc) = (crc self.covered).toNat := by
    rw [toBytes, List.drop_left' (by simp), decode_encode (crc self.covered).toNat_lt]
  have prefixed : (self.toBytes crc).take offHeaderCrc = self.covered :=
    List.take_left' (by simp)
  have padding : ((self.toBytes crc).drop offPadding).take (offHeaderCrc - offPadding) =
      List.replicate (offHeaderCrc - offPadding) 0 := by
    rw [toBytes, covered, List.append_assoc,
      List.drop_left' (by simp [fields, encodeFields, offPadding]), List.take_left' (by simp)]
  have size : (64 : Nat) = indexHeaderSize := rfl
  have magic : fieldAt (self.toBytes crc) 0 4 = magicBytes :=
    fieldAt_toBytes crc self 0 rfl rfl (by decide)
  have version : fieldAt (self.toBytes crc) 4 2 = self.version :=
    fieldAt_toBytes crc self 1 rfl rfl (by rw [versionEq]; decide)
  have created : fieldAt (self.toBytes crc) 6 8 = self.createdAtNanos :=
    fieldAt_toBytes crc self 2 rfl rfl (by norm_num at createdFits ⊢; exact createdFits)
  have base : fieldAt (self.toBytes crc) 14 8 = self.basePosition :=
    fieldAt_toBytes crc self 3 rfl rfl (by norm_num at baseFits ⊢; exact baseFits)
  have count : fieldAt (self.toBytes crc) 22 8 = self.eventCount :=
    fieldAt_toBytes crc self 4 rfl rfl (by norm_num; omega)
  have typecol : fieldAt (self.toBytes crc) 30 4 = typeColumnOffset :=
    fieldAt_toBytes crc self 5 rfl rfl (by decide)
  have typedict : fieldAt (self.toBytes crc) 34 4 = self.typedictOff :=
    fieldAt_toBytes crc self 6 rfl rfl (by norm_num; omega)
  have postings : fieldAt (self.toBytes crc) 38 4 = self.postingsOff :=
    fieldAt_toBytes crc self 7 rfl rfl (by norm_num; omega)
  have fst : fieldAt (self.toBytes crc) 42 4 = self.fstOff :=
    fieldAt_toBytes crc self 8 rfl rfl (by norm_num; omega)
  have fstLen : fieldAt (self.toBytes crc) 46 4 = self.fstLen :=
    fieldAt_toBytes crc self 9 rfl rfl (by norm_num; omega)
  have bodyCrc : fieldAt (self.toBytes crc) 50 4 = self.bodyCrc :=
    fieldAt_toBytes crc self 10 rfl rfl (by norm_num at crcFits ⊢; exact crcFits)
  have clean : ¬ (List.replicate (offHeaderCrc - offPadding) (0 : UInt8)).any (· != 0) = true := by
    decide
  have expected : expectedTypedict self.eventCount = some self.typedictOff := by
    rw [expectedTypedict, if_neg (by omega), if_neg (by omega), typedictEq]
  unfold fromBytes
  rw [if_neg written]
  simp only [checksum, prefixed, magic, version, created, base, count, typecol, typedict,
    postings, fst, fstLen, bodyCrc, padding, ne_eq, not_true_eq_false, if_false, if_neg clean,
    expected, versionEq, gt_iff_lt, Nat.lt_irrefl, typedictLe, postingsLe, and_self, segmentLen]
  rw [← versionEq]
  rfl

end IndexSegmentHeader

end Index

end Tephra
