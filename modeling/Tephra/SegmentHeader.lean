import Tephra.LittleEndian

/-!
# The header of a segment file

Every segment file begins with 64 bytes: magic, version, creation time, base
position, zero padding and a checksum over all of these.  A header of zeros is
the header of a file whose creation did not finish.
-/

namespace Tephra

/-- Size of a segment header in bytes. -/
def segmentHeaderSize : Nat := 64

/-- Offset of the header's checksum, after every other field. -/
def headerCrcOffset : Nat := segmentHeaderSize - 4

/-- The fields of a segment header. -/
structure SegmentHeader where
  version : Nat
  createdAtNanos : Nat
  basePosition : Nat
deriving DecidableEq, Repr

/-- The reasons a header is refused. -/
inductive HeaderError where
  | unwritten
  | badMagic (expected found : Nat)
  | unsupportedVersion (found supported : Nat)
  | checksumMismatch (expected computed : Nat)
  | dirtyPadding
deriving DecidableEq, Repr

namespace SegmentHeader

/-- The magic bytes `EVTS`, read as a little-endian number. -/
def magicBytes : Nat :=
  LittleEndian.decode [0x45, 0x56, 0x54, 0x53]

/-- The version this build writes, and the highest it reads. -/
def currentVersion : Nat := 0

/-- Number of padding bytes between the base position and the checksum. -/
def paddingSize : Nat := headerCrcOffset - (4 + 2 + 8 + 8)

variable (crc : List UInt8 → UInt32)

/-- The header bytes the checksum covers. -/
def body (self : SegmentHeader) : List UInt8 :=
  LittleEndian.encode 4 magicBytes ++
    (LittleEndian.encode 2 self.version ++
      (LittleEndian.encode 8 self.createdAtNanos ++
        (LittleEndian.encode 8 self.basePosition ++ List.replicate paddingSize 0)))

/-- The bytes of a header. -/
def toBytes (self : SegmentHeader) : List UInt8 :=
  self.body ++ LittleEndian.encode 4 (crc self.body).toNat

/-- The little-endian field of a width at an offset. -/
def field (buf : List UInt8) (offset width : Nat) : Nat :=
  LittleEndian.decode ((buf.drop offset).take width)

/-- Parse a header: an all-zero one is unwritten, and the checksum is looked at
before any field. -/
def fromBytes (buf : List UInt8) : Except HeaderError SegmentHeader :=
  if buf.all (· == 0) then
    .error .unwritten
  else
    let expected := LittleEndian.decode (buf.drop headerCrcOffset)
    let computed := (crc (buf.take headerCrcOffset)).toNat
    if expected ≠ computed then
      .error (.checksumMismatch expected computed)
    else
      let magic := field buf 0 4
      if magic ≠ magicBytes then
        .error (.badMagic magicBytes magic)
      else
        let version := field buf 4 2
        if version > currentVersion then
          .error (.unsupportedVersion version currentVersion)
        else if ((buf.drop 22).take paddingSize).any (· != 0) then
          .error .dirtyPadding
        else
          .ok ⟨version, field buf 6 8, field buf 14 8⟩

/-- A header this build can write: the current version and 64-bit fields. -/
structure Writable (header : SegmentHeader) : Prop where
  version_eq : header.version = currentVersion
  createdAtNanos_lt : header.createdAtNanos < 2 ^ 64
  basePosition_lt : header.basePosition < 2 ^ 64

@[simp]
theorem length_body (self : SegmentHeader) : self.body.length = headerCrcOffset := by
  simp [body, paddingSize, headerCrcOffset, segmentHeaderSize]

@[simp]
theorem length_toBytes (self : SegmentHeader) :
    (self.toBytes crc).length = segmentHeaderSize := by
  simp [toBytes, headerCrcOffset, segmentHeaderSize]

theorem field_eq : field = LittleEndian.fieldAt := rfl

theorem toBytes_eq (self : SegmentHeader) :
    self.toBytes crc = LittleEndian.encodeFields
        [(4, magicBytes), (2, self.version), (8, self.createdAtNanos), (8, self.basePosition)] ++
      (List.replicate paddingSize 0 ++ LittleEndian.encode 4 (crc self.body).toNat) := by
  simp [toBytes, body, LittleEndian.encodeFields]

theorem fromBytes_toBytes (self : SegmentHeader) (writable : self.Writable) :
    fromBytes crc (self.toBytes crc) = .ok self := by
  obtain ⟨versionEq, createdFits, baseFits⟩ := writable
  have written : ¬ (self.toBytes crc).all (· == 0) = true := by
    rw [List.all_eq_true]
    intro allZero
    have first := allZero 0x45 (by
      simp only [toBytes, body, List.append_assoc]
      exact List.mem_append_left _ (by decide))
    simp at first
  have crcField : (self.toBytes crc).drop headerCrcOffset =
      LittleEndian.encode 4 (crc self.body).toNat :=
    List.drop_left' (by simp)
  have covered : (self.toBytes crc).take headerCrcOffset = self.body :=
    List.take_left' (by simp)
  have magic : field (self.toBytes crc) 0 4 = magicBytes := by
    rw [field_eq, toBytes_eq]
    exact LittleEndian.fieldAt_encodeFields 0 rfl rfl (by decide) _
  have version : field (self.toBytes crc) 4 2 = self.version := by
    rw [field_eq, toBytes_eq]
    exact LittleEndian.fieldAt_encodeFields 1 rfl rfl (by rw [versionEq]; decide) _
  have created : field (self.toBytes crc) 6 8 = self.createdAtNanos := by
    rw [field_eq, toBytes_eq]
    exact LittleEndian.fieldAt_encodeFields 2 rfl rfl
      (by norm_num at createdFits ⊢; exact createdFits) _
  have base : field (self.toBytes crc) 14 8 = self.basePosition := by
    rw [field_eq, toBytes_eq]
    exact LittleEndian.fieldAt_encodeFields 3 rfl rfl
      (by norm_num at baseFits ⊢; exact baseFits) _
  have padding : ((self.toBytes crc).drop 22).take paddingSize =
      List.replicate paddingSize 0 := by
    rw [toBytes_eq, List.drop_left' (by simp [LittleEndian.encodeFields]),
      List.take_left' (by simp)]
  have clean : ¬ (List.replicate paddingSize (0 : UInt8)).any (· != 0) = true := by
    decide
  have checksum : LittleEndian.decode (LittleEndian.encode 4 (crc self.body).toNat) =
      (crc self.body).toNat :=
    LittleEndian.decode_encode (crc self.body).toNat_lt
  unfold fromBytes
  rw [if_neg written]
  simp only [crcField, covered, checksum, magic, version, created, base, padding, ne_eq,
    not_true_eq_false, if_false, if_neg clean, versionEq, gt_iff_lt, Nat.lt_irrefl]
  cases self
  simp only at versionEq
  rw [versionEq]

end SegmentHeader

end Tephra
