import Tephra.Crc32
import Tephra.IndexHeader
import Tephra.Postings
import Tephra.SortedMaps
import Tephra.TailContents

/-!
# The index file of a sealed segment

When a segment is sealed its tail is written to a file: the type column, the
dictionary of the type names, a region of posting blocks, and a map from the tags
to the values of their postings.  A file that is read back answers every lookup
and every search as the tail does.  The map is any lawful format of maps that are
built from sorted keys.
-/

namespace Tephra

namespace Index

open DenseIds LittleEndian Positions SortedMaps

namespace ActiveTail

/-- The type column, one id for each event. -/
def frozenColumn (self : ActiveTail) : List Nat :=
  (List.range self.len).map fun i => (self.typeColumn.get i).getD 0

/-- The type names in the order of their ids. -/
def typeNames (self : ActiveTail) : List (List UInt8) :=
  self.types.foldl (fun names entry => names.set entry.2 entry.1.bytes)
    (List.replicate self.types.length [])

/-- The postings of a term. -/
def postingsOf (self : ActiveTail) (term : Nat) : List Nat :=
  ((self.postings.get term).map fun slot => slot.collectBelow self.len).getD []

/-- Every tag with its postings, in the order of the tags. -/
def termsSortedWithPostings (self : ActiveTail) : List (Tag × List Nat) :=
  (self.tags.map fun entry => (entry.1, self.postingsOf entry.2)).insertionSort
    fun first second => first.1 ≤ second.1

end ActiveTail

/-- A value as a `u16`; the result is `none` where the code panics. -/
def fitU16 (value : Nat) : Option Nat :=
  if value < 2 ^ 16 then some value else none

/-- A value as a `u32`; the result is `none` where the code panics. -/
def fitU32 (value : Nat) : Option Nat :=
  if value < 2 ^ 32 then some value else none

/-- The entries of type names in the type dictionary. -/
def encodeTypeDict : List (List UInt8) → Option (List UInt8)
  | [] => some []
  | name :: names => do
      let len ← fitU16 name.length
      let rest ← encodeTypeDict names
      return encode 2 len ++ (name ++ rest)

variable (format : MapFormat)

/-- Lay down the postings of terms, and insert the terms with their values. -/
def layTerms (region : List UInt8) (builder : format.Builder) :
    List (Tag × List Nat) → Option (List UInt8 × format.Builder)
  | [] => some (region, builder)
  | (tag, postings) :: terms =>
      let (value, region) := encodePostings postings region
      match format.insert builder tag.bytes (UInt64.ofNat value) with
      | .error _ => none
      | .ok builder => layTerms region builder terms

/-- The sections of an index file behind the header. -/
structure Sections where
  typeColumn : List UInt8
  typeDict : List UInt8
  postingsRegion : List UInt8
  fstBytes : List UInt8
deriving DecidableEq

/-- The bytes behind the header. -/
def Sections.body (self : Sections) : List UInt8 :=
  self.typeColumn ++ (self.typeDict ++ (self.postingsRegion ++ self.fstBytes))

/-- The sections a tail is written to. -/
def ActiveTail.sections (self : ActiveTail) : Option Sections := do
  let typeDict ← encodeTypeDict self.typeNames
  let (region, builder) ← layTerms format [] format.memory self.termsSortedWithPostings
  let fstBytes ← (format.intoInner builder).toOption
  return ⟨self.frozenColumn.flatMap (encode 2), typeDict, region, fstBytes⟩

/-- The offsets of the file of a tail fit their fields. -/
def OffsetsFit (index : ActiveTail) : Prop :=
  ∀ sections, index.sections format = some sections →
    indexHeaderSize + sections.body.length < 2 ^ 32

section Segment

variable (crc : List UInt8 → UInt32)

/-- The header of sections. -/
def Sections.header (self : Sections) (basePosition eventCount createdAtNanos : Nat) :
    Option IndexSegmentHeader := do
  let typedictOff ← fitU32 (indexHeaderSize + self.typeColumn.length)
  let postingsOff ← fitU32 (typedictOff + self.typeDict.length)
  let fstOff ← fitU32 (postingsOff + self.postingsRegion.length)
  let fstLen ← fitU32 self.fstBytes.length
  return ⟨IndexSegmentHeader.currentVersion, createdAtNanos, basePosition, eventCount, typedictOff,
    postingsOff, fstOff, fstLen, (crc self.body).toNat⟩

/-- The bytes of the file of a tail.  The result is `none` where the code
panics. -/
def encodeAt (index : ActiveTail) (createdAtNanos : Nat) : Option (List UInt8) := do
  let sections ← index.sections format
  let header ← sections.header crc index.base index.len createdAtNanos
  return header.toBytes crc ++ sections.body

/-- The reasons an index file is refused. -/
inductive IndexSegmentError where
  | tooShort (len : Nat)
  | header (source : IndexHeaderError)
  | lengthMismatch (header actual : Nat)
  | bodyChecksumMismatch (expected computed : Nat)
  | malformedTypeDict (detail : String)
  | fst (detail : String)
deriving DecidableEq, Repr

/-- A range of the bytes of a file. -/
def slice (data : List UInt8) (first last : Nat) : List UInt8 :=
  (data.drop first).take (last - first)

/-- Take a `u16` from the front of a buffer. -/
def takeU16 (buf : List UInt8) : Except IndexSegmentError (Nat × List UInt8) :=
  if buf.length < 2 then
    .error (.malformedTypeDict "truncated length field")
  else
    .ok (decode (buf.take 2), buf.drop 2)

theorem takeU16_shorter {buf rest : List UInt8} {len : Nat} (taken : takeU16 buf = .ok (len, rest)) :
    rest.length + 2 = buf.length := by
  unfold takeU16 at taken
  split at taken
  · cases taken
  · cases taken
    rw [List.length_drop]
    omega

/-- Read the type names until the region is exhausted. -/
def parseTypeDict (buf : List UInt8) : Except IndexSegmentError (List (List UInt8)) :=
  if buf = [] then
    .ok []
  else
    match _taken : takeU16 buf with
    | .error error => .error error
    | .ok (len, rest) =>
        if rest.length < len then
          .error (.malformedTypeDict "type name runs past the dictionary")
        else if validUtf8 (rest.take len) then
          match parseTypeDict (rest.drop len) with
          | .error error => .error error
          | .ok names => .ok (rest.take len :: names)
        else
          .error (.malformedTypeDict "type name is not valid UTF-8")
termination_by buf.length
decreasing_by
  have shorter := takeU16_shorter _taken
  rw [List.length_drop]
  omega

/-- The index of a sealed segment. -/
structure IndexSegment where
  header : IndexSegmentHeader
  data : List UInt8
  map : format.Map
  typeNames : List (List UInt8)

namespace IndexSegment

/-- Open a segment from the bytes of its file. -/
def fromBytes (data : List UInt8) : Except IndexSegmentError (IndexSegment format) :=
  if data.length < indexHeaderSize then
    .error (.tooShort data.length)
  else
    match IndexSegmentHeader.fromBytes crc (data.take indexHeaderSize) with
    | .error error => .error (.header error)
    | .ok header =>
        if header.segmentLen ≠ data.length then
          .error (.lengthMismatch header.segmentLen data.length)
        else
          let computed := (crc (data.drop indexHeaderSize)).toNat
          if computed ≠ header.bodyCrc then
            .error (.bodyChecksumMismatch header.bodyCrc computed)
          else
            match parseTypeDict (slice data header.typedictOff header.postingsOff) with
            | .error error => .error error
            | .ok typeNames =>
                match format.new (slice data header.fstOff (header.fstOff + header.fstLen)) with
                | .error detail => .error (.fst detail)
                | .ok map => .ok ⟨header, data, map, typeNames⟩

variable {format}

/-- The region of the posting blocks. -/
def postingsRegion (self : IndexSegment format) : List UInt8 :=
  slice self.data self.header.postingsOff self.header.fstOff

/-- The postings of a tag.  The outer result is `none` where the code panics. -/
def termPostings (self : IndexSegment format) (tag : Tag) : Option (Option (List Nat)) :=
  match format.get self.map tag.bytes with
  | none => some none
  | some value =>
      match decodePostings value.toNat self.postingsRegion with
      | some (.ok postings) => some (some postings)
      | _ => none

/-- The number of postings of a tag.  The outer result is `none` where the code
panics. -/
def termLen (self : IndexSegment format) (tag : Tag) : Option (Option Nat) :=
  match format.get self.map tag.bytes with
  | none => some none
  | some value =>
      match postingLen value.toNat self.postingsRegion with
      | some (.ok len) => some (some len)
      | _ => none

/-- The id of a type is the place of its name. -/
def typeId (self : IndexSegment format) (name : EventType) : Option Nat :=
  (self.typeNames.findIdx? (· == name.bytes)).map (· % 2 ^ 16)

/-- The type of a local position.  The result is `none` where the code panics. -/
def typeAt (self : IndexSegment format) (local' : Nat) : Option Nat :=
  let start := indexHeaderSize + local' * 2
  if start + 2 ≤ self.data.length then some (fieldAt self.data start 2) else none

-- The evaluator sees an empty answer where the code panics.
instance : SegmentIndex (IndexSegment format) where
  base self := self.header.basePosition
  len self := self.header.eventCount % 2 ^ 32
  termPostings self tag := (self.termPostings tag).join
  termLen self tag := (self.termLen tag).join
  typeId := typeId
  typeAt self i := (self.typeAt i).getD 0

end IndexSegment

namespace ActiveTail.Holds

variable {tail : ActiveTail} {base : Nat} {events : List Event}

theorem frozenColumn_eq {column : List Nat} (columnHolds : tail.typeColumn.Holds column) :
    tail.frozenColumn = column := by
  apply List.ext_getElem
  · simp [frozenColumn, ActiveTail.len, columnHolds.len_eq]
  · intro i _ inside
    simp [frozenColumn, columnHolds.get inside]

theorem typeNames_eq (holds : tail.Holds base events) :
    tail.typeNames = (keys tail.types).map Name.bytes :=
  holds.types.dense.foldl_set Name.bytes []

/-- The postings of a term are those of the view of all events. -/
theorem termPostings_viewFull (holds : tail.Holds base events) (fits : FitsSegment events)
    (tag : Tag) :
    tail.viewFull.termPostings tag = (tail.tags.lookup tag).map tail.postingsOf := by
  obtain ⟨column, columnHolds, columnTypes⟩ := holds.column
  have columnLength : column.length = events.length := by
    simpa using congrArg List.length columnTypes
  have whole : min tail.len tail.typeColumn.covered = tail.len := by
    apply Nat.min_eq_left
    rw [holds.len_eq, ← columnLength]
    exact columnHolds.length_le_covered (columnLength ▸ fits.length_lt)
  obtain ⟨slots, slotsHold, _, slotOf⟩ := holds.terms.slots
  cases known : tail.tags.lookup tag with
  | none => exact ActiveView.termPostings_of_unknown _ known
  | some term =>
      obtain ⟨slot, found, _⟩ := slotOf tag term known
      obtain ⟨bound, rfl⟩ := List.getElem?_eq_some_iff.mp found
      rw [ActiveView.termPostings_of_known _ known, Option.map_some, postingsOf]
      simp only [viewFull, makeView, whole, slotsHold.get bound, Option.map_some, Option.getD_some]

theorem lookup_terms (holds : tail.Holds base events) (fits : FitsSegment events) (tag : Tag) :
    tail.termsSortedWithPostings.lookup tag = tail.viewFull.termPostings tag := by
  have distinct : ((tail.tags.map fun entry => (entry.1, tail.postingsOf entry.2)).map
      Prod.fst).Nodup := by
    rw [List.map_map]
    exact holds.terms.dense.keys_nodup
  rw [termPostings_viewFull holds fits, termsSortedWithPostings,
    ← lookup_congr distinct (List.perm_insertionSort _ _).symm, lookup_map]

theorem terms_ascending (holds : tail.Holds base events) :
    tail.termsSortedWithPostings.Pairwise fun first second => first.1 < second.1 := by
  have distinct : (tail.termsSortedWithPostings.map Prod.fst).Nodup := by
    rw [termsSortedWithPostings, ((List.perm_insertionSort _ _).map Prod.fst).nodup_iff,
      List.map_map]
    exact holds.terms.dense.keys_nodup
  have ordered : tail.termsSortedWithPostings.Pairwise fun first second => first.1 ≤ second.1 :=
    List.pairwise_insertionSort _ _
  rw [List.Nodup, List.pairwise_map] at distinct
  exact ordered.imp₂ (fun _ _ le ne => lt_of_le_of_ne le ne) distinct

theorem postings_eq_of_lookup (holds : tail.Holds base events) (fits : FitsSegment events)
    {tag : Tag} {postings : List Nat}
    (found : tail.termsSortedWithPostings.lookup tag = some postings) :
    postings = positionsWhere (carries tag) 0 events := by
  rw [lookup_terms holds fits, viewFull, holds.len_eq,
    holds.termPostings_makeView fits, List.take_length] at found
  split at found
  · cases found
  · exact (Option.some.inj found).symm

end ActiveTail.Holds

/-- The entries of the term map, and the region behind the last block. -/
def laid (region : List UInt8) : List (Tag × List Nat) → List (List UInt8 × UInt64) × List UInt8
  | [] => ([], region)
  | (tag, postings) :: terms =>
      let encoded := encodePostings postings region
      let later := laid encoded.2 terms
      ((tag.bytes, UInt64.ofNat encoded.1) :: later.1, later.2)

theorem keys_laid (region : List UInt8) (terms : List (Tag × List Nat)) :
    (laid region terms).1.map Prod.fst = terms.map fun term => term.1.bytes := by
  induction terms generalizing region with
  | nil => rfl
  | cons term terms ih => simp [laid, ih]

theorem laid_extends (region : List UInt8) (terms : List (Tag × List Nat)) :
    region <+: (laid region terms).2 := by
  induction terms generalizing region with
  | nil => exact List.prefix_refl _
  | cons term terms ih => exact (encodePostings_extends term.2 region).trans (ih _)

theorem layTerms_eq {region : List UInt8} {builder final : format.Builder}
    {terms : List (Tag × List Nat)}
    (inserted : format.insertAll builder (laid region terms).1 = .ok final) :
    layTerms format region builder terms = some ((laid region terms).2, final) := by
  induction terms generalizing region builder with
  | nil =>
      cases inserted
      rfl
  | cons term terms ih =>
      obtain ⟨tag, postings⟩ := term
      rw [laid] at inserted
      rw [layTerms, laid]
      dsimp only at inserted ⊢
      cases first : format.insert builder tag.bytes
          (UInt64.ofNat (encodePostings postings region).1) with
      | error detail =>
          rw [MapFormat.insertAll, List.foldlM_cons, first] at inserted
          cases inserted
      | ok next =>
          rw [MapFormat.insertAll_cons first] at inserted
          exact ih inserted

/-- A tag is an entry of the map when it is a term, and its value is that of its
postings. -/
theorem lookup_laid {region final : List UInt8} {terms : List (Tag × List Nat)}
    (extended : (laid region terms).2 <+: final) (tag : Tag) :
    (terms.lookup tag = none → (laid region terms).1.lookup tag.bytes = none) ∧
      ∀ postings, terms.lookup tag = some postings →
        ∃ earlier, (encodePostings postings earlier).2 <+: final ∧
          (laid region terms).1.lookup tag.bytes =
            some (UInt64.ofNat (encodePostings postings earlier).1) := by
  induction terms generalizing region with
  | nil =>
      refine ⟨fun _ => rfl, ?_⟩
      intro postings found
      cases found
  | cons term terms ih =>
      obtain ⟨name, own⟩ := term
      rw [laid] at extended ⊢
      rw [List.lookup_cons, List.lookup_cons]
      by_cases here : tag = name
      · subst here
        simp only [beq_self_eq_true]
        constructor
        · intro absent
          cases absent
        · rintro postings ⟨⟩
          exact ⟨region, (laid_extends _ terms).trans extended, rfl⟩
      · have skip : (tag == name) = false := by simpa using here
        have skipBytes : (tag.bytes == name.bytes) = false := by
          simpa using fun same => here (Name.bytes_injective same)
        simp only [skip, skipBytes]
        exact ih extended

theorem parseTypeDict_encodeTypeDict {names : List (List UInt8)}
    (strings : ∀ name ∈ names, name.length < 2 ^ 16 ∧ validUtf8 name = true) :
    ∃ bytes, encodeTypeDict names = some bytes ∧ parseTypeDict bytes = .ok names := by
  induction names with
  | nil => exact ⟨[], rfl, by rw [parseTypeDict, if_pos rfl]⟩
  | cons name names ih =>
      obtain ⟨⟨short, utf8⟩, others⟩ := List.forall_mem_cons.mp strings
      obtain ⟨rest, encoded, parsed⟩ := ih others
      have lenFits : fitU16 name.length = some name.length := if_pos short
      have bytes : encodeTypeDict (name :: names) =
          some (encode 2 name.length ++ (name ++ rest)) := by
        rw [encodeTypeDict, lenFits, encoded]
        rfl
      have taken : takeU16 (encode 2 name.length ++ (name ++ rest)) =
          .ok (name.length, name ++ rest) := by
        have long : ¬ (encode 2 name.length ++ (name ++ rest)).length < 2 := by
          rw [List.length_append, length_encode]
          omega
        rw [takeU16, if_neg long, List.take_left' (by simp), List.drop_left' (by simp),
          decode_encode (by norm_num at short ⊢; exact short)]
      have nonempty : encode 2 name.length ++ (name ++ rest) ≠ [] := by
        intro empty
        simpa using congrArg List.length empty
      refine ⟨_, bytes, ?_⟩
      rw [parseTypeDict, if_neg nonempty]
      split
      · next error failed => simp [taken] at failed
      · next len buf read =>
        rw [taken] at read
        obtain ⟨rfl, rfl⟩ := Prod.mk.inj (Except.ok.inj read)
        rw [if_neg (by simp), List.take_left, if_pos utf8, List.drop_left, parsed]

theorem slice_eq {data front middle back : List UInt8} {first : Nat}
    (split : data = front ++ (middle ++ back)) (firstEq : front.length = first) :
    slice data first (first + middle.length) = middle := by
  rw [slice, split, List.drop_left' firstEq, Nat.add_sub_cancel_left, List.take_left]

namespace Sections

variable (self : Sections) (base count createdAtNanos : Nat)

/-- The header whose offsets are the lengths of the sections, added up. -/
def written : IndexSegmentHeader :=
  ⟨IndexSegmentHeader.currentVersion, createdAtNanos, base, count,
    indexHeaderSize + self.typeColumn.length,
    indexHeaderSize + self.typeColumn.length + self.typeDict.length,
    indexHeaderSize + self.typeColumn.length + self.typeDict.length + self.postingsRegion.length,
    self.fstBytes.length, (crc self.body).toNat⟩

variable {self}

theorem length_body : self.body.length = self.typeColumn.length + (self.typeDict.length +
    (self.postingsRegion.length + self.fstBytes.length)) := by
  simp [body]

theorem header_eq (fstFits : indexHeaderSize + self.typeColumn.length + self.typeDict.length +
    self.postingsRegion.length < 2 ^ 32) (lenFits : self.fstBytes.length < 2 ^ 32) :
    self.header crc base count createdAtNanos =
      some (self.written crc base count createdAtNanos) := by
  have typedict : fitU32 (indexHeaderSize + self.typeColumn.length) =
      some (indexHeaderSize + self.typeColumn.length) := if_pos (by omega)
  have postings : fitU32 (indexHeaderSize + self.typeColumn.length + self.typeDict.length) =
      some (indexHeaderSize + self.typeColumn.length + self.typeDict.length) := if_pos (by omega)
  have fst : fitU32 (indexHeaderSize + self.typeColumn.length + self.typeDict.length +
      self.postingsRegion.length) = some (indexHeaderSize + self.typeColumn.length +
        self.typeDict.length + self.postingsRegion.length) := if_pos fstFits
  have len : fitU32 self.fstBytes.length = some self.fstBytes.length := if_pos lenFits
  simp only [header, typedict, postings, fst, len, Option.bind_eq_bind, Option.bind_some]
  rfl

private theorem fitU32_eq_some {value fitted : Nat} (fits : fitU32 value = some fitted) :
    fitted = value ∧ value < 2 ^ 32 := by
  unfold fitU32 at fits
  split at fits
  · next below => exact ⟨(Option.some.inj fits).symm, below⟩
  · cases fits

theorem fits_of_header {made : IndexSegmentHeader}
    (headerEq : self.header crc base count createdAtNanos = some made) :
    indexHeaderSize + self.typeColumn.length + self.typeDict.length +
      self.postingsRegion.length < 2 ^ 32 ∧ self.fstBytes.length < 2 ^ 32 := by
  simp only [header, Option.bind_eq_bind, Option.bind_eq_some_iff] at headerEq
  obtain ⟨typedictOff, typedict, postingsOff, postings, fstOff, fst, fstLen, len, _⟩ := headerEq
  obtain ⟨rfl, _⟩ := fitU32_eq_some typedict
  obtain ⟨rfl, _⟩ := fitU32_eq_some postings
  exact ⟨(fitU32_eq_some fst).2, (fitU32_eq_some len).2⟩

variable {count createdAtNanos base}

theorem written_wellFormed (fstFits : indexHeaderSize + self.typeColumn.length +
    self.typeDict.length + self.postingsRegion.length < 2 ^ 32)
    (lenFits : self.fstBytes.length < 2 ^ 32) (counted : self.typeColumn.length = count * 2)
    (baseFits : base < 2 ^ 64) (createdFits : createdAtNanos < 2 ^ 64) :
    (self.written crc base count createdAtNanos).WellFormed := by
  constructor
  · rfl
  · exact createdFits
  · exact baseFits
  · change indexHeaderSize + self.typeColumn.length = count * 2 + indexHeaderSize
    omega
  · exact Nat.le_add_right ..
  · exact Nat.le_add_right ..
  · exact fstFits
  · exact lenFits
  · exact (crc self.body).toNat_lt

variable (self count createdAtNanos base)

/-- The bytes of a file with these sections. -/
def file : List UInt8 := (self.written crc base count createdAtNanos).toBytes crc ++ self.body

variable {self count createdAtNanos base}

theorem slice_typeDict :
    slice (self.file crc base count createdAtNanos) (indexHeaderSize + self.typeColumn.length)
      (indexHeaderSize + self.typeColumn.length + self.typeDict.length) = self.typeDict := by
  have split : self.file crc base count createdAtNanos =
      (self.written crc base count createdAtNanos).toBytes crc ++ self.typeColumn ++
        (self.typeDict ++ (self.postingsRegion ++ self.fstBytes)) := by
    simp [file, body]
  exact slice_eq split (by simp)

theorem slice_postingsRegion :
    slice (self.file crc base count createdAtNanos)
      (indexHeaderSize + self.typeColumn.length + self.typeDict.length)
      (indexHeaderSize + self.typeColumn.length + self.typeDict.length +
        self.postingsRegion.length) = self.postingsRegion := by
  have split : self.file crc base count createdAtNanos =
      (self.written crc base count createdAtNanos).toBytes crc ++ self.typeColumn ++
        self.typeDict ++ (self.postingsRegion ++ self.fstBytes) := by
    simp [file, body]
  exact slice_eq split (by simp [Nat.add_assoc])

theorem slice_fst :
    slice (self.file crc base count createdAtNanos)
      (indexHeaderSize + self.typeColumn.length + self.typeDict.length +
        self.postingsRegion.length)
      (indexHeaderSize + self.typeColumn.length + self.typeDict.length +
        self.postingsRegion.length + self.fstBytes.length) = self.fstBytes := by
  have split : self.file crc base count createdAtNanos =
      (self.written crc base count createdAtNanos).toBytes crc ++ self.typeColumn ++
        self.typeDict ++ self.postingsRegion ++ (self.fstBytes ++ []) := by
    simp [file, body]
  exact slice_eq split (by simp [Nat.add_assoc])

theorem take_file : (self.file crc base count createdAtNanos).take indexHeaderSize =
    (self.written crc base count createdAtNanos).toBytes crc :=
  List.take_left' (by simp)

theorem segmentLen_written : (self.written crc base count createdAtNanos).segmentLen =
    indexHeaderSize + self.body.length := by
  simp only [length_body, written, IndexSegmentHeader.segmentLen]
  omega

theorem fromBytes_file (small : indexHeaderSize + self.body.length < 2 ^ 32)
    (counted : self.typeColumn.length = count * 2) (baseFits : base < 2 ^ 64)
    (createdFits : createdAtNanos < 2 ^ 64) {names : List (List UInt8)}
    (parsed : parseTypeDict self.typeDict = .ok names) {map : format.Map}
    (opened : format.new self.fstBytes = .ok map) :
    IndexSegment.fromBytes format crc (self.file crc base count createdAtNanos) =
      .ok ⟨self.written crc base count createdAtNanos, self.file crc base count createdAtNanos, map,
        names⟩ := by
  have parts := @length_body self
  have wellFormed := @written_wellFormed crc self base count createdAtNanos (by omega) (by omega)
    counted baseFits createdFits
  have bodyBytes : (self.file crc base count createdAtNanos).drop indexHeaderSize = self.body :=
    List.drop_left' (by simp)
  have checksum : (crc self.body).toNat =
      (self.written crc base count createdAtNanos).bodyCrc := rfl
  have length : (self.written crc base count createdAtNanos).segmentLen =
      (self.file crc base count createdAtNanos).length := by
    rw [segmentLen_written, file, List.length_append, IndexSegmentHeader.length_toBytes]
  have whole : ¬ (self.file crc base count createdAtNanos).length < indexHeaderSize := by
    rw [file, List.length_append, IndexSegmentHeader.length_toBytes]
    omega
  have ends : ¬ (self.written crc base count createdAtNanos).segmentLen ≥ 2 ^ 32 := by
    rw [segmentLen_written]
    omega
  rw [IndexSegment.fromBytes, if_neg whole, take_file,
    IndexSegmentHeader.fromBytes_toBytes crc _ wellFormed, if_neg ends]
  dsimp only
  rw [if_neg (not_not_intro length), bodyBytes, if_neg (not_not_intro checksum)]
  have dictionary : slice (self.file crc base count createdAtNanos)
      (self.written crc base count createdAtNanos).typedictOff
      (self.written crc base count createdAtNanos).postingsOff = self.typeDict :=
    slice_typeDict crc
  have terms : slice (self.file crc base count createdAtNanos)
      (self.written crc base count createdAtNanos).fstOff
      ((self.written crc base count createdAtNanos).fstOff +
        (self.written crc base count createdAtNanos).fstLen) = self.fstBytes :=
    slice_fst crc
  rw [dictionary, parsed, terms]
  dsimp only
  rw [opened]

/-- A file that is opened has no offset that does not fit. -/
theorem small_of_fromBytes (counted : self.typeColumn.length = count * 2)
    (baseFits : base < 2 ^ 64) (createdFits : createdAtNanos < 2 ^ 64)
    {made : IndexSegmentHeader}
    (headerEq : self.header crc base count createdAtNanos = some made)
    {segment : IndexSegment format}
    (opened : IndexSegment.fromBytes format crc (self.file crc base count createdAtNanos) =
      .ok segment) :
    indexHeaderSize + self.body.length < 2 ^ 32 := by
  obtain ⟨fstFits, lenFits⟩ := fits_of_header crc base count createdAtNanos headerEq
  have wellFormed := @written_wellFormed crc self base count createdAtNanos fstFits lenFits counted
    baseFits createdFits
  by_contra large
  have ends : (self.written crc base count createdAtNanos).segmentLen ≥ 2 ^ 32 := by
    rw [segmentLen_written]
    omega
  have whole : ¬ (self.file crc base count createdAtNanos).length < indexHeaderSize := by
    rw [file, List.length_append, IndexSegmentHeader.length_toBytes]
    omega
  rw [IndexSegment.fromBytes, if_neg whole, take_file,
    IndexSegmentHeader.fromBytes_toBytes crc _ wellFormed, if_pos ends] at opened
  cases opened

end Sections

/-- A segment answers every lookup without a panic and as a view does. -/
structure AnswersAs (segment : IndexSegment format) (view : ActiveView) : Prop where
  base_eq : SegmentIndex.base segment = SegmentIndex.base view
  len_eq : SegmentIndex.len segment = SegmentIndex.len view
  termPostings_eq : ∀ tag, segment.termPostings tag = some (SegmentIndex.termPostings view tag)
  termLen_eq : ∀ tag, segment.termLen tag = some (SegmentIndex.termLen view tag)
  typeId_eq : ∀ name, SegmentIndex.typeId segment name = SegmentIndex.typeId view name
  typeAt_eq : ∀ i < SegmentIndex.len view, segment.typeAt i = some (SegmentIndex.typeAt view i)

/-- A segment that answers as a view indexes what the view indexes. -/
theorem AnswersAs.indexes {segment : IndexSegment format} {view : ActiveView}
    (answers : AnswersAs format segment view) {base : Nat} {events : List Event}
    (indexes : Indexes view base events) : Indexes segment base events where
  base_eq := answers.base_eq.trans indexes.base_eq
  len_eq := answers.len_eq.trans indexes.len_eq
  postings_eq tag := by
    have same : SegmentIndex.termPostings segment tag = SegmentIndex.termPostings view tag :=
      congrArg Option.join (answers.termPostings_eq tag)
    rw [same, indexes.postings_eq]
  absent_type name unknown := by
    rw [answers.typeId_eq] at unknown
    exact indexes.absent_type name unknown
  typeAt_iff name id known i event found := by
    rw [answers.typeId_eq] at known
    have inside : i < SegmentIndex.len view := by
      rw [indexes.len_eq]
      exact (List.getElem?_eq_some_iff.mp found).1
    have same : SegmentIndex.typeAt segment i = SegmentIndex.typeAt view i := by
      change (segment.typeAt i).getD 0 = _
      rw [answers.typeAt_eq i inside, Option.getD_some]
    rw [same, indexes.typeAt_iff name id known i event found]

namespace ActiveTail.Holds

variable {tail : ActiveTail} {base : Nat} {events : List Event}

theorem sections_eq (lawful : format.Lawful) (holds : tail.Holds base events) {column : List Nat}
    (columnHolds : tail.typeColumn.Holds column) :
    ∃ sections map, tail.sections format = some sections ∧
      sections.typeColumn = column.flatMap (encode 2) ∧
      parseTypeDict sections.typeDict = .ok ((keys tail.types).map Name.bytes) ∧
      sections.postingsRegion = (laid [] tail.termsSortedWithPostings).2 ∧
      format.new sections.fstBytes = .ok map ∧
      ∀ key, format.get map key = (laid [] tail.termsSortedWithPostings).1.lookup key := by
  have strings : ∀ name ∈ (keys tail.types).map Name.bytes,
      name.length < 2 ^ 16 ∧ validUtf8 name = true := by
    intro bytes member
    obtain ⟨name, _, rfl⟩ := List.mem_map.mp member
    exact ⟨Nat.lt_succ_of_le name.length_le, name.utf8⟩
  obtain ⟨typeDict, encoded, parsed⟩ := parseTypeDict_encodeTypeDict strings
  have names := keys_laid [] tail.termsSortedWithPostings
  have ascending : Ascending (laid [] tail.termsSortedWithPostings).1 := by
    have ordered : ((laid [] tail.termsSortedWithPostings).1.map Prod.fst).Pairwise
        fun first second => first.map UInt8.toNat < second.map UInt8.toNat := by
      rw [names, List.pairwise_map]
      exact terms_ascending holds
    rwa [List.pairwise_map] at ordered
  have bounded : Bounded (laid [] tail.termsSortedWithPostings).1 := by
    intro entry member
    have listed : entry.1 ∈ (laid [] tail.termsSortedWithPostings).1.map Prod.fst :=
      List.mem_map_of_mem member
    rw [names] at listed
    obtain ⟨term, _, same⟩ := List.mem_map.mp listed
    rw [← same]
    exact Nat.lt_succ_of_le term.1.length_le
  obtain ⟨builder, fstBytes, map, inserted, finished, opened, get⟩ :=
    lawful.built _ ascending bounded
  refine ⟨⟨column.flatMap (encode 2), typeDict, (laid [] tail.termsSortedWithPostings).2, fstBytes⟩,
    map, ?_, rfl, parsed, rfl, opened, get⟩
  rw [sections, typeNames_eq holds, encoded, layTerms_eq format inserted,
    frozenColumn_eq columnHolds]
  simp [finished, Except.toOption]

/-- In the view of all events the length of a posting list is exact. -/
theorem termLen_viewFull (holds : tail.Holds base events) (fits : FitsSegment events)
    (tag : Tag) :
    tail.viewFull.termLen tag = (tail.viewFull.termPostings tag).map List.length := by
  have postings : tail.viewFull.termPostings tag =
      if tail.tags.lookup tag = none then none
      else some (positionsWhere (carries tag) 0 events) := by
    rw [viewFull, holds.len_eq, holds.termPostings_makeView fits, List.take_length]
  have upto : tail.viewFull.uptoLen = events.length := (holds.indexes_viewFull fits).len_eq
  obtain ⟨slots, slotsHold, _, slotOf⟩ := holds.terms.slots
  rw [postings]
  cases known : tail.tags.lookup tag with
  | none => exact ActiveView.termLen_of_unknown _ known
  | some term =>
      obtain ⟨slot, found, slotHolds⟩ := slotOf tag term known
      obtain ⟨bound, rfl⟩ := List.getElem?_eq_some_iff.mp found
      have shorter := length_positionsWhere_le (carries tag) 0 events
      have own : tail.viewFull.postings.get term = some slots[term] := slotsHold.get bound
      rw [ActiveView.termLen_of_known _ known, own, upto]
      simp [slotHolds.len_eq, shorter]

theorem column_lt (holds : tail.Holds base events) {column : List Nat}
    (columnTypes : column.map some = events.map fun event => tail.types.lookup event.eventType) :
    ∀ id ∈ column, id < 2 ^ 16 := by
  intro id member
  have listed : some id ∈ events.map fun event => tail.types.lookup event.eventType := by
    rw [← columnTypes]
    exact List.mem_map_of_mem member
  obtain ⟨event, _, found⟩ := List.mem_map.mp listed
  have below := holds.types.dense.lookup_lt found
  have full : maxTypeId = 2 ^ 16 - 1 := rfl
  have lengthLe := holds.types.length_le
  omega

/-- A segment with the terms of a tail finds their postings. -/
theorem postings_of_segment (holds : tail.Holds base events) (fits : FitsSegment events)
    {segment : IndexSegment format}
    (regionEq : segment.postingsRegion = (laid [] tail.termsSortedWithPostings).2)
    (get : ∀ key, format.get segment.map key =
      (laid [] tail.termsSortedWithPostings).1.lookup key)
    (small : segment.postingsRegion.length < 2 ^ 32) (tag : Tag) :
    segment.termPostings tag = some (tail.viewFull.termPostings tag) ∧
      segment.termLen tag = some ((tail.viewFull.termPostings tag).map List.length) := by
  have whole : (laid [] tail.termsSortedWithPostings).2 <+: segment.postingsRegion :=
    regionEq ▸ List.prefix_refl _
  obtain ⟨absent, present⟩ := lookup_laid whole tag
  rw [← lookup_terms holds fits tag]
  unfold IndexSegment.termPostings IndexSegment.termLen
  rw [get]
  cases found : tail.termsSortedWithPostings.lookup tag with
  | none =>
      rw [absent found]
      exact ⟨rfl, rfl⟩
  | some postings =>
      obtain ⟨earlier, extended, value⟩ := present postings found
      have postingsEq := postings_eq_of_lookup holds fits found
      have count := length_positionsWhere_le (carries tag) 0 events
      have short := fits.length_lt
      have below : ∀ posting ∈ postings, posting < 2 ^ 32 := by
        intro posting member
        rw [postingsEq] at member
        have inside := lt_of_mem_positionsWhere member
        omega
      have before := ((encodePostings_extends postings earlier).trans extended).length_le
      obtain ⟨decoded, counted⟩ := decodePostings_encodePostings
        (postingsEq ▸ pairwise_positionsWhere 0 events) below (by rw [postingsEq]; omega) extended
        (by omega)
      have fitsValue : (encodePostings postings earlier).1 < 2 ^ 64 :=
        encodePostings_lt below (by omega)
      rw [value]
      simp only [UInt64.toNat_ofNat_of_lt' fitsValue, decoded, counted, Option.map_some, and_self]

/-- A segment with the type names of a tail knows their ids. -/
theorem typeId_of_segment (holds : tail.Holds base events) {segment : IndexSegment format}
    (namesEq : segment.typeNames = (keys tail.types).map Name.bytes) (name : EventType) :
    segment.typeId name = tail.types.lookup name := by
  have sameName : ((· == name.bytes) ∘ Name.bytes) = (· == name) := by
    funext other
    rw [Bool.eq_iff_iff]
    simp [Name.bytes_injective.eq_iff]
  rw [IndexSegment.typeId, namesEq, List.findIdx?_map, sameName,
    holds.types.dense.findIdx?_keys]
  cases known : tail.types.lookup name with
  | none => rfl
  | some id =>
      have below := holds.types.dense.lookup_lt known
      have full : maxTypeId = 2 ^ 16 - 1 := rfl
      have lengthLe := holds.types.length_le
      rw [Option.map_some, Nat.mod_eq_of_lt (by omega)]

/-- A segment whose file begins with the type column of a tail knows the type of
every event. -/
theorem typeAt_of_segment {column : List Nat} (below : ∀ id ∈ column, id < 2 ^ 16)
    {segment : IndexSegment format} {front rest : List UInt8}
    (dataEq : segment.data = front ++ (column.flatMap (encode 2) ++ rest))
    (frontEq : front.length = indexHeaderSize) {i : Nat} (inside : i < column.length) :
    segment.typeAt i = some column[i] := by
  have field : fieldAt (column.flatMap (encode 2) ++ rest) (i * 2) 2 = column[i] := by
    rw [← encodeFields_column]
    apply fieldAt_encodeFields i
    · simp [inside]
    · rw [← List.map_take, encodeFields_column, length_flatMap_encode, List.length_take,
        Nat.min_eq_left inside.le]
    · exact below _ (List.getElem_mem inside)
  rw [IndexSegment.typeAt, dataEq, ← frontEq, fieldAt_append_right, field, if_pos]
  simp only [List.length_append, length_flatMap_encode]
  omega

end ActiveTail.Holds

/-- The file of a tail is opened, and the segment answers as the tail does. -/
theorem ActiveTail.Holds.fromBytes_encodeAt (lawful : format.Lawful) {tail : ActiveTail}
    {base : Nat} {events : List Event} (holds : tail.Holds base events)
    (fits : FitsSegment events) (offsets : OffsetsFit format tail) (baseFits : base < 2 ^ 64)
    {createdAtNanos : Nat} (createdFits : createdAtNanos < 2 ^ 64) :
    ∃ bytes segment, encodeAt format crc tail createdAtNanos = some bytes ∧
      IndexSegment.fromBytes format crc bytes = .ok segment ∧
      AnswersAs format segment tail.viewFull := by
  obtain ⟨column, columnHolds, columnTypes⟩ := holds.column
  have columnLength : column.length = events.length := by
    simpa using congrArg List.length columnTypes
  obtain ⟨sections, map, sectionsEq, columnEq, parsed, regionEq, opened, get⟩ :=
    sections_eq format lawful holds columnHolds
  have small := offsets sections sectionsEq
  have counted : sections.typeColumn.length = events.length * 2 := by
    rw [columnEq, length_flatMap_encode, columnLength]
  have parts := @Sections.length_body sections
  have headerEq := @Sections.header_eq crc sections base events.length createdAtNanos (by omega)
    (by omega)
  have short := fits.length_lt
  refine ⟨_, _, ?_, Sections.fromBytes_file format crc small counted baseFits createdFits parsed
    opened, ?_⟩
  · rw [encodeAt, sectionsEq, Option.bind_eq_bind, Option.bind_some, holds.base_eq, holds.len_eq,
      headerEq]
    rfl
  have region : @IndexSegment.postingsRegion format
      ⟨sections.written crc base events.length createdAtNanos,
        sections.file crc base events.length createdAtNanos, map,
        (keys tail.types).map Name.bytes⟩ = sections.postingsRegion :=
    Sections.slice_postingsRegion crc
  have regionSmall : sections.postingsRegion.length < 2 ^ 32 := by
    rw [Sections.length_body] at small
    omega
  have postings := postings_of_segment format holds fits (region.trans regionEq) get
    (by rw [region]; exact regionSmall)
  constructor
  · exact holds.base_eq.symm
  · rw [(holds.indexes_viewFull fits).len_eq]
    change events.length % 2 ^ 32 = _
    exact Nat.mod_eq_of_lt (by omega)
  · exact fun tag => (postings tag).1
  · intro tag
    rw [(postings tag).2, ← termLen_viewFull holds fits]
    rfl
  · exact typeId_of_segment format holds rfl
  · intro i inside
    rw [(holds.indexes_viewFull fits).len_eq, ← columnLength] at inside
    have viewed : SegmentIndex.typeAt tail.viewFull i = column[i] := by
      change (tail.typeColumn.get i).getD 0 = _
      rw [columnHolds.get inside, Option.getD_some]
    rw [viewed]
    have dataEq : sections.file crc base events.length createdAtNanos =
        (sections.written crc base events.length createdAtNanos).toBytes crc ++
          (column.flatMap (encode 2) ++
            (sections.typeDict ++ (sections.postingsRegion ++ sections.fstBytes))) := by
      rw [← columnEq]
      rfl
    exact typeAt_of_segment format (column_lt holds columnTypes) dataEq (by simp) inside

/-- What is opened from the bytes of a tail answers as the tail does. -/
theorem ActiveTail.Holds.answers_of_encodeAt (lawful : format.Lawful) {tail : ActiveTail}
    {base : Nat} {events : List Event} (holds : tail.Holds base events)
    (fits : FitsSegment events) (baseFits : base < 2 ^ 64) {createdAtNanos : Nat}
    (createdFits : createdAtNanos < 2 ^ 64) {bytes : List UInt8}
    (written : encodeAt format crc tail createdAtNanos = some bytes)
    {segment : IndexSegment format}
    (opened : IndexSegment.fromBytes format crc bytes = .ok segment) :
    AnswersAs format segment tail.viewFull := by
  obtain ⟨column, columnHolds, columnTypes⟩ := holds.column
  have columnLength : column.length = events.length := by
    simpa using congrArg List.length columnTypes
  obtain ⟨sections, _, sectionsEq, columnEq, _⟩ := sections_eq format lawful holds columnHolds
  have counted : sections.typeColumn.length = events.length * 2 := by
    rw [columnEq, length_flatMap_encode, columnLength]
  have offsets : OffsetsFit format tail := by
    simp only [encodeAt, sectionsEq, Option.bind_eq_bind, Option.bind_some, holds.base_eq,
      holds.len_eq, Option.bind_eq_some_iff] at written
    obtain ⟨made, headerEq, same⟩ := written
    obtain ⟨fstFits, lenFits⟩ := Sections.fits_of_header crc base events.length createdAtNanos
      headerEq
    have madeEq := headerEq
    rw [Sections.header_eq crc base events.length createdAtNanos fstFits lenFits] at madeEq
    obtain rfl := Option.some.inj madeEq
    obtain rfl := Option.some.inj same
    have small := Sections.small_of_fromBytes format crc counted baseFits createdFits headerEq
      opened
    intro other otherEq
    rw [sectionsEq] at otherEq
    rwa [← Option.some.inj otherEq]
  obtain ⟨others, reread, again, reopened, answers⟩ :=
    holds.fromBytes_encodeAt format crc lawful fits offsets baseFits createdFits
  rw [written] at again
  obtain rfl := Option.some.inj again
  rw [opened] at reopened
  obtain rfl := Except.ok.inj reopened
  exact answers

/-- A sealed segment answers exactly as the tail it was written from: every
lookup, and every search in both directions with every bound. -/
theorem sealed_answers_as_tail (lawful : format.Lawful) {base createdAtNanos : Nat}
    (baseFits : base < 2 ^ 64) (createdFits : createdAtNanos < 2 ^ 64)
    {pushes : List (Nat × Event)} {tail : ActiveTail}
    (ran : (ActiveTail.new base).pushAll pushes = some tail)
    (fits : FitsSegment ((ActiveTail.new base).acceptedOf pushes))
    (offsets : OffsetsFit format tail) :
    ∃ bytes segment, encodeAt format crc tail createdAtNanos = some bytes ∧
      IndexSegment.fromBytes format crc bytes = .ok segment ∧
      AnswersAs format segment tail.viewFull ∧
      (∀ query after, search segment query after = search tail.viewFull query after) ∧
      ∀ query before, searchBack segment query before = searchBack tail.viewFull query before := by
  have holds := (ActiveTail.holds_new base).pushAll ran (by rwa [List.nil_append])
  rw [List.nil_append] at holds
  obtain ⟨bytes, segment, written, opened, answers⟩ :=
    holds.fromBytes_encodeAt format crc lawful fits offsets baseFits createdFits
  have viewed := holds.indexes_viewFull fits
  have same := answers.indexes format viewed
  refine ⟨bytes, segment, written, opened, answers, ?_, ?_⟩
  · intro query after
    rw [same.search_eq, viewed.search_eq]
  · intro query before
    rw [same.searchBack_eq, viewed.searchBack_eq]

end Segment

/-- A name of one letter. -/
def letterA : Name := ⟨[0x61], by decide, by decide, by decide⟩

def letterB : Name := ⟨[0x62], by decide, by decide, by decide⟩

/-- Three events of two types, two of which carry one tag. -/
def threePushes : List (Nat × Event) :=
  [(1, ⟨letterA, Tags.single letterB, []⟩), (2, ⟨letterB, Tags.empty, []⟩),
    (3, ⟨letterA, Tags.single letterB, []⟩)]

private theorem threePushes_offsetsFit :
    ∀ tail ∈ (ActiveTail.new 1).pushAll threePushes, OffsetsFit flatTable tail := by
  have computed : ∀ tail ∈ (ActiveTail.new 1).pushAll threePushes,
      ∀ sections ∈ tail.sections flatTable, indexHeaderSize + sections.body.length < 2 ^ 32 := by
    decide +kernel
  exact computed

theorem sealed_answers_as_tail_threePushes :
    ∃ tail bytes segment, (ActiveTail.new 1).pushAll threePushes = some tail ∧
      encodeAt flatTable Seglog.crc32 tail 7 = some bytes ∧
      IndexSegment.fromBytes flatTable Seglog.crc32 bytes = .ok segment ∧
      search segment (.items [⟨[], Tags.single letterB⟩]) 0 = [1, 3] := by
  have found : ∀ tail ∈ (ActiveTail.new 1).pushAll threePushes,
      search tail.viewFull (.items [⟨[], Tags.single letterB⟩]) 0 = [1, 3] := by
    decide +kernel
  obtain ⟨tail, ran⟩ := Option.isSome_iff_exists.mp
    (show ((ActiveTail.new 1).pushAll threePushes).isSome by decide +kernel)
  obtain ⟨bytes, segment, written, opened, _, same, _⟩ :=
    sealed_answers_as_tail flatTable Seglog.crc32 flatTable_lawful (show 1 < 2 ^ 64 by decide)
      (show 7 < 2 ^ 64 by decide) ran (by rw [FitsSegment]; decide +kernel)
      (threePushes_offsetsFit tail ran)
  exact ⟨tail, bytes, segment, ran, written, opened, (same _ _).trans (found tail ran)⟩

end Index

end Tephra
