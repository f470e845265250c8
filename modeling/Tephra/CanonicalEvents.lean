import Tephra.EventDecoding

/-!
# The encoding of an event is canonical

What the decoder accepts is exactly what the encoder writes: the lengths, the type and
the tags of an accepted buffer are those of an event whose bytes the buffer is.  The
accessors are given here with the bounds that slicing a buffer checks.
-/

namespace Tephra

open LittleEndian Read

namespace EventRef

/-- The bytes of a range.  The result is `none` where slicing panics. -/
def range (buf : List UInt8) (start stop : Nat) : Option (List UInt8) :=
  if start ≤ stop ∧ stop ≤ buf.length then
    some ((buf.drop start).take (stop - start))
  else
    none

/-- Two bytes as a number, with the bound of both indices. -/
def indexU16 (buf : List UInt8) (at_ : Nat) : Option Nat :=
  (range buf at_ (at_ + 2)).map decode

def decodeType (buf : List UInt8) : Option (List UInt8) := do
  let typeLen ← indexU16 buf 0
  let tagCount ← indexU16 buf 2
  let start := headerLen tagCount
  range buf start (start + typeLen)

/-- The tags that are left, and the lengths of all tags. -/
structure TagsRef where
  data : List UInt8
  lens : List UInt8
  idx : Nat
deriving DecidableEq, Repr

def decodeTags (buf : List UInt8) : Option TagsRef := do
  let typeLen ← indexU16 buf 0
  let tagCount ← indexU16 buf 2
  let lens ← range buf fixedHeader (fixedHeader + 2 * tagCount)
  let start := headerLen tagCount + typeLen
  let data ← range buf start buf.length
  some ⟨data, lens, 0⟩

def decodeData (buf : List UInt8) (dataOffset : Nat) : Option (List UInt8) :=
  range buf dataOffset buf.length

namespace TagsRef

/-- The next tag, if there is one.  The result is `none` where the code panics. -/
def next (self : TagsRef) : Option (Option (List UInt8 × TagsRef)) :=
  let off := self.idx * 2
  if off + 2 > self.lens.length then
    some none
  else do
    let len ← indexU16 self.lens off
    let head ← range self.data 0 len
    let tail ← range self.data len self.data.length
    some (some (head, { self with data := tail, idx := self.idx + 1 }))

/-- The iterator gives some tags and ends, and no step panics. -/
inductive Yields : TagsRef → List (List UInt8) → Prop
  | done {self : TagsRef} : self.next = some none → Yields self []
  | step {self rest : TagsRef} {tag : List UInt8} {tags : List (List UInt8)} :
      self.next = some (some (tag, rest)) → Yields rest tags → Yields self (tag :: tags)

end TagsRef

/-- Every accessor stays in bounds and shows a part of the event. -/
structure Shows (self : EventRef) (eventType : EventType) (tags : Tags) (payload : List UInt8) :
    Prop where
  eventType_eq : self.eventType = eventType.bytes
  eventType_inside : decodeType self.buf = some self.eventType
  tags_eq : self.tags = tags.toList.map Name.bytes
  tags_inside : ∃ iterator, decodeTags self.buf = some iterator ∧ iterator.Yields self.tags
  data_eq : self.data = payload
  data_inside : decodeData self.buf self.dataOffset = some self.data

theorem range_eq {buf : List UInt8} {start stop : Nat} (ordered : start ≤ stop)
    (inside : stop ≤ buf.length) :
    range buf start stop = some ((buf.drop start).take (stop - start)) :=
  if_pos ⟨ordered, inside⟩

theorem range_end {buf : List UInt8} {start : Nat} (inside : start ≤ buf.length) :
    range buf start buf.length = some (buf.drop start) := by
  rw [range_eq inside le_rfl, ← List.length_drop, List.take_length]

theorem indexU16_eq {buf : List UInt8} {at_ : Nat} (inside : at_ + 2 ≤ buf.length) :
    indexU16 buf at_ = some (readU16 buf at_) := by
  rw [indexU16, range_eq (by omega) inside, Nat.add_sub_cancel_left]
  rfl

namespace TagsRef

/-- From any tag on, the iterator gives the tags that are left. -/
theorem yields_from (front back : List Tag) (rest : List UInt8) :
    Yields
      ⟨back.flatMap Name.bytes ++ rest,
        (front ++ back).flatMap (fun tag => encode 2 tag.bytes.length), front.length⟩
      (back.map Name.bytes) := by
  induction back generalizing front with
  | nil =>
      apply Yields.done
      rw [next, if_pos]
      simp [List.length_flatMap]
  | cons tag back ih =>
      have lengths : ((front ++ tag :: back).flatMap fun tag => encode 2 tag.bytes.length).length =
          2 * (front.length + (back.length + 1)) := by
        simp [List.length_flatMap]
        omega
      have short : tag.bytes.length < 256 ^ 2 := by
        have le := tag.length_le
        rw [maxNameLen] at le
        omega
      have len : readU16 ((front ++ tag :: back).flatMap fun tag => encode 2 tag.bytes.length)
          (front.length * 2) = tag.bytes.length := by
        have here : ((front ++ tag :: back).map fun tag => tag.bytes.length)[front.length]? =
            some tag.bytes.length := by
          simp
        have read := fieldAt_column here short []
        rwa [List.append_nil, List.flatMap_map] at read
      have others := ih (front ++ [tag])
      rw [List.append_assoc, List.singleton_append, List.length_append,
        List.length_singleton] at others
      apply Yields.step _ others
      rw [next]
      dsimp only
      rw [if_neg (by rw [lengths]; omega), indexU16_eq (by rw [lengths]; omega), len]
      dsimp only [Option.bind_eq_bind, Option.bind_some]
      rw [List.flatMap_cons, List.append_assoc, range_eq (Nat.zero_le _) (by simp),
        range_end (by simp), List.drop_left]
      simp

end TagsRef

end EventRef

namespace Event

/-- The constructor accepts the events of which the header can hold the lengths. -/
theorem new_eq_ok_iff {eventType : EventType} {tags : Tags} {payload : List UInt8}
    {event : Event} :
    new eventType tags payload = .ok event ↔
      event = ⟨eventType, tags, payload⟩ ∧ event.Encodable := by
  constructor
  · intro built
    rw [new] at built
    by_cases many : tags.toList.length > 2 ^ 16 - 1
    · rw [if_pos many] at built
      cases built
    · by_cases large : dataStart eventType tags > 2 ^ 32 - 1
      · rw [if_neg many, if_pos large] at built
        cases built
      · rw [if_neg many, if_neg large] at built
        cases built
        exact ⟨rfl, Nat.lt_of_not_le many, Nat.lt_of_not_le large⟩
  · rintro ⟨rfl, encodable⟩
    exact new_eq_ok encodable.fewTags encodable.small

variable {event : Event}

/-- The accessors of an encoded event stay in bounds and show the event. -/
theorem shows_asBytes (encodable : event.Encodable) :
    (⟨event.asBytes, dataStart event.eventType event.tags⟩ : EventRef).Shows
      event.eventType event.tags event.data := by
  obtain ⟨typeEq, tagsEq, dataEq⟩ := ref_accessors encodable
  have length := length_asBytes event
  have start : dataStart event.eventType event.tags = headerLen event.tags.toList.length +
      event.eventType.bytes.length + tagsTotal event.tags := rfl
  have header : headerLen event.tags.toList.length = 4 + 2 * event.tags.toList.length := rfl
  have typeLen : EventRef.indexU16 event.asBytes 0 = some event.eventType.bytes.length := by
    rw [EventRef.indexU16_eq (by omega), readU16_typeLen encodable]
  have tagCount : EventRef.indexU16 event.asBytes 2 = some event.tags.toList.length := by
    rw [EventRef.indexU16_eq (by omega), readU16_tagCount encodable]
  have lensAt : (event.asBytes.drop fixedHeader).take (2 * event.tags.toList.length) =
      event.tags.toList.flatMap fun tag => encode 2 tag.bytes.length := by
    rw [asBytes, List.append_assoc, List.append_assoc, List.append_assoc]
    rw [List.drop_left' (by simp [fixedHeader]),
      List.take_left' (by simp [List.length_flatMap]; omega)]
  constructor
  · exact typeEq
  · rw [typeEq, EventRef.decodeType, typeLen, tagCount]
    dsimp only [Option.bind_eq_bind, Option.bind_some]
    rw [EventRef.range_eq (by omega) (by omega), Nat.add_sub_cancel_left, type_asBytes]
  · exact tagsEq
  · have yields := EventRef.TagsRef.yields_from [] event.tags.toList event.data
    rw [tagsEq, EventRef.decodeTags, typeLen, tagCount]
    dsimp only [Option.bind_eq_bind, Option.bind_some]
    rw [EventRef.range_eq (by omega) (by rw [fixedHeader]; omega), Nat.add_sub_cancel_left, lensAt]
    dsimp only [Option.bind_some]
    rw [EventRef.range_end (by omega), tags_asBytes]
    exact ⟨_, rfl, yields⟩
  · exact dataEq
  · rw [EventRef.decodeData, EventRef.range_end (by rw [length]; exact Nat.le_add_right ..)]
    rfl

end Event

namespace EventRef

theorem readU16_le (buf : List UInt8) (at_ : Nat) : readU16 buf at_ ≤ maxNameLen := by
  have below := fieldAt_lt buf at_ 2
  rw [readU16, maxNameLen]
  omega

theorem length_tagLens (buf : List UInt8) (idx count : Nat) :
    (tagLens buf idx count).length = count := by
  induction count generalizing idx with
  | zero => rfl
  | succ count ih => rw [tagLens, List.length_cons, ih]

theorem tagLens_le (buf : List UInt8) {idx count len : Nat}
    (member : len ∈ tagLens buf idx count) : len ≤ maxNameLen := by
  induction count generalizing idx with
  | zero => cases member
  | succ count ih =>
      rcases List.mem_cons.mp member with rfl | later
      · exact readU16_le ..
      · exact ih later

theorem map_tagLens (buf : List UInt8) (idx count : Nat) :
    (tagLens buf idx count).map (fun len => (2, len)) =
      readFields buf (fixedHeader + 2 * idx) (List.replicate count 2) := by
  induction count generalizing idx with
  | zero => rfl
  | succ count ih =>
      rw [tagLens, List.map_cons, ih, List.replicate_succ, readFields, readU16]
      rfl

theorem encode_header {buf : List UInt8} (inside : headerLen (readU16 buf 2) ≤ buf.length) :
    encode 2 (readU16 buf 0) ++ encode 2 (readU16 buf 2) ++
        (tagLens buf 0 (readU16 buf 2)).flatMap (encode 2) =
      buf.take (headerLen (readU16 buf 2)) := by
  have widths : (2 :: 2 :: List.replicate (readU16 buf 2) 2).sum = headerLen (readU16 buf 2) := by
    simp [headerLen, fixedHeader]
    omega
  have fields := @encodeFields_readFields buf 0 (2 :: 2 :: List.replicate (readU16 buf 2) 2)
    (by omega)
  have column := map_tagLens buf 0 (readU16 buf 2)
  rw [widths, readFields, readFields, List.drop_zero] at fields
  rw [fixedHeader] at column
  rw [← fields, ← encodeFields_column, column]
  simp [encodeFields, readU16]

theorem of_sumTagLens {lens : List Nat} {total : Nat} (summed : sumTagLens lens = .ok total) :
    (∀ len ∈ lens, len ≠ 0) ∧ total = lens.sum := by
  induction lens generalizing total with
  | nil =>
      cases summed
      simp
  | cons len lens ih =>
      rw [sumTagLens] at summed
      by_cases empty : len = 0
      · rw [if_pos empty] at summed
        cases summed
      · rw [if_neg empty] at summed
        cases rest : sumTagLens lens with
        | error error =>
            rw [rest] at summed
            cases summed
        | ok sum =>
            rw [rest] at summed
            cases summed
            obtain ⟨positive, rfl⟩ := ih rest
            exact ⟨List.forall_mem_cons.mpr ⟨empty, positive⟩, List.sum_cons.symm⟩

theorem flatten_takeTags (lens : List Nat) (data : List UInt8) :
    (takeTags lens data).flatten = data.take lens.sum := by
  induction lens generalizing data with
  | nil => simp [takeTags]
  | cons len lens ih => rw [takeTags, List.flatten_cons, ih, List.sum_cons, List.take_add]

theorem map_length_takeTags {lens : List Nat} {data : List UInt8}
    (inside : lens.sum ≤ data.length) : (takeTags lens data).map List.length = lens := by
  induction lens generalizing data with
  | nil => rfl
  | cons len lens ih =>
      rw [List.sum_cons] at inside
      rw [takeTags, List.map_cons, List.length_take, min_eq_left (by omega),
        ih (by rw [List.length_drop]; omega)]

theorem exists_of_checkTags {lens : List Nat} {data : List UInt8} {prev : Option Tag}
    (positive : ∀ len ∈ lens, len ≠ 0) (short : ∀ len ∈ lens, len ≤ maxNameLen)
    (inside : lens.sum ≤ data.length)
    (checked : checkTags lens data (prev.map Name.bytes) = .ok ()) :
    ∃ tags : List Tag, takeTags lens data = tags.map Name.bytes ∧ tags.Pairwise (· < ·) ∧
      ∀ before, prev = some before → ∀ tag ∈ tags, before < tag := by
  induction lens generalizing data prev with
  | nil => exact ⟨[], rfl, List.Pairwise.nil, by simp⟩
  | cons len lens ih =>
      obtain ⟨nonempty, positive⟩ := List.forall_mem_cons.mp positive
      obtain ⟨le, short⟩ := List.forall_mem_cons.mp short
      rw [List.sum_cons] at inside
      have length : (data.take len).length = len := by
        rw [List.length_take]
        omega
      rw [checkTags] at checked
      by_cases utf8 : validUtf8 (data.take len) = false
      · rw [if_pos utf8] at checked
        cases checked
      · rw [if_neg utf8] at checked
        by_cases unsorted : (prev.map Name.bytes).any fun prev => strLe (data.take len) prev
        · rw [if_pos unsorted] at checked
          cases checked
        · rw [if_neg unsorted] at checked
          have notNil : data.take len ≠ [] := by
            rw [← List.length_pos_iff_ne_nil, length]
            omega
          let tag : Tag := ⟨data.take len, Bool.eq_true_of_not_eq_false utf8, notNil, by omega⟩
          obtain ⟨tags, takeEq, ascends, behind⟩ :=
            @ih (data.drop len) (some tag) positive short (by rw [List.length_drop]; omega) checked
          have next := behind tag rfl
          refine ⟨tag :: tags, ?_, List.pairwise_cons.mpr ⟨next, ascends⟩, ?_⟩
          · rw [takeTags, takeEq, List.map_cons]
          · rintro before rfl
            have first : before < tag := by
              rw [Option.map_some, Option.any_some, strLe_bytes tag before] at unsorted
              simpa using unsorted
            exact List.forall_mem_cons.mpr
              ⟨first, fun later member => first.trans (next later member)⟩

/-- The type and the tags of a buffer, when they pass the checks, make up an event of which
the buffer is the encoding. -/
theorem exists_event_of_parts {buf : List UInt8} (noType : readU16 buf 0 ≠ 0)
    (positive : ∀ len ∈ tagLens buf 0 (readU16 buf 2), len ≠ 0)
    (inside : headerLen (readU16 buf 2) + readU16 buf 0 + (tagLens buf 0 (readU16 buf 2)).sum ≤
      buf.length)
    (utf8 : validUtf8 ((buf.drop (headerLen (readU16 buf 2))).take (readU16 buf 0)) = true)
    (checked : checkTags (tagLens buf 0 (readU16 buf 2))
      (buf.drop (headerLen (readU16 buf 2) + readU16 buf 0)) none = .ok ()) :
    ∃ event : Event, event.asBytes = buf ∧ event.tags.toList.length < 2 ^ 16 ∧
      Event.dataStart event.eventType event.tags =
        headerLen (readU16 buf 2) + readU16 buf 0 + (tagLens buf 0 (readU16 buf 2)).sum := by
  have typeLe := readU16_le buf 0
  have countLe := readU16_le buf 2
  have typeLength :
      ((buf.drop (headerLen (readU16 buf 2))).take (readU16 buf 0)).length = readU16 buf 0 := by
    rw [List.length_take, List.length_drop]
    omega
  have notNil : (buf.drop (headerLen (readU16 buf 2))).take (readU16 buf 0) ≠ [] := by
    rw [← List.length_pos_iff_ne_nil, typeLength]
    omega
  have room : (tagLens buf 0 (readU16 buf 2)).sum ≤
      (buf.drop (headerLen (readU16 buf 2) + readU16 buf 0)).length := by
    rw [List.length_drop]
    omega
  obtain ⟨tags, takeEq, ascends, -⟩ := @exists_of_checkTags _ _ none positive
    (fun len member => tagLens_le buf member) room checked
  have lens : tags.map (fun tag => tag.bytes.length) = tagLens buf 0 (readU16 buf 2) := by
    have lengths := map_length_takeTags room
    rwa [takeEq, List.map_map] at lengths
  have count : tags.length = readU16 buf 2 := by
    have counted := congrArg List.length lens
    rwa [List.length_map, length_tagLens] at counted
  have tagBytes : tags.flatMap Name.bytes =
      (buf.drop (headerLen (readU16 buf 2) + readU16 buf 0)).take
        (tagLens buf 0 (readU16 buf 2)).sum := by
    rw [← flatten_takeTags, takeEq, List.flatMap_def]
  have payload : buf.drop (headerLen (readU16 buf 2) + readU16 buf 0 +
      (tagLens buf 0 (readU16 buf 2)).sum) =
        (buf.drop (headerLen (readU16 buf 2) + readU16 buf 0)).drop
          (tagLens buf 0 (readU16 buf 2)).sum :=
    List.drop_drop.symm
  have header := @encode_header buf (by omega)
  rw [← lens, List.flatMap_map] at header
  refine ⟨⟨⟨_, utf8, notNil, by omega⟩, ⟨tags, ascends⟩,
    buf.drop (headerLen (readU16 buf 2) + readU16 buf 0 + (tagLens buf 0 (readU16 buf 2)).sum)⟩,
    ?_, ?_, ?_⟩
  · rw [Event.asBytes]
    dsimp only
    rw [typeLength, count, header, tagBytes, List.append_assoc, payload, List.take_append_drop,
      ← List.drop_drop, List.append_assoc, List.take_append_drop, List.take_append_drop]
  · rw [maxNameLen] at countLe
    dsimp only
    omega
  · rw [Event.dataStart, Event.tagsTotal, lens]
    dsimp only
    rw [typeLength, count]

/-- What the decoder accepts is the encoding of an event that the constructor accepts. -/
theorem exists_event_of_fromBytes {buf : List UInt8} {ref : EventRef}
    (accepted : fromBytes buf = .ok ref) :
    ∃ event : Event, event.Encodable ∧ event.asBytes = buf ∧
      ref = ⟨event.asBytes, Event.dataStart event.eventType event.tags⟩ := by
  rw [fromBytes] at accepted
  by_cases fixed : buf.length < fixedHeader
  · rw [if_pos fixed] at accepted
    cases accepted
  rw [if_neg fixed] at accepted
  dsimp only at accepted
  by_cases header : buf.length < headerLen (readU16 buf 2)
  · rw [if_pos header] at accepted
    cases accepted
  rw [if_neg header] at accepted
  by_cases noType : readU16 buf 0 = 0
  · rw [if_pos noType] at accepted
    cases accepted
  rw [if_neg noType] at accepted
  cases summed : sumTagLens (tagLens buf 0 (readU16 buf 2)) with
  | error error =>
      rw [summed] at accepted
      cases accepted
  | ok total =>
      obtain ⟨positive, rfl⟩ := of_sumTagLens summed
      rw [summed] at accepted
      dsimp only at accepted
      by_cases short : buf.length < headerLen (readU16 buf 2) + readU16 buf 0 +
          (tagLens buf 0 (readU16 buf 2)).sum
      · rw [if_pos short] at accepted
        cases accepted
      rw [if_neg short] at accepted
      by_cases large : headerLen (readU16 buf 2) + readU16 buf 0 +
          (tagLens buf 0 (readU16 buf 2)).sum > 2 ^ 32 - 1
      · rw [if_pos large] at accepted
        cases accepted
      rw [if_neg large] at accepted
      by_cases utf8 :
          validUtf8 ((buf.drop (headerLen (readU16 buf 2))).take (readU16 buf 0)) = false
      · rw [if_pos utf8] at accepted
        cases accepted
      rw [if_neg utf8] at accepted
      cases checked : checkTags (tagLens buf 0 (readU16 buf 2))
          (buf.drop (headerLen (readU16 buf 2) + readU16 buf 0)) none with
      | error error =>
          rw [checked] at accepted
          cases accepted
      | ok done =>
          rw [checked] at accepted
          cases accepted
          obtain ⟨event, rfl, few, start⟩ := exists_event_of_parts noType positive
            (Nat.le_of_not_lt short) (Bool.eq_true_of_not_eq_false utf8) checked
          refine ⟨event, ⟨few, ?_⟩, rfl, ?_⟩
          · rw [start]
            exact Nat.lt_of_not_le large
          · rw [start]

end EventRef

theorem Tags.perm_of_new {given : List Tag} {tags : Tags} (built : Tags.new given = .ok tags) :
    tags.toList.Perm given := by
  rw [Tags.new] at built
  split at built
  · cases built
  · cases built
    exact List.mergeSort_perm ..

/-- The bytes of an event are decoded to its type, its tags in ascending order and its
payload; the decoder accepts no other bytes; and no accessor of what it accepts leaves the
buffer. -/
theorem EventRef.fromBytes_iff_asBytes :
    (∀ (eventType : EventType) (given : List Tag) (tags : Tags) (payload : List UInt8)
        (event : Event),
      Tags.new given = .ok tags → Event.new eventType tags payload = .ok event →
        tags.toList.Perm given ∧ tags.toList.Pairwise (· < ·) ∧
          ∃ ref, fromBytes event.asBytes = .ok ref ∧ ref.buf = event.asBytes ∧
            ref.Shows eventType tags payload) ∧
      ∀ (buf : List UInt8) (ref : EventRef), fromBytes buf = .ok ref →
        ref.buf = buf ∧ ∃ (eventType : EventType) (tags : Tags) (payload : List UInt8)
            (event : Event),
          Event.new eventType tags payload = .ok event ∧ event.asBytes = buf ∧
            ref.Shows eventType tags payload := by
  constructor
  · intro eventType given tags payload event tagged built
    obtain ⟨rfl, encodable⟩ := Event.new_eq_ok_iff.mp built
    exact ⟨Tags.perm_of_new tagged, tags.sorted, _, Event.fromBytes_asBytes encodable, rfl,
      Event.shows_asBytes encodable⟩
  · intro buf ref accepted
    obtain ⟨event, encodable, rfl, rfl⟩ := exists_event_of_fromBytes accepted
    exact ⟨rfl, event.eventType, event.tags, event.data, event,
      Event.new_eq_ok_iff.mpr ⟨rfl, encodable⟩, rfl, Event.shows_asBytes encodable⟩

private def pingName : Name := ⟨[112, 105, 110, 103], by decide, by decide, by decide⟩

theorem EventRef.fromBytes_iff_asBytes_ping :
    (∃ ref, fromBytes (Event.asBytes ⟨pingName, .empty, [1, 2]⟩) = .ok ref ∧
        ref.Shows pingName .empty [1, 2]) ∧
      ∃ event : Event, event.asBytes = [1, 0, 1, 0, 1, 0, 97, 98, 7] := by
  constructor
  · obtain ⟨-, -, ref, decoded, -, shown⟩ :=
      EventRef.fromBytes_iff_asBytes.1 pingName [] .empty [1, 2] _ Tags.new_nil
        (Event.new_eq_ok (by decide) (by decide))
    exact ⟨ref, decoded, shown⟩
  · have accepted : fromBytes [1, 0, 1, 0, 1, 0, 97, 98, 7] =
        .ok ⟨[1, 0, 1, 0, 1, 0, 97, 98, 7], 8⟩ := by decide
    obtain ⟨-, eventType, tags, payload, event, -, same, -⟩ :=
      EventRef.fromBytes_iff_asBytes.2 _ _ accepted
    exact ⟨event, same⟩

end Tephra
