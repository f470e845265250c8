import Tephra.BatchChain

/-!
# Records of several contents of a file

After a crash each byte of a file may be that of any content the file has had since it was
last made durable.  When the checksum detects what was altered, every record that is read
from such an image stands in one of these contents, so that recovery accepts nothing if no
run that is woven of their records ends in a commit marker.
-/

namespace Tephra

namespace Seglog

open ByteImage FrameChain

variable (crc : List UInt8 → UInt32)

/-- A record that stands at an offset of one of several files. -/
def StandsIn (size : Nat) (files : List (List UInt8)) (offset : Nat) (frame : Frame)
    (next : Nat) : Prop :=
  ∃ file ∈ files, recordAt crc file size offset = some (frame, next)

/-- The checksum detects every altered record of an image: what is read as a record from an
offset on stands so in one of the files that the image is made of. -/
def Detects (size : Nat) (files : List (List UInt8)) (image : List UInt8) (start : Nat) : Prop :=
  ∀ offset frame next, start ≤ offset → recordAt crc image size offset = some (frame, next) →
    StandsIn crc size files offset frame next

/-- No run of records of the files, each of them at its offset, ends in a commit marker. -/
def Unfinished (size : Nat) (files : List (List UInt8)) (start : Nat) : Prop :=
  ∀ entries stop, Woven (StandsIn crc size files) start entries stop →
    ¬ EndsMarked IsMarker entries

/-- A run of records of the files and of the written one that ends in a commit marker is the
one that the written file has up to an offset. -/
def FinishesAlone (size : Nat) (files : List (List UInt8)) (written : List UInt8)
    (start stop : Nat) : Prop :=
  ∀ entries last, Woven (StandsIn crc size (written :: files)) start entries last →
    EndsMarked IsMarker entries →
      last = stop ∧ Chain (recordAt crc written size) start entries stop

variable {crc}

theorem headRaw_inj {raw other : Nat} (word : raw < 2 ^ 32) (otherWord : other < 2 ^ 32)
    (known : hasUnknownFlags raw = false) (otherKnown : hasUnknownFlags other = false)
    (control : isControlField raw = isControlField other)
    (length : payloadLenField raw = payloadLenField other) : raw = other := by
  have flag : controlFlag = 2 ^ 30 := by decide
  have mask : 0xFFFFFFFF ^^^ (flagMask ||| lengthMask) = 2 ^ 31 := by decide
  have low : lengthMask = 2 ^ 30 - 1 := by decide
  have high : ∀ {word : Nat}, hasUnknownFlags word = false → word.testBit 31 = false := by
    intro word known
    simp only [hasUnknownFlags, mask, Nat.and_two_pow, bne_eq_false_iff_eq] at known
    cases set : word.testBit 31 with
    | false => rfl
    | true => simp [set] at known
  have bit : ∀ word : Nat, isControlField word = word.testBit 30 := by
    intro word
    rw [isControlField, flag, Nat.and_two_pow]
    cases word.testBit 30 <;> rfl
  have knownBit := high known
  have otherBit := high otherKnown
  rw [bit, bit] at control
  simp only [payloadLenField, low, Nat.and_two_pow_sub_one_eq_mod] at length
  rw [Nat.testBit_eq_decide_div_mod_eq, decide_eq_false_iff_not] at knownBit otherBit
  rw [Nat.testBit_eq_decide_div_mod_eq, Nat.testBit_eq_decide_div_mod_eq,
    decide_eq_decide] at control
  omega

theorem agreeOn_of_recordAt {image other : List UInt8} {size size' offset next : Nat}
    {frame : Frame} (here : recordAt crc image size offset = some (frame, next))
    (there : recordAt crc other size' offset = some (frame, next)) :
    AgreeOn image other offset next := by
  obtain ⟨head, readHead, -, known, control, readPayload, valid, nextEq, -⟩ :=
    recordAt_eq_some_iff.mp here
  obtain ⟨head', readHead', -, known', control', readPayload', valid', nextEq', -⟩ :=
    recordAt_eq_some_iff.mp there
  have headLength := length_of_readExact readHead
  have headLength' := length_of_readExact readHead'
  have taken : (head.take lenSize).length = lenSize := by simp [headLength, recordHeadSize]
  have taken' : (head'.take lenSize).length = lenSize := by simp [headLength', recordHeadSize]
  have rawEq : headRaw head = headRaw head' :=
    headRaw_inj (LittleEndian.decode_lt_of_length taken) (LittleEndian.decode_lt_of_length taken')
      known known' (control.symm.trans control') (by omega)
  have sumEq : headCrc head = headCrc head' := by
    rw [← valid, ← valid', rawEq]
  have sameHead : head = head' := by
    have dropped : (head.drop lenSize).length = crc32cSize := by
      simp [headLength, recordHeadSize]
    have dropped' : (head'.drop lenSize).length = crc32cSize := by
      simp [headLength', recordHeadSize]
    rw [← List.take_append_drop lenSize head, ← List.take_append_drop lenSize head',
      take_lenSize_eq readHead, take_lenSize_eq readHead', rawEq,
      ← LittleEndian.encode_decode_of_length dropped,
      ← LittleEndian.encode_decode_of_length dropped']
    exact congrArg (_ ++ LittleEndian.encode crc32cSize ·) sumEq
  subst sameHead
  rw [nextEq]
  exact (agreeOn_of_readExact readHead readHead').join
    (agreeOn_of_readExact readPayload readPayload')

theorem agreeOn_of_chain {image other : List UInt8} {size size' start stop : Nat}
    {entries : List (Nat × Frame)} (chain : Chain (recordAt crc image size) start entries stop)
    (twin : Chain (recordAt crc other size') start entries stop) :
    AgreeOn image other start stop := by
  induction chain with
  | nil offset =>
      intro index above below
      omega
  | cons here rest ih =>
      obtain ⟨-, next, there, later⟩ := chain_cons_iff.mp twin
      have nextEq := (next_of_recordAt here).trans (next_of_recordAt there).symm
      subst nextEq
      exact (agreeOn_of_recordAt here there).join (ih later)

variable {size start stop : Nat} {files : List (List UInt8)} {image written : List UInt8}

/-- Recovery accepts nothing of an image of files without a committed run. -/
theorem Unfinished.unmarked (unfinished : Unfinished crc size files start)
    (detects : Detects crc size files image start) :
    Unmarked (recordAt crc image size) IsMarker start := by
  intro entries last chain
  exact unfinished entries last (chain.woven (recordAt_advances image size) detects)

theorem Unfinished.mono (unfinished : Unfinished crc size files start)
    {fewer : List (List UInt8)} (among : fewer ⊆ files) : Unfinished crc size fewer start := by
  intro entries last woven
  apply unfinished entries last
  apply woven.imp
  rintro offset frame next ⟨file, member, here⟩
  exact ⟨file, among member, here⟩

theorem detects_of_mem (member : image ∈ files) : Detects crc size files image start :=
  fun _ _ _ _ here => ⟨image, member, here⟩

theorem FinishesAlone.unmarked_behind (alone : FinishesAlone crc size files written start stop)
    (detects : Detects crc size (written :: files) image start)
    {entries : List (Nat × Frame)} (chain : Chain (recordAt crc image size) start entries stop) :
    Unmarked (recordAt crc image size) IsMarker stop := by
  intro more last later ends
  have whole := (chain.append later).woven (recordAt_advances image size) detects
  have lastEq := (alone _ last whole ends.append_left).1
  have grows := later.le (recordAt_advances image size)
  obtain ⟨entry, member, -⟩ := ends.exists_mem
  have positive := List.length_pos_of_mem member
  omega

/-- Of an image in which a byte of the batch is missing nothing is accepted. -/
theorem FinishesAlone.unmarked_of_cut (alone : FinishesAlone crc size files written start stop)
    (detects : Detects crc size (written :: files) image start)
    (cut : ¬ AgreeOn image written start stop) :
    Unmarked (recordAt crc image size) IsMarker start := by
  intro entries last chain ends
  obtain ⟨rfl, twin⟩ :=
    alone entries last (chain.woven (recordAt_advances image size) detects) ends
  exact cut (agreeOn_of_chain chain twin)

theorem chain_of_zeros (zeros : ∀ file ∈ files, ZeroFrom file start)
    {entries : List (Nat × Frame)} {last : Nat}
    (woven : Woven (StandsIn crc size (written :: files)) start entries last) :
    Chain (recordAt crc written size) start entries last := by
  apply woven.chain (recordAt_advances written size)
  rintro offset frame next above ⟨file, member, here⟩
  rcases List.mem_cons.mp member with rfl | older
  · exact here
  · rw [((zeros file older).mono above).recordAt_eq_none] at here
    cases here

theorem unfinished_of_zeros (zeros : ∀ file ∈ files, ZeroFrom file start)
    (unmarked : Unmarked (recordAt crc written size) IsMarker start) :
    Unfinished crc size (written :: files) start := by
  intro entries last woven
  exact unmarked entries last (chain_of_zeros zeros woven)

/-- A batch that is written over zeros is the only run that ends in a commit marker. -/
theorem finishesAlone_of_zeros (zeros : ∀ file ∈ files, ZeroFrom file start)
    {entries : List (Nat × Frame)}
    (batch : Chain (recordAt crc written size) start entries stop)
    (isRun : IsRun IsMarker entries)
    (behind : Unmarked (recordAt crc written size) IsMarker stop) :
    FinishesAlone crc size files written start stop := by
  intro others last woven ends
  have chain := chain_of_zeros zeros woven
  have longest : MarkedPrefix (recordAt crc written size) IsMarker start entries stop :=
    ⟨batch, .inr isRun.ends, behind⟩
  obtain ⟨extra, entriesEq, rest⟩ := longest.contains chain ends
  obtain ⟨plain, entry, runEq, plainItems, -⟩ := isRun
  rcases List.eq_nil_or_concat' extra with rfl | ⟨front, final, rfl⟩
  · obtain rfl := chain_nil_iff.mp rest
    exact ⟨rfl, chain⟩
  · rw [runEq, ← List.append_assoc] at entriesEq
    obtain ⟨rfl, -⟩ := List.append_inj' entriesEq rfl
    obtain ⟨other, member, isMarked⟩ := ends.exists_mem
    exact absurd isMarked (plainItems other (List.mem_append_left _ member))

end Seglog

end Tephra
