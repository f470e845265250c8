import Tephra.AsciiText
import Tephra.DurableStore

/-!
# The names of segment files

The name of a segment file is its base position in twenty digits.  To open a directory, the
names that it lists are read, in whatever order they come; files with other names are passed
over.  The names say exactly which segment a file is, so every listing of the files that a store
leaves yields its log, whatever else is in the directory.
-/

namespace Tephra

namespace Log

open AsciiText

def nameDigits : Nat := 20

/-- A directory as it is listed: the names of its files, with what is in them. -/
abbrev Listing := List (List UInt8 × List UInt8)

def segmentFileName (base : Nat) : List UInt8 :=
  padded nameDigits base ++ ascii ".log"

/-- The text in front of an ending. -/
def stripSuffix (ending text : List UInt8) : Option (List UInt8) :=
  if ending.isSuffixOf text then some (text.take (text.length - ending.length)) else none

def parseBasePosition (name : List UInt8) : Option Nat :=
  (stripSuffix (ascii ".log") name).bind fun stem =>
    if stem.length ≠ nameDigits ∨ ¬ stem.all isDigit then none
    else readNumber (2 ^ 64 - 1) stem

/-- The segment files of a listing, each under its base position. -/
def discover (listing : Listing) : Directory :=
  listing.filterMap fun file => (parseBasePosition file.1).map fun base => (base, file.2)

/-- Open, or create, the log of a directory from what it lists. -/
def openListing (crc : List UInt8 → UInt32) (config : SegmentConfig) (now : UInt64)
    (listing : Listing) : Except LogError SegmentSet × Directory :=
  SegmentSet.openSet crc config now (discover listing)

theorem stripSuffix_eq_some {ending text stem : List UInt8} :
    stripSuffix ending text = some stem ↔ text = stem ++ ending := by
  rw [stripSuffix]
  constructor
  · intro stripped
    split at stripped
    · next ends =>
      obtain ⟨front, rfl⟩ := List.isSuffixOf_iff_suffix.mp ends
      rw [List.length_append, Nat.add_sub_cancel, List.take_left] at stripped
      rw [Option.some.inj stripped]
    · cases stripped
  · rintro rfl
    rw [if_pos (List.isSuffixOf_iff_suffix.mpr (List.suffix_append stem ending)),
      List.length_append, Nat.add_sub_cancel, List.take_left]

theorem length_padded_position {base : Nat} (small : base < 2 ^ 64) :
    (padded nameDigits base).length = nameDigits :=
  length_padded (by decide) (small.trans (by decide))

/-- A name is that of a segment exactly if it is the one that the segment is given. -/
theorem parseBasePosition_eq_some {name : List UInt8} {base : Nat} :
    parseBasePosition name = some base ↔ base < 2 ^ 64 ∧ name = segmentFileName base := by
  rw [parseBasePosition]
  constructor
  · intro parsed
    obtain ⟨stem, stripped, read⟩ := Option.bind_eq_some_iff.mp parsed
    rw [stripSuffix_eq_some] at stripped
    split at read
    · cases read
    · next shaped =>
      obtain ⟨length, digits⟩ := not_or.mp shaped
      have length : stem.length = nameDigits := not_not.mp length
      have digits : ∀ byte ∈ stem, isDigit byte = true := List.all_eq_true.mp (not_not.mp digits)
      have nonempty : stem ≠ [] := List.ne_nil_of_length_pos (length ▸ by decide)
      obtain ⟨same, small⟩ := (readNumber_eq_some nonempty digits).mp read
      have small : base < 2 ^ 64 := Nat.lt_of_le_pred (by decide) small
      refine ⟨small, stripped.trans (congrArg (· ++ ascii ".log") ?_)⟩
      apply eq_of_value_eq digits fun _ => isDigit_of_mem_padded
      · rw [length, length_padded_position small]
      · rw [same, value_padded]
  · rintro ⟨small, rfl⟩
    have length := length_padded_position small
    have digits : ∀ byte ∈ padded nameDigits base, isDigit byte = true :=
      fun _ => isDigit_of_mem_padded
    rw [segmentFileName, stripSuffix_eq_some.mpr rfl, Option.bind_some, if_neg]
    · have nonempty : padded nameDigits base ≠ [] :=
        List.ne_nil_of_length_pos (lt_of_lt_of_eq (by decide) length.symm)
      exact (readNumber_eq_some nonempty digits).mpr
        ⟨value_padded _ _, Nat.le_pred_of_lt small⟩
    · exact not_or.mpr ⟨not_not.mpr length, not_not.mpr (List.all_eq_true.mpr digits)⟩

/-- A listing of a directory: its segment files in any order, and other files. -/
def Lists (listing : Listing) (dir : Directory) : Prop :=
  ∃ others : Listing, (∀ file ∈ others, ∀ base < 2 ^ 64, file.1 ≠ segmentFileName base) ∧
    listing.Perm (dir.map (fun entry => (segmentFileName entry.1, entry.2)) ++ others)

theorem Lists.discover_perm {listing : Listing} {dir : Directory} (lists : Lists listing dir)
    (small : ∀ entry ∈ dir, entry.1 < 2 ^ 64) : (discover listing).Perm dir := by
  obtain ⟨others, foreign, shuffled⟩ := lists
  have nothing : discover others = [] := by
    rw [discover, List.filterMap_eq_nil_iff]
    intro file member
    rw [Option.map_eq_none_iff, Option.eq_none_iff_forall_ne_some]
    intro base parsed
    obtain ⟨bounded, named⟩ := parseBasePosition_eq_some.mp parsed
    exact foreign file member base bounded named
  have named : discover (dir.map fun entry => (segmentFileName entry.1, entry.2)) = dir := by
    rw [discover, List.filterMap_map]
    refine (List.filterMap_congr fun entry member => ?_).trans List.filterMap_some
    rw [Function.comp_apply, parseBasePosition_eq_some.mpr ⟨small entry member, rfl⟩]
    rfl
  have found := shuffled.filterMap
    fun file => (parseBasePosition file.1).map fun base => (base, file.2)
  change (discover listing).Perm (discover (_ ++ others)) at found
  rwa [discover, discover, List.filterMap_append, ← discover, ← discover, ← discover, named,
    nothing, List.append_nil] at found

variable {crc : List UInt8 → UInt32} {config : SegmentConfig}

theorem openSet_of_sorted_eq {dir other after : Directory} {now : UInt64} {files : SegmentSet}
    (same : other.sorted = dir.sorted)
    (opened : SegmentSet.openSet crc config now dir = (.ok files, after)) :
    SegmentSet.openSet crc config now other = (.ok files, after) := by
  rw [SegmentSet.openSet] at opened ⊢
  rw [same]
  split at opened
  · cases congrArg Prod.fst opened
  · split at opened
    · cases congrArg Prod.fst opened
    · split at opened
      · cases congrArg Prod.fst opened
      · exact opened

theorem sorted_eq_of_perm {dir other : Directory} (shuffled : other.Perm dir)
    (ascending : dir.Pairwise fun first second => first.1 < second.1) :
    other.sorted = dir.sorted := by
  have sorted : dir.sorted = dir :=
    List.Pairwise.insertionSort_eq (ascending.imp fun less => less.le)
  have distinct : (dir.map Prod.fst).Nodup :=
    List.pairwise_map.mpr (ascending.imp fun less => less.ne)
  have same := (List.perm_insertionSort (fun first second => first.1 ≤ second.1) other).trans
    shuffled
  rw [sorted]
  refine List.Perm.eq_of_pairwise ?_ (List.pairwise_insertionSort _ other)
    (ascending.imp fun less => less.le) same
  intro first second member here below above
  exact List.inj_on_of_nodup_map distinct (same.subset member) here (le_antisymm below above)

theorem Contiguous.base_le {expected : Nat} {shelves : List Shelf}
    (contiguous : Contiguous expected shelves) : ∀ shelf ∈ shelves,
      shelf.base ≤ expected + (shelves.flatMap Shelf.records).length := by
  induction shelves generalizing expected with
  | nil => simp
  | cons first shelves ih =>
      obtain ⟨rfl, rest⟩ := contiguous
      rw [List.forall_mem_cons, List.flatMap_cons, List.length_append]
      refine ⟨by omega, fun shelf member => ?_⟩
      have inside := ih rest shelf member
      rw [Shelf.nextBase] at inside
      omega

end Log

namespace Writer.CommitSeam.DurableStore

open AsciiText ConditionalLogs Log Positions Read Seglog SortedMaps

variable {format : MapFormat} {crc : List UInt8 → UInt32} {config : SegmentConfig}

/-- The files that store a log are its segments in order, and positions are 64-bit integers. -/
theorem Filed.ascending {dir : Directory} {log : List Event} {running : Option SegmentSet}
    {stages : List (List UInt8)} (filed : Filed crc config dir running stages log)
    (room : firstPosition + log.length ≤ maxPosition) :
    dir.Pairwise (fun first second => first.1 < second.1) ∧ ∀ entry ∈ dir, entry.1 < 2 ^ 64 := by
  rcases filed with ⟨rfl, -, -⟩ | ⟨sealed, active, stop, standing, encoded⟩
  · exact ⟨.nil, by simp⟩
  · have stored := standing.stored
    dsimp only at stored
    rw [stored.dir_eq]
    refine ⟨List.pairwise_map.mpr stored.ascending, fun entry member => ?_⟩
    obtain ⟨shelf, here, rfl⟩ := List.mem_map.mp member
    have below := stored.contiguous.base_le shelf here
    rw [← storedRecords, ← encoded, List.length_map] at below
    exact lt_of_le_of_lt (below.trans room) (by decide)

open SegmentSet (smallConfig)

open Worker (untaggedEvent)

/-- The segments last first, behind a file that is none. -/
def shuffled (dir : Directory) : Listing :=
  (ascii "lost+found", []) :: (dir.map fun entry => (segmentFileName entry.1, entry.2)).reverse

theorem shuffled_lists (dir : Directory) : Lists (shuffled dir) dir := by
  refine ⟨[(ascii "lost+found", [])], ?_, ?_⟩
  · rw [List.forall_mem_singleton]
    intro base small same
    have parsed : parseBasePosition (ascii "lost+found") = some base :=
      parseBasePosition_eq_some.mpr ⟨small, same⟩
    have none : parseBasePosition (ascii "lost+found") = none := by decide
    rw [none] at parsed
    cases parsed
  · exact ((List.reverse_perm _).cons _).trans (List.perm_append_singleton _ _).symm

end Writer.CommitSeam.DurableStore

end Tephra
