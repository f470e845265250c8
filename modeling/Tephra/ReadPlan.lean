import Tephra.ActiveTail
import Tephra.LogScan

/-!
# Planning a read

A read is pinned to a watermark and a snapshot of the segments.  The planner
estimates how many events match.  A broad query is answered by a scan of the
range, and a selective one by the positions that the indexes give, each fetched
on demand; a segment that could not be indexed is scanned in any case.

Positions and counts are 64-bit integers, and a result of `none` stands for an
arithmetic overflow or another panic.
-/

namespace Tephra

namespace Read

open Index Log SegmentSource

def checkedAdd (left right : Nat) : Option Nat :=
  if left + right ≤ maxPosition then some (left + right) else none

def checkedSub (left right : Nat) : Option Nat :=
  if right ≤ left then some (left - right) else none

/-- The errors of a read. -/
inductive ReadError where
  | log (source : LogError)
  | corrupt (source : DecodeError)
deriving DecidableEq, Repr

/-- An event at its position. -/
structure Sequenced where
  position : Nat
  event : Event
deriving DecidableEq

/-- What a read sees: the sealed segments with their indexes, and the active
segment with its tail.  A segment without an index could not be indexed. -/
structure Snapshot (σ : Type) where
  sealedLog : List Segment
  sealedIndex : List (Option σ)
  activeLog : Segment
  activeIndex : ActiveTail

instance {σ : Type} : SegmentSource (Snapshot σ) Segment where
  sealedSegments := Snapshot.sealedLog
  activeSegment := Snapshot.activeLog

inductive Access where
  | index
  | scan
deriving DecidableEq, Repr

section Estimate

variable {σ : Type} [SegmentIndex σ]

/-- The least number of events that carry a tag, or `none` if no event carries
some tag. -/
def smallestTerm (index : σ) : (smallest : Nat) → List Tag → Option Nat
  | smallest, [] => some smallest
  | smallest, tag :: tags =>
      match SegmentIndex.termLen index tag with
      | none => none
      | some len => smallestTerm index (min smallest len) tags

def estimateItem (index : σ) (item : QueryItem) (width : Nat) : Nat :=
  if item.tags.toList.isEmpty then
    width
  else
    match smallestTerm index maxPosition item.tags.toList with
    | none => 0
    | some smallest => min smallest width

/-- Add the estimates of items until they reach the width. -/
def estimateItems (index : σ) (width : Nat) : (total : Nat) → List QueryItem → Nat
  | total, [] => min total width
  | total, item :: items =>
      let total := min (total + estimateItem index item width) maxPosition
      if total ≥ width then width else estimateItems index width total items

def estimateMatches (index : σ) (query : Query) (width : Nat) : Nat :=
  match query with
  | .all => width
  | .items items => estimateItems index width 0 items

def choose (estimate width scanBias : Nat) : Access :=
  if min (estimate * scanBias) maxPosition ≤ width then .index else .scan

/-- The first position after a bound that is not before a base. -/
def firstAfter (after base : Nat) : Option Nat :=
  checkedAdd (max after (base - 1)) 1

/-- The number of positions after a bound, from a base on and up to a maximum. -/
def segmentWidth (after base effectiveMax : Nat) : Option Nat := do
  let first ← firstAfter after base
  let beyond ← checkedAdd effectiveMax 1
  return beyond - first

/-- The last position of a segment that is at most the watermark. -/
def effectiveMax (segment : Segment) (watermark : Nat) : Option Nat := do
  let beyond ← checkedAdd segment.base segment.records.length
  return min (beyond - 1) watermark

/-- The estimate of a sealed segment; one that is scanned in any case counts whole. -/
def estimateSegment (query : Query) (segWidth : Nat) : Option σ → Nat
  | some built => estimateMatches built query segWidth
  | none => segWidth

/-- Add up the estimates and the widths of sealed segments. -/
def estimateSealed (query : Query) (after watermark : Nat) :
    (estimate width : Nat) → List (Segment × Option σ) → Option (Nat × Nat)
  | estimate, width, [] => some (estimate, width)
  | estimate, width, (segment, index) :: rest =>
      if segment.records.length = 0 then
        estimateSealed query after watermark estimate width rest
      else do
        let last ← effectiveMax segment watermark
        if last ≤ after then
          estimateSealed query after watermark estimate width rest
        else do
          let segWidth ← segmentWidth after segment.base last
          let width ← checkedAdd width segWidth
          let estimate ← checkedAdd estimate (estimateSegment query segWidth index)
          estimateSealed query after watermark estimate width rest

/-- The estimated number of matches, and the number of positions in the range. -/
def estimateRead (snapshot : Snapshot σ) (query : Query) (after watermark : Nat) :
    Option (Nat × Nat) := do
  let (estimate, width) ←
    estimateSealed query after watermark 0 0 (snapshot.sealedLog.zip snapshot.sealedIndex)
  let activeBase := snapshot.activeLog.base
  if watermark ≥ activeBase then do
    let segWidth ← segmentWidth after activeBase watermark
    let width ← checkedAdd width segWidth
    let estimate ← checkedAdd estimate
      (if snapshot.activeIndex.unindexable then segWidth
        else estimateMatches (snapshot.activeIndex.view watermark) query segWidth)
    return (min estimate width, width)
  else
    return (min estimate width, width)

end Estimate

/-- Whether a result has reached the cap. -/
def capReached (cap : Option Nat) (out : List Nat) : Bool :=
  match cap with
  | some k => out.length ≥ k
  | none => false

def truncate {α : Type} (cap : Option Nat) (out : List α) : List α :=
  match cap with
  | some k => out.take k
  | none => out

/-- Extend a result, no further than the cap. -/
def extendCapped (out iter : List Nat) (cap : Option Nat) : List Nat :=
  match cap with
  | some k => out ++ iter.take (k - out.length)
  | none => out ++ iter

/-- The positions of the events of a scan that match, up to the cap. -/
def scanPositionsMatching (query : Query) (cap : Option Nat) :
    (scan : List ScanItem) → (out : List Nat) → Option (Except ReadError (List Nat))
  | [], out => some (.ok out)
  | none :: _, _ => none
  | some (.error source) :: _, _ => some (.error (.log source))
  | some (.ok (_, .error source)) :: _, _ => some (.error (.corrupt source))
  | some (.ok (position, .ok event)) :: scan, out =>
      if query.matches event then
        let out := out ++ [position]
        if capReached cap out then some (.ok out) else scanPositionsMatching query cap scan out
      else
        scanPositionsMatching query cap scan out

section Positions

variable {σ : Type} [SegmentIndex σ]

/-- The positions an index gives after a bound. -/
def checkedSearch {ι : Type} [SegmentIndex ι] (index : ι) (query : Query) (after : Nat) :
    Option (List Nat) :=
  if (localMatches index query).all fun i => SegmentIndex.base index + i ≤ maxPosition then
    some (search index query after)
  else
    none

/-- The positions an index gives before a bound, from the highest down. -/
def checkedSearchBack {ι : Type} [SegmentIndex ι] (index : ι) (query : Query) (before : Nat) :
    Option (List Nat) :=
  if (localMatches index query).all fun i => SegmentIndex.base index + i ≤ maxPosition then
    some (searchBack index query before)
  else
    none

def scanPositionsInto (snapshot : Snapshot σ) (query : Query) (first upto : Nat)
    (out : List Nat) (cap : Option Nat) : Option (Except ReadError (List Nat)) :=
  if capReached cap out then
    some (.ok out)
  else
    scanPositionsMatching query cap (Scan.start snapshot first upto) out

def scanPositionsBackInto (snapshot : Snapshot σ) (query : Query) (first upto : Nat)
    (out : List Nat) (cap : Option Nat) : Option (Except ReadError (List Nat)) :=
  if capReached cap out then
    some (.ok out)
  else
    scanPositionsMatching query cap (ScanBack.start snapshot first upto) out

/-- Add the positions of a sealed segment. -/
def planSegment (snapshot : Snapshot σ) (query : Query) (after watermark last : Nat)
    (cap : Option Nat) (segment : Segment) (index : Option σ) (out : List Nat) :
    Option (Except ReadError (List Nat)) :=
  match index with
  | some built => do
      let found ← checkedSearch built query after
      return .ok (extendCapped out (found.takeWhile fun position => position ≤ watermark) cap)
  | none => do
      let first ← firstAfter after segment.base
      scanPositionsInto snapshot query first last out cap

/-- Add the positions of the active segment. -/
def planActive (snapshot : Snapshot σ) (query : Query) (after watermark : Nat)
    (cap : Option Nat) (out : List Nat) : Option (Except ReadError (List Nat)) :=
  let activeBase := snapshot.activeLog.base
  if watermark ≥ activeBase then
    if snapshot.activeIndex.unindexable then do
      let first ← firstAfter after activeBase
      let planned ← scanPositionsInto snapshot query first watermark out cap
      return planned.map (truncate cap)
    else do
      let found ← checkedSearch (snapshot.activeIndex.view watermark) query after
      return .ok (truncate cap (extendCapped out found cap))
  else
    some (.ok (truncate cap out))

/-- Add the positions of sealed segments in order, and those of the active one
behind them. -/
def planFrom (snapshot : Snapshot σ) (query : Query) (after watermark : Nat)
    (cap : Option Nat) :
    List (Segment × Option σ) → (out : List Nat) → Option (Except ReadError (List Nat))
  | [], out => planActive snapshot query after watermark cap out
  | (segment, index) :: rest, out =>
      if segment.records.length = 0 then
        planFrom snapshot query after watermark cap rest out
      else do
        let last ← effectiveMax segment watermark
        if last ≤ after then
          planFrom snapshot query after watermark cap rest out
        else
          match ← planSegment snapshot query after watermark last cap segment index out with
          | .error source => return .error source
          | .ok out =>
              if capReached cap out then
                return .ok (truncate cap out)
              else
                planFrom snapshot query after watermark cap rest out

/-- The matching positions after a bound and up to the watermark, ascending. -/
def planPositions (snapshot : Snapshot σ) (query : Query) (after watermark : Nat)
    (limit : Option Nat) : Option (Except ReadError (List Nat)) :=
  planFrom snapshot query after watermark limit
    (snapshot.sealedLog.zip snapshot.sealedIndex) []

/-- Add the positions of a sealed segment, from the highest down. -/
def planSegmentBack (snapshot : Snapshot σ) (query : Query) (last : Nat) (cap : Option Nat)
    (segment : Segment) (index : Option σ) (out : List Nat) :
    Option (Except ReadError (List Nat)) :=
  match index with
  | some built => do
      let found ← checkedSearchBack built query (min (last + 1) maxPosition)
      return .ok (extendCapped out found cap)
  | none => scanPositionsBackInto snapshot query segment.base last out cap

/-- Add the positions of the active segment, from the highest down. -/
def planActiveBack (snapshot : Snapshot σ) (query : Query) (upto : Nat) (cap : Option Nat)
    (out : List Nat) : Option (Except ReadError (List Nat)) :=
  if snapshot.activeIndex.unindexable then
    scanPositionsBackInto snapshot query snapshot.activeLog.base upto out cap
  else do
    let found ← checkedSearchBack (snapshot.activeIndex.view upto) query (min (upto + 1) maxPosition)
    return .ok (extendCapped out found cap)

/-- Add the positions of sealed segments, the last one first. -/
def planFromBack (snapshot : Snapshot σ) (query : Query) (upto : Nat) (cap : Option Nat) :
    List (Segment × Option σ) → (out : List Nat) → Option (Except ReadError (List Nat))
  | [], out => some (.ok (truncate cap out))
  | (segment, index) :: rest, out =>
      if segment.records.length = 0 ∨ segment.base > upto then
        planFromBack snapshot query upto cap rest out
      else do
        let last ← effectiveMax segment upto
        match ← planSegmentBack snapshot query last cap segment index out with
        | .error source => return .error source
        | .ok out =>
            if capReached cap out then
              return .ok (truncate cap out)
            else
              planFromBack snapshot query upto cap rest out

/-- The matching positions up to a bound, descending. -/
def planPositionsBack (snapshot : Snapshot σ) (query : Query) (upto : Nat)
    (limit : Option Nat) : Option (Except ReadError (List Nat)) :=
  let sealedBack := (snapshot.sealedLog.zip snapshot.sealedIndex).reverse
  if upto ≥ snapshot.activeLog.base then do
    match ← planActiveBack snapshot query upto limit [] with
    | .error source => return .error source
    | .ok out =>
        if capReached limit out then
          return .ok (truncate limit out)
        else
          planFromBack snapshot query upto limit sealedBack out
  else
    planFromBack snapshot query upto limit sealedBack []

end Positions

inductive Direction where
  | forward
  | backward
deriving DecidableEq, Repr

/-- What a read draws its events from. -/
inductive Mode (σ : Type) where
  | scan (scan : List ScanItem)
  | scanFiltered (scan : List ScanItem) (query : Query)
  | scanBack (scan : List ScanItem)
  | scanBackFiltered (scan : List ScanItem) (query : Query)
  /-- Positions to fetch, with the segment of the open reader and its index. -/
  | indexed (snapshot : Snapshot σ) (positions : List Nat) (reader : Option (Nat × Segment))
  | done

/-- A read in progress. -/
structure Reads (σ : Type) where
  watermark : Nat
  pendingErr : Option ReadError
  remaining : Option Nat
  hitLimit : Bool
  mode : Mode σ

def decodeRecord : Except LogError (Nat × Record) → Except ReadError Sequenced
  | .error source => .error (.log source)
  | .ok (_, .error source) => .error (.corrupt source)
  | .ok (position, .ok event) => .ok ⟨position, event⟩

/-- The next event of a scan that matches, and what is left of the scan. -/
def nextFiltered (query : Query) :
    List ScanItem → Option (Option (Except ReadError Sequenced) × List ScanItem)
  | [] => some (none, [])
  | none :: _ => none
  | some (.error source) :: scan => some (some (.error (.log source)), scan)
  | some (.ok (_, .error source)) :: scan => some (some (.error (.corrupt source)), scan)
  | some (.ok (position, .ok event)) :: scan =>
      if query.matches event then
        some (some (.ok ⟨position, event⟩), scan)
      else
        nextFiltered query scan

/-- The next record of a scan, and what is left of the scan. -/
def nextUnfiltered :
    List ScanItem → Option (Option (Except ReadError Sequenced) × List ScanItem)
  | [] => some (none, [])
  | none :: _ => none
  | some item :: scan => some (some (decodeRecord item), scan)

namespace Reads

variable {σ : Type} [SegmentIndex σ]

/-- Whether the read ended because its range was drained. -/
def isExhausted (self : Reads σ) : Bool := !self.hitLimit

/-- The open reader of a segment: the cached one if it is of this segment. -/
def openReader (snapshot : Snapshot σ) (reader : Option (Nat × Segment)) (segIdx : Nat) :
    Option (Nat × Segment) :=
  if reader.map Prod.fst = some segIdx then reader
  else (segmentAt snapshot segIdx).map fun segment => (segIdx, segment)

/-- Fetch the event at a position, and the reader that was used. -/
def fetch (snapshot : Snapshot σ) (reader : Option (Nat × Segment)) (position : Nat) :
    Option (Except ReadError Sequenced × Option (Nat × Segment)) :=
  match locate snapshot position with
  | none => some (.error (.log (.notFound position)), reader)
  | some (segIdx, _) => do
      let cached ← openReader snapshot reader segIdx
      let local' ← checkedSub position cached.2.base
      match cached.2.records[local']? with
      | none => return (.error (.log (.notFound position)), some cached)
      | some (.error source) => return (.error (.corrupt source), some cached)
      | some (.ok event) => return (.ok ⟨position, event⟩, some cached)

/-- The next item of a read with budget left. -/
def draw (self : Reads σ) : Option (Option (Except ReadError Sequenced) × Reads σ) :=
  match self.mode with
  | .done => some (none, self)
  | .scan scan => do
      let (item, scan) ← nextUnfiltered scan
      return (item, { self with mode := .scan scan })
  | .scanBack scan => do
      let (item, scan) ← nextUnfiltered scan
      return (item, { self with mode := .scanBack scan })
  | .scanFiltered scan query => do
      let (item, scan) ← nextFiltered query scan
      return (item, { self with mode := .scanFiltered scan query })
  | .scanBackFiltered scan query => do
      let (item, scan) ← nextFiltered query scan
      return (item, { self with mode := .scanBackFiltered scan query })
  | .indexed _ [] _ => some (none, self)
  | .indexed snapshot (position :: positions) reader => do
      let (item, reader) ← fetch snapshot reader position
      return (some item, { self with mode := .indexed snapshot positions reader })

/-- The next event, or `none` at the end. -/
def next (self : Reads σ) : Option (Option (Except ReadError Sequenced) × Reads σ) :=
  match self.pendingErr with
  | some error => some (some (.error error), { self with pendingErr := none, mode := .done })
  | none =>
      match self.remaining with
      | some 0 => some (none, { self with hitLimit := true, mode := .done })
      | some (n + 1) => draw { self with remaining := some n }
      | none => draw self

/-- Plan a read over the positions after a bound and up to another one. -/
def planDirectional (direction : Direction) (snapshot : Snapshot σ) (query : Query)
    (after upto watermark scanBias : Nat) (limit : Option Nat) : Option (Reads σ) :=
  let start (mode : Mode σ) : Reads σ := ⟨watermark, none, limit, false, mode⟩
  if after ≥ upto ∨ limit = some 0 then
    some (start .done)
  else do
    let (estimate, width) ← estimateRead snapshot query after upto
    match choose estimate width scanBias with
    | .scan => do
        let first ← checkedAdd after 1
        match direction with
        | .forward =>
            let scan := Scan.start snapshot first upto
            return start (if query = .all then .scan scan else .scanFiltered scan query)
        | .backward =>
            let scan := ScanBack.start snapshot first upto
            return start (if query = .all then .scanBack scan else .scanBackFiltered scan query)
    | .index => do
        let planned ←
          match direction with
          | .forward => planPositions snapshot query after upto limit
          | .backward => planPositionsBack snapshot query upto limit
        match planned with
        | .ok positions => return start (.indexed snapshot positions none)
        | .error source => return { start .done with pendingErr := some source }

def plan (snapshot : Snapshot σ) (query : Query) (after watermark scanBias : Nat)
    (limit : Option Nat) : Option (Reads σ) :=
  planDirectional .forward snapshot query after watermark watermark scanBias limit

def planBack (snapshot : Snapshot σ) (query : Query) (upto watermark scanBias : Nat)
    (limit : Option Nat) : Option (Reads σ) :=
  planDirectional .backward snapshot query 0 upto watermark scanBias limit

end Reads

section Handle

variable {σ : Type} [SegmentIndex σ]

/-- Read forward, strictly after a position. -/
def read (watermark : Nat) (snapshot : Snapshot σ) (scanBias : Nat) (query : Query)
    (after : Nat) (limit : Option Nat) : Option (Reads σ) :=
  Reads.plan snapshot query after watermark scanBias limit

/-- Read backward, strictly before a position. -/
def readBack (watermark : Nat) (snapshot : Snapshot σ) (scanBias : Nat) (query : Query)
    (before : Nat) (limit : Option Nat) : Option (Reads σ) :=
  Reads.planBack snapshot query (min (before - 1) watermark) watermark scanBias limit

end Handle

end Read

end Tephra
