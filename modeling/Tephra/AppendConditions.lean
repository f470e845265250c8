import Tephra.IndexReopening
import Tephra.TagTips

/-!
# Append conditions

A condition has a boundary clause, for events after a position, and perhaps an existence
clause for the whole log.  Each clause is checked against the staged tags first.  Then the
tips may clear it, or the index set finds the first match, or the log is scanned.
-/

namespace Tephra

namespace Writer

open Index Log Positions Read SegmentSource SortedMaps

inductive ConflictClause where
  | boundary
  | existence
deriving DecidableEq, Repr

/-- Where a conflict is: in the batch that is being built, or at a position of the log. -/
inductive ConflictSite where
  | sameBatch
  | durable (position : Nat)
deriving DecidableEq, Repr

inductive AppendError where
  | conflict (clause : ConflictClause) (site : ConflictSite)
  | afterBeyondTip (after tip : Nat)
  | empty
  | tooLarge (size : Nat)
  | log (source : LogError)
  | corrupt (source : DecodeError)
  | shutdown
deriving DecidableEq, Repr

/-- The first match of a scan.  The result is `none` where the code panics. -/
def scanForMatch (query : Query) : List ScanItem → Option (Except AppendError (Option Nat))
  | [] => some (.ok none)
  | none :: _ => none
  | some (.error source) :: _ => some (.error (.log source))
  | some (.ok (_, .error source)) :: _ => some (.error (.corrupt source))
  | some (.ok (position, .ok event)) :: scan =>
      if query.matches event then some (.ok (some position)) else scanForMatch query scan

/-- What the evaluation of a condition reads.  A build with debug assertions panics when the
cross-check fails. -/
structure EvalCtx (format : MapFormat) where
  main : TagTips
  staged : StagedTips
  index : IndexSet format
  set : SegmentedLog
  verify : Bool
  forceScan : Bool
  debugAssertions : Bool

namespace EvalCtx

variable {format : MapFormat}

/-- The first match of the log after a position, by a scan. -/
def scan (ctx : EvalCtx format) (query : Query) (after : Nat) :
    Option (Except AppendError (Option Nat)) :=
  scanForMatch query (ctx.set.scanAfter after)

/-- Check a fast answer against the scan, whose answer stands. -/
def verifiedAgainstScan (ctx : EvalCtx format) (fast : Option Nat) (query : Query) (after : Nat) :
    Option (Except AppendError (Option Nat)) :=
  match ctx.scan query after with
  | none => none
  | some (.error error) => some (.error error)
  | some (.ok scanned) =>
      if ctx.debugAssertions && fast != scanned then none else some (.ok scanned)

/-- The first match of the log after a position. -/
def findDurable (ctx : EvalCtx format) (query : Query) (after : Nat) :
    Option (Except AppendError (Option Nat)) :=
  match ctx.main.mayMatch query after with
  | .definitelyNoMatch =>
      if ctx.verify then ctx.verifiedAgainstScan none query after else some (.ok none)
  | .unknown =>
      if ctx.forceScan then
        ctx.scan query after
      else
        match ctx.index.findMatch query after with
        | .ok found =>
            if ctx.verify then ctx.verifiedAgainstScan found query after else some (.ok found)
        | .error _ => ctx.scan query after

/-- The first conflict of a clause. -/
def evaluateClause (ctx : EvalCtx format) (query : Query) (after : Nat) :
    Option (Except AppendError (Option ConflictSite)) :=
  if ctx.staged.mayConflict query then
    some (.ok (some .sameBatch))
  else
    (ctx.findDurable query after).map (Except.map (Option.map .durable))

/-- The first conflict of clauses in order. -/
def evaluateClauses (ctx : EvalCtx format) :
    List (ConflictClause × Query × Nat) →
      Option (Except AppendError (Option (ConflictClause × ConflictSite)))
  | [] => some (.ok none)
  | (clause, query, after) :: clauses =>
      match ctx.evaluateClause query after with
      | none => none
      | some (.error error) => some (.error error)
      | some (.ok (some site)) => some (.ok (some (clause, site)))
      | some (.ok none) => ctx.evaluateClauses clauses

end EvalCtx

/-- The clauses of a condition, the boundary first. -/
def clauses (cond : AppendCondition) : List (ConflictClause × Query × Nat) :=
  (.boundary, cond.failIfEventsMatch, cond.after) ::
    (cond.failIfExists.map fun query => (.existence, query, 0)).toList

/-- The first conflict of a condition. -/
def evaluate {format : MapFormat} (ctx : EvalCtx format) (cond : AppendCondition) :
    Option (Except AppendError (Option (ConflictClause × ConflictSite))) :=
  ctx.evaluateClauses (clauses cond)

/-- The tips and the index set describe the log. -/
structure EvalCtx.Faithful {format : MapFormat} (ctx : EvalCtx format) (log : List Event) :
    Prop where
  set : ctx.set.Holds log
  main : ctx.main.Sound (positioned firstPosition log)
  index : ∃ segs current, segs.flatten ++ current = log ∧
    ctx.index.Holds firstPosition segs current

theorem scanForMatch_eq (query : Query) (entries : List (Nat × Event)) :
    scanForMatch query (entries.map yieldedEvent) =
      some (.ok ((entries.filter fun entry => query.matches entry.2).map Prod.fst).head?) := by
  induction entries with
  | nil => rfl
  | cons entry entries ih =>
      rw [List.map_cons, yieldedEvent, yielded, scanForMatch]
      by_cases isMatch : query.matches entry.2 = true
      · rw [if_pos isMatch, List.filter_cons_of_pos (by exact isMatch)]
        rfl
      · rw [if_neg isMatch, List.filter_cons_of_neg (by exact isMatch), ih]

/-- A scan of the log finds its first match after a position. -/
theorem scanForMatch_scanAfter {set : SegmentedLog} {log : List Event} (holds : set.Holds log)
    (query : Query) (after : Nat) :
    scanForMatch query (set.scanAfter after) =
      some (.ok (matchesAfter query after firstPosition log).head?) := by
  have room := holds.next_eq ▸ holds.room
  have lastEq := holds.lastPosition_add_one
  rw [holds.recorded, List.length_map] at room lastEq
  have positive : min (after + 1) maxPosition ≠ 0 := by
    have : maxPosition ≠ 0 := by decide
    omega
  rw [SegmentedLog.scanAfter, holds.start_eq positive, holds.recorded, between_map, List.map_map]
  have entries := scanForMatch_eq query
    (between (min (after + 1) maxPosition) set.lastPosition firstPosition log)
  rw [map_fst_between] at entries
  refine Eq.trans entries ?_
  congr 3
  rw [positionsIn, matchesAfter]
  apply List.filter_congr
  intro position member
  have bound := lt_of_mem_positionsWhere member
  simp only [decide_eq_decide]
  omega

namespace EvalCtx.Faithful

variable {format : MapFormat} {ctx : EvalCtx format} {log : List Event}

theorem scan_eq (faithful : ctx.Faithful log) (query : Query) (after : Nat) :
    ctx.scan query after = some (.ok (matchesAfter query after firstPosition log).head?) :=
  scanForMatch_scanAfter faithful.set query after

/-- A fast answer that is right passes the cross-check. -/
theorem verified_eq (faithful : ctx.Faithful log) (query : Query) (after : Nat) :
    ctx.verifiedAgainstScan (matchesAfter query after firstPosition log).head? query after =
      some (.ok (matchesAfter query after firstPosition log).head?) := by
  rw [verifiedAgainstScan, faithful.scan_eq]
  simp

theorem findDurable_eq (faithful : ctx.Faithful log) (query : Query) (after : Nat) :
    ctx.findDurable query after =
      some (.ok (matchesAfter query after firstPosition log).head?) := by
  have verified := faithful.verified_eq query after
  rw [findDurable]
  cases verdict : ctx.main.mayMatch query after with
  | definitelyNoMatch =>
      have cleared := faithful.main.not_matches verdict
      have nothing : matchesAfter query after firstPosition log = [] := by
        apply List.eq_nil_iff_forall_not_mem.mpr
        intro position member
        obtain ⟨beyond, event, placed, isMatch⟩ := mem_matchesAfter.mp member
        simp [cleared _ placed beyond] at isMatch
      rw [nothing] at verified ⊢
      simp only
      split
      · exact verified
      · rfl
  | unknown =>
      obtain ⟨segs, current, rfl, holds⟩ := faithful.index
      simp only
      split
      · exact faithful.scan_eq query after
      · rcases holds.answers query after with ⟨-, found⟩ | ⟨range, -, refused, -⟩
        · rw [found]
          simp only
          split
          · exact verified
          · rfl
        · rw [refused]
          exact faithful.scan_eq query after

/-- A clause conflicts with the batch, or with the first match of the log. -/
theorem evaluateClause_eq (faithful : ctx.Faithful log) (query : Query) (after : Nat) :
    ctx.evaluateClause query after = some (.ok
      (if ctx.staged.mayConflict query then some .sameBatch
        else (matchesAfter query after firstPosition log).head?.map .durable)) := by
  rw [evaluateClause, faithful.findDurable_eq]
  split <;> rfl

end EvalCtx.Faithful

/-- The least position after a bound whose event matches. -/
def LeastMatch (query : Query) (after : Nat) (log : List Event) (position : Nat) : Prop :=
  IsLeast {position | after < position ∧
    ∃ event, (position, event) ∈ positioned firstPosition log ∧ query.matches event = true} position

/-- No event after a bound matches. -/
def NoMatch (query : Query) (after : Nat) (log : List Event) : Prop :=
  ∀ entry ∈ positioned firstPosition log, after < entry.1 → query.matches entry.2 = false

/-- The outcome that is specified for a condition: the boundary clause comes first. -/
inductive Specified (cond : AppendCondition) (log : List Event) :
    Option (ConflictClause × ConflictSite) → Prop
  | boundary {position : Nat}
      (least : LeastMatch cond.failIfEventsMatch cond.after log position) :
      Specified cond log (some (.boundary, .durable position))
  | existence {query : Query} {position : Nat}
      (clear : NoMatch cond.failIfEventsMatch cond.after log)
      (given : cond.failIfExists = some query) (least : LeastMatch query 0 log position) :
      Specified cond log (some (.existence, .durable position))
  | accepted (clear : NoMatch cond.failIfEventsMatch cond.after log)
      (absent : ∀ query, cond.failIfExists = some query → NoMatch query 0 log) :
      Specified cond log none

/-- The tips of a log: opened with its first events, they absorbed the others. -/
def Absorbed (tips : TagTips) (log : List Event) : Prop :=
  ∃ (old : List (Nat × Event)) (nextPosition window maxEntries : Nat) (steps : List TipsStep),
    (∀ entry ∈ old, entry.1 < nextPosition) ∧
      Histories.Allowed TipsLog.step TipsLog.StepAllowed
        (TipsLog.open_ old nextPosition window maxEntries) steps ∧
      Histories.run TipsLog.step (TipsLog.open_ old nextPosition window maxEntries) steps =
        some ⟨tips, positioned firstPosition log⟩

theorem Absorbed.sound {tips : TagTips} {log : List Event} (absorbed : Absorbed tips log) :
    tips.Sound (positioned firstPosition log) := by
  obtain ⟨old, nextPosition, window, maxEntries, steps, below, allowed, ran⟩ := absorbed
  exact TipsLog.sound_run window maxEntries below allowed ran

theorem head?_matchesAfter_eq_none {query : Query} {after : Nat} {log : List Event}
    (empty : (matchesAfter query after firstPosition log).head? = none) :
    NoMatch query after log := by
  intro entry member beyond
  have nothing := List.head?_eq_none_iff.mp empty
  by_contra isMatch
  rw [Bool.not_eq_false] at isMatch
  have found := mem_matchesAfter.mpr ⟨beyond, entry.2, member, isMatch⟩
  rw [nothing] at found
  cases found

theorem head?_matchesAfter_eq_some {query : Query} {after position : Nat} {log : List Event}
    (first : (matchesAfter query after firstPosition log).head? = some position) :
    LeastMatch query after log position := by
  obtain ⟨later, split⟩ := List.head?_eq_some_iff.mp first
  have ordered := pairwise_matchesAfter query after firstPosition log
  rw [split] at ordered
  constructor
  · exact mem_matchesAfter.mp (split ▸ List.mem_cons_self)
  · intro other isMatch
    have member := mem_matchesAfter.mpr isMatch
    rw [split] at member
    rcases List.mem_cons.mp member with rfl | behind
    · exact le_rfl
    · exact ((List.pairwise_cons.mp ordered).1 other behind).le

/-- The outcome for a condition, by the first matches of the log. -/
def outcomeOf (cond : AppendCondition) (log : List Event) :
    Option (ConflictClause × ConflictSite) :=
  match (matchesAfter cond.failIfEventsMatch cond.after firstPosition log).head? with
  | some position => some (.boundary, .durable position)
  | none =>
      match cond.failIfExists with
      | none => none
      | some query =>
          (matchesAfter query 0 firstPosition log).head?.map fun position =>
            (.existence, .durable position)

theorem specified_outcomeOf (cond : AppendCondition) (log : List Event) :
    Specified cond log (outcomeOf cond log) := by
  rw [outcomeOf]
  cases first : (matchesAfter cond.failIfEventsMatch cond.after firstPosition log).head? with
  | some position => exact .boundary (head?_matchesAfter_eq_some first)
  | none =>
      have clear := head?_matchesAfter_eq_none first
      cases given : cond.failIfExists with
      | none => exact .accepted clear (by simp [given])
      | some query =>
          cases found : (matchesAfter query 0 firstPosition log).head? with
          | some position =>
              simp only [found, Option.map_some]
              exact .existence clear given (head?_matchesAfter_eq_some found)
          | none =>
              simp only [found, Option.map_none]
              refine .accepted clear fun other same => ?_
              obtain rfl := Option.some.inj (given.symm.trans same)
              exact head?_matchesAfter_eq_none found

/-- With nothing staged, the outcome is that of the log. -/
theorem EvalCtx.Faithful.evaluate_eq {format : MapFormat} {ctx : EvalCtx format}
    {log : List Event} (faithful : ctx.Faithful log) (unstaged : ctx.staged = StagedTips.new)
    (cond : AppendCondition) : evaluate ctx cond = some (.ok (outcomeOf cond log)) := by
  have clause (query : Query) (after : Nat) : ctx.evaluateClause query after =
      some (.ok ((matchesAfter query after firstPosition log).head?.map .durable)) := by
    rw [faithful.evaluateClause_eq, unstaged, StagedTips.mayConflict_new]
    rfl
  rw [evaluate, clauses, evaluateClauses, clause, outcomeOf]
  cases (matchesAfter cond.failIfEventsMatch cond.after firstPosition log).head? with
  | some position => rfl
  | none =>
      cases cond.failIfExists with
      | none => rfl
      | some query =>
          simp only [Option.map_none, Option.map_some, Option.toList_some, evaluateClauses, clause]
          cases (matchesAfter query 0 firstPosition log).head? <;> rfl

/-- Whatever the tips know, however the index was derived and whichever way the search takes,
a condition is evaluated to the outcome that is specified for the log. -/
theorem evaluate_specified {format : MapFormat} (lawful : format.Lawful)
    (crc : List UInt8 → UInt32) {set : SegmentedLog} {log : List Event} (holds : set.Holds log)
    (cond : AppendCondition) :
    ∃ outcome, Specified cond log outcome ∧ ∀ (tips : TagTips) (index : IndexSet format),
      Absorbed tips log → Derived format crc index log →
        ∀ verify forceScan debugAssertions,
          evaluate ⟨tips, StagedTips.new, index, set, verify, forceScan, debugAssertions⟩ cond =
            some (.ok outcome) := by
  refine ⟨_, specified_outcomeOf cond log, ?_⟩
  intro tips index absorbed derived verify forceScan debugAssertions
  have faithful : EvalCtx.Faithful
      ⟨tips, StagedTips.new, index, set, verify, forceScan, debugAssertions⟩ log :=
    ⟨holds, absorbed.sound, derived.holds lawful⟩
  exact faithful.evaluate_eq rfl cond

/-- An event with a tag. -/
def taggedEvent : Event := ⟨letterA, Tags.single letterB, []⟩

/-- A log without events. -/
def emptyLog : SegmentedLog := ⟨[], ⟨1, []⟩, 1⟩

theorem emptyLog_accepted : emptyLog.Accepted where
  contiguous := ⟨rfl, trivial⟩
  next_eq := rfl
  room := by decide

/-- Events with a tag around one without. -/
def threeEvents : List Event := [taggedEvent, ⟨letterB, Tags.empty, []⟩, taggedEvent]

/-- A log of these events, the first two of which are sealed. -/
def sealedLog : SegmentedLog :=
  ⟨[⟨1, [.ok taggedEvent, .ok ⟨letterB, Tags.empty, []⟩]⟩], ⟨3, [.ok taggedEvent]⟩, 4⟩

theorem sealedLog_holds : sealedLog.Holds threeEvents where
  contiguous := ⟨rfl, rfl, trivial⟩
  next_eq := rfl
  room := by decide
  recorded := rfl

/-- The calls of the writer from the empty log on. -/
def sealedSteps : List IndexStep :=
  [.push 1 taggedEvent, .push 2 ⟨letterB, Tags.empty, []⟩, .sealActive 3 7, .push 3 taggedEvent]

theorem sealedSteps_allowed :
    Histories.Allowed (Fed.step Seglog.crc32) Fed.StepAllowed
      (Fed.opened emptyLog (IndexSet.new flatTable 1)) sealedSteps := by
  have single : FitsSegment [taggedEvent] := by
    rw [FitsSegment]
    decide
  have both : FitsSegment [taggedEvent, ⟨letterB, Tags.empty, []⟩] := by
    rw [FitsSegment]
    decide
  refine ⟨⟨rfl, single⟩, fun next taken => ?_⟩
  rw [Fed.step] at taken
  obtain ⟨_, _, rfl⟩ := Option.map_eq_some_iff.mp taken
  refine ⟨⟨rfl, both⟩, fun next taken => ?_⟩
  rw [Fed.step] at taken
  obtain ⟨_, _, rfl⟩ := Option.map_eq_some_iff.mp taken
  refine ⟨rfl, fun next taken => ?_⟩
  rw [Fed.step] at taken
  obtain ⟨_, _, rfl⟩ := Option.map_eq_some_iff.mp taken
  exact ⟨⟨rfl, single⟩, fun _ _ => trivial⟩

theorem sealedIndex_derived :
    ∃ index : IndexSet flatTable, index.sealed.length = 1 ∧ Derived flatTable Seglog.crc32 index threeEvents := by
  have computed : (Histories.run (Fed.step Seglog.crc32)
      (Fed.opened emptyLog (IndexSet.new flatTable 1)) sealedSteps).any (fun fed =>
        decide (fed.set.sealed.length = 1 ∧ fed.events = threeEvents)) = true := by
    decide +kernel
  obtain ⟨fed, ran, shown⟩ := (Option.any_eq_true _ _).mp computed
  obtain ⟨one, events⟩ := of_decide_eq_true shown
  refine ⟨fed.set, one, fun _ => none, fun _ => 0, emptyLog, IndexSet.new flatTable 1,
    sealedSteps, fed, emptyLog_accepted, ?_, ?_, rfl, sealedSteps_allowed, ran, rfl, events⟩
  · intro segment member
    obtain rfl := List.mem_singleton.mp member
    rw [FitsSegment]
    decide
  · intro segment member
    cases member

/-- Tips that have absorbed the events, in two batches. -/
def sealedTips : TagTips :=
  ((TagTips.new 1 8 8).absorb (StagedTips.new.recordEvents
      [(1, taggedEvent), (2, ⟨letterB, Tags.empty, []⟩)]) 3).absorb
    (StagedTips.new.recordEvents [(3, taggedEvent)]) 4

theorem sealedTips_absorbed : Absorbed sealedTips threeEvents := by
  refine ⟨[], 1, 8, 8, [.absorb [(1, taggedEvent), (2, ⟨letterB, Tags.empty, []⟩)] 3,
    .absorb [(3, taggedEvent)] 4], by simp, ?_, rfl⟩
  refine Histories.Allowed.cons ?_ rfl (Histories.Allowed.cons ?_ rfl trivial)
  all_goals
    rw [TipsLog.StepAllowed]
    decide

theorem evaluate_specified_sealed :
    ∃ (index : IndexSet flatTable) (outcome : Option (ConflictClause × ConflictSite)),
      index.sealed.length = 1 ∧
      Specified ⟨.items [⟨[], Tags.single letterB⟩], 1, some (.items [⟨[letterB], Tags.empty⟩])⟩
        threeEvents outcome ∧
      evaluate ⟨sealedTips, StagedTips.new, index, sealedLog, true, false, true⟩
        ⟨.items [⟨[], Tags.single letterB⟩], 1, some (.items [⟨[letterB], Tags.empty⟩])⟩ =
          some (.ok outcome) := by
  obtain ⟨index, one, derived⟩ := sealedIndex_derived
  obtain ⟨outcome, specified, evaluated⟩ := evaluate_specified flatTable_lawful Seglog.crc32
    sealedLog_holds
    ⟨.items [⟨[], Tags.single letterB⟩], 1, some (.items [⟨[letterB], Tags.empty⟩])⟩
  exact ⟨index, outcome, one, specified,
    evaluated sealedTips index sealedTips_absorbed derived true false true⟩

end Writer

end Tephra
