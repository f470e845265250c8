import Tephra.CommitSeam

/-!
# Conflicts within a batch

A condition that is accepted must hold of the durable log and of the events that were
staged before it.  The staged events are known by their tags alone, and a table without
tags passes for an empty one: behind events without a tag, a condition is checked against
the durable log only.
-/

namespace Tephra

namespace Writer

open Log Positions Read

/-- No event of a log conflicts with a condition. -/
def Clear (cond : AppendCondition) (log : List Event) : Prop :=
  NoMatch cond.failIfEventsMatch cond.after log ∧
    ∀ query, cond.failIfExists = some query → NoMatch query 0 log

/-- An event matches the query of a clause. -/
def MatchedBy (cond : AppendCondition) (event : Event) : Prop :=
  cond.failIfEventsMatch.matches event = true ∨
    ∃ query, cond.failIfExists = some query ∧ query.matches event = true

theorem forall_clauses {cond : AppendCondition} {holds : Query → Nat → Prop} :
    (∀ clause ∈ clauses cond, holds clause.2.1 clause.2.2) ↔
      holds cond.failIfEventsMatch cond.after ∧
        ∀ query, cond.failIfExists = some query → holds query 0 := by
  rw [clauses, List.forall_mem_cons]
  cases cond.failIfExists with
  | none => simp
  | some query => simp

theorem clear_iff {cond : AppendCondition} {log : List Event} :
    Clear cond log ↔ ∀ clause ∈ clauses cond, NoMatch clause.2.1 clause.2.2 log :=
  (@forall_clauses cond fun query after => NoMatch query after log).symm

theorem not_matchedBy_iff {cond : AppendCondition} {event : Event} :
    ¬ MatchedBy cond event ↔ ∀ clause ∈ clauses cond, clause.2.1.matches event = false := by
  rw [MatchedBy, not_or, not_exists]
  simp only [not_and, Bool.not_eq_true]
  exact (@forall_clauses cond fun query _ => query.matches event = false).symm

theorem noMatch_append_iff {query : Query} {after : Nat} {log staged : List Event}
    (within : after < firstPosition + log.length) :
    NoMatch query after (log ++ staged) ↔
      NoMatch query after log ∧ ∀ event ∈ staged, query.matches event = false := by
  constructor
  · intro none
    constructor
    · intro entry member beyond
      rw [NoMatch, positioned_append] at none
      exact none entry (List.mem_append_left _ member) beyond
    · intro event member
      rw [NoMatch, positioned_append] at none
      obtain ⟨i, found⟩ := List.getElem?_of_mem member
      have placed : (firstPosition + log.length + i, event) ∈
          positioned (firstPosition + log.length) staged :=
        mem_positioned.mpr ⟨Nat.le_add_right _ _, by rwa [Nat.add_sub_cancel_left]⟩
      have beyond : after < firstPosition + log.length + i :=
        within.trans_le (Nat.le_add_right _ _)
      exact none _ (List.mem_append_right _ placed) beyond
  · rintro ⟨old, new⟩ entry member beyond
    rw [positioned_append] at member
    rcases List.mem_append.mp member with before | behind
    · exact old entry before beyond
    · exact new entry.2 (List.mem_of_getElem? (mem_positioned.mp behind).2)

theorem after_lt_of_mem_clauses {cond : AppendCondition} {tip : Nat} (within : cond.after ≤ tip) :
    ∀ clause ∈ clauses cond, clause.2.2 ≤ tip :=
  (@forall_clauses cond fun _ after => after ≤ tip).mpr ⟨within, fun _ _ => Nat.zero_le _⟩

theorem clear_append_iff {cond : AppendCondition} {log staged : List Event}
    (within : cond.after < firstPosition + log.length) :
    Clear cond (log ++ staged) ↔
      Clear cond log ∧ ∀ event ∈ staged, ¬ MatchedBy cond event := by
  have each (clause : ConflictClause × Query × Nat) (member : clause ∈ clauses cond) :
      clause.2.2 < firstPosition + log.length :=
    Nat.lt_of_le_of_lt (after_lt_of_mem_clauses le_rfl clause member) within
  simp only [clear_iff, not_matchedBy_iff]
  constructor
  · intro all
    constructor
    · intro clause member
      exact ((noMatch_append_iff (each clause member)).mp (all clause member)).1
    · intro event staged clause member
      exact ((noMatch_append_iff (each clause member)).mp (all clause member)).2 event staged
  · rintro ⟨old, new⟩ clause member
    exact (noMatch_append_iff (each clause member)).mpr
      ⟨old clause member, fun event staged => new event staged clause member⟩

namespace EvalCtx.Faithful

variable {format : SortedMaps.MapFormat} {ctx : EvalCtx format} {log : List Event}

/-- Clauses conflict with nothing exactly if each is clear of the batch and of the log. -/
theorem evaluateClauses_eq_none_iff (faithful : ctx.Faithful log)
    (clauses : List (ConflictClause × Query × Nat)) :
    ctx.evaluateClauses clauses = some (.ok none) ↔
      ∀ clause ∈ clauses, ctx.staged.mayConflict clause.2.1 = false ∧
        NoMatch clause.2.1 clause.2.2 log := by
  induction clauses with
  | nil => simp [evaluateClauses]
  | cons clause clauses ih =>
      obtain ⟨name, query, after⟩ := clause
      rw [List.forall_mem_cons, evaluateClauses, faithful.evaluateClause_eq]
      cases staged : ctx.staged.mayConflict query with
      | true => simp
      | false =>
          cases first : (Index.matchesAfter query after firstPosition log).head? with
          | none =>
              have clear := head?_matchesAfter_eq_none first
              simp [ih, clear]
          | some position =>
              have least := head?_matchesAfter_eq_some first
              obtain ⟨beyond, event, member, isMatch⟩ := least.1
              have hit : ¬ NoMatch query after log := by
                intro clear
                rw [clear (position, event) member beyond] at isMatch
                cases isMatch
              simp [hit]

end EvalCtx.Faithful

namespace CommitSeam.Worker

open Index SegmentSource

variable {format : SortedMaps.MapFormat} {self : Worker format}

theorem Sound.faithful (sound : self.Sound) : self.ctx.Faithful self.set.events :=
  ⟨sound.set, sound.tips, sound.index⟩

/-- A conditional request is accepted exactly if its bound is within the log, and each clause
is clear of the batch and of the log. -/
theorem Sound.accepted_iff (sound : self.Sound) {request : Request} {cond : AppendCondition}
    (conditional : request.condition = some cond) :
    self.verdict request = some (.ok ()) ↔
      cond.after ≤ self.set.lastPosition ∧ Clear cond self.set.events ∧
        ∀ clause ∈ clauses cond, self.batch.tips.mayConflict clause.2.1 = false := by
  have evaluated := sound.faithful.evaluateClauses_eq_none_iff (clauses cond)
  rw [forall₂_and] at evaluated
  rw [verdict, conditional, clear_iff]
  by_cases beyond : cond.after > self.set.lastPosition
  · simp only [if_pos beyond, Nat.not_le_of_lt beyond, false_and, iff_false]
    simp
  · simp only [if_neg beyond]
    have within := Nat.le_of_not_lt beyond
    refine Iff.trans ?_ (evaluated.trans ?_)
    · rw [evaluate]
      cases outcome : self.ctx.evaluateClauses (clauses cond) with
      | none => simp
      | some result =>
          cases result with
          | error error => simp
          | ok found =>
              cases found with
              | none => simp
              | some conflict => simp
    · rw [and_comm]
      exact (and_iff_right within).symm

/-- Within a batch, what is accepted under a condition is clear of the log and of what was
staged before it. -/
def Serialises (self : Worker format) (cond : AppendCondition) : Prop :=
  ∀ request : Request, request.condition = some cond → self.verdict request = some (.ok ()) →
    Clear cond (self.set.events ++ self.batch.records)

/-- A staged event has a tag, or no staged event matches, or the log refuses the condition. -/
def ShowsStaged (self : Worker format) (cond : AppendCondition) : Prop :=
  (∃ event ∈ self.batch.records, event.tags.toList ≠ []) ∨
    (∀ event ∈ self.batch.records, ¬ MatchedBy cond event) ∨
      cond.after > self.set.lastPosition ∨ ¬ Clear cond self.set.events

theorem Sound.staged_isEmpty_iff (sound : self.Sound) :
    self.batch.tips.isEmpty = true ↔ ∀ event ∈ self.batch.records, event.tags.toList = [] := by
  rw [sound.staged.isEmpty_iff, Batch.committedRecords]
  constructor
  · intro untagged event member
    obtain ⟨i, found⟩ := List.getElem?_of_mem member
    have placed : (self.batch.first + i, event) ∈
        positioned self.batch.first self.batch.records :=
      mem_positioned.mpr ⟨Nat.le_add_right _ _, by rwa [Nat.add_sub_cancel_left]⟩
    exact untagged _ placed
  · intro untagged entry member
    exact untagged entry.2 (List.mem_of_getElem? (mem_positioned.mp member).2)

theorem Sound.not_matchedBy (sound : self.Sound) {cond : AppendCondition}
    (tagged : self.batch.tips.isEmpty = false)
    (unseen : ∀ clause ∈ clauses cond, self.batch.tips.mayConflict clause.2.1 = false) :
    ∀ event ∈ self.batch.records, ¬ MatchedBy cond event := by
  intro event member
  rw [not_matchedBy_iff]
  intro clause listed
  obtain ⟨i, found⟩ := List.getElem?_of_mem member
  have placed : (self.batch.first + i, event) ∈ self.batch.committedRecords :=
    mem_positioned.mpr ⟨Nat.le_add_right _ _, by rwa [Nat.add_sub_cancel_left]⟩
  by_contra isMatch
  rw [Bool.not_eq_false] at isMatch
  have seen := sound.staged.mayConflict_of_matches tagged placed isMatch
  rw [unseen clause listed] at seen
  cases seen

theorem Sound.serialises_iff (sound : self.Sound) (cond : AppendCondition) :
    self.Serialises cond ↔ self.ShowsStaged cond := by
  have behind := sound.set.nextPosition_eq
  have within (inside : cond.after ≤ self.set.lastPosition) :
      cond.after < firstPosition + self.set.events.length := by
    have : firstPosition = 1 := rfl
    rw [SegmentedLog.lastPosition] at inside
    omega
  constructor
  · intro serialises
    by_contra hidden
    rw [ShowsStaged, not_or, not_or, not_or, not_lt, not_not] at hidden
    obtain ⟨untagged, matched, inside, clear⟩ := hidden
    have empty : self.batch.tips.isEmpty = true := by
      rw [sound.staged_isEmpty_iff]
      intro event member
      by_contra tagged
      exact untagged ⟨event, member, tagged⟩
    have unseen : ∀ clause ∈ clauses cond, self.batch.tips.mayConflict clause.2.1 = false := by
      intro clause _
      simp [StagedTips.mayConflict, empty]
    have accepted := (@Sound.accepted_iff _ _ sound ⟨[], some cond⟩ cond rfl).mpr
      ⟨inside, clear, unseen⟩
    have whole := serialises ⟨[], some cond⟩ rfl accepted
    exact matched ((clear_append_iff (within inside)).mp whole).2
  · intro shown request conditional accepted
    obtain ⟨inside, clear, unseen⟩ := (sound.accepted_iff conditional).mp accepted
    rw [clear_append_iff (within inside)]
    refine ⟨clear, ?_⟩
    rcases shown with ⟨event, member, tagged⟩ | unmatched | beyond | refused
    · apply sound.not_matchedBy _ unseen
      by_contra nonempty
      rw [Bool.not_eq_false, sound.staged_isEmpty_iff] at nonempty
      exact tagged (nonempty event member)
    · exact unmatched
    · exact absurd inside (Nat.not_le_of_lt beyond)
    · exact absurd clear refused

/-- In every state that the writer reaches from an open log, an accepted condition is clear of
the log and of what was staged before it exactly if what was staged shows. -/
theorem accepted_serialises_iff (lawful : format.Lawful) {crc : List UInt8 → UInt32}
    {set : SegmentedLog} {index : IndexSet format} (opened : Opened crc set index)
    (cfg : WriterConfig) {labels : List WorkerStep} {last : Worker format}
    (allowed : Histories.Allowed (step crc) StepAllowed (start cfg set index) labels)
    (ran : Histories.run (step crc) (start cfg set index) labels = some last)
    (cond : AppendCondition) : last.Serialises cond ↔ last.ShowsStaged cond :=
  (opened.sound_run lawful cfg allowed ran).serialises_iff cond

/-- The log must be empty. -/
def whenEmpty : AppendCondition := ⟨.all, 0, none⟩

/-- Both of two requests are accepted, though the second one asks for an empty log. -/
theorem untagged_event_hides_from_condition :
    Opened Seglog.crc32 emptyLog (IndexSet.new SortedMaps.flatTable 1) ∧
      ∃ last, Histories.run (step Seglog.crc32)
          (start plainConfig emptyLog (IndexSet.new SortedMaps.flatTable 1))
          [.request ⟨[untaggedEvent], some whenEmpty⟩] = some last ∧
        last.verdict ⟨[untaggedEvent], some whenEmpty⟩ = some (.ok ()) ∧
        ¬ Clear whenEmpty (last.set.events ++ last.batch.records) := by
  refine ⟨emptyLog_opened, _, rfl, by decide +kernel, ?_⟩
  intro clear
  have none := clear.1 (1, untaggedEvent) (List.mem_singleton_self _) Nat.one_pos
  cases none

/-- Behind an event with a tag, a condition is evaluated right. -/
theorem accepted_serialises_iff_tagged :
    ∃ last, Histories.run (step Seglog.crc32)
        (start plainConfig emptyLog (IndexSet.new SortedMaps.flatTable 1))
        [.request ⟨[taggedEvent], none⟩] = some last ∧ last.Serialises whenEmpty := by
  refine ⟨_, rfl, ?_⟩
  have allowed : Histories.Allowed (step Seglog.crc32) StepAllowed
      (start plainConfig emptyLog (IndexSet.new SortedMaps.flatTable 1))
      [.request ⟨[taggedEvent], none⟩] := by
    refine ⟨?_, fun _ _ => trivial⟩
    change _ ≤ 2 ^ 64 - 1
    decide
  refine (accepted_serialises_iff SortedMaps.flatTable_lawful emptyLog_opened plainConfig allowed
    rfl whenEmpty).mpr (.inl ⟨taggedEvent, List.mem_singleton_self _, ?_⟩)
  exact List.cons_ne_nil _ _

end CommitSeam.Worker

end Writer

end Tephra
