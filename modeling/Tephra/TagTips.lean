import Tephra.Events
import Tephra.HighMarks
import Tephra.Histories
import Tephra.Positions

/-!
# Tag tips

The writer keeps the highest position of every recent tag.  An absent tag counts as seen at
the floor of the window, and the floor never falls.  A query is cleared without a search
when each of its items has a tag that was not seen after the bound.  A second table knows
every tag that was staged since the last commit.
-/

namespace Tephra

namespace Writer

open HighMarks Positions SortedMaps

/-- What the tips say about a query. -/
inductive Verdict where
  | definitelyNoMatch
  | unknown
deriving DecidableEq, Repr

/-- The highest position of each recent tag. -/
structure TagTips where
  maxPos : List (Tag × Nat)
  windowFloor : Nat
  window : Nat
  maxEntries : Nat
deriving DecidableEq

/-- The tags of the events staged so far, each with its highest position. -/
structure StagedTips where
  tagPositions : List (Tag × Nat)
deriving DecidableEq

def defaultMaxEntries : Nat := 2 ^ 20

namespace StagedTips

def new : StagedTips := ⟨[]⟩

def record (self : StagedTips) (tag : Tag) (position : Nat) : StagedTips :=
  ⟨raise position tag self.tagPositions⟩

/-- Record the tags of a staged event. -/
def recordEvent (self : StagedTips) (position : Nat) (event : Event) : StagedTips :=
  event.tags.toList.foldl (fun staged tag => staged.record tag position) self

def isEmpty (self : StagedTips) : Bool := self.tagPositions.isEmpty

def contains (self : StagedTips) (tag : Tag) : Bool := (self.tagPositions.lookup tag).isSome

/-- Whether a staged event may match a query, by the tags alone. -/
def mayConflict (self : StagedTips) (query : Query) : Bool :=
  if self.isEmpty then
    false
  else
    match query with
    | .all => true
    | .items items => items.any fun item => item.tags.toList.all self.contains

end StagedTips

namespace TagTips

/-- Tips that know nothing of the events before a floor. -/
def new (windowFloor window maxEntries : Nat) : TagTips :=
  ⟨[], windowFloor, window, maxEntries⟩

/-- The highest position of a tag, or the floor for an absent one. -/
def maxFor (self : TagTips) (tag : Tag) : Nat :=
  (self.maxPos.lookup tag).getD self.windowFloor

/-- Whether the tips cannot rule an item out. -/
def itemUnknown (self : TagTips) (item : QueryItem) (after : Nat) : Bool :=
  item.tags.toList.isEmpty || item.tags.toList.all fun tag => after < self.maxFor tag

/-- The verdict on a query for events after a position. -/
def mayMatch (self : TagTips) (query : Query) (after : Nat) : Verdict :=
  match query with
  | .all => .unknown
  | .items items =>
      if items.any fun item => self.itemUnknown item after then .unknown else .definitelyNoMatch

/-- Drop old entries, when there are too many. -/
def evictIfNeeded (self : TagTips) (nextPosition : Nat) : TagTips :=
  if self.maxPos.length ≤ self.maxEntries then
    self
  else
    let newFloor := max self.windowFloor (nextPosition - self.window)
    { self with windowFloor := newFloor, maxPos := self.maxPos.filter fun mark => newFloor < mark.2 }

/-- Take in the staged tags of a committed batch. -/
def absorb (self : TagTips) (staged : StagedTips) (nextPosition : Nat) : TagTips :=
  evictIfNeeded { self with maxPos := raiseAll self.maxPos staged.tagPositions } nextPosition

end TagTips

/-- No event of the log has a tag above its mark. -/
structure TagTips.Sound (tips : TagTips) (log : List (Nat × Event)) : Prop where
  distinct : (tips.maxPos.map Prod.fst).Nodup
  bound : ∀ entry ∈ log, ∀ tag ∈ entry.2.tags.toList, entry.1 ≤ tips.maxFor tag

/-- The marks are those of staged events. -/
structure StagedTips.Holds (staged : StagedTips) (events : List (Nat × Event)) : Prop where
  distinct : (staged.tagPositions.map Prod.fst).Nodup
  marked : ∀ entry ∈ events, ∀ tag ∈ entry.2.tags.toList,
    ∃ highest, staged.tagPositions.lookup tag = some highest ∧ entry.1 ≤ highest
  carried : ∀ mark ∈ staged.tagPositions,
    ∃ entry ∈ events, entry.1 = mark.2 ∧ mark.1 ∈ entry.2.tags.toList

namespace TagTips

/-- Tips are sound for the log whose next position is their floor. -/
theorem sound_new {log : List (Nat × Event)} {windowFloor : Nat} (window maxEntries : Nat)
    (below : ∀ entry ∈ log, entry.1 ≤ windowFloor) :
    (new windowFloor window maxEntries).Sound log where
  distinct := List.nodup_nil
  bound entry member _ _ := below entry member

theorem windowFloor_evictIfNeeded (tips : TagTips) (nextPosition : Nat) :
    tips.windowFloor ≤ (tips.evictIfNeeded nextPosition).windowFloor := by
  rw [evictIfNeeded]
  split
  · exact le_rfl
  · exact le_max_left _ _

theorem windowFloor_absorb (tips : TagTips) (staged : StagedTips) (nextPosition : Nat) :
    tips.windowFloor ≤ (tips.absorb staged nextPosition).windowFloor :=
  windowFloor_evictIfNeeded { tips with maxPos := raiseAll tips.maxPos staged.tagPositions }
    nextPosition

theorem Sound.evict {tips : TagTips} {log : List (Nat × Event)} (sound : tips.Sound log)
    (nextPosition : Nat) : (tips.evictIfNeeded nextPosition).Sound log := by
  rw [evictIfNeeded]
  split
  · exact sound
  · generalize floorEq : max tips.windowFloor (nextPosition - tips.window) = newFloor
    have raised : tips.windowFloor ≤ newFloor := floorEq ▸ le_max_left _ _
    have distinct : ((tips.maxPos.filter fun mark => newFloor < mark.2).map Prod.fst).Nodup :=
      sound.distinct.sublist (List.filter_sublist.map Prod.fst)
    constructor
    · exact distinct
    · intro entry member tag carried
      have old := sound.bound entry member tag carried
      rw [maxFor] at old ⊢
      cases kept : (tips.maxPos.filter fun mark => newFloor < mark.2).lookup tag with
      | some highest =>
          have inside := List.mem_of_mem_filter ((lookup_eq_some_iff_mem distinct).mp kept)
          rwa [(lookup_eq_some_iff_mem sound.distinct).mpr inside] at old
      | none =>
          change entry.1 ≤ newFloor
          cases known : tips.maxPos.lookup tag with
          | none =>
              rw [known] at old
              exact le_trans old raised
          | some highest =>
              rw [known, Option.getD_some] at old
              by_contra above
              have inside : (tag, highest) ∈ tips.maxPos.filter fun mark => newFloor < mark.2 := by
                have listed := (lookup_eq_some_iff_mem sound.distinct).mp known
                exact List.mem_filter.mpr ⟨listed, by simp; omega⟩
              rw [(lookup_eq_some_iff_mem distinct).mpr inside] at kept
              cases kept

/-- The tips stay sound when the events of a batch are put behind the log. -/
theorem Sound.absorb {tips : TagTips} {log events : List (Nat × Event)} {staged : StagedTips}
    (sound : tips.Sound log) (holds : staged.Holds events)
    (behind : ∀ entry ∈ log, ∀ later ∈ events, entry.1 ≤ later.1) (nextPosition : Nat) :
    (tips.absorb staged nextPosition).Sound (log ++ events) := by
  apply Sound.evict
  constructor
  · exact nodup_raiseAll sound.distinct
  · intro entry member tag carried
    rw [maxFor]
    rcases List.mem_append.mp member with old | new
    · have bound := sound.bound entry old tag carried
      rw [maxFor] at bound
      cases kept : (raiseAll tips.maxPos staged.tagPositions).lookup tag with
      | none =>
          cases known : tips.maxPos.lookup tag with
          | none => rwa [known] at bound
          | some highest =>
              obtain ⟨higher, found, -⟩ :=
                @le_lookup_raiseAll _ _ _ staged.tagPositions _ _ known
              rw [kept] at found
              cases found
      | some highest =>
          rcases lookup_raiseAll_cases kept with before | fresh
          · rwa [before] at bound
          · obtain ⟨later, laterMember, same, -⟩ := holds.carried _ fresh
            exact le_of_le_of_eq (behind entry old later laterMember) same
    · obtain ⟨highest, found, above⟩ := holds.marked entry new tag carried
      have listed := (lookup_eq_some_iff_mem holds.distinct).mp found
      obtain ⟨higher, kept, below⟩ := @le_lookup_raiseAll_of_mem _ _ tips.maxPos _ _ listed
      rw [kept, Option.getD_some]
      exact le_trans above below

/-- No event after the bound matches a query that the tips clear. -/
theorem Sound.not_matches {tips : TagTips} {log : List (Nat × Event)} (sound : tips.Sound log)
    {query : Query} {after : Nat} (cleared : tips.mayMatch query after = .definitelyNoMatch) :
    ∀ entry ∈ log, after < entry.1 → query.matches entry.2 = false := by
  intro entry member beyond
  cases query with
  | all => simp [mayMatch] at cleared
  | items items =>
      rw [mayMatch] at cleared
      split at cleared
      · cases cleared
      · next known =>
        simp only [Bool.not_eq_true, List.any_eq_false, itemUnknown, Bool.or_eq_true, not_or,
          List.all_eq_true, not_forall, decide_eq_true_eq, not_lt] at known
        rw [Query.matches, List.any_eq_false]
        intro item itemMember isMatch
        obtain ⟨-, tag, required, seen⟩ := known item itemMember
        have carried := (QueryItem.matches_iff.mp isMatch).2 tag required
        have bound := sound.bound entry member tag carried
        omega

end TagTips

namespace StagedTips

theorem holds_new : new.Holds [] where
  distinct := List.nodup_nil
  marked := by simp
  carried := by simp [new]

theorem tagPositions_recordEvent (staged : StagedTips) (position : Nat) (event : Event) :
    (staged.recordEvent position event).tagPositions =
      raiseAll staged.tagPositions (event.tags.toList.map fun tag => (tag, position)) := by
  rw [recordEvent]
  induction event.tags.toList generalizing staged with
  | nil => rfl
  | cons tag tags ih => exact ih (staged.record tag position)

theorem Holds.recordEvent {staged : StagedTips} {events : List (Nat × Event)}
    (holds : staged.Holds events) (position : Nat) (event : Event) :
    (staged.recordEvent position event).Holds (events ++ [(position, event)]) := by
  have tagsEq := tagPositions_recordEvent staged position event
  have distinct := @nodup_raiseAll _ _ staged.tagPositions
    (event.tags.toList.map fun tag => (tag, position)) holds.distinct
  constructor
  · rw [tagsEq]
    exact distinct
  · intro entry member tag carried
    rw [tagsEq]
    rcases List.mem_append.mp member with old | new
    · obtain ⟨highest, found, above⟩ := holds.marked entry old tag carried
      obtain ⟨higher, kept, below⟩ := le_lookup_raiseAll found
      exact ⟨higher, kept, le_trans above below⟩
    · obtain rfl := List.mem_singleton.mp new
      have added : (tag, position) ∈ event.tags.toList.map fun tag => (tag, position) :=
        List.mem_map_of_mem carried
      exact le_lookup_raiseAll_of_mem added
  · rintro ⟨name, highest⟩ member
    rw [tagsEq] at member
    rcases lookup_raiseAll_cases ((lookup_eq_some_iff_mem distinct).mpr member) with old | new
    · obtain ⟨entry, listed, same, carried⟩ :=
        holds.carried (name, highest) ((lookup_eq_some_iff_mem holds.distinct).mp old)
      exact ⟨entry, List.mem_append_left _ listed, same, carried⟩
    · obtain ⟨tag, carried, ⟨⟩⟩ := List.mem_map.mp new
      exact ⟨(position, event), by simp, rfl, carried⟩

/-- The tips are empty exactly if no staged event has a tag. -/
theorem Holds.isEmpty_iff {staged : StagedTips} {events : List (Nat × Event)}
    (holds : staged.Holds events) :
    staged.isEmpty = true ↔ ∀ entry ∈ events, entry.2.tags.toList = [] := by
  rw [isEmpty, List.isEmpty_iff]
  constructor
  · intro none entry member
    apply List.eq_nil_iff_forall_not_mem.mpr
    intro tag carried
    obtain ⟨highest, found, -⟩ := holds.marked entry member tag carried
    simp [none] at found
  · intro untagged
    apply List.eq_nil_iff_forall_not_mem.mpr
    intro mark member
    obtain ⟨entry, listed, -, carried⟩ := holds.carried mark member
    simp [untagged entry listed] at carried

/-- Once some staged event has a tag, a staged event that matches is a conflict. -/
theorem Holds.mayConflict_of_matches {staged : StagedTips} {events : List (Nat × Event)}
    (holds : staged.Holds events) (tagged : staged.isEmpty = false) {query : Query}
    {entry : Nat × Event} (member : entry ∈ events) (isMatch : query.matches entry.2 = true) :
    staged.mayConflict query = true := by
  cases query with
  | all => simp [mayConflict, tagged]
  | items items =>
      rw [mayConflict]
      simp only [tagged, Bool.false_eq_true, if_false]
      obtain ⟨item, listed, matched⟩ := List.any_eq_true.mp isMatch
      have everyTag := (QueryItem.matches_iff.mp matched).2
      refine List.any_eq_true.mpr ⟨item, listed, List.all_eq_true.mpr fun tag required => ?_⟩
      obtain ⟨highest, found, -⟩ := holds.marked entry member tag (everyTag tag required)
      rw [contains, found]
      rfl

theorem mayConflict_new (query : Query) : new.mayConflict query = false := rfl

/-- Record the tags of events, each at its position. -/
def recordEvents (self : StagedTips) (events : List (Nat × Event)) : StagedTips :=
  events.foldl (fun staged entry => staged.recordEvent entry.1 entry.2) self

theorem Holds.recordEvents {staged : StagedTips} {events more : List (Nat × Event)}
    (holds : staged.Holds events) : (staged.recordEvents more).Holds (events ++ more) := by
  induction more generalizing staged events with
  | nil => rwa [List.append_nil]
  | cons entry more ih =>
      have next := ih (holds.recordEvent entry.1 entry.2)
      rwa [List.append_assoc, List.singleton_append] at next

theorem holds_recordEvents (events : List (Nat × Event)) : (new.recordEvents events).Holds events :=
  holds_new.recordEvents

end StagedTips

/-- The tips beside the durable events with their positions. -/
structure TipsLog where
  tips : TagTips
  log : List (Nat × Event)

/-- A call that changes the tips. -/
inductive TipsStep where
  /-- The events of a batch are durable. -/
  | absorb (events : List (Nat × Event)) (nextPosition : Nat)
  | evict (nextPosition : Nat)

namespace TipsLog

/-- The tips that a log is opened with, whatever their bounds. -/
def open_ (log : List (Nat × Event)) (nextPosition window maxEntries : Nat) : TipsLog :=
  ⟨TagTips.new nextPosition window maxEntries, log⟩

def step (self : TipsLog) : TipsStep → Option TipsLog
  | .absorb events nextPosition =>
      some ⟨self.tips.absorb (StagedTips.new.recordEvents events) nextPosition, self.log ++ events⟩
  | .evict nextPosition => some { self with tips := self.tips.evictIfNeeded nextPosition }

/-- Events come in position order. -/
def StepAllowed (self : TipsLog) : TipsStep → Prop
  | .absorb events _ => (self.log ++ events).Pairwise fun earlier later => earlier.1 < later.1
  | .evict _ => True

theorem sound_step {self next : TipsLog} {label : TipsStep} (sound : self.tips.Sound self.log)
    (allowed : self.StepAllowed label) (taken : self.step label = some next) :
    next.tips.Sound next.log := by
  cases label with
  | absorb events nextPosition =>
      cases taken
      apply sound.absorb (StagedTips.holds_recordEvents events)
      intro entry member later behind
      exact ((List.pairwise_append.mp allowed).2.2 entry member later behind).le
  | evict nextPosition =>
      cases taken
      exact sound.evict nextPosition

theorem windowFloor_step {self next : TipsLog} {label : TipsStep}
    (taken : self.step label = some next) :
    self.tips.windowFloor ≤ next.tips.windowFloor := by
  cases label with
  | absorb events nextPosition =>
      cases taken
      exact TagTips.windowFloor_absorb ..
  | evict nextPosition =>
      cases taken
      exact TagTips.windowFloor_evictIfNeeded ..

theorem windowFloor_run {first last : TipsLog} {labels : List TipsStep}
    (ran : Histories.run step first labels = some last) :
    first.tips.windowFloor ≤ last.tips.windowFloor := by
  have raised (state : TipsLog) (label : TipsStep) (next : TipsLog)
      (above : first.tips.windowFloor ≤ state.tips.windowFloor)
      (taken : step state label = some next) :
      first.tips.windowFloor ≤ next.tips.windowFloor :=
    above.trans (windowFloor_step taken)
  exact Histories.invariant_of_steps raised le_rfl ran

theorem sound_run {log : List (Nat × Event)} {nextPosition : Nat} (window maxEntries : Nat)
    (below : ∀ entry ∈ log, entry.1 < nextPosition) {labels : List TipsStep} {last : TipsLog}
    (allowed : Histories.Allowed step StepAllowed (open_ log nextPosition window maxEntries) labels)
    (ran : Histories.run step (open_ log nextPosition window maxEntries) labels = some last) :
    last.tips.Sound last.log := by
  have start : (open_ log nextPosition window maxEntries).tips.Sound log :=
    TagTips.sound_new window maxEntries fun entry member => (below entry member).le
  have kept (state : TipsLog) (label : TipsStep) (next : TipsLog)
      (sound : state.tips.Sound state.log) (allowed : state.StepAllowed label)
      (taken : step state label = some next) : next.tips.Sound next.log :=
    sound_step sound allowed taken
  exact Histories.invariant_of_run kept start allowed ran

/-- After every history of the tips, no durable event matches a query that the tips clear, and
the floor is no lower than at any time before. -/
theorem tips_never_hide_conflict {log : List (Nat × Event)} {nextPosition : Nat}
    (window maxEntries : Nat) (below : ∀ entry ∈ log, entry.1 < nextPosition)
    {earlier later : List TipsStep} {middle last : TipsLog}
    (allowed : Histories.Allowed step StepAllowed (open_ log nextPosition window maxEntries)
      (earlier ++ later))
    (began : Histories.run step (open_ log nextPosition window maxEntries) earlier = some middle)
    (ran : Histories.run step middle later = some last) :
    (∀ query after, last.tips.mayMatch query after = .definitelyNoMatch →
      ∀ entry ∈ last.log, after < entry.1 → query.matches entry.2 = false) ∧
    middle.tips.windowFloor ≤ last.tips.windowFloor := by
  have whole : Histories.run step (open_ log nextPosition window maxEntries) (earlier ++ later) =
      some last := (Histories.run_append_eq began).trans ran
  have sound := sound_run window maxEntries below allowed whole
  exact ⟨fun _ _ cleared => sound.not_matches cleared, windowFloor_run ran⟩

/-- A tag of one letter. -/
def tagC : Tag := ⟨[0x63], by decide, by decide, by decide⟩

/-- Room for one tag in a window of one position. -/
def crowdedTips : TipsLog := open_ [] 1 1 1

/-- Two tags come, and both are forgotten. -/
def twoTags : List TipsStep :=
  [.absorb [(1, ⟨tagC, Tags.single tagC, []⟩), (2, ⟨tagC, Tags.single ⟨[0x64], by decide, by decide,
    by decide⟩, []⟩)] 3]

theorem tips_never_hide_conflict_twoTags :
    ∃ middle last, Histories.run step crowdedTips twoTags = some middle ∧
      Histories.run step middle [.evict 5] = some last ∧ last.tips.maxPos = [] ∧
      (∀ entry ∈ last.log, 2 < entry.1 →
        (Query.items [⟨[], Tags.single tagC⟩]).matches entry.2 = false) ∧
      middle.tips.windowFloor ≤ last.tips.windowFloor := by
  have allowed : Histories.Allowed step StepAllowed crowdedTips (twoTags ++ [.evict 5]) := by
    refine ⟨?_, fun _ _ => ⟨trivial, fun _ _ => trivial⟩⟩
    change List.Pairwise _ _
    decide
  obtain ⟨sound, raised⟩ := tips_never_hide_conflict 1 1 (by simp) allowed rfl rfl
  exact ⟨_, _, rfl, rfl, rfl, sound (.items [⟨[], Tags.single tagC⟩]) 2 (by decide), raised⟩

end TipsLog

end Writer

end Tephra
