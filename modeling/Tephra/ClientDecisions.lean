import Tephra.ReopenedReads
import Tephra.StoreAnswers

/-!
# Decisions of clients

A client reads the events that match a query, decides on what it read, and appends under the
condition that nothing matches behind the watermark of its read.  Other clients read and
append meanwhile.  Whatever every decision keeps of the matching events holds of the log.

A client that asks for a log without any match does not read at all.
-/

theorem Positions.map_snd_positioned {α : Type} (base : Nat) (items : List α) :
    (positioned base items).map Prod.snd = items := by
  induction items generalizing base with
  | nil => rfl
  | cons item items ih => rw [positioned_cons, List.map_cons, ih]

namespace Tephra

namespace Read

open Index Log Positions

theorem Answers.unique {σ : Type} [SegmentIndex σ] {planned : Option (Reads σ)}
    {rows others : List Sequenced} (answers : Answers planned none rows)
    (again : Answers planned none others) : rows = others := by
  obtain ⟨reads, given, driven⟩ := answers
  obtain ⟨same, givenAgain, drivenAgain⟩ := again
  obtain rfl : reads = same := Option.some.inj (given.symm.trans givenAgain)
  obtain ⟨last, ended, -⟩ := driven (rows.length + others.length + 1)
    (Nat.lt_succ_of_le (Nat.le_add_right _ _))
  obtain ⟨lastAgain, endedAgain, -⟩ := drivenAgain (rows.length + others.length + 1)
    (Nat.lt_succ_of_le (Nat.le_add_left _ _))
  obtain ⟨sameRows, -⟩ := Prod.mk.inj (Option.some.inj (ended.symm.trans endedAgain))
  exact List.map_injective_iff.mpr (fun _ _ => Except.ok.inj) sameRows

/-- A read from the start gives the matches of the front of the log. -/
theorem map_event_scanOracle (query : Query) (upto : Nat) (log : List Event) :
    (scanOracle query 0 upto log).map Sequenced.event = (log.take upto).filter query.matches := by
  have slice := @between_eq_slice _ _ upto _ log (le_refl firstPosition)
  rw [Nat.sub_self, List.drop_zero, show upto + 1 - firstPosition = upto from rfl] at slice
  rw [← filter_between, List.map_map, show 0 + 1 = firstPosition from rfl, slice]
  change ((positioned firstPosition (log.take upto)).filter (query.matches ∘ Prod.snd)).map
    Prod.snd = _
  rw [← List.filter_map, map_snd_positioned]

end Read

namespace Writer

open ConditionalLogs Log Positions Read

theorem store_guards {cond : AppendCondition} {query : Query} {seen : Nat}
    (clause : cond.failIfEventsMatch = query ∧ cond.after = seen ∨
      cond.failIfExists = some query ∧ seen = 0) : store.Guards query.matches cond seen := by
  intro log met
  obtain ⟨within, clear⟩ := met
  have started : firstPosition = 1 := rfl
  have unmatched : NoMatch query seen log := by
    rcases clause with ⟨rfl, rfl⟩ | ⟨given, rfl⟩
    · exact clear.1
    · exact clear.2 query given
  have reached : seen ≤ log.length := by
    rcases clause with ⟨-, rfl⟩ | ⟨-, rfl⟩
    · change cond.after < firstPosition + log.length at within
      omega
    · exact Nat.zero_le _
  refine ⟨reached, fun event member => ?_⟩
  obtain ⟨i, found⟩ := List.getElem?_of_mem member
  rw [List.getElem?_drop] at found
  have placed : (firstPosition + (seen + i), event) ∈ positioned firstPosition log :=
    mem_positioned.mpr ⟨Nat.le_add_right _ _, by rwa [Nat.add_sub_cancel_left]⟩
  exact unmatched _ placed (by omega)

namespace CommitSeam

variable {format : SortedMaps.MapFormat}

/-- What a client read: its query, the watermark of the read, and the events. -/
structure Observation where
  query : Query
  watermark : Nat
  rows : List Sequenced

/-- The writer, and what its clients have read so far. -/
structure Clients (format : SortedMaps.MapFormat) where
  worker : Worker format
  seen : List Observation

/-- A request with events that match a query was decided on a read of the query.  It asks that
nothing matches behind the read, and what it adds keeps a property of what was read. -/
def Decides (query : Query) (holds : List Event → Prop) (seen : List Observation)
    (request : Request) : Prop :=
  request.events.filter query.matches = [] ∨
    ∃ cond, ∃ observation ∈ seen, request.condition = some cond ∧
      cond.failIfEventsMatch = query ∧ cond.after = observation.watermark ∧
      observation.query = query ∧
      (holds (observation.rows.map Sequenced.event) →
        holds (observation.rows.map Sequenced.event ++ request.events.filter query.matches))

theorem Decides.mono {query : Query} {holds : List Event → Prop} {seen : List Observation}
    {request : Request} (decides : Decides query holds seen request) (more : List Observation) :
    Decides query holds (seen ++ more) request :=
  decides.imp_right fun ⟨cond, observation, member, rest⟩ =>
    ⟨cond, observation, List.mem_append_left _ member, rest⟩

namespace Clients

/-- The writer takes a step, whose request was decided; or a client reads what matches a query,
from the start to the watermark. -/
inductive Step (crc : List UInt8 → UInt32) (decides : List Observation → Request → Prop) :
    Clients format → Clients format → Prop
  | write {worker next : Worker format} {seen : List Observation} {label : WorkerStep}
      (allowed : worker.StepAllowed label) (shown : worker.Shown label)
      (timely : Worker.NoLateFailure label)
      (decided : ∀ request, label = .request request → decides seen request)
      (taken : worker.step crc label = some next) : Step crc decides ⟨worker, seen⟩ ⟨next, seen⟩
  | read {worker : Worker format} {seen : List Observation} {query : Query} {scanBias : Nat}
      {rows : List Sequenced}
      (answers : Answers (Read.read worker.watermark worker.snapshot scanBias query 0 none) none
        rows) :
      Step crc decides ⟨worker, seen⟩ ⟨worker, seen ++ [⟨query, worker.watermark, rows⟩]⟩

/-- What was read is the front of the log. -/
def Observed (log : List Event) (observation : Observation) : Prop :=
  observation.watermark ≤ log.length ∧
    observation.rows.map Sequenced.event =
      (log.take observation.watermark).filter observation.query.matches

theorem Observed.append {log : List Event} {observation : Observation}
    (observed : Observed log observation) (more : List Event) :
    Observed (log ++ more) observation := by
  obtain ⟨within, rows⟩ := observed
  refine ⟨within.trans (by rw [List.length_append]; exact Nat.le_add_right _ _), ?_⟩
  rw [rows, List.take_append_of_le_length within]

end Clients

namespace Worker

variable {self next : Worker format}

/-- The requests that were answered or are staged. -/
def requests (self : Worker format) : List Request :=
  self.answers.map Prod.fst ++ self.batch.staged.map Prod.fst

theorem requests_of_step {crc : List UInt8 → UInt32} {label : WorkerStep} {request : Request}
    (taken : self.step crc label = some next) (member : request ∈ next.requests) :
    request ∈ self.requests ∨ label = .request request := by
  cases label with
  | request other =>
      obtain ⟨decision, -, rfl⟩ := Option.map_eq_some_iff.mp taken
      cases decision with
      | ok _ =>
          change request ∈ self.answers.map Prod.fst ++
            (self.batch.staged ++ [(other, _, _)]).map Prod.fst at member
          rw [List.map_append, ← List.append_assoc] at member
          exact (List.mem_append.mp member).imp_right fun last => by
            rw [List.mem_singleton.mp last]
      | error error =>
          change request ∈ (self.answers ++ [(other, _)]).map Prod.fst ++ _ at member
          rw [List.map_append, List.append_assoc] at member
          rcases List.mem_append.mp member with before | behind
          · exact .inl (List.mem_append_left _ before)
          · rcases List.mem_append.mp behind with here | staged
            · exact .inr (by rw [List.mem_singleton.mp here])
            · exact .inl (List.mem_append_right _ staged)
  | commit outcome createdAtNanos =>
      refine .inl ?_
      have staged (given : (Request × Nat × Nat) → Request × Answer)
          (same : ∀ staged, (given staged).1 = staged.1) (member : request ∈
            (self.answers ++ self.batch.staged.map given).map Prod.fst ++ []) :
          request ∈ self.requests := by
        rw [List.append_nil, List.map_append, List.map_map] at member
        rw [requests]
        have whole : self.batch.staged.map (Prod.fst ∘ given) = self.batch.staged.map Prod.fst :=
          List.map_congr_left fun staged _ => same staged
        rwa [whole] at member
      rcases commit_cases taken with ⟨-, rfl⟩ |
        ⟨-, error, ⟨-, rfl⟩ | ⟨-, rfl⟩⟩ | ⟨-, rolled, index, -, -, rfl⟩
      · rcases List.mem_append.mp member with before | none
        · exact List.mem_append_left _ before
        · cases none
      · exact staged _ (fun _ => rfl) member
      · exact staged _ (fun _ => rfl) member
      · exact staged _ (fun _ => rfl) member

theorem requests_of_run {crc : List UInt8 → UInt32} {labels : List WorkerStep}
    {last : Worker format} (ran : Histories.run (step crc) self labels = some last)
    {request : Request} (member : request ∈ last.requests) :
    request ∈ self.requests ∨ .request request ∈ labels := by
  induction labels generalizing self with
  | nil =>
      obtain rfl := Option.some.inj ran
      exact .inl member
  | cons label labels ih =>
      rw [Histories.run] at ran
      cases taken : step crc self label with
      | none => simp [taken] at ran
      | some next =>
          simp only [taken] at ran
          rcases ih ran with before | later
          · refine (requests_of_step taken before).imp_right fun here => ?_
            rw [here]
            exact List.mem_cons_self
          · exact .inr (List.mem_cons_of_mem _ later)

/-- If every request with events that match a query asks that there are none, all that match come
from one request, whatever the batches are and whichever appends fail. -/
theorem founded_once (lawful : format.Lawful) {crc : List UInt8 → UInt32} {set : SegmentedLog}
    {index : Index.IndexSet format} (opened : Opened crc set index) (cfg : WriterConfig)
    {query : Query} (start : set.events.filter query.matches = []) {labels : List WorkerStep}
    {last : Worker format}
    (guarded : ∀ request, .request request ∈ labels → request.events.filter query.matches = [] ∨
      ∃ cond, request.condition = some cond ∧ cond.failIfExists = some query)
    (allowed : Histories.Allowed (step crc)
      (fun self label => self.StepAllowed label ∧ self.Shown label)
      (Worker.start cfg set index) labels)
    (ran : Histories.run (step crc) (Worker.start cfg set index) labels = some last) :
    last.set.events.filter query.matches = [] ∨
      ∃ request range, (request, .ok range) ∈ last.answers ∧
        last.set.events.filter query.matches = request.events.filter query.matches := by
  have asked {attempt : Attempt Event AppendCondition} {range : Nat × Nat}
      (member : (attempt, .ok range) ∈ answered last.answers) :
      ∃ request, (request, .ok range) ∈ last.answers ∧ request.attempt = attempt := by
    obtain ⟨⟨request, answer⟩, given, same⟩ := List.mem_map.mp member
    obtain ⟨rfl, rfl⟩ := Prod.mk.inj same
    exact ⟨request, given, rfl⟩
  rcases (replaying_run lawful opened cfg allowed ran).durable.single start (by
    intro attempt range member
    obtain ⟨request, given, rfl⟩ := asked member
    rcases requests_of_run ran (List.mem_append_left _ (List.mem_map_of_mem given)) with
      before | label
    · cases before
    · exact (guarded request label).imp_right fun ⟨cond, condition, existence⟩ =>
        ⟨cond, condition, store_guards (.inr ⟨existence, rfl⟩)⟩) with
    nothing | ⟨attempt, range, member, same⟩
  · exact .inl nothing
  · obtain ⟨request, given, rfl⟩ := asked member
    exact .inr ⟨request, range, given, same⟩

/-- An event that is there once. -/
def foundingRun : List WorkerStep :=
  [.request ⟨[taggedEvent], some ⟨.items [], 0, some .all⟩⟩, .commit .appended 7,
    .request ⟨[taggedEvent], some ⟨.items [], 0, some .all⟩⟩]

theorem foundingRun_allowed : Histories.Allowed (step Seglog.crc32)
    (fun self label => self.StepAllowed label ∧ self.Shown label)
    (start plainConfig emptyLog (Index.IndexSet.new SortedMaps.flatTable 1)) foundingRun := by
  have fits : Index.FitsSegment [taggedEvent] := by
    rw [Index.FitsSegment]
    decide
  have room : 3 ≤ maxPosition := by decide
  refine ⟨⟨room.trans' (by decide), shown_of_unstaged rfl _⟩, fun staged first => ?_⟩
  obtain rfl := Option.some.inj first
  refine ⟨⟨fits, trivial⟩, fun committed second => ?_⟩
  rw [step] at second
  obtain ⟨empty, -⟩ | ⟨-, error, ⟨outcome, -⟩ | ⟨outcome, -⟩⟩ |
    ⟨-, rolled, index, outcome, -, rfl⟩ := commit_cases second
  · cases empty
  · cases outcome
  · cases outcome
  · cases rolled with
    | true => cases outcome
    | false =>
        exact ⟨⟨room, shown_of_unstaged rfl _⟩, fun _ _ => trivial⟩

theorem founded_once_tagged :
    ∃ last, Histories.run (step Seglog.crc32)
        (start plainConfig emptyLog (Index.IndexSet.new SortedMaps.flatTable 1)) foundingRun =
          some last ∧
      last.answers.map Prod.snd = [.ok (1, 1), .error (.conflict .existence (.durable 1))] ∧
      (last.set.events.filter Query.all.matches = [] ∨
        ∃ request range, (request, .ok range) ∈ last.answers ∧
          last.set.events.filter Query.all.matches =
            request.events.filter Query.all.matches) := by
  have computed : (Histories.run (step Seglog.crc32)
      (start plainConfig emptyLog (Index.IndexSet.new SortedMaps.flatTable 1))
      foundingRun).any (fun last => decide (last.answers.map Prod.snd =
        [.ok (1, 1), .error (.conflict .existence (.durable 1))])) = true := by
    decide +kernel
  obtain ⟨last, ran, shown⟩ := (Option.any_eq_true _ _).mp computed
  refine ⟨last, ran, of_decide_eq_true shown, founded_once SortedMaps.flatTable_lawful
    emptyLog_opened plainConfig rfl ?_ foundingRun_allowed ran⟩
  intro request member
  refine .inr ⟨⟨.items [], 0, some .all⟩, ?_, rfl⟩
  rcases List.mem_cons.mp member with first | later
  · cases first
    rfl
  · rcases List.mem_cons.mp later with commit | last
    · cases commit
    · cases List.mem_singleton.mp last
      rfl

end Worker

namespace Clients

/-- What every step keeps. -/
structure Consistent (first : List Event) (decides : List Observation → Request → Prop)
    (clients : Clients format) : Prop where
  replaying : clients.worker.Replaying first
  aligned : clients.worker.Aligned
  observed : ∀ observation ∈ clients.seen, Observed clients.worker.set.events observation
  decided : ∀ request ∈ clients.worker.requests, decides clients.seen request

variable {first : List Event} {decides : List Observation → Request → Prop}
  {clients next : Clients format}

theorem consistent_step (lawful : format.Lawful) {crc : List UInt8 → UInt32}
    (mono : ∀ seen more request, decides seen request → decides (seen ++ more) request)
    (consistent : clients.Consistent first decides) (taken : Step crc decides clients next) :
    next.Consistent first decides := by
  obtain ⟨replaying, aligned, observed, decided⟩ := consistent
  have sound := replaying.sound
  cases taken with
  | write allowed shown timely decidedHere taken =>
      refine ⟨Worker.replaying_step lawful crc replaying ⟨allowed, shown⟩ taken,
        Worker.aligned_step lawful crc sound aligned allowed timely taken, ?_, ?_⟩
      · obtain ⟨more, grown⟩ := sound.events_step taken
        intro observation member
        rw [grown]
        exact (observed observation member).append more
      · intro request member
        rcases Worker.requests_of_step taken member with before | rfl
        · exact decided request before
        · exact decidedHere request rfl
  | @read worker seen query scanBias rows answers =>
      refine ⟨replaying, aligned, ?_, fun request member => mono _ _ _ (decided request member)⟩
      intro observation member
      rcases List.mem_append.mp member with before | last
      · exact observed observation before
      · obtain rfl := List.mem_singleton.mp last
        obtain rfl := answers.unique ((aligned.answersRight sound).reads query scanBias none 0)
        refine ⟨?_, map_event_scanOracle _ _ _⟩
        have reached : worker.watermark = 1 + worker.set.events.length - 1 :=
          aligned.watermark_eq.trans sound.lastPosition_eq
        exact (reached.trans (Nat.add_sub_cancel_left 1 _)).le

/-- Whatever the clients read and append, and in whatever order, a property of the events that
match a query holds of the log, if every decision keeps it of what was read for it. -/
theorem decisions_hold (lawful : format.Lawful) {crc : List UInt8 → UInt32} {set : SegmentedLog}
    {index : Index.IndexSet format} (opened : Worker.Opened crc set index)
    (few : (Index.distinctTypes set.active.events).length ≤ Index.maxTypeId + 1)
    (cfg : WriterConfig) {query : Query} {holds : List Event → Prop}
    (start : holds (set.events.filter query.matches))
    (reached : Relation.ReflTransGen (Step crc (Decides query holds))
      ⟨Worker.start cfg set index, []⟩ clients) :
    holds (clients.worker.set.events.filter query.matches) := by
  have consistent : clients.Consistent set.events (Decides query holds) := by
    induction reached with
    | refl =>
        refine ⟨.fresh (opened.sound_start lawful cfg) rfl (.nil _),
          opened.aligned_start lawful few cfg, ?_, ?_⟩
        · intro observation member
          cases member
        · intro request member
          cases member
    | tail _ taken consistent =>
        exact consistent_step lawful (fun _ more _ decides => decides.mono more) consistent taken
  obtain ⟨replaying, -, observed, decided⟩ := consistent
  refine replaying.durable.decided start ?_
  intro attempt range member
  obtain ⟨⟨request, answer⟩, answered, same⟩ := List.mem_map.mp member
  obtain ⟨rfl, -⟩ := Prod.mk.inj same
  rcases decided request (List.mem_append_left _ (List.mem_map_of_mem answered)) with
    nothing | ⟨cond, observation, read, given, queried, bound, about, keeps⟩
  · exact .inl nothing
  · refine .inr ⟨cond, observation.watermark, given, store_guards (.inl ⟨queried, bound⟩), ?_⟩
    rw [(observed observation read).2, about] at keeps
    exact keeps

/-- A client that reads the empty log, and appends the only event there may be. -/
theorem decisions_hold_only : ∃ clients : Clients SortedMaps.flatTable,
    Relation.ReflTransGen
      (Step Seglog.crc32 (Decides .all fun events => events.length ≤ 1))
      ⟨Worker.start Worker.plainConfig emptyLog (Index.IndexSet.new SortedMaps.flatTable 1), []⟩
      clients ∧
    clients.worker.watermark = 1 ∧
      (clients.worker.set.events.filter Query.all.matches).length ≤ 1 := by
  let first := Worker.start Worker.plainConfig emptyLog (Index.IndexSet.new SortedMaps.flatTable 1)
  have opened := Worker.emptyLog_opened
  have lawful := SortedMaps.flatTable_lawful
  have few : (Index.distinctTypes emptyLog.active.events).length ≤ Index.maxTypeId + 1 := by decide
  have read : Step Seglog.crc32 (Decides .all fun events => events.length ≤ 1) ⟨first, []⟩
      ⟨first, [⟨.all, 0, []⟩]⟩ :=
    .read (((opened.aligned_start lawful few _).answersRight (opened.sound_start lawful _)).reads
      .all 1 none 0)
  let request : Request := ⟨[taggedEvent], some ⟨.all, 0, none⟩⟩
  have computed : (Histories.run (Worker.step Seglog.crc32) first
      [.request request, .commit .appended 7]).any (fun last => decide (last.watermark = 1)) =
        true := by
    decide +kernel
  obtain ⟨last, ran, shown⟩ := (Option.any_eq_true _ _).mp computed
  cases accepted : Worker.step Seglog.crc32 first (.request request) with
  | none => simp [Histories.run, accepted] at ran
  | some staged =>
      cases appended : Worker.step Seglog.crc32 staged (.commit .appended 7) with
      | none => simp [Histories.run, accepted, appended] at ran
      | some next =>
          simp only [Histories.run, accepted, appended, Option.some.injEq] at ran
          subst ran
          have fits : Index.FitsSegment [taggedEvent] := by
            rw [Index.FitsSegment]
            decide
          have decided : Decides .all (fun events => events.length ≤ 1) [⟨.all, 0, []⟩] request :=
            .inr ⟨_, _, List.mem_singleton_self _, rfl, rfl, rfl, rfl, fun _ => by decide⟩
          have stagedStep : Step Seglog.crc32 (Decides .all fun events => events.length ≤ 1)
              ⟨first, [⟨.all, 0, []⟩]⟩ ⟨staged, [⟨.all, 0, []⟩]⟩ := by
            refine @Step.write _ _ _ first staged _ (.request request) ?_ ?_ trivial ?_ accepted
            · change 2 ≤ maxPosition
              decide
            · exact Worker.shown_of_unstaged rfl _
            · rintro _ ⟨⟩
              exact decided
          have allowed : staged.StepAllowed (.commit .appended 7) := by
            obtain rfl := Option.some.inj accepted
            exact fits
          have commitStep : Step Seglog.crc32 (Decides .all fun events => events.length ≤ 1)
              ⟨staged, [⟨.all, 0, []⟩]⟩ ⟨next, [⟨.all, 0, []⟩]⟩ :=
            @Step.write _ _ _ _ _ _ (.commit .appended 7) allowed trivial trivial
              (by rintro _ ⟨⟩) appended
          have reached := ((Relation.ReflTransGen.single read).tail stagedStep).tail commitStep
          exact ⟨_, reached, of_decide_eq_true shown, decisions_hold lawful opened few _
            (by decide) reached⟩

end Clients

end CommitSeam

end Writer

end Tephra
