import Tephra.StoreReads
import Tephra.Subscriptions

/-!
# Followers

A follower subscribes to a query, and keeps the position to resume behind together with the
events that it was given.  It may drop its subscription at any time, and loses it when the
process ends; then it subscribes again behind its position.  It is given every matching event
once and in order, across all of that, and when a poll finds nothing it has had everything that
was acknowledged before.
-/

namespace Tephra

namespace Writer.CommitSeam

open ConditionalLogs Log Positions Read Seglog SortedMaps

/-- The store and a follower of it. -/
structure Follower (format : MapFormat) where
  store : DurableStore format
  query : Query
  /-- The position that it resumes behind. -/
  position : Nat
  handled : List Sequenced
  /-- The subscription in the process that runs. -/
  subscription : Option Subscription
  /-- The watermark of the poll at hand, and the answers that had been given when it was
  loaded. -/
  loaded : Option (Nat × List (Request × Answer))
  /-- The answers that had been given when the last poll that found nothing began. -/
  caughtUp : List (Request × Answer)
  failed : Bool

inductive FollowerStep where
  | store (label : StoreStep)
  | subscribe (maxBatchEvents : Nat)
  /-- A poll loads the watermark. -/
  | load
  /-- It loads the snapshot, and reads the batch. -/
  | poll (scanBias : Nat)
  /-- The follower drops its subscription. -/
  | drop

namespace Follower

variable {format : MapFormat}

/-- A follower of an empty store, from behind a position on. -/
def new (query : Query) (start : Nat) : Follower format :=
  ⟨.empty, query, start, [], none, none, [], false⟩

/-- Keep what a poll gave, with the position behind it. -/
def take (self : Follower format) (told : List (Request × Answer)) (batch : List Sequenced)
    (subscription : Subscription) : Follower format :=
  { self with
    position := subscription.cursor
    handled := self.handled ++ batch
    subscription := some subscription
    loaded := none
    caughtUp := if batch = [] then told else self.caughtUp }

variable (crc : List UInt8 → UInt32) (config : SegmentConfig)

def step (self : Follower format) : FollowerStep → Option (Follower format)
  | .store label =>
      (self.store.step crc config label).map fun store =>
        if store.process.isSome then
          { self with store := store }
        else
          { self with store := store, subscription := none, loaded := none }
  | .subscribe maxBatchEvents =>
      match self.store.process, self.subscription with
      | some _, none =>
          some { self with
            subscription := some ⟨self.query, self.position, max 1 maxBatchEvents,
              le_max_left 1 maxBatchEvents⟩ }
      | _, _ => none
  | .load =>
      match self.store.process, self.subscription, self.loaded with
      | some process, some _, none =>
          some { self with loaded := some (process.worker.watermark, self.store.answers) }
      | _, _, _ => none
  | .poll scanBias =>
      match self.store.process, self.subscription, self.loaded with
      | some process, some subscription, some (watermark, told) =>
          match subscription.pollBatch watermark process.worker.snapshot scanBias with
          | some (.ok batch, subscription) => some (self.take told batch subscription)
          | _ => some { self with loaded := none, failed := true }
      | _, _, _ => none
  | .drop => some { self with subscription := none, loaded := none }

/-- What is asked of a step is what the store and its reads ask. -/
def StepAllowed (self : Follower format) : FollowerStep → Prop
  | .store label => self.store.StepAllowed crc config label ∧ self.store.KeepsPace crc config label
  | .subscribe _ | .load | .poll _ | .drop => True

/-- What was handled are the matching events of the log up to the position. -/
structure Exact (crc : List UInt8 → UInt32) (config : SegmentConfig) (query : Query)
    (start : Nat) (log : List Event) (follower : Follower format) : Prop where
  store : follower.store.Paced crc config log
  query_eq : follower.query = query
  failed_eq : follower.failed = false
  handled_eq : follower.handled = scanOracle query start follower.position log
  start_le : start ≤ follower.position
  reached : follower.position = start ∨ follower.position ≤ log.length
  subscribed : ∀ subscription, follower.subscription = some subscription →
    subscription.query = query ∧ subscription.cursor = follower.position
  loaded_le : ∀ watermark told, follower.loaded = some (watermark, told) →
    watermark ≤ log.length ∧ Within (log.take watermark) told
  caughtUp : Within (log.take follower.position) follower.caughtUp

variable {crc config} {query : Query} {start : Nat} {log : List Event}
  {self next : Follower format}

theorem exact_new (query : Query) (start : Nat) :
    Exact crc config query start [] (new query start : Follower format) where
  store := DurableStore.paced_empty
  query_eq := rfl
  failed_eq := rfl
  handled_eq := (Reads.scanOracle_eq_nil le_rfl).symm
  start_le := le_rfl
  reached := .inl rfl
  subscribed := by rintro _ ⟨⟩
  loaded_le := by rintro _ _ ⟨⟩
  caughtUp := by rintro _ _ ⟨⟩

theorem take_prefix_append (log more : List Event) {upto later : Nat} (le : upto ≤ later) :
    log.take upto <+: (log ++ more).take later := by
  refine (List.take_prefix_take_left le).trans ?_
  rw [List.take_append]
  exact List.prefix_append _ _

theorem Exact.grow (exact' : Exact crc config query start log self) {more : List Event}
    {store : DurableStore format} (paced : store.Paced crc config (log ++ more)) :
    Exact crc config query start (log ++ more) { self with store := store } := by
  refine { exact' with
    store := paced
    handled_eq := ?_
    reached := ?_
    loaded_le := fun watermark told loaded => ?_
    caughtUp := exact'.caughtUp.mono (take_prefix_append log more le_rfl) }
  · have inside : self.position < firstPosition + log.length ∨ self.position ≤ start := by
      have started : firstPosition = 1 := rfl
      have reached := exact'.reached
      omega
    rw [scanOracle_append inside]
    exact exact'.handled_eq
  · refine exact'.reached.imp_right fun below => below.trans ?_
    rw [List.length_append]
    exact Nat.le_add_right _ _
  · obtain ⟨below, within⟩ := exact'.loaded_le watermark told loaded
    rw [List.length_append]
    exact ⟨below.trans (Nat.le_add_right _ _), within.mono (take_prefix_append log more le_rfl)⟩

theorem Exact.dropped (exact' : Exact crc config query start log self) :
    Exact crc config query start log { self with subscription := none, loaded := none } :=
  { exact' with
    subscribed := by rintro _ ⟨⟩
    loaded_le := by rintro _ _ ⟨⟩ }

/-- A poll gives the matching events behind the position, and the position moves behind them. -/
theorem Exact.poll (exact' : Exact crc config query start log self) {scanBias : Nat}
    (taken : self.step crc config (.poll scanBias) = some next) :
    Exact crc config query start log next := by
  rw [step] at taken
  split at taken
  · next process subscription watermark told running subscribed loaded =>
    obtain ⟨queryEq, cursorEq⟩ := exact'.subscribed subscription subscribed
    obtain ⟨below, within⟩ := exact'.loaded_le watermark told loaded
    have consistent := (exact'.store.consistent running).mono
      (below.trans (exact'.store.watermark_eq running).ge)
    obtain ⟨cursor, polled, later, inside, nothing⟩ :=
      Subscription.pollBatch_eq consistent subscription scanBias
    rw [queryEq, cursorEq] at polled nothing
    rw [cursorEq] at later inside
    simp only [polled, Option.some.injEq] at taken
    subst taken
    refine { exact' with
      handled_eq := ?_
      start_le := exact'.start_le.trans later
      reached := ?_
      subscribed := ?_
      loaded_le := by rintro _ _ ⟨⟩
      caughtUp := ?_ }
    · change self.handled ++ _ = scanOracle query start cursor log
      rw [exact'.handled_eq]
      exact (scanOracle_split exact'.start_le later).symm
    · change cursor = start ∨ cursor ≤ log.length
      have reached := exact'.reached
      omega
    · rintro _ ⟨⟩
      exact ⟨rfl, rfl⟩
    · change Within (log.take cursor) (if scanOracle query self.position cursor log = [] then told
        else self.caughtUp)
      split
      · next empty => exact within.mono (List.take_prefix_take_left (nothing empty))
      · exact exact'.caughtUp.mono (List.take_prefix_take_left later)
  · cases taken

theorem exact_step (lawful : format.Lawful) (valid : config.validate = .ok ())
    (headerFits : segmentHeaderSize ≤ config.headerSize)
    (exact' : Exact crc config query start log self) {label : FollowerStep}
    (allowed : self.StepAllowed crc config label)
    (taken : self.step crc config label = some next) :
    ∃ more, Exact crc config query start (log ++ more) next := by
  have unchanged (exact' : Exact crc config query start log next) :
      ∃ more, Exact crc config query start (log ++ more) next :=
    ⟨[], by rwa [List.append_nil]⟩
  cases label with
  | store label =>
      obtain ⟨store, stepped, rfl⟩ := Option.map_eq_some_iff.mp taken
      obtain ⟨more, paced⟩ := DurableStore.paced_step lawful valid headerFits exact'.store
        allowed.1 allowed.2 stepped
      refine ⟨more, ?_⟩
      split
      · exact exact'.grow paced
      · exact (exact'.grow paced).dropped
  | subscribe maxBatchEvents =>
      rw [step] at taken
      split at taken
      · cases taken
        refine unchanged { exact' with subscribed := ?_ }
        rintro _ ⟨⟩
        exact ⟨exact'.query_eq, rfl⟩
      · cases taken
  | load =>
      rw [step] at taken
      split at taken
      · next process _ running _ _ =>
        cases taken
        refine unchanged { exact' with loaded_le := ?_ }
        rintro _ _ ⟨⟩
        have watermarkEq := exact'.store.watermark_eq running
        rw [watermarkEq, List.take_length]
        exact ⟨le_rfl, exact'.store.within⟩
      · cases taken
  | poll scanBias => exact unchanged (exact'.poll taken)
  | drop =>
      obtain rfl := Option.some.inj taken
      exact unchanged exact'.dropped

open DurableStore (acknowledgedRun leftImage startOn)

open ReadStore (pacedRun_allowed)

open SegmentSet (smallConfig)

open Worker (untaggedEvent)

/-- What a step does to the store. -/
def storeStep : FollowerStep → Option StoreStep
  | .store label => some label
  | .subscribe _ | .load | .poll _ | .drop => none

theorem allowed_of_store {labels : List FollowerStep}
    (allowed : Histories.Allowed (DurableStore.step crc config)
      (fun store label => store.StepAllowed crc config label ∧ store.KeepsPace crc config label)
      self.store (labels.filterMap storeStep)) :
    Histories.Allowed (step crc config) (StepAllowed crc config) self labels := by
  refine Histories.allowed_of_part Follower.store storeStep ?_ ?_ ?_ allowed
  · intro state label next taken idle
    cases label with
    | store label => cases idle
    | subscribe maxBatchEvents =>
        rw [step] at taken
        split at taken <;> cases taken
        rfl
    | load =>
        rw [step] at taken
        split at taken <;> cases taken
        rfl
    | poll scanBias =>
        rw [step] at taken
        split at taken
        · split at taken <;> cases taken <;> rfl
        · cases taken
    | drop =>
        cases taken
        rfl
  · intro state label next here taken same
    cases label with
    | store label =>
        cases same
        obtain ⟨store, stepped, rfl⟩ := Option.map_eq_some_iff.mp taken
        split <;> exact stepped
    | subscribe maxBatchEvents => cases same
    | load => cases same
    | poll scanBias => cases same
    | drop => cases same
  · intro state label asked
    cases label with
    | store label => exact asked label rfl
    | subscribe maxBatchEvents => trivial
    | load => trivial
    | poll scanBias => trivial
    | drop => trivial

/-- A poll finds nothing before an append, the next one finds its event, and behind the rollover
and the crash that follow it goes on with the other event. -/
def followedRun : List FollowerStep :=
  [.store (startOn []), .subscribe 8, .load, .poll 4, .store (.request ⟨[taggedEvent], none⟩),
    .load, .store (.commit 0 [] [] [] 7), .poll 4, .load, .poll 4,
    .store (.request ⟨[untaggedEvent], none⟩), .store (.commit 0 [] [] [] 7),
    .store (.crash leftImage), .store (startOn [taggedEvent, untaggedEvent]), .subscribe 8, .load,
    .poll 4, .load, .poll 4]

end Follower

end Writer.CommitSeam

end Tephra
