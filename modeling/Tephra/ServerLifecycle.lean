import Mathlib.Data.List.Nodup
import Tephra.Histories
import Tephra.Parties

/-!
# Connections and shutdown of the server

The accept loop takes a permit for a connection, registers its socket and starts a thread for
it.  The thread gives the permit back and removes the socket when it has served.  A shutdown
clears the running flag, wakes the accept loop with a connection of its own, and then shuts
down the registered sockets.

The registry and its flag are under one lock; the gauge and the running flag are atomics.
Each access to them is a step of its own.
-/

namespace Tephra.Server

open Histories Parties

/-- `ConnectionsInner`: the sockets of the live connections, under their ids. -/
structure Connections where
  shuttingDown : Bool
  streams : List (Nat × Nat)
deriving DecidableEq

namespace Connections

/-- A connection is entered, unless the shutdown has begun. -/
def register (self : Connections) (id stream : Nat) : Bool × Connections :=
  if self.shuttingDown then
    (false, self)
  else
    (true, { self with
      streams := (self.streams.filter fun entry => entry.1 ≠ id) ++ [(id, stream)] })

def remove (self : Connections) (id : Nat) : Connections :=
  { self with streams := self.streams.filter fun entry => entry.1 ≠ id }

/-- The flag is set, and every socket that is registered is shut down. -/
def shutdownAll (self : Connections) : Connections × List Nat :=
  ({ self with shuttingDown := true }, self.streams.map Prod.snd)

end Connections

/-- What `incoming` yields: a connection, or an error with or without one. -/
inductive Incoming where
  | connected
  | aborted
  | failed
deriving DecidableEq

/-- Where the loop goes on when a permit was given back. -/
inductive Released where
  | again
  | stop
  | fail
deriving DecidableEq

/-- The next step of `run`. -/
inductive RunPlace where
  /-- Blocked in `accept`. -/
  | accepting
  /-- Before the load of `running`, with a socket or an error. -/
  | checking (stream : Option Nat)
  /-- Before the load of the gauge. -/
  | acquiring (stream : Nat)
  /-- Below the cap, before the gauge is raised. -/
  | adding (stream : Nat)
  | refusing (stream : Nat)
  /-- With a permit: finished threads are let go, and the socket is cloned. -/
  | cloning (stream : Nat)
  | registering (id stream : Nat)
  | spawning (id stream : Nat)
  /-- Before the permit is dropped. -/
  | releasing (next : Released)
  | joining
  | returned (ok : Bool)
deriving DecidableEq

def Released.next (self : Released) : RunPlace :=
  match self with
  | .again => .accepting
  | .stop => .joining
  | .fail => .returned false

/-- The next step of a connection thread. -/
inductive ConnPlace where
  | serving
  /-- `serve_connection` has returned, before the permit is dropped. -/
  | dropping
  /-- `serve_connection` has panicked, before the permit is dropped. -/
  | unwinding
  | removing
  | finished
  | panicked
deriving DecidableEq

structure ConnThread where
  id : Nat
  stream : Nat
  place : ConnPlace
deriving DecidableEq

/-- The next step of a call of `shutdown`, and whether its connection went through. -/
inductive ShutdownCall where
  | clearing
  | connecting
  | waking (connected : Bool)
  | done (connected : Bool)
deriving DecidableEq

structure Lifecycle where
  maxConnections : Nat
  running : Bool
  /-- Connections that wait to be accepted. -/
  backlog : Nat
  nextStream : Nat
  nextId : Nat
  activeConnections : Nat
  connectionsRefused : Nat
  connections : Connections
  /-- Sockets that were shut down. -/
  woken : List Nat
  place : RunPlace
  conns : List ConnThread
  /-- The join handles: the places of threads that were not let go. -/
  threads : List Nat
  calls : List ShutdownCall
deriving DecidableEq

inductive LifecycleStep where
  /-- A client connects. -/
  | connect
  /-- `incoming` yields. -/
  | accept (incoming : Incoming)
  /-- The loop goes on; cloning a socket or spawning a thread may fail. -/
  | advance (fails : Bool)
  /-- A connection thread goes on; serving may panic. -/
  | serve (place : Nat) (panics : Bool)
  /-- `shutdown` is called. -/
  | call
  /-- A call of `shutdown` goes on; its connection may fail. -/
  | shutdown (place : Nat) (fails : Bool)
deriving DecidableEq

namespace ConnThread

/-- The thread has ended. -/
def isFinished (self : ConnThread) : Bool :=
  match self.place with
  | .finished | .panicked => true
  | _ => false

/-- The permit has not been dropped. -/
def holdsPermit (self : ConnThread) : Bool :=
  match self.place with
  | .serving | .dropping | .unwinding => true
  | _ => false

/-- The thread has not removed its socket. -/
def isRegistered (self : ConnThread) : Bool :=
  match self.place with
  | .finished => false
  | _ => true

end ConnThread

namespace Lifecycle

/-- A server that was bound. -/
def bind (maxConnections : Nat) : Lifecycle :=
  ⟨maxConnections, true, 0, 0, 0, 0, 0, ⟨false, []⟩, [], .accepting, [], [], []⟩

/-- `incoming` yields a connection from the backlog, or an error. -/
def accept (self : Lifecycle) (incoming : Incoming) : Option Lifecycle :=
  if self.place = .accepting then
    match incoming with
    | .connected =>
        if 0 < self.backlog then
          some { self with
            backlog := self.backlog - 1
            nextStream := self.nextStream + 1
            place := .checking (some self.nextStream) }
        else none
    | .aborted =>
        if 0 < self.backlog then
          some { self with backlog := self.backlog - 1, place := .checking none }
        else none
    | .failed => some { self with place := .checking none }
  else none

/-- Let go of the handles of threads that have ended. -/
def retain (self : Lifecycle) : List Nat :=
  self.threads.filter fun place => ((self.conns[place]?).map ConnThread.isFinished) = some false

/-- The loop goes on by one access to what is shared. -/
def advance (self : Lifecycle) (fails : Bool) : Option Lifecycle :=
  match self.place with
  | .accepting => none
  | .checking stream =>
      some { self with
        place := if self.running then
          match stream with
          | some stream => .acquiring stream
          | none => .accepting
        else .joining }
  | .acquiring stream =>
      some { self with
        place := if self.maxConnections ≠ 0 ∧ self.activeConnections ≥ self.maxConnections then
          .refusing stream else .adding stream }
  | .adding stream =>
      some { self with
        activeConnections := self.activeConnections + 1
        place := .cloning stream }
  | .refusing stream =>
      some { self with
        connectionsRefused := self.connectionsRefused + 1
        woken := self.woken ++ [stream]
        place := .accepting }
  | .cloning stream =>
      some { self with
        threads := self.retain
        nextId := self.nextId + 1
        place := if fails then .releasing .again else .registering self.nextId stream }
  | .registering id stream =>
      let (registered, connections) := self.connections.register id stream
      some (if registered then
        { self with connections := connections, place := .spawning id stream }
      else
        { self with woken := self.woken ++ [stream], place := .releasing .stop })
  | .spawning id stream =>
      some (if fails then { self with place := .releasing .fail }
      else
        { self with
          conns := self.conns ++ [⟨id, stream, .serving⟩]
          threads := self.threads ++ [self.conns.length]
          place := .accepting })
  | .releasing next =>
      some { self with activeConnections := self.activeConnections - 1, place := next.next }
  | .joining =>
      match self.threads with
      | [] => some { self with place := .returned true }
      | thread :: threads =>
          -- `join` blocks until the thread has ended
          if ((self.conns[thread]?).map ConnThread.isFinished) = some true then
            some { self with threads := threads }
          else none
  | .returned _ => none

/-- A connection thread goes on. -/
def serve (self : Lifecycle) (place : Nat) (panics : Bool) : Option Lifecycle :=
  match self.conns[place]? with
  | none => none
  | some conn =>
      let moved (next : ConnPlace) := self.conns.set place { conn with place := next }
      match conn.place with
      | .serving =>
          some { self with conns := moved (if panics then .unwinding else .dropping) }
      | .dropping =>
          some { self with
            activeConnections := self.activeConnections - 1
            conns := moved .removing }
      | .unwinding =>
          some { self with
            activeConnections := self.activeConnections - 1
            conns := moved .panicked }
      | .removing =>
          some { self with
            connections := self.connections.remove conn.id
            conns := moved .finished }
      | .finished | .panicked => none

/-- A call of `shutdown` goes on. -/
def shutdown (self : Lifecycle) (place : Nat) (fails : Bool) : Option Lifecycle :=
  match self.calls[place]? with
  | none => none
  | some .clearing =>
      some { self with running := false, calls := self.calls.set place .connecting }
  | some .connecting =>
      some { self with
        backlog := if fails then self.backlog else self.backlog + 1
        calls := self.calls.set place (.waking !fails) }
  | some (.waking connected) =>
      let (connections, streams) := self.connections.shutdownAll
      some { self with
        connections := connections
        woken := self.woken ++ streams
        calls := self.calls.set place (.done connected) }
  | some (.done _) => none

def step (self : Lifecycle) : LifecycleStep → Option Lifecycle
  | .connect => some { self with backlog := self.backlog + 1 }
  | .accept incoming => self.accept incoming
  | .advance fails => self.advance fails
  | .serve place panics => self.serve place panics
  | .call => some { self with calls := self.calls ++ [.clearing] }
  | .shutdown place fails => self.shutdown place fails

end Lifecycle

theorem Connections.register_eq_true {self connections : Connections} {id stream : Nat}
    (registered : self.register id stream = (true, connections)) :
    self.shuttingDown = false ∧ connections = { self with
      streams := (self.streams.filter fun entry => entry.1 ≠ id) ++ [(id, stream)] } := by
  rw [register] at registered
  split at registered
  · cases registered
  · next live =>
      cases registered
      exact ⟨Bool.not_eq_true _ ▸ live, rfl⟩

namespace RunPlace

/-- The permits that the loop holds. -/
def permits (self : RunPlace) : Nat :=
  match self with
  | .cloning _ | .registering _ _ | .spawning _ _ | .releasing _ => 1
  | _ => 0

/-- The place of the gauge that the loop is about to take. -/
def reserved (self : RunPlace) : Nat :=
  match self with
  | .adding _ => 1
  | _ => 0

/-- The id that the loop has drawn. -/
def drawn (self : RunPlace) : Option Nat :=
  match self with
  | .registering id _ | .spawning id _ => some id
  | _ => none

/-- The connection that the loop has registered. -/
def entered (self : RunPlace) : Option (Nat × Nat) :=
  match self with
  | .spawning id stream => some (id, stream)
  | _ => none

/-- A thread could not be spawned. -/
def failed (self : RunPlace) : Bool :=
  match self with
  | .releasing .fail | .returned false => true
  | _ => false

/-- The loop comes back to `accept` before it looks at the flag. -/
def returnsToAccept (self : RunPlace) : Bool :=
  match self with
  | .checking _ | .releasing .stop | .releasing .fail | .joining | .returned _ => false
  | _ => true

end RunPlace

/-- The connection of a call went through. -/
def ShutdownCall.connected (self : ShutdownCall) : Bool :=
  match self with
  | .waking connected | .done connected => connected
  | _ => false

namespace Lifecycle

/-- The gauge counts the permits and stays under the cap.  Every thread that runs is registered
and can be joined, and what was registered when the shutdown began was shut down. -/
structure Kept (most : Nat) (server : Lifecycle) : Prop where
  most_eq : server.maxConnections = most
  gauge_eq : server.activeConnections =
    server.place.permits + server.conns.countP ConnThread.holdsPermit
  under_cap : server.maxConnections ≠ 0 →
    server.activeConnections + server.place.reserved ≤ server.maxConnections
  fresh : ∀ conn ∈ server.conns, conn.id < server.nextId
  drawn : ∀ id ∈ server.place.drawn, id < server.nextId ∧ ∀ conn ∈ server.conns, conn.id ≠ id
  distinct : (server.conns.map ConnThread.id).Nodup
  registered : ∀ conn ∈ server.conns, conn.isRegistered = true →
    (conn.id, conn.stream) ∈ server.connections.streams
  entered : ∀ entry ∈ server.place.entered, entry ∈ server.connections.streams
  listed : server.place.failed = false → ∀ entry ∈ server.connections.streams,
    entry ∈ server.place.entered ∨
      ∃ conn ∈ server.conns, conn.isRegistered = true ∧ (conn.id, conn.stream) = entry
  woken : server.connections.shuttingDown = true →
    ∀ entry ∈ server.connections.streams, entry.2 ∈ server.woken
  joinable : server.place.failed = false → ∀ place conn, server.conns[place]? = some conn →
    conn.isFinished = false → place ∈ server.threads
  joined : server.place = .returned true → server.threads = []
  stopped : ∀ call ∈ server.calls, call ≠ .clearing → server.running = false
  shut : ∀ call ∈ server.calls, ∀ connected, call = .done connected →
    server.connections.shuttingDown = true
  waking : ∀ call ∈ server.calls, call.connected = true → server.place.returnsToAccept = true →
    0 < server.backlog

namespace Kept

variable {most : Nat} {self next : Lifecycle}

theorem bind (maxConnections : Nat) : (bind maxConnections).Kept maxConnections where
  most_eq := rfl
  gauge_eq := rfl
  under_cap _ := Nat.zero_le _
  fresh _ member := nomatch member
  drawn _ member := nomatch member
  distinct := List.nodup_nil
  registered _ member := nomatch member
  entered _ member := nomatch member
  listed _ _ member := nomatch member
  woken shut := nomatch shut
  joinable _ _ _ found := by simp [Lifecycle.bind] at found
  joined returned := nomatch returned
  stopped _ member := nomatch member
  shut _ member := nomatch member
  waking _ member := nomatch member

/-- The loop is at a place without a connection, at which it holds what it held before. -/
theorem goTo (kept : self.Kept most) {place : RunPlace} {backlog nextStream refused : Nat}
    {more : List Nat} (permits : place.permits = self.place.permits)
    (reserved : self.maxConnections ≠ 0 →
      self.activeConnections + place.reserved ≤ self.maxConnections)
    (drawn : place.drawn = none) (entered : place.entered = self.place.entered)
    (failed : place.failed = self.place.failed) (returned : place ≠ .returned true)
    (waking : ∀ call ∈ self.calls, call.connected = true → place.returnsToAccept = true →
      0 < backlog) :
    Kept most { self with
      backlog := backlog
      nextStream := nextStream
      connectionsRefused := refused
      woken := self.woken ++ more
      place := place } :=
  { kept with
    gauge_eq := kept.gauge_eq.trans (by rw [permits])
    under_cap := reserved
    drawn := by
      intro id member
      change id ∈ place.drawn at member
      rw [drawn] at member
      cases member
    entered := by
      intro entry member
      change entry ∈ place.entered at member
      rw [entered] at member
      exact kept.entered entry member
    listed := by
      intro sound entry member
      change entry ∈ place.entered ∨ _
      rw [entered]
      exact kept.listed (failed.symm.trans sound) entry member
    woken := fun shut entry member => List.mem_append_left _ (kept.woken shut entry member)
    joinable := fun sound => kept.joinable (failed.symm.trans sound)
    joined := fun here => absurd here returned
    waking := waking }

theorem accept (kept : self.Kept most) {incoming : Incoming}
    (taken : self.accept incoming = some next) : next.Kept most := by
  unfold Lifecycle.accept at taken
  split at taken
  case isFalse => cases taken
  next accepting =>
    have cap := kept.under_cap
    have checks (backlog nextStream : Nat) (stream : Option Nat) :
        Kept most { self with
          backlog := backlog
          nextStream := nextStream
          connectionsRefused := self.connectionsRefused
          woken := self.woken ++ []
          place := .checking stream } := by
      apply kept.goTo
      all_goals simp [accepting, RunPlace.permits, RunPlace.reserved, RunPlace.drawn,
        RunPlace.entered, RunPlace.failed, RunPlace.returnsToAccept] at cap ⊢
      exact cap
    rw [List.append_nil] at checks
    cases incoming with
    | connected =>
        simp only at taken
        split at taken
        case isFalse => cases taken
        cases taken
        exact checks _ _ _
    | aborted =>
        simp only at taken
        split at taken
        case isFalse => cases taken
        cases taken
        exact checks _ _ _
    | failed =>
        cases taken
        exact checks _ _ _

theorem clone (kept : self.Kept most) {stream : Nat} (here : self.place = .cloning stream)
    (fails : Bool) : Kept most { self with
      threads := self.retain
      nextId := self.nextId + 1
      place := if fails then .releasing .again else .registering self.nextId stream } := by
  have gauge := kept.gauge_eq
  have cap := kept.under_cap
  have listed := kept.listed
  have joinable := kept.joinable
  have waking := kept.waking
  simp only [here, RunPlace.permits, RunPlace.reserved, RunPlace.entered, RunPlace.failed,
    RunPlace.returnsToAccept] at gauge cap listed joinable waking
  have retained (place : Nat) (conn : ConnThread) (found : self.conns[place]? = some conn)
      (unfinished : conn.isFinished = false) : place ∈ self.retain := by
    rw [retain, List.mem_filter]
    refine ⟨joinable trivial place conn found unfinished, ?_⟩
    rw [found, Option.map_some, unfinished]
    exact decide_eq_true rfl
  have fresh (conn : ConnThread) (member : conn ∈ self.conns) : conn.id < self.nextId + 1 :=
    Nat.lt_succ_of_lt (kept.fresh conn member)
  cases fails with
  | true =>
      exact { kept with
        gauge_eq := gauge
        under_cap := cap
        fresh := fresh
        drawn := fun _ member => nomatch member
        entered := fun _ member => nomatch member
        listed := fun _ => listed trivial
        joinable := fun _ => retained
        joined := fun returned => nomatch returned
        waking := fun call member connected _ => waking call member connected trivial }
  | false =>
      exact { kept with
        gauge_eq := gauge
        under_cap := cap
        fresh := fresh
        drawn := by
          rintro _ ⟨⟩
          exact ⟨Nat.lt_succ_self _, fun conn member => Nat.ne_of_lt (kept.fresh conn member)⟩
        entered := fun _ member => nomatch member
        listed := fun _ => listed trivial
        joinable := fun _ => retained
        joined := fun returned => nomatch returned
        waking := fun call member connected _ => waking call member connected trivial }

/-- A socket is entered under an id that no other one has. -/
theorem register (kept : self.Kept most) {id stream : Nat}
    (here : self.place = .registering id stream) {connections : Connections}
    (registered : self.connections.register id stream = (true, connections)) :
    Kept most { self with connections := connections, place := .spawning id stream } := by
  obtain ⟨live, rfl⟩ := Connections.register_eq_true registered
  have gauge := kept.gauge_eq
  have cap := kept.under_cap
  have drawn := kept.drawn
  have listed := kept.listed
  have joinable := kept.joinable
  have waking := kept.waking
  simp only [here, RunPlace.permits, RunPlace.reserved, RunPlace.drawn, RunPlace.entered,
    RunPlace.failed, RunPlace.returnsToAccept] at gauge cap drawn listed joinable waking
  obtain ⟨below, apart⟩ := drawn id rfl
  exact { kept with
    gauge_eq := gauge
    under_cap := cap
    drawn := by
      rintro _ ⟨⟩
      exact ⟨below, apart⟩
    registered := by
      intro conn member registered
      refine List.mem_append_left _ (List.mem_filter.mpr
        ⟨kept.registered conn member registered, ?_⟩)
      exact decide_eq_true (apart conn member)
    entered := by
      rintro _ ⟨⟩
      exact List.mem_append_right _ (List.mem_singleton_self _)
    listed := by
      intro _ entry member
      rcases List.mem_append.mp member with before | last
      · rcases listed trivial entry (List.mem_filter.mp before).1 with none | conn
        · cases none
        · exact .inr conn
      · rw [List.mem_singleton.mp last]
        exact .inl rfl
    woken := fun shut => absurd (live.symm.trans shut) Bool.false_ne_true
    joinable := fun _ => joinable trivial
    joined := fun returned => nomatch returned
    shut := kept.shut
    waking := fun call member connected _ => waking call member connected trivial }

theorem spawn (kept : self.Kept most) {id stream : Nat} (here : self.place = .spawning id stream) :
    Kept most { self with
      conns := self.conns ++ [⟨id, stream, .serving⟩]
      threads := self.threads ++ [self.conns.length]
      place := .accepting } := by
  have gauge := kept.gauge_eq
  have cap := kept.under_cap
  have drawn := kept.drawn
  have entered := kept.entered
  have listed := kept.listed
  have joinable := kept.joinable
  have waking := kept.waking
  simp only [here, RunPlace.permits, RunPlace.reserved, RunPlace.drawn, RunPlace.entered,
    RunPlace.failed, RunPlace.returnsToAccept] at gauge cap drawn entered listed joinable waking
  obtain ⟨below, apart⟩ := drawn id rfl
  exact { kept with
    gauge_eq := by
      change self.activeConnections = 0 + _
      rw [List.countP_append, gauge, Nat.zero_add, Nat.add_comm]
      rfl
    under_cap := cap
    fresh := by
      intro conn member
      rcases List.mem_append.mp member with before | last
      · exact kept.fresh conn before
      · rw [List.mem_singleton.mp last]
        exact below
    drawn := fun _ member => nomatch member
    distinct := by
      change ((self.conns ++ [_]).map ConnThread.id).Nodup
      rw [List.map_append, List.nodup_append]
      refine ⟨kept.distinct, List.pairwise_singleton _ _, ?_⟩
      intro other before same last
      obtain ⟨conn, member, rfl⟩ := List.mem_map.mp before
      rw [List.mem_singleton.mp last]
      exact apart conn member
    registered := by
      intro conn member registered
      rcases List.mem_append.mp member with before | last
      · exact kept.registered conn before registered
      · rw [List.mem_singleton.mp last]
        exact entered _ rfl
    entered := fun _ member => nomatch member
    listed := by
      intro _ entry member
      right
      rcases listed trivial entry member with here | ⟨conn, before, rest⟩
      · obtain rfl := Option.some.inj here
        exact ⟨_, List.mem_append_right _ (List.mem_singleton_self _), rfl, rfl⟩
      · exact ⟨conn, List.mem_append_left _ before, rest⟩
    joinable := by
      intro _ place conn found unfinished
      by_cases before : place < self.conns.length
      · rw [List.getElem?_append_left before] at found
        exact List.mem_append_left _ (joinable trivial place conn found unfinished)
      · have inside := (List.getElem?_eq_some_iff.mp found).1
        rw [List.length_append, List.length_singleton] at inside
        rw [show place = self.conns.length by omega]
        exact List.mem_append_right _ (List.mem_singleton_self _)
    joined := fun returned => nomatch returned
    waking := fun call member connected _ => waking call member connected trivial }

theorem release (kept : self.Kept most) {released : Released}
    (here : self.place = .releasing released) : Kept most { self with
      activeConnections := self.activeConnections - 1
      place := released.next } := by
  have gauge := kept.gauge_eq
  have cap := kept.under_cap
  have listed := kept.listed
  have joinable := kept.joinable
  have waking := kept.waking
  simp only [here, RunPlace.permits, RunPlace.reserved] at gauge cap
  rw [here] at listed joinable waking
  have gaugeLess : self.activeConnections - 1 = 0 + self.conns.countP ConnThread.holdsPermit := by
    omega
  have capLess (bounded : self.maxConnections ≠ 0) :
      self.activeConnections - 1 + 0 ≤ self.maxConnections := by
    have := cap bounded
    omega
  cases released with
  | again =>
      exact { kept with
        gauge_eq := gaugeLess
        under_cap := capLess
        drawn := fun _ member => nomatch member
        entered := fun _ member => nomatch member
        listed := listed
        joinable := joinable
        joined := fun returned => nomatch returned
        waking := waking }
  | stop =>
      exact { kept with
        gauge_eq := gaugeLess
        under_cap := capLess
        drawn := fun _ member => nomatch member
        entered := fun _ member => nomatch member
        listed := listed
        joinable := joinable
        joined := fun returned => nomatch returned
        waking := waking }
  | fail =>
      exact { kept with
        gauge_eq := gaugeLess
        under_cap := capLess
        drawn := fun _ member => nomatch member
        entered := fun _ member => nomatch member
        listed := listed
        joinable := joinable
        joined := fun returned => nomatch returned
        waking := waking }

theorem join (kept : self.Kept most) (here : self.place = .joining) {threads : List Nat}
    {place : RunPlace} (joins : place = .joining ∨ place = .returned true ∧ threads = [])
    (unfinished : ∀ thread conn, self.conns[thread]? = some conn → conn.isFinished = false →
      thread ∈ self.threads → thread ∈ threads) :
    Kept most { self with threads := threads, place := place } := by
  have gauge := kept.gauge_eq
  have cap := kept.under_cap
  have listed := kept.listed
  have joinable := kept.joinable
  rw [here] at gauge cap listed joinable
  have remain (thread : Nat) (conn : ConnThread) (found : self.conns[thread]? = some conn)
      (live : conn.isFinished = false) : thread ∈ threads :=
    unfinished thread conn found live (joinable rfl thread conn found live)
  rcases joins with rfl | ⟨rfl, rfl⟩
  · exact { kept with
      gauge_eq := gauge
      under_cap := cap
      drawn := fun _ member => nomatch member
      entered := fun _ member => nomatch member
      listed := listed
      joinable := fun _ => remain
      joined := fun returned => nomatch returned
      waking := fun _ _ _ returns => nomatch returns }
  · exact { kept with
      gauge_eq := gauge
      under_cap := cap
      drawn := fun _ member => nomatch member
      entered := fun _ member => nomatch member
      listed := listed
      joinable := fun _ => remain
      joined := fun _ => rfl
      waking := fun _ _ _ returns => nomatch returns }

/-- The flag is looked at.  Once it is cleared, the loop is left. -/
theorem check (kept : self.Kept most) {stream : Option Nat} (here : self.place = .checking stream)
    {place : RunPlace} (goes : self.running = true ∧
        (place = .accepting ∨ ∃ stream, place = .acquiring stream) ∨ place = .joining) :
    Kept most { self with place := place } := by
  have cap := kept.under_cap
  rw [here] at cap
  have moved : place.permits = 0 ∧ place.reserved = 0 ∧ place.drawn = none ∧
      place.entered = none ∧ place.failed = false ∧ place ≠ .returned true := by
    rcases goes with ⟨-, rfl | ⟨stream, rfl⟩⟩ | rfl
    all_goals exact ⟨rfl, rfl, rfl, rfl, rfl, nofun⟩
  obtain ⟨permits, reserved, drawn, entered, failed, returned⟩ := moved
  have there := @goTo most self kept place self.backlog self.nextStream self.connectionsRefused []
    (by rw [permits, here]; rfl) (by rw [reserved]; exact cap) drawn (by rw [entered, here]; rfl)
    (by rw [failed, here]; rfl) returned (by
      intro call member connected returns
      rcases goes with ⟨running, -⟩ | rfl
      · have stopped := kept.stopped call member (by rintro rfl; cases connected)
        rw [running] at stopped
        cases stopped
      · cases returns)
  rw [List.append_nil] at there
  exact there

/-- The gauge is compared with the cap. -/
theorem acquire (kept : self.Kept most) {stream : Nat} (here : self.place = .acquiring stream) :
    Kept most { self with
      place := if self.maxConnections ≠ 0 ∧ self.activeConnections ≥ self.maxConnections then
        .refusing stream else .adding stream } := by
  have cap := kept.under_cap
  have waking := kept.waking
  rw [here] at cap waking
  have moved : Kept most { self with
      backlog := self.backlog
      nextStream := self.nextStream
      connectionsRefused := self.connectionsRefused
      woken := self.woken ++ []
      place := if self.maxConnections ≠ 0 ∧ self.activeConnections ≥ self.maxConnections then
        .refusing stream else .adding stream } := by
    split
    · exact kept.goTo (by rw [here]; rfl) cap rfl (by rw [here]; rfl) (by rw [here]; rfl) nofun
        waking
    · next below =>
      refine kept.goTo (by rw [here]; rfl) ?_ rfl (by rw [here]; rfl) (by rw [here]; rfl) nofun
        waking
      intro bounded
      change _ + 1 ≤ _
      by_contra past
      exact below ⟨bounded, by omega⟩
  rw [List.append_nil] at moved
  exact moved

/-- The gauge is raised, and the loop holds the permit. -/
theorem add (kept : self.Kept most) {stream : Nat} (here : self.place = .adding stream) :
    Kept most { self with
      activeConnections := self.activeConnections + 1
      place := .cloning stream } := by
  have gauge := kept.gauge_eq
  have cap := kept.under_cap
  have waking := kept.waking
  have listed := kept.listed
  have joinable := kept.joinable
  rw [here] at gauge cap listed joinable waking
  exact { kept with
    gauge_eq := (congrArg (· + 1) gauge).trans
      (congrArg (· + 1) (Nat.zero_add _) |>.trans (Nat.add_comm _ 1))
    under_cap := cap
    drawn := fun _ member => nomatch member
    entered := fun _ member => nomatch member
    listed := listed
    joinable := joinable
    joined := fun returned => nomatch returned
    waking := waking }

/-- No thread can be started, and `run` is about to fail. -/
theorem abandon (kept : self.Kept most) {id stream : Nat}
    (here : self.place = .spawning id stream) :
    Kept most { self with place := .releasing .fail } := by
  have gauge := kept.gauge_eq
  have cap := kept.under_cap
  rw [here] at gauge cap
  exact { kept with
    gauge_eq := gauge
    under_cap := cap
    drawn := fun _ member => nomatch member
    entered := fun _ member => nomatch member
    listed := fun sound => nomatch sound
    joinable := fun sound => nomatch sound
    joined := fun returned => nomatch returned
    waking := fun _ _ _ returns => nomatch returns }

theorem advance (kept : self.Kept most) {fails : Bool} (taken : self.advance fails = some next) :
    next.Kept most := by
  unfold Lifecycle.advance at taken
  have cap := kept.under_cap
  have waking := kept.waking
  split at taken
  case h_1 => cases taken
  case h_2 stream here =>
    cases taken
    apply kept.check here
    cases stream <;> cases self.running <;> simp
  case h_3 stream here =>
    cases taken
    exact kept.acquire here
  case h_4 stream here =>
    cases taken
    exact kept.add here
  case h_5 stream here =>
    cases taken
    rw [here] at cap waking
    exact kept.goTo (by rw [here]; rfl) cap rfl (by rw [here]; rfl) (by rw [here]; rfl) nofun
      waking
  case h_6 stream here =>
    cases taken
    exact kept.clone here fails
  case h_7 id stream here =>
    obtain ⟨⟨registered, connections⟩, outcome⟩ :
        ∃ result, self.connections.register id stream = result := ⟨_, rfl⟩
    rw [outcome] at taken
    cases registered with
    | true =>
        simp only [if_true, Option.some.injEq] at taken
        subst taken
        exact kept.register here outcome
    | false =>
        simp only [Bool.false_eq_true, if_false, Option.some.injEq] at taken
        subst taken
        rw [here] at cap
        exact kept.goTo (by rw [here]; rfl) cap rfl (by rw [here]; rfl) (by rw [here]; rfl) nofun
          (fun _ _ _ returns => nomatch returns)
  case h_8 id stream here =>
    cases fails with
    | true =>
        cases taken
        exact kept.abandon here
    | false =>
        cases taken
        exact kept.spawn here
  case h_9 released here =>
    cases taken
    exact kept.release here
  case h_10 here =>
    split at taken
    · next none =>
      cases taken
      exact kept.join here (.inr ⟨rfl, none⟩) fun _ _ _ _ member => member
    · next thread threads listed =>
      split at taken
      case isFalse => cases taken
      next ended =>
      cases taken
      refine kept.join here (.inl here) ?_
      intro other conn found live member
      rw [listed] at member
      rcases List.mem_cons.mp member with rfl | behind
      · rw [found, Option.map_some, live] at ended
        cases ended
      · exact behind
  case h_11 => cases taken

theorem apart (kept : self.Kept most) {place other : Nat} {conn another : ConnThread}
    (found : self.conns[place]? = some conn) (there : self.conns[other]? = some another)
    (differs : other ≠ place) : another.id ≠ conn.id := by
  obtain ⟨inside, rfl⟩ := List.getElem?_eq_some_iff.mp found
  obtain ⟨insideOther, rfl⟩ := List.getElem?_eq_some_iff.mp there
  intro same
  apply differs
  have places := @List.Nodup.getElem_inj_iff _ _ kept.distinct other (by rwa [List.length_map])
    place (by rwa [List.length_map])
  rw [List.getElem_map, List.getElem_map] at places
  exact places.mp same

theorem mem_moved {conns : List ConnThread} {place : Nat} {moved conn : ConnThread}
    (member : conn ∈ conns.set place moved) :
    conn = moved ∨ ∃ other, other ≠ place ∧ conns[other]? = some conn := by
  obtain ⟨other, found⟩ := List.getElem?_of_mem member
  by_cases here : other = place
  · subst here
    have inside := (List.getElem?_eq_some_iff.mp found).1
    rw [List.length_set] at inside
    rw [List.getElem?_set_self inside] at found
    exact .inl (Option.some.inj found).symm
  · rw [List.getElem?_set_ne (Ne.symm here)] at found
    exact .inr ⟨other, here, found⟩

/-- A thread moves, and keeps its id and its socket. -/
theorem move (kept : self.Kept most) {place gauge : Nat} {conn moved : ConnThread}
    {connections : Connections} (found : self.conns[place]? = some conn)
    (live : conn.isFinished = false) (same : moved.id = conn.id ∧ moved.stream = conn.stream)
    (gaugeEq : gauge + conn.holdsPermit.toNat =
      self.activeConnections + moved.holdsPermit.toNat)
    (gaugeLe : gauge ≤ self.activeConnections)
    (shutting : connections.shuttingDown = self.connections.shuttingDown)
    (streams : ∀ entry, entry ∈ connections.streams ↔ entry ∈ self.connections.streams ∧
      (entry.1 = conn.id → moved.isRegistered = true)) :
    Kept most { self with
      activeConnections := gauge
      connections := connections
      conns := self.conns.set place moved } := by
  have member := List.mem_of_getElem? found
  have inside := (List.getElem?_eq_some_iff.mp found).1
  have movedThere : (self.conns.set place moved)[place]? = some moved :=
    List.getElem?_set_self inside
  have registered : conn.isRegistered = true := by
    cases here : conn.place <;>
      simp [ConnThread.isFinished, ConnThread.isRegistered, here] at live ⊢
  exact { kept with
    gauge_eq := by
      have counted := @countP_set_add _ ConnThread.holdsPermit _ _ _ moved found
      have before := kept.gauge_eq
      change gauge = self.place.permits + (self.conns.set place moved).countP _
      omega
    under_cap := by
      intro bounded
      have := kept.under_cap bounded
      change gauge + self.place.reserved ≤ self.maxConnections
      omega
    fresh := by
      intro other here
      rcases mem_moved here with rfl | ⟨_, _, there⟩
      · rw [same.1]
        exact kept.fresh conn member
      · exact kept.fresh other (List.mem_of_getElem? there)
    drawn := by
      intro id drawn
      obtain ⟨below, new⟩ := kept.drawn id drawn
      refine ⟨below, fun other here => ?_⟩
      rcases mem_moved here with rfl | ⟨_, _, there⟩
      · rw [same.1]
        exact new conn member
      · exact new other (List.mem_of_getElem? there)
    distinct := by
      have there : (self.conns.map ConnThread.id)[place]? = some conn.id := by
        rw [List.getElem?_map, found, Option.map_some]
      obtain ⟨there, idEq⟩ := List.getElem?_eq_some_iff.mp there
      change ((self.conns.set place moved).map ConnThread.id).Nodup
      rw [List.map_set, same.1, ← idEq, List.set_getElem_self]
      exact kept.distinct
    registered := by
      intro other here live
      rcases mem_moved here with rfl | ⟨_, differs, there⟩
      · rw [same.1, same.2]
        exact (streams _).mpr ⟨kept.registered conn member registered, fun _ => live⟩
      · exact (streams _).mpr ⟨kept.registered other (List.mem_of_getElem? there) live,
          fun equal => absurd equal (kept.apart found there differs)⟩
    entered := by
      intro entry entered
      refine (streams entry).mpr ⟨kept.entered entry entered, fun equal => ?_⟩
      have drawn : entry.1 ∈ self.place.drawn := by
        cases here : self.place <;> rw [here] at entered <;> cases entered
        rfl
      exact absurd equal.symm ((kept.drawn _ drawn).2 conn member)
    listed := by
      intro sound entry listed
      obtain ⟨before, remains⟩ := (streams entry).mp listed
      rcases kept.listed sound entry before with entered | ⟨other, there, otherLive, rfl⟩
      · exact .inl entered
      · right
        obtain ⟨index, there⟩ := List.getElem?_of_mem there
        by_cases here : index = place
        · subst here
          obtain rfl : conn = other := Option.some.inj (found.symm.trans there)
          refine ⟨moved, List.mem_of_getElem? movedThere, remains rfl, ?_⟩
          rw [same.1, same.2]
        · refine ⟨other, ?_, otherLive, rfl⟩
          exact List.mem_of_getElem? ((List.getElem?_set_ne (Ne.symm here)).trans there)
    woken := by
      intro shut entry listed
      exact kept.woken (shutting.symm.trans shut) entry ((streams entry).mp listed).1
    joinable := by
      intro sound index other there unfinished
      by_cases here : index = place
      · subst here
        exact kept.joinable sound index conn found live
      · rw [List.getElem?_set_ne (Ne.symm here)] at there
        exact kept.joinable sound index other there unfinished
    shut := fun call here connected done =>
      shutting.trans (kept.shut call here connected done) }

theorem serve (kept : self.Kept most) {place : Nat} {panics : Bool}
    (taken : self.serve place panics = some next) : next.Kept most := by
  unfold Lifecycle.serve at taken
  cases found : self.conns[place]? with
  | none =>
      rw [found] at taken
      cases taken
  | some conn =>
      obtain ⟨id, stream, at'⟩ := conn
      rw [found] at taken
      have gauge := kept.gauge_eq
      have counted (holds : (ConnThread.mk id stream at').holdsPermit = true) :
          0 < self.activeConnections := by
        have : 0 < self.conns.countP ConnThread.holdsPermit :=
          List.countP_pos_iff.mpr ⟨_, List.mem_of_getElem? found, holds⟩
        omega
      cases at' with
      | serving =>
          cases taken
          refine kept.move found rfl ⟨rfl, rfl⟩ ?_ (Nat.le_refl _) rfl ?_
          · cases panics <;> rfl
          · cases panics <;> simp [ConnThread.isRegistered]
      | dropping =>
          cases taken
          refine kept.move found rfl ⟨rfl, rfl⟩ ?_ (Nat.sub_le _ _) rfl ?_
          · exact Nat.sub_add_cancel (counted rfl)
          · simp [ConnThread.isRegistered]
      | unwinding =>
          cases taken
          refine kept.move found rfl ⟨rfl, rfl⟩ ?_ (Nat.sub_le _ _) rfl ?_
          · exact Nat.sub_add_cancel (counted rfl)
          · simp [ConnThread.isRegistered]
      | removing =>
          cases taken
          refine kept.move found rfl ⟨rfl, rfl⟩ rfl (Nat.le_refl _) rfl ?_
          intro entry
          simp [Connections.remove, ConnThread.isRegistered]
      | finished => cases taken
      | panicked => cases taken

theorem shutdown (kept : self.Kept most) {place : Nat} {fails : Bool}
    (taken : self.shutdown place fails = some next) : next.Kept most := by
  unfold Lifecycle.shutdown at taken
  have old {moved call : ShutdownCall} (member : call ∈ self.calls.set place moved) :
      call ∈ self.calls ∨ call = moved := List.mem_or_eq_of_mem_set member
  cases found : self.calls[place]? with
  | none =>
      rw [found] at taken
      cases taken
  | some call =>
      rw [found] at taken
      have member := List.mem_of_getElem? found
      cases call with
      | clearing =>
          cases taken
          exact { kept with
            stopped := fun _ _ _ => rfl
            shut := by
              rintro call here connected rfl
              rcases old here with before | last
              · exact kept.shut _ before connected rfl
              · cases last
            waking := by
              intro call here connected returns
              rcases old here with before | rfl
              · exact kept.waking call before connected returns
              · cases connected }
      | connecting =>
          cases taken
          exact { kept with
            stopped := by
              intro call here asked
              rcases old here with before | rfl
              · exact kept.stopped call before asked
              · exact kept.stopped _ member nofun
            shut := by
              rintro call here connected rfl
              rcases old here with before | last
              · exact kept.shut _ before connected rfl
              · cases last
            waking := by
              intro call here connected returns
              change 0 < if fails then self.backlog else self.backlog + 1
              rcases old here with before | rfl
              · have := kept.waking call before connected returns
                split <;> omega
              · cases fails with
                | true => cases connected
                | false => exact Nat.succ_pos _ }
      | waking connected =>
          cases taken
          exact { kept with
            woken := fun _ entry listed =>
              List.mem_append_right _ (List.mem_map_of_mem listed)
            stopped := by
              intro call here asked
              rcases old here with before | rfl
              · exact kept.stopped call before asked
              · exact kept.stopped _ member nofun
            shut := fun _ _ _ _ => rfl
            waking := by
              intro call here through returns
              rcases old here with before | rfl
              · exact kept.waking call before through returns
              · exact kept.waking _ member through returns }
      | done connected => cases taken

end Kept

theorem kept_step {most : Nat} {self next : Lifecycle} {label : LifecycleStep}
    (kept : self.Kept most) (taken : self.step label = some next) : next.Kept most := by
  cases label with
  | connect =>
      cases taken
      exact { kept with waking := fun call member connected returns =>
        Nat.lt_succ_of_lt (kept.waking call member connected returns) }
  | accept incoming => exact kept.accept taken
  | advance fails => exact kept.advance taken
  | serve place panics => exact kept.serve taken
  | call =>
      cases taken
      have old {call : ShutdownCall} (member : call ∈ self.calls ++ [.clearing]) :
          call ∈ self.calls ∨ call = .clearing :=
        (List.mem_append.mp member).imp_right List.mem_singleton.mp
      exact { kept with
        stopped := by
          intro call member asked
          rcases old member with before | rfl
          · exact kept.stopped call before asked
          · exact absurd rfl asked
        shut := by
          rintro call member connected rfl
          rcases old member with before | last
          · exact kept.shut _ before connected rfl
          · cases last
        waking := by
          intro call member connected returns
          rcases old member with before | rfl
          · exact kept.waking call before connected returns
          · cases connected }
  | shutdown place fails => exact kept.shutdown taken

theorem kept_run {maxConnections : Nat} {labels : List LifecycleStep} {last : Lifecycle}
    (ran : run step (bind maxConnections) labels = some last) :
    last.Kept maxConnections :=
  invariant_of_steps (fun _ _ _ kept taken => kept_step kept taken) (.bind maxConnections) ran

/-- Once a call of `shutdown` has returned, every connection that is served, or is about to be, was
shut down, however the call raced with the accept loop. -/
theorem shutdown_reaches_all {maxConnections : Nat} {labels : List LifecycleStep}
    {last : Lifecycle} (ran : run step (bind maxConnections) labels = some last)
    {connected : Bool} (past : .done connected ∈ last.calls) :
    (∀ conn ∈ last.conns, conn.isFinished = false → conn.stream ∈ last.woken) ∧
      ∀ id stream, last.place = .spawning id stream → stream ∈ last.woken := by
  have kept := kept_run ran
  have shut := kept.shut _ past connected rfl
  constructor
  · intro conn member unfinished
    refine kept.woken shut _ (kept.registered conn member ?_)
    cases here : conn.place <;>
      simp [ConnThread.isFinished, ConnThread.isRegistered, here] at unfinished ⊢
  · intro id stream here
    refine kept.woken shut (id, stream) (kept.entered _ ?_)
    rw [here]
    rfl

/-- A shutdown between the registration of a connection and the start of its thread. -/
def racingShutdown : List LifecycleStep :=
  [.connect, .accept .connected, .advance false, .advance false, .advance false, .advance false,
    .advance false, .call, .shutdown 0 false, .shutdown 0 false, .shutdown 0 false,
    .advance false]

theorem shutdown_reaches_all_racing :
    ∃ last, run step (bind 1) racingShutdown = some last ∧
      last.conns = [⟨0, 0, .serving⟩] ∧ 0 ∈ last.woken := by
  have computed : (run step (bind 1) racingShutdown).any (fun last =>
      decide (last.conns = [⟨0, 0, .serving⟩] ∧ last.calls = [.done true])) = true := by
    decide +kernel
  obtain ⟨last, ran, shown⟩ := (Option.any_eq_true _ _).mp computed
  obtain ⟨conns, calls⟩ := of_decide_eq_true shown
  have past : .done true ∈ last.calls := by simp [calls]
  exact ⟨last, ran, conns, (shutdown_reaches_all ran past).1 ⟨0, 0, .serving⟩ (by simp [conns]) rfl⟩

/-- The gauge counts the permits, the one of the accept loop among them, and never goes over
the cap. -/
theorem connections_within_cap {maxConnections : Nat} {labels : List LifecycleStep}
    {last : Lifecycle} (ran : run step (bind maxConnections) labels = some last) :
    last.activeConnections = last.place.permits + last.conns.countP ConnThread.holdsPermit ∧
      (maxConnections ≠ 0 → last.activeConnections ≤ maxConnections) := by
  have kept := kept_run ran
  constructor
  · exact kept.gauge_eq
  · intro bounded
    have within := kept.under_cap (kept.most_eq ▸ bounded)
    rw [kept.most_eq] at within
    exact Nat.le_of_add_right_le within

theorem connections_within_cap_racing :
    ∃ last, run step (bind 1) racingShutdown = some last ∧
      last.conns.countP ConnThread.holdsPermit = 1 ∧ last.activeConnections ≤ 1 := by
  have computed : (run step (bind 1) racingShutdown).any (fun last =>
      decide (last.conns.countP ConnThread.holdsPermit = 1)) = true := by
    decide +kernel
  obtain ⟨last, ran, shown⟩ := (Option.any_eq_true _ _).mp computed
  exact ⟨last, ran, of_decide_eq_true shown, (connections_within_cap ran).2 Nat.one_ne_zero⟩

/-- When `run` returns without an error, every connection thread has ended, no permit is held, and
only the sockets of threads that panicked are still registered. -/
theorem returned_after_joining {maxConnections : Nat} {labels : List LifecycleStep}
    {last : Lifecycle} (ran : run step (bind maxConnections) labels = some last)
    (returned : last.place = .returned true) :
    (∀ conn ∈ last.conns, conn.isFinished = true) ∧ last.activeConnections = 0 ∧
      ∀ entry, entry ∈ last.connections.streams ↔
        ∃ conn ∈ last.conns, conn.place = .panicked ∧ (conn.id, conn.stream) = entry := by
  have kept := kept_run ran
  have sound : last.place.failed = false := by rw [returned]; rfl
  have ended : ∀ conn ∈ last.conns, conn.isFinished = true := by
    intro conn member
    by_contra unfinished
    rw [Bool.not_eq_true] at unfinished
    obtain ⟨place, found⟩ := List.getElem?_of_mem member
    have listed := kept.joinable sound place conn found unfinished
    rw [kept.joined returned] at listed
    cases listed
  have remains (conn : ConnThread) (member : conn ∈ last.conns) :
      conn.isRegistered = true ↔ conn.place = .panicked := by
    have past := ended conn member
    cases here : conn.place <;>
      simp [ConnThread.isFinished, ConnThread.isRegistered, here] at past ⊢
  refine ⟨ended, ?_, fun entry => ⟨fun listed => ?_, ?_⟩⟩
  · rw [kept.gauge_eq, returned, List.countP_eq_zero.mpr]
    · rfl
    · intro conn member
      have past := ended conn member
      cases here : conn.place <;>
        simp [ConnThread.isFinished, ConnThread.holdsPermit, here] at past ⊢
  · rcases kept.listed sound entry listed with entered | ⟨conn, member, registered, same⟩
    · rw [returned] at entered
      cases entered
    · exact ⟨conn, member, (remains conn member).mp registered, same⟩
  · rintro ⟨conn, member, panicked, rfl⟩
    exact kept.registered conn member ((remains conn member).mpr panicked)

/-- The accept loop is left by the connection of the shutdown, and the thread is joined. -/
def shutdownToEnd : List LifecycleStep :=
  racingShutdown ++ [.accept .connected, .advance false, .serve 0 false, .serve 0 false,
    .serve 0 false, .advance false, .advance false]

theorem returned_after_joining_racing :
    ∃ last, run step (bind 1) shutdownToEnd = some last ∧
      (∀ conn ∈ last.conns, conn.isFinished = true) ∧ last.activeConnections = 0 ∧
      ∀ entry, entry ∈ last.connections.streams ↔
        ∃ conn ∈ last.conns, conn.place = .panicked ∧ (conn.id, conn.stream) = entry := by
  have computed : (run step (bind 1) shutdownToEnd).any (fun last =>
      decide (last.place = .returned true)) = true := by
    decide +kernel
  obtain ⟨last, ran, shown⟩ := (Option.any_eq_true _ _).mp computed
  exact ⟨last, ran, returned_after_joining ran (of_decide_eq_true shown)⟩

end Lifecycle

namespace RunPlace

/-- The loop was left. -/
def left (self : RunPlace) : Bool :=
  match self with
  | .joining | .returned _ => true
  | _ => false

/-- A connection that is past the flag may still be served. -/
def pending (self : RunPlace) : Nat :=
  match self with
  | .acquiring _ | .adding _ | .cloning _ | .registering _ _ | .spawning _ _ => 1
  | _ => 0

/-- The steps to the end of the loop, once the flag is cleared. -/
def rank (self : RunPlace) : Nat :=
  match self with
  | .acquiring _ => 8
  | .adding _ => 7
  | .cloning _ => 6
  | .registering _ _ => 5
  | .spawning _ _ => 4
  | .refusing _ | .releasing _ => 3
  | .accepting => 2
  | .checking _ => 1
  | .joining | .returned _ => 0

end RunPlace

theorem RunPlace.left_iff {place : RunPlace} : place.left = true ↔ place.rank = 0 := by
  cases place <;> simp [left, rank]

/-- A step of the accept loop. -/
def LifecycleStep.ofLoop (self : LifecycleStep) : Bool :=
  match self with
  | .accept _ | .advance _ => true
  | _ => false

namespace Lifecycle

variable {self next : Lifecycle}

theorem leaving_advance {fails : Bool} (stopped : self.running = false)
    (taken : self.advance fails = some next) : next.running = false ∧
      next.conns.length + next.place.pending ≤ self.conns.length + self.place.pending ∧
      (next.place.rank < self.place.rank ∨ next.place.left = true) := by
  unfold advance at taken
  split at taken
  case h_1 => cases taken
  case h_2 stream here =>
    rw [stopped] at taken
    cases taken
    rw [here]
    exact ⟨rfl, Nat.le_refl _, .inl (Nat.lt_succ_self _)⟩
  case h_3 stream here =>
    cases taken
    rw [here]
    refine ⟨stopped, ?_, .inl ?_⟩
    · change self.conns.length + RunPlace.pending (if _ then _ else _) ≤ _
      split
      · exact Nat.le_succ _
      · exact Nat.le_refl _
    · change RunPlace.rank (if _ then _ else _) < _
      split
      · exact (show 3 < 8 by decide)
      · exact (show 7 < 8 by decide)
  case h_4 stream here =>
    cases taken
    rw [here]
    exact ⟨stopped, Nat.le_refl _, .inl (show 6 < 7 by decide)⟩
  case h_5 stream here =>
    cases taken
    rw [here]
    exact ⟨stopped, Nat.le_refl _, .inl (show 2 < 3 by decide)⟩
  case h_6 stream here =>
    cases taken
    rw [here]
    cases fails with
    | true => exact ⟨stopped, Nat.le_succ _, .inl (show 3 < 6 by decide)⟩
    | false => exact ⟨stopped, Nat.le_refl _, .inl (show 5 < 6 by decide)⟩
  case h_7 id stream here =>
    obtain ⟨⟨registered, connections⟩, outcome⟩ :
        ∃ result, self.connections.register id stream = result := ⟨_, rfl⟩
    rw [outcome] at taken
    rw [here]
    cases registered with
    | true =>
        cases taken
        exact ⟨stopped, Nat.le_refl _, .inl (show 4 < 5 by decide)⟩
    | false =>
        cases taken
        exact ⟨stopped, Nat.le_succ _, .inl (show 3 < 5 by decide)⟩
  case h_8 id stream here =>
    rw [here]
    cases fails with
    | true =>
        cases taken
        exact ⟨stopped, Nat.le_succ _, .inl (show 3 < 4 by decide)⟩
    | false =>
        cases taken
        refine ⟨stopped, ?_, .inl (show 2 < 4 by decide)⟩
        exact Nat.le_of_eq (List.length_append.trans rfl)
  case h_9 released here =>
    cases taken
    rw [here]
    cases released with
    | again => exact ⟨stopped, Nat.le_refl _, .inl (show 2 < 3 by decide)⟩
    | stop => exact ⟨stopped, Nat.le_refl _, .inr rfl⟩
    | fail => exact ⟨stopped, Nat.le_refl _, .inr rfl⟩
  case h_10 here =>
    split at taken
    · cases taken
      rw [here]
      exact ⟨stopped, Nat.le_refl _, .inr rfl⟩
    · split at taken
      case isFalse => cases taken
      cases taken
      exact ⟨stopped, Nat.le_refl _, .inr (congrArg RunPlace.left here)⟩
  case h_11 => cases taken

/-- With the flag cleared, the loop comes closer to its end by every step of its own, and takes on
no further connection. -/
theorem leaving_step {label : LifecycleStep} (stopped : self.running = false)
    (taken : self.step label = some next) : next.running = false ∧
      next.conns.length + next.place.pending ≤ self.conns.length + self.place.pending ∧
      (next.place.rank + label.ofLoop.toNat ≤ self.place.rank ∨ next.place.left = true) := by
  cases label with
  | connect =>
      cases taken
      exact ⟨stopped, Nat.le_refl _, .inl (Nat.le_refl _)⟩
  | accept incoming =>
      rw [step] at taken
      unfold accept at taken
      split at taken
      case isFalse => cases taken
      next here =>
      have checks (stream : Option Nat) (backlog nextStream : Nat)
          (yields : next = { self with
            backlog := backlog, nextStream := nextStream, place := .checking stream }) :
          next.running = false ∧
            next.conns.length + next.place.pending ≤ self.conns.length + self.place.pending ∧
            (next.place.rank + 1 ≤ self.place.rank ∨ next.place.left = true) := by
        rw [yields, here]
        exact ⟨stopped, Nat.le_refl _, .inl (Nat.le_refl _)⟩
      cases incoming with
      | connected =>
          simp only at taken
          split at taken
          case isFalse => cases taken
          exact checks _ _ _ (Option.some.inj taken).symm
      | aborted =>
          simp only at taken
          split at taken
          case isFalse => cases taken
          exact checks _ _ _ (Option.some.inj taken).symm
      | failed => exact checks _ _ _ (Option.some.inj taken).symm
  | advance fails => exact leaving_advance stopped taken
  | serve place panics =>
      have frame : next.running = self.running ∧ next.conns.length = self.conns.length ∧
          next.place = self.place := by
        rw [step] at taken
        unfold serve at taken
        split at taken
        · cases taken
        · split at taken <;> cases taken
          all_goals exact ⟨rfl, List.length_set, rfl⟩
      obtain ⟨running, conns, place⟩ := frame
      rw [running, conns, place]
      exact ⟨stopped, Nat.le_refl _, .inl (Nat.le_refl _)⟩
  | call =>
      cases taken
      exact ⟨stopped, Nat.le_refl _, .inl (Nat.le_refl _)⟩
  | shutdown place fails =>
      rw [step] at taken
      unfold shutdown at taken
      split at taken
      · cases taken
      · cases taken
        exact ⟨rfl, Nat.le_refl _, .inl (Nat.le_refl _)⟩
      · cases taken
        exact ⟨stopped, Nat.le_refl _, .inl (Nat.le_refl _)⟩
      · cases taken
        exact ⟨stopped, Nat.le_refl _, .inl (Nat.le_refl _)⟩
      · cases taken

theorem leaving_run {labels : List LifecycleStep} {last : Lifecycle}
    (stopped : self.running = false) (ran : run step self labels = some last) :
    last.conns.length + last.place.pending ≤ self.conns.length + self.place.pending ∧
      (last.place.rank + labels.countP LifecycleStep.ofLoop ≤ self.place.rank ∨
        last.place.left = true) := by
  induction labels generalizing self with
  | nil =>
      obtain rfl := Option.some.inj ran
      exact ⟨Nat.le_refl _, .inl (Nat.le_refl _)⟩
  | cons label labels ih =>
      rw [run] at ran
      cases taken : step self label with
      | none => simp [taken] at ran
      | some next =>
          simp only [taken] at ran
          obtain ⟨still, conns, closer⟩ := leaving_step stopped taken
          obtain ⟨connsLater, closerLater⟩ := ih still ran
          refine ⟨Nat.le_trans connsLater conns, ?_⟩
          rcases closerLater with ranked | left
          · rcases closer with here | left
            · left
              rw [List.countP_cons]
              cases own : label.ofLoop with
              | true =>
                  rw [own] at here
                  change _ + 1 ≤ _ at here
                  simp only [if_true]
                  omega
              | false =>
                  rw [own] at here
                  change _ + 0 ≤ _ at here
                  simp only [Bool.false_eq_true, if_false]
                  omega
            · right
              rw [RunPlace.left_iff] at left ⊢
              omega
          · exact .inr left

theorem connected_step {label : LifecycleStep} (taken : self.step label = some next)
    (through : ∃ call ∈ self.calls, call.connected = true) :
    ∃ call ∈ next.calls, call.connected = true := by
  obtain ⟨call, member, connected⟩ := through
  cases label with
  | connect =>
      cases taken
      exact ⟨call, member, connected⟩
  | accept incoming =>
      have same : next.calls = self.calls := by
        cases incoming <;> grind [step, accept]
      exact ⟨call, same ▸ member, connected⟩
  | advance fails =>
      have same : next.calls = self.calls := by grind [step, advance]
      exact ⟨call, same ▸ member, connected⟩
  | serve place panics =>
      have same : next.calls = self.calls := by grind [step, serve]
      exact ⟨call, same ▸ member, connected⟩
  | call =>
      cases taken
      exact ⟨call, List.mem_append_left _ member, connected⟩
  | shutdown place fails =>
      obtain ⟨former, moved, found, calls, keeps⟩ : ∃ former moved,
          self.calls[place]? = some former ∧ next.calls = self.calls.set place moved ∧
            (former.connected = true → moved.connected = true) := by
        rw [step] at taken
        unfold shutdown at taken
        split at taken
        · cases taken
        · next found =>
          cases taken
          exact ⟨_, _, found, rfl, nofun⟩
        · next found =>
          cases taken
          exact ⟨_, _, found, rfl, nofun⟩
        · next found =>
          cases taken
          exact ⟨_, _, found, rfl, id⟩
        · cases taken
      obtain ⟨inside, rfl⟩ := List.getElem?_eq_some_iff.mp found
      obtain ⟨other, there⟩ := List.getElem?_of_mem member
      rw [calls]
      by_cases here : other = place
      · subst here
        obtain rfl : self.calls[other] = call := Option.some.inj (found.symm.trans there)
        exact ⟨moved, List.mem_of_getElem? (List.getElem?_set_self inside), keeps connected⟩
      · refine ⟨call, ?_, connected⟩
        exact List.mem_of_getElem? ((List.getElem?_set_ne (Ne.symm here)).trans there)

theorem connected_run {labels : List LifecycleStep} {last : Lifecycle}
    (through : ∃ call ∈ self.calls, call.connected = true)
    (ran : run step self labels = some last) : ∃ call ∈ last.calls, call.connected = true :=
  @invariant_of_steps _ _ step (fun server => ∃ call ∈ server.calls, call.connected = true)
    (fun _ _ _ through taken => connected_step taken through) _ _ _ through ran

theorem advance_isSome (loops : self.place ≠ .accepting) (stays : self.place.left = false) :
    (self.advance false).isSome = true := by
  unfold advance
  cases here : self.place with
  | accepting => exact absurd here loops
  | joining =>
      rw [here] at stays
      cases stays
  | returned ok =>
      rw [here] at stays
      cases stays
  | checking stream => rfl
  | acquiring stream => rfl
  | adding stream => rfl
  | refusing stream => rfl
  | cloning stream => rfl
  | registering id stream => rfl
  | spawning id stream => rfl
  | releasing next => rfl

/-- Once the connection of a call of `shutdown` went through, the accept loop is not stuck, it ends
within eight steps of its own, and at most one further connection is served. -/
theorem accept_loop_ends {maxConnections : Nat} {earlier labels : List LifecycleStep}
    {self last : Lifecycle} (reached : run step (bind maxConnections) earlier = some self)
    {call : ShutdownCall} (asked : call ∈ self.calls) (through : call.connected = true)
    (ran : run step self labels = some last) :
    last.conns.length ≤ self.conns.length + 1 ∧
      (last.place.left = true ∨ labels.countP LifecycleStep.ofLoop ≤ 8 ∧
        ∃ label : LifecycleStep, label.ofLoop = true ∧ (last.step label).isSome = true) := by
  have stopped := (kept_run reached).stopped call asked (by rintro rfl; cases through)
  obtain ⟨conns, closer⟩ := leaving_run stopped ran
  have pending : self.place.pending ≤ 1 := by
    cases self.place <;> simp [RunPlace.pending]
  have ranked : self.place.rank ≤ 8 := by
    cases self.place <;> simp [RunPlace.rank]
  refine ⟨by omega, ?_⟩
  cases stays : last.place.left with
  | true => exact .inl rfl
  | false =>
      right
      rcases closer with near | left
      · refine ⟨by omega, ?_⟩
        by_cases here : last.place = .accepting
        · have again : run step (bind maxConnections) (earlier ++ labels) = some last := by
            rw [run_append_eq reached, ran]
          obtain ⟨later, member, connected⟩ := connected_run ⟨call, asked, through⟩ ran
          have waits := (kept_run again).waking later member connected (by rw [here]; rfl)
          refine ⟨.accept .connected, rfl, ?_⟩
          rw [step, accept, if_pos here, if_pos waits]
          rfl
        · exact ⟨.advance false, rfl, advance_isSome here stays⟩
      · rw [stays] at left
        cases left

/-- The shutdown has connected while a thread is about to be spawned. -/
theorem accept_loop_ends_racing :
    ∃ self last, run step (bind 1) (racingShutdown.take 10) = some self ∧
      run step self [.advance false] = some last ∧ last.conns.length ≤ self.conns.length + 1 ∧
      (last.place.left = true ∨ [LifecycleStep.advance false].countP LifecycleStep.ofLoop ≤ 8 ∧
        ∃ label : LifecycleStep, label.ofLoop = true ∧ (last.step label).isSome = true) := by
  have computed : (run step (bind 1) (racingShutdown.take 10)).any (fun self =>
      decide (self.calls = [.waking true] ∧
        (run step self [.advance false]).isSome = true)) = true := by
    decide +kernel
  obtain ⟨self, reached, shown⟩ := (Option.any_eq_true _ _).mp computed
  obtain ⟨calls, goesOn⟩ := of_decide_eq_true shown
  obtain ⟨last, ran⟩ := Option.isSome_iff_exists.mp goesOn
  exact ⟨self, last, reached, ran, @accept_loop_ends _ _ _ _ _ reached (.waking true)
    (by simp [calls]) rfl ran⟩

end Lifecycle

end Tephra.Server
