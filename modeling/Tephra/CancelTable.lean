import Tephra.Histories

/-!
# The cancel table of a connection

The reader of a connection registers a flag for every read and subscription under
its request id, and a cancel request sets the flag that it finds under its target.
The worker of a request removes the entry under its id some time after it has queued
its last frame.  A client uses an id again only when it has received the terminal
frame of the earlier request.
-/

namespace Tephra.Server

open Histories

/-- Where the worker of a request stands. -/
inductive StreamPhase
  /-- Before its last frame is queued. -/
  | running
  /-- Before its `WorkerCleanup` is dropped. -/
  | finished
  | cleaned
deriving DecidableEq, Repr

/-- A read or a subscription: its id, its worker, its flag, and whether its terminal
frame has been queued and received. -/
structure StreamWorker where
  requestId : Nat
  phase : StreamPhase
  cancel : Bool
  terminal : Bool
  received : Bool
deriving DecidableEq, Repr

/-- The requests of a connection in the order of their dispatch, and the table from
ids to the requests whose flags are registered. -/
structure Cancels where
  workers : List StreamWorker
  table : List (Nat × Nat)
deriving DecidableEq, Repr

inductive CancelStep
  /-- `spawn_read` or `spawn_subscribe`. -/
  | dispatch (requestId : Nat)
  | cancel (target : Nat)
  /-- The worker queues its terminal frame. -/
  | answer (serial : Nat)
  /-- The worker stops without one: it is cancelled, or panics, or its connection ends. -/
  | stop (serial : Nat)
  /-- A subscription thread cannot be started: its cleanup is dropped, and the reader
  sends an error. -/
  | spawnFails (serial : Nat)
  /-- The client receives the terminal frame. -/
  | receive (serial : Nat)
  | cleanup (serial : Nat)
deriving DecidableEq, Repr

namespace Cancels

def empty : Cancels := ⟨[], []⟩

/-- `HashMap::insert`. -/
def insert (table : List (Nat × Nat)) (requestId serial : Nat) : List (Nat × Nat) :=
  (requestId, serial) :: table.filter fun entry => entry.1 ≠ requestId

/-- `HashMap::remove`. -/
def remove (table : List (Nat × Nat)) (requestId : Nat) : List (Nat × Nat) :=
  table.filter fun entry => entry.1 ≠ requestId

/-- `HashMap::get`. -/
def get (table : List (Nat × Nat)) (requestId : Nat) : Option Nat :=
  (table.find? fun entry => entry.1 = requestId).map Prod.snd

/-- The request of a flag with the flag set. -/
def store (workers : List StreamWorker) (serial : Nat) : List StreamWorker :=
  workers.modify serial fun worker => { worker with cancel := true }

/-- The step of a label, if it is enabled. -/
def step (conn : Cancels) : CancelStep → Option Cancels
  | .dispatch requestId =>
      -- what the client promises
      if ∀ worker ∈ conn.workers, worker.requestId = requestId → worker.received = true then
        some ⟨conn.workers ++ [⟨requestId, .running, false, false, false⟩],
          insert conn.table requestId conn.workers.length⟩
      else none
  | .cancel target =>
      match get conn.table target with
      | some serial => some { conn with workers := store conn.workers serial }
      | none => some conn
  | .answer serial => do
      let worker ← conn.workers[serial]?
      if worker.phase = .running then
        some { conn with
          workers := conn.workers.set serial { worker with phase := .finished, terminal := true } }
      else none
  | .stop serial => do
      let worker ← conn.workers[serial]?
      if worker.phase = .running then
        some { conn with workers := conn.workers.set serial { worker with phase := .finished } }
      else none
  | .spawnFails serial => do
      let worker ← conn.workers[serial]?
      if worker.phase = .running then
        some ⟨conn.workers.set serial { worker with phase := .cleaned, terminal := true },
          remove conn.table worker.requestId⟩
      else none
  | .receive serial => do
      let worker ← conn.workers[serial]?
      if worker.terminal then
        some { conn with workers := conn.workers.set serial { worker with received := true } }
      else none
  | .cleanup serial => do
      let worker ← conn.workers[serial]?
      if worker.phase = .finished then
        some ⟨conn.workers.set serial { worker with phase := .cleaned },
          remove conn.table worker.requestId⟩
      else none

/-- A request is the last one with its id. -/
def Latest (conn : Cancels) (requestId serial : Nat) : Prop :=
  (∃ worker, conn.workers[serial]? = some worker ∧ worker.requestId = requestId) ∧
    ∀ later worker, conn.workers[later]? = some worker → worker.requestId = requestId →
      later ≤ serial

/-- A cancel request sets the flag of the latest request with its target, while that
is live, and of no other live request.  The table is empty when all requests have
ended. -/
def Reaches (conn : Cancels) : Prop :=
  (∀ target next, conn.step (.cancel target) = some next →
    (∀ serial worker, conn.Latest target serial → conn.workers[serial]? = some worker →
      worker.phase = .running → next.workers[serial]? = some { worker with cancel := true }) ∧
    ∀ other worker, conn.workers[other]? = some worker → worker.phase = .running →
      ¬ conn.Latest target other → next.workers[other]? = some worker) ∧
  ((∀ worker ∈ conn.workers, worker.phase = .cleaned) → conn.table = [])

/-- An id is used again only behind the cleanup of every earlier request with it. -/
def ReusesCleaned (conn : Cancels) : CancelStep → Prop
  | .dispatch requestId =>
      ∀ worker ∈ conn.workers, worker.requestId = requestId → worker.phase = .cleaned
  | _ => True

theorem mem_remove {table : List (Nat × Nat)} {requestId : Nat} {entry : Nat × Nat} :
    entry ∈ remove table requestId ↔ entry ∈ table ∧ entry.1 ≠ requestId := by
  simp [remove]

theorem mem_insert {table : List (Nat × Nat)} {requestId serial : Nat} {entry : Nat × Nat} :
    entry ∈ insert table requestId serial ↔
      entry = (requestId, serial) ∨ entry ∈ table ∧ entry.1 ≠ requestId := by
  simp [insert]

theorem mem_of_get {table : List (Nat × Nat)} {requestId serial : Nat}
    (found : get table requestId = some serial) : (requestId, serial) ∈ table := by
  obtain ⟨⟨key, value⟩, here, rfl⟩ := Option.map_eq_some_iff.mp found
  have same : key = requestId := by simpa using List.find?_some here
  rw [← same]
  exact List.mem_of_find?_eq_some here

theorem get_of_mem {table : List (Nat × Nat)} {requestId serial : Nat}
    (member : (requestId, serial) ∈ table) : ∃ found, get table requestId = some found := by
  have some : (table.find? fun entry => entry.1 = requestId).isSome = true :=
    List.find?_isSome.mpr ⟨_, member, by simp⟩
  obtain ⟨entry, found⟩ := Option.isSome_iff_exists.mp some
  exact ⟨entry.2, by rw [get, found]; rfl⟩

/-- The id of a request, and whether it is not cleaned up. -/
def key (worker : StreamWorker) : Nat × Bool :=
  (worker.requestId, decide (worker.phase ≠ .cleaned))

/-- Every request that is not cleaned up has its entry, and there are no others; and
only the last request with an id is not cleaned up. -/
structure Registered (keys : List (Nat × Bool)) (table : List (Nat × Nat)) : Prop where
  entries : ∀ requestId serial, (requestId, serial) ∈ table ↔
    keys[serial]? = some (requestId, true)
  former : ∀ (earlier later requestId : Nat) (kept alsoKept : Bool),
    keys[earlier]? = some (requestId, kept) → keys[later]? = some (requestId, alsoKept) →
      earlier < later → kept = false

namespace Registered

variable {keys : List (Nat × Bool)} {table : List (Nat × Nat)}

theorem unique (registered : Registered keys table) {requestId serial other : Nat}
    (here : keys[serial]? = some (requestId, true))
    (there : keys[other]? = some (requestId, true)) : serial = other := by
  rcases Nat.lt_trichotomy serial other with before | equal | behind
  · exact absurd (registered.former _ _ _ _ _ here there before) (by decide)
  · exact equal
  · exact absurd (registered.former _ _ _ _ _ there here behind) (by decide)

theorem get_eq_some_iff (registered : Registered keys table) {requestId serial : Nat} :
    get table requestId = some serial ↔ keys[serial]? = some (requestId, true) := by
  constructor
  · intro got
    exact (registered.entries requestId serial).mp (mem_of_get got)
  · intro here
    obtain ⟨found, got⟩ := get_of_mem ((registered.entries requestId serial).mpr here)
    have there := (registered.entries requestId found).mp (mem_of_get got)
    rw [got, registered.unique there here]

theorem dispatch (registered : Registered keys table) {requestId : Nat}
    (unused : ∀ (serial : Nat) (kept : Bool), keys[serial]? = some (requestId, kept) → kept = false) :
    Registered (keys ++ [(requestId, true)]) (insert table requestId keys.length) := by
  have split (serial : Nat) (key : Nat × Bool) :
      (keys ++ [(requestId, true)])[serial]? = some key ↔
        keys[serial]? = some key ∨ serial = keys.length ∧ key = (requestId, true) := by
    rw [List.getElem?_append]
    split
    · rename_i inside
      constructor
      · exact Or.inl
      · rintro (before | ⟨last, _⟩)
        · exact before
        · omega
    · rename_i outside
      rw [List.getElem?_eq_none (show keys.length ≤ serial by omega), List.getElem?_singleton]
      constructor
      · intro found
        right
        split at found
        · exact ⟨by omega, (Option.some.inj found).symm⟩
        · simp at found
      · rintro (before | ⟨rfl, rfl⟩)
        · simp at before
        · simp
  constructor
  case entries =>
    intro other serial
    rw [mem_insert, split, registered.entries]
    constructor
    · rintro (new | ⟨before, _⟩)
      · obtain ⟨rfl, rfl⟩ := Prod.mk.inj new
        exact Or.inr ⟨rfl, rfl⟩
      · exact Or.inl before
    · rintro (before | ⟨rfl, new⟩)
      · right
        refine ⟨before, ?_⟩
        rintro rfl
        exact absurd (unused serial true before) (by decide)
      · obtain ⟨rfl, _⟩ := Prod.mk.inj new
        exact Or.inl rfl
  case former =>
    intro earlier later other kept alsoKept here there before
    rcases (split earlier _).mp here with first | ⟨rfl, _⟩
    · rcases (split later _).mp there with second | ⟨_, new⟩
      · exact registered.former _ _ _ _ _ first second before
      · obtain ⟨rfl, _⟩ := Prod.mk.inj new
        exact unused earlier kept first
    · have inside : later < (keys ++ [(requestId, true)]).length :=
        (List.getElem?_eq_some_iff.mp there).1
      simp at inside
      omega

theorem cleanup (registered : Registered keys table) {requestId serial : Nat}
    (here : keys[serial]? = some (requestId, true)) :
    Registered (keys.set serial (requestId, false)) (remove table requestId) := by
  have inside := (List.getElem?_eq_some_iff.mp here).1
  constructor
  case entries =>
    intro other place
    rw [mem_remove, registered.entries]
    by_cases same : serial = place
    · subst same
      rw [List.getElem?_set_self inside, here]
      constructor
      · rintro ⟨found, apart⟩
        obtain ⟨rfl, _⟩ := Prod.mk.inj (Option.some.inj found)
        exact absurd rfl apart
      · simp
    · rw [List.getElem?_set_ne same]
      constructor
      · exact And.left
      · intro there
        refine ⟨there, ?_⟩
        rintro rfl
        exact same (registered.unique here there)
  case former =>
    intro earlier later other kept alsoKept first second before
    by_cases early : serial = earlier
    · subst early
      rw [List.getElem?_set_self inside] at first
      exact (Prod.mk.inj (Option.some.inj first)).2.symm
    · rw [List.getElem?_set_ne early] at first
      by_cases late : serial = later
      · subst late
        rw [List.getElem?_set_self inside] at second
        obtain ⟨rfl, _⟩ := Prod.mk.inj (Option.some.inj second)
        exact registered.former _ _ _ _ _ first here before
      · rw [List.getElem?_set_ne late] at second
        exact registered.former _ _ _ _ _ first second before

end Registered

/-- The ids of a connection are registered. -/
def Sound (conn : Cancels) : Prop :=
  Registered (conn.workers.map key) conn.table

theorem sound_empty : empty.Sound := by
  constructor <;> simp [empty]

variable {conn next : Cancels}

theorem Sound.reaches (sound : conn.Sound) : conn.Reaches := by
  have keyed {serial : Nat} {worker : StreamWorker} (here : conn.workers[serial]? = some worker) :
      (conn.workers.map key)[serial]? = some (key worker) := by
    simp [here]
  constructor
  · intro target next stepped
    constructor
    · rintro serial worker ⟨⟨_, here, rfl⟩, _⟩ found running
      obtain rfl : _ = worker := Option.some.inj (here.symm.trans found)
      have place := keyed here
      simp only [key, running, ne_eq, reduceCtorEq, not_false_eq_true, decide_true] at place
      simp only [step, sound.get_eq_some_iff.mpr place, Option.some.injEq] at stepped
      subst stepped
      simp [store, here]
    · intro other worker here running notLatest
      cases got : get conn.table target with
      | none =>
          simp only [step, got, Option.some.injEq] at stepped
          subst stepped
          exact here
      | some serial =>
          simp only [step, got, Option.some.injEq] at stepped
          subst stepped
          have apart : serial ≠ other := by
            rintro rfl
            have place := (keyed here).symm.trans (sound.get_eq_some_iff.mp got)
            obtain ⟨named, _⟩ := Prod.mk.inj (Option.some.inj place)
            apply notLatest
            refine ⟨⟨_, here, named⟩, ?_⟩
            intro later another found same
            by_contra beyond
            have first := keyed here
            have second := keyed found
            rw [key, named] at first
            rw [key, same] at second
            have := sound.former _ _ _ _ _ first second (by omega)
            simp [running] at this
          simp [store, apart, here]
  · intro ended
    apply List.eq_nil_iff_forall_not_mem.mpr
    rintro ⟨requestId, serial⟩ member
    have place := (sound.entries _ _).mp member
    rw [List.getElem?_map] at place
    obtain ⟨worker, here, same⟩ := Option.map_eq_some_iff.mp place
    have cleaned := ended worker (List.mem_of_getElem? here)
    simp [key, cleaned] at same

/-- A request changes and neither its id nor whether it is cleaned up does. -/
theorem Sound.set (sound : conn.Sound) {serial : Nat} {worker moved : StreamWorker}
    (here : conn.workers[serial]? = some worker) (same : key moved = key worker) :
    Sound { conn with workers := conn.workers.set serial moved } := by
  have keys : (conn.workers.set serial moved).map key = conn.workers.map key := by
    have inside := (List.getElem?_eq_some_iff.mp here).1
    apply List.ext_getElem?
    intro place
    rw [List.getElem?_map, List.getElem?_map]
    by_cases moves : serial = place
    · subst moves
      rw [List.getElem?_set_self inside, here, Option.map_some, same, Option.map_some]
    · rw [List.getElem?_set_ne moves]
  rw [Sound, keys]
  exact sound

theorem Sound.cleanup (sound : conn.Sound) {serial : Nat} {worker moved : StreamWorker}
    (here : conn.workers[serial]? = some worker) (kept : worker.phase ≠ .cleaned)
    (cleaned : key moved = (worker.requestId, false)) :
    Sound ⟨conn.workers.set serial moved, remove conn.table worker.requestId⟩ := by
  have place : (conn.workers.map key)[serial]? = some (worker.requestId, true) := by
    simp [here, key, kept]
  have left := Registered.cleanup sound place
  rw [Sound, List.map_set, cleaned]
  exact left

theorem map_key_store (workers : List StreamWorker) (serial : Nat) :
    (store workers serial).map key = workers.map key := by
  apply List.ext_getElem?
  intro place
  rw [store, List.getElem?_map, List.getElem?_map, List.getElem?_modify]
  cases workers[place]? with
  | none => rfl
  | some worker =>
      simp only [Option.map_eq_map, Option.map_some]
      split <;> rfl

/-- A step that uses no id before its cleanup keeps the ids registered. -/
theorem Sound.step {label : CancelStep} (sound : conn.Sound)
    (allowed : conn.ReusesCleaned label) (stepped : conn.step label = some next) :
    next.Sound := by
  cases label with
  | dispatch requestId =>
      simp only [Cancels.step, Option.ite_none_right_eq_some, Option.some.injEq] at stepped
      obtain ⟨_, rfl⟩ := stepped
      have unused (serial : Nat) (kept : Bool)
          (found : (conn.workers.map key)[serial]? = some (requestId, kept)) : kept = false := by
        rw [List.getElem?_map] at found
        obtain ⟨worker, here, same⟩ := Option.map_eq_some_iff.mp found
        obtain ⟨named, rfl⟩ := Prod.mk.inj same
        simp [allowed worker (List.mem_of_getElem? here) named]
      have joined := Registered.dispatch sound unused
      rw [List.length_map] at joined
      simpa [Sound, key] using joined
  | cancel target =>
      cases got : get conn.table target with
      | none =>
          simp only [Cancels.step, got, Option.some.injEq] at stepped
          exact stepped ▸ sound
      | some serial =>
          simp only [Cancels.step, got, Option.some.injEq] at stepped
          subst stepped
          rw [Sound, map_key_store]
          exact sound
  | answer serial =>
      simp only [Cancels.step, Option.bind_eq_bind, Option.bind_eq_some_iff,
        Option.ite_none_right_eq_some, Option.some.injEq] at stepped
      obtain ⟨worker, here, running, rfl⟩ := stepped
      apply sound.set here
      simp [key, running]
  | stop serial =>
      simp only [Cancels.step, Option.bind_eq_bind, Option.bind_eq_some_iff,
        Option.ite_none_right_eq_some, Option.some.injEq] at stepped
      obtain ⟨worker, here, running, rfl⟩ := stepped
      apply sound.set here
      simp [key, running]
  | spawnFails serial =>
      simp only [Cancels.step, Option.bind_eq_bind, Option.bind_eq_some_iff,
        Option.ite_none_right_eq_some, Option.some.injEq] at stepped
      obtain ⟨worker, here, running, rfl⟩ := stepped
      exact sound.cleanup here (by simp [running]) rfl
  | receive serial =>
      simp only [Cancels.step, Option.bind_eq_bind, Option.bind_eq_some_iff,
        Option.ite_none_right_eq_some, Option.some.injEq] at stepped
      obtain ⟨worker, here, _, rfl⟩ := stepped
      exact sound.set here rfl
  | cleanup serial =>
      simp only [Cancels.step, Option.bind_eq_bind, Option.bind_eq_some_iff,
        Option.ite_none_right_eq_some, Option.some.injEq] at stepped
      obtain ⟨worker, here, finished, rfl⟩ := stepped
      exact sound.cleanup here (by simp [finished]) rfl

/-- When no id is used again before its cleanup, cancels reach what they name. -/
theorem cancels_reach (labels : List CancelStep) (conn : Cancels)
    (meets : Allowed step ReusesCleaned empty labels)
    (reached : run step empty labels = some conn) : conn.Reaches := by
  apply Sound.reaches
  apply invariant_of_run _ sound_empty meets reached
  intro before label after sound allowed stepped
  exact sound.step allowed stepped

/-- An id is used again behind the cleanup of its first request. -/
theorem cancels_reach_reused :
    Reaches ⟨[⟨7, .cleaned, false, true, true⟩, ⟨7, .running, false, false, false⟩],
      [(7, 1)]⟩ := by
  apply cancels_reach [.dispatch 7, .answer 0, .receive 0, .cleanup 0, .dispatch 7] _ _ (by decide)
  refine Allowed.cons (by simp [ReusesCleaned, empty]) rfl (Allowed.cons trivial rfl
    (Allowed.cons trivial rfl (Allowed.cons trivial rfl (Allowed.cons ?_ rfl trivial))))
  simp [ReusesCleaned, empty]

/-- An id is used again when its terminal frame has come, the cleanup of the first
request removes the entry of the second, and a cancel request for that finds nothing. -/
theorem late_cleanup_loses_cancel :
    ∃ conn, run step empty [.dispatch 7, .answer 0, .receive 0, .dispatch 7, .cleanup 0] =
      some conn ∧ ¬ conn.Reaches := by
  refine ⟨⟨[⟨7, .cleaned, false, true, true⟩, ⟨7, .running, false, false, false⟩], []⟩,
    by decide, ?_⟩
  rintro ⟨reaches, _⟩
  have latest : Latest ⟨[⟨7, .cleaned, false, true, true⟩, ⟨7, .running, false, false, false⟩],
      []⟩ 7 1 := by
    refine ⟨⟨_, rfl, rfl⟩, ?_⟩
    intro later worker found _
    have inside := (List.getElem?_eq_some_iff.mp found).1
    simp at inside
    omega
  have set := (reaches 7 _ rfl).1 1 _ latest rfl rfl
  simp at set

end Cancels

end Tephra.Server
