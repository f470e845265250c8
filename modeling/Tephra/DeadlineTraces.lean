import Tephra.ConnDeadlines

/-!
# Timed traces of a connection

What a deadline is measured from can be read off the polls of a trace: the first poll inside
the frame that is not complete yet, the last poll that received a byte, and the hello that was
accepted.  The state of the reader follows these.
-/

namespace Tephra.Reaping

open Server Histories Conn

/-- A poll of a trace. -/
structure Poll where
  readings : Readings
  outcome : Outcome

namespace Poll

/-- The poll finds the frame not complete. -/
def inFrame (poll : Poll) : Bool :=
  match poll.outcome with
  | .progress => true
  | .stalled => true
  | _ => false

/-- The poll has received a byte. -/
def receives (poll : Poll) : Bool :=
  match poll.outcome with
  | .frame _ => true
  | .progress => true
  | _ => false

end Poll

def polls (trace : List Label) : List Poll :=
  trace.filterMap fun label =>
    match label with
    | .work _ => none
    | .poll readings outcome => some ⟨readings, outcome⟩

/-- The polls inside the frame that is not complete yet. -/
def currentFrame (polls : List Poll) : List Poll :=
  (polls.reverse.takeWhile Poll.inFrame).reverse

/-- When the frame that is not complete yet was begun. -/
def begunAt (polls : List Poll) : Option Nat :=
  (currentFrame polls).head?.map fun first => first.readings.started

/-- When the last byte was received, or the connection accepted. -/
def lastByteAt (connStart : Nat) (polls : List Poll) : Nat :=
  ((polls.filter Poll.receives).getLast?.map fun last => last.readings.polled).getD connStart

/-- A hello of this protocol version, with a token that is accepted where one is asked for. -/
def HelloAccepted (auth : Option (List UInt8 → Bool)) (request : Request) : Prop :=
  ∃ token, request = .hello protocolVersion token ∧
    ∀ accepts, auth = some accepts →
      ∃ text, token = some text ∧ validUtf8 text = true ∧ accepts text = true

/-- A hello has been accepted. -/
def Greeted (auth : Option (List UInt8 → Bool)) (trace : List Label) : Prop :=
  ∃ poll ∈ polls trace, ∃ request, poll.outcome = .frame request ∧ HelloAccepted auth request

theorem polls_snoc_work (trace : List Label) (step : WorkStep) :
    polls (trace ++ [.work step]) = polls trace := by
  simp [polls]

theorem polls_snoc_poll (trace : List Label) (readings : Readings) (outcome : Outcome) :
    polls (trace ++ [.poll readings outcome]) = polls trace ++ [⟨readings, outcome⟩] := by
  simp [polls]

theorem begunAt_snoc (polls : List Poll) (poll : Poll) :
    begunAt (polls ++ [poll]) =
      if poll.inFrame then some ((begunAt polls).getD poll.readings.started) else none := by
  rw [begunAt, currentFrame, List.reverse_append, List.reverse_singleton, List.singleton_append,
    List.takeWhile_cons]
  cases poll.inFrame with
  | false => rfl
  | true =>
      rw [begunAt, currentFrame]
      cases polls.reverse.takeWhile Poll.inFrame with
      | nil => rfl
      | cons last more =>
          simp only [if_true, List.reverse_cons]
          cases more.reverse <;> rfl

theorem lastByteAt_snoc (connStart : Nat) (polls : List Poll) (poll : Poll) :
    lastByteAt connStart (polls ++ [poll]) =
      if poll.receives then poll.readings.polled else lastByteAt connStart polls := by
  rw [lastByteAt, List.filter_append, List.filter_singleton]
  cases poll.receives with
  | false => simp [lastByteAt]
  | true => simp

theorem greeted_snoc (auth : Option (List UInt8 → Bool)) (trace : List Label)
    (readings : Readings) (outcome : Outcome) :
    Greeted auth (trace ++ [.poll readings outcome]) ↔
      Greeted auth trace ∨ ∃ request, outcome = .frame request ∧ HelloAccepted auth request := by
  rw [Greeted, polls_snoc_poll]
  simp [Greeted, or_and_right, exists_or]

theorem handleHello_ack (auth : Option (List UInt8 → Bool)) (request : Request) :
    (∃ version, handleHello auth request = .ack version) ↔ HelloAccepted auth request := by
  have other : ∀ request, (∀ version token, request ≠ .hello version token) →
      handleHello auth request = .unauthenticated "first frame must be a hello" →
      ((∃ version, handleHello auth request = .ack version) ↔ HelloAccepted auth request) := by
    intro request none reply
    constructor
    · rintro ⟨version, ack⟩
      rw [reply] at ack
      cases ack
    · rintro ⟨token, same, _⟩
      exact absurd same (none _ token)
  cases request with
  | hello version token =>
      by_cases spoken : version = protocolVersion
      · subst spoken
        cases auth with
        | none => simp [handleHello, HelloAccepted]
        | some accepts =>
            cases token with
            | none => simp [handleHello, HelloAccepted]
            | some text =>
                cases utf8 : validUtf8 text <;> cases accepted : accepts text <;>
                  simp [handleHello, HelloAccepted, Option.filter, utf8, accepted]
      · constructor
        · rintro ⟨_, ack⟩
          simp [handleHello, spoken] at ack
        · rintro ⟨_, same, _⟩
          cases same
          exact absurd rfl spoken
  | _ => exact other _ (by simp) rfl

theorem lapsed_iff (timeout start now : Nat) :
    lapsed timeout start now = true ↔ timeout ≠ 0 ∧ start + timeout < now := by
  rw [lapsed, Bool.and_eq_true, bne_iff_ne, decide_eq_true_eq]
  refine and_congr_right fun _ => ?_
  omega

section Traces

variable (config : Config) (auth : Option (List UInt8 → Bool)) (connStart : Nat)

/-- The state behind a trace. -/
structure Tracks (trace : List Label) (conn : Conn) : Prop where
  counted : conn.Counted
  /-- Nothing is in flight in front of an accepted hello. -/
  silent : conn.established = false → conn.work = .none
  greeted : conn.closed = none → (conn.established = true ↔ Greeted auth trace)
  frameStartedAt_eq : conn.closed = none → conn.frameStartedAt = begunAt (polls trace)
  lastByteAt_le : conn.closed = none → lastByteAt connStart (polls trace) ≤ conn.lastFrameAt

variable {config auth connStart}

theorem tracks_start : Tracks auth connStart [] (Conn.start config connStart) where
  counted := ⟨.new _, .new _, .new _, .new _⟩
  silent _ := rfl
  greeted _ := by simp [Conn.start, Greeted, polls]
  frameStartedAt_eq _ := rfl
  lastByteAt_le _ := Nat.le_refl _

theorem Tracks.work {trace : List Label} {before after : Conn} {label : WorkStep}
    (tracks : Tracks auth connStart trace before) (taken : before.workStep label = some after) :
    Tracks auth connStart (trace ++ [.work label]) after := by
  have worked := worked_of_workStep taken
  have greeted_eq : Greeted auth (trace ++ [.work label]) = Greeted auth trace := by
    rw [Greeted, polls_snoc_work, Greeted]
  constructor
  case counted => exact worked.counted tracks.counted
  case silent =>
    intro waiting
    exact worked.silent (tracks.silent (worked.established_eq ▸ waiting))
  case greeted =>
    intro going
    rw [greeted_eq, worked.established_eq]
    exact tracks.greeted (worked.closed_eq ▸ going)
  case frameStartedAt_eq =>
    intro going
    rw [polls_snoc_work, worked.frameStartedAt_eq]
    exact tracks.frameStartedAt_eq (worked.closed_eq ▸ going)
  case lastByteAt_le =>
    intro going
    rw [polls_snoc_work, worked.lastFrameAt_eq]
    exact tracks.lastByteAt_le (worked.closed_eq ▸ going)

theorem tracks_ends {trace : List Label} {after : Conn} {closing : Closing}
    (counted : after.Counted) (silent : after.established = false → after.work = .none)
    (closed : after.closed = some closing) : Tracks auth connStart trace after := by
  have ended : ∀ {p : Prop}, after.closed = none → p := by
    intro p going
    rw [closed] at going
    cases going
  exact ⟨counted, silent, ended, ended, ended⟩

theorem Tracks.frame {trace : List Label} {before after : Conn} {readings : Readings}
    {request : Request} (tracks : Tracks auth connStart trace before)
    (going : before.closed = none)
    (taken : before.poll config auth connStart readings (.frame request) = some after) :
    Tracks auth connStart (trace ++ [.poll readings (.frame request)]) after := by
  have started : begunAt (polls (trace ++ [.poll readings (.frame request)])) = none := by
    rw [polls_snoc_poll, begunAt_snoc]
    rfl
  have received : lastByteAt connStart (polls (trace ++ [.poll readings (.frame request)])) =
      readings.polled := by
    rw [polls_snoc_poll, lastByteAt_snoc]
    rfl
  have counted : (before.framed readings).Counted := tracks.counted.of_eq rfl rfl
  rcases poll_frame taken with ⟨established, sent⟩ | ⟨_, ⟨version, reply⟩, rfl⟩ | ⟨_, _, rfl⟩
  · obtain ⟨established_eq, lastFrameAt_eq, frameStartedAt_eq, _, _⟩ := dispatch_reader sent
    have established : after.established = true := established_eq.trans established
    have greeted := (tracks.greeted going).1 (established_eq.symm.trans established)
    constructor
    case counted => exact counted.dispatch sent
    case silent =>
      intro waiting
      rw [established] at waiting
      cases waiting
    case greeted =>
      intro _
      rw [greeted_snoc]
      exact ⟨fun _ => .inl greeted, fun _ => established⟩
    case frameStartedAt_eq =>
      intro _
      rw [frameStartedAt_eq, started]
      rfl
    case lastByteAt_le =>
      intro _
      rw [received, lastFrameAt_eq]
      exact Nat.le_refl _
  · constructor
    case counted => exact counted.of_eq rfl rfl
    case silent =>
      intro waiting
      cases waiting
    case greeted =>
      intro _
      rw [greeted_snoc]
      have accepted := (handleHello_ack auth request).1 ⟨version, reply⟩
      exact ⟨fun _ => .inr ⟨request, rfl, accepted⟩, fun _ => rfl⟩
    case frameStartedAt_eq =>
      intro _
      rw [started]
      rfl
    case lastByteAt_le =>
      intro _
      rw [received]
      exact Nat.le_refl _
  · exact tracks_ends (counted.of_eq rfl rfl) tracks.silent rfl

/-- The check of a frame that is not complete. -/
theorem Tracks.checkFrame {trace : List Label} {conn : Conn} {readings : Readings}
    {outcome : Outcome} (tracks : Tracks auth connStart trace conn) (going : conn.closed = none)
    {lastFrameAt : Nat} (inFrame : Poll.inFrame ⟨readings, outcome⟩ = true)
    (received : lastByteAt connStart (polls trace ++ [⟨readings, outcome⟩]) ≤ lastFrameAt) :
    Tracks auth connStart (trace ++ [.poll readings outcome])
      (Conn.checkFrame config connStart readings { conn with lastFrameAt := lastFrameAt }) := by
  constructor
  case counted => exact tracks.counted.of_eq rfl rfl
  case silent => exact tracks.silent
  case greeted =>
    intro _
    have no_frame : ¬ ∃ request, outcome = .frame request ∧ HelloAccepted auth request := by
      rintro ⟨request, rfl, _⟩
      cases inFrame
    rw [greeted_snoc, or_iff_left no_frame]
    exact tracks.greeted going
  case frameStartedAt_eq =>
    intro _
    rw [polls_snoc_poll, begunAt_snoc, if_pos inFrame, ← tracks.frameStartedAt_eq going]
    rfl
  case lastByteAt_le =>
    intro _
    rw [polls_snoc_poll]
    exact received

/-- Work in flight has come from a frame behind an accepted hello. -/
theorem Tracks.established_of_activity {trace : List Label} {conn quiet found : Conn} {gaps : Gaps}
    (tracks : Tracks auth connStart trace conn) (counted : quiet.Counted)
    (work_eq : quiet.work = conn.work)
    (looked : quiet.hasActivity gaps = some (true, found)) : conn.established = true := by
  have spec := hasActivity_looked counted looked
  by_contra waiting
  apply spec.active rfl
  rw [work_eq]
  exact tracks.silent (by simpa using waiting)

/-- A look at the deadlines at a frame boundary. -/
theorem Tracks.quiet {trace : List Label} {before after : Conn} {readings : Readings}
    {gaps : Gaps} (tracks : Tracks auth connStart trace before) (going : before.closed = none)
    (taken : before.poll config auth connStart readings (.quiet gaps) = some after) :
    Tracks auth connStart (trace ++ [.poll readings (.quiet gaps)]) after := by
  have started : begunAt (polls (trace ++ [.poll readings (.quiet gaps)])) = none := by
    rw [polls_snoc_poll, begunAt_snoc]
    rfl
  have received : lastByteAt connStart (polls (trace ++ [.poll readings (.quiet gaps)])) =
      lastByteAt connStart (polls trace) := by
    rw [polls_snoc_poll, lastByteAt_snoc]
    rfl
  have greeted_eq : Greeted auth (trace ++ [.poll readings (.quiet gaps)]) ↔
      Greeted auth trace := by
    rw [greeted_snoc]
    simp
  have counted : Conn.Counted { before with frameStartedAt := none } :=
    tracks.counted.of_eq rfl rfl
  have last_le := tracks.lastByteAt_le going
  rcases poll_quiet taken with rfl | ⟨_, rfl⟩ | ⟨reason, active, found, missed, looked, rfl⟩
  · exact tracks_ends (tracks.counted.of_eq rfl rfl) tracks.silent rfl
  · constructor
    case counted => exact counted
    case silent => exact tracks.silent
    case greeted =>
      intro _
      rw [greeted_eq]
      exact tracks.greeted going
    case frameStartedAt_eq =>
      intro _
      rw [started]
    case lastByteAt_le =>
      intro _
      rw [received]
      exact last_le
  · have spec := hasActivity_looked counted looked
    have established_eq : found.established = before.established := spec.worked.established_eq
    have silent : found.established = false → found.work = .none := by
      intro waiting
      exact spec.worked.silent (tracks.silent (established_eq.symm.trans waiting))
    have found_counted := spec.worked.counted counted
    cases active with
    | false => exact tracks_ends (found_counted.of_eq rfl rfl) silent rfl
    | true =>
        have established := tracks.established_of_activity counted rfl looked
        -- only the idle deadline can have passed
        have idle : lapsed config.idleTimeout before.lastFrameAt readings.idle = true := by
          by_contra in_time
          rw [breached, established, if_neg (by simp), if_neg in_time] at missed
          cases missed
        constructor
        case counted => exact found_counted.of_eq rfl rfl
        case silent => exact silent
        case greeted =>
          intro _
          rw [greeted_eq, ← tracks.greeted going, ← established_eq]
          rfl
        case frameStartedAt_eq =>
          intro _
          rw [started]
          exact spec.worked.frameStartedAt_eq
        case lastByteAt_le =>
          intro _
          rw [received]
          have passed := ((lapsed_iff _ _ _).1 idle).2
          have refreshed := readings.refreshed_le
          show lastByteAt connStart (polls trace) ≤ readings.refreshed
          omega

theorem Tracks.step {trace : List Label} {before after : Conn} {label : Label}
    (tracks : Tracks auth connStart trace before)
    (taken : before.step config auth connStart label = some after) :
    Tracks auth connStart (trace ++ [label]) after := by
  cases label with
  | work label => exact tracks.work taken
  | poll readings outcome =>
      rw [Conn.step] at taken
      split at taken
      · cases taken
      rename_i still
      have going : before.closed = none := by simpa using still
      have counted := tracks.counted
      cases outcome with
      | frame request => exact tracks.frame going taken
      | quiet gaps => exact tracks.quiet going taken
      | eof =>
          cases taken
          exact tracks_ends (counted.of_eq rfl rfl) tracks.silent rfl
      | failed =>
          cases taken
          exact tracks_ends (counted.of_eq rfl rfl) tracks.silent rfl
      | progress =>
          rw [Conn.poll] at taken
          split at taken
          · cases taken
            exact tracks_ends (counted.of_eq rfl rfl) tracks.silent rfl
          · cases taken
            apply tracks.checkFrame going rfl
            rw [lastByteAt_snoc]
            exact Nat.le_refl _
      | stalled =>
          rw [Conn.poll] at taken
          split at taken
          · cases taken
            exact tracks_ends (counted.of_eq rfl rfl) tracks.silent rfl
          · cases taken
            apply tracks.checkFrame going rfl
            rw [lastByteAt_snoc]
            exact tracks.lastByteAt_le going

theorem tracks_of_run {trace : List Label} {last : Conn}
    (reached : run (Conn.step config auth connStart) (Conn.start config connStart) trace =
      some last) : Tracks auth connStart trace last := by
  induction trace using List.reverseRecOn generalizing last with
  | nil =>
      cases reached
      exact tracks_start
  | append_singleton trace label ih =>
      obtain ⟨middle, front, back⟩ := run_append reached
      simp only [run] at back
      split at back
      · cases back
      · rename_i next taken
        cases back
        exact (ih front).step taken

end Traces

/-- No overflow read takes its permit between the look at the permits and the look at the
slots. -/
def Steady : Label → Prop
  | .poll _ (.quiet gaps) => .permit ∉ gaps.readOverflow
  | _ => True

/-- What the deadlines say of a step behind a trace.  A timeout of zero is none. -/
structure Enforced (config : Config) (auth : Option (List UInt8 → Bool)) (connStart : Nat)
    (trace : List Label) (before : Conn) (label : Label) (after : Conn) : Prop where
  /-- A frame that is late is closed at the poll that finds it incomplete. -/
  incomplete : ∀ readings outcome begun, label = .poll readings outcome →
    Poll.inFrame ⟨readings, outcome⟩ = true → begunAt (polls trace) = some begun →
    config.incompleteFrameTimeout ≠ 0 →
    begun + config.incompleteFrameTimeout < readings.polled → after.closed ≠ none
  /-- A connection that is late with its hello is closed at a poll without a frame. -/
  handshake : ∀ readings outcome, label = .poll readings outcome →
    (∀ request, outcome ≠ .frame request) → ¬ Greeted auth trace → config.handshakeTimeout ≠ 0 →
    connStart + config.handshakeTimeout < readings.polled → after.closed ≠ none
  hello : after.dispatched ≠ before.dispatched → Greeted auth trace
  /-- A connection that is closed as idle has received no byte for the timeout. -/
  idle : before.closed = none → after.closed = some (.reaped .idleTimeout) →
    ∃ readings outcome, label = .poll readings outcome ∧
      lastByteAt connStart (polls (trace ++ [label])) + config.idleTimeout < readings.idle

/-- A connection that is closed as idle at a frame boundary has nothing in flight. -/
def SparesBusy (label : Label) (after : Conn) : Prop :=
  ∀ readings gaps, label = .poll readings (.quiet gaps) →
    after.closed = some (.reaped .idleTimeout) → after.work = .none

section Traces

variable {config : Config} {auth : Option (List UInt8 → Bool)} {connStart : Nat}

theorem checkFrame_closed (readings : Readings) (conn : Conn) :
    (Conn.checkFrame config connStart readings conn).closed =
      (conn.midFrameReason config connStart readings).1.map .reaped :=
  rfl

theorem midFrameReason_incomplete {conn : Conn} {readings : Readings} {begun : Nat}
    (started : conn.frameStartedAt = some begun) (timeout : config.incompleteFrameTimeout ≠ 0)
    (late : begun + config.incompleteFrameTimeout < readings.polled) :
    (conn.midFrameReason config connStart readings).1 ≠ none := by
  have passed : lapsed config.incompleteFrameTimeout begun readings.frame = true := by
    rw [lapsed_iff]
    have started_le := readings.started_le
    have frame_le := readings.frame_le
    exact ⟨timeout, by omega⟩
  simp [midFrameReason, started, passed]

theorem lapsed_handshake {readings : Readings} (timeout : config.handshakeTimeout ≠ 0)
    (late : connStart + config.handshakeTimeout < readings.polled) :
    lapsed config.handshakeTimeout connStart readings.handshake = true := by
  rw [lapsed_iff]
  have started_le := readings.started_le
  have frame_le := readings.frame_le
  have handshake_le := readings.handshake_le
  exact ⟨timeout, by omega⟩

theorem midFrameReason_handshake {conn : Conn} {readings : Readings}
    (waiting : conn.established = false) (timeout : config.handshakeTimeout ≠ 0)
    (late : connStart + config.handshakeTimeout < readings.polled) :
    (conn.midFrameReason config connStart readings).1 ≠ none := by
  have passed := lapsed_handshake timeout late
  simp only [midFrameReason, waiting, passed]
  split <;> simp

theorem midFrameReason_idle {conn : Conn} {readings : Readings}
    (reason : (conn.midFrameReason config connStart readings).1 = some .idleTimeout) :
    lapsed config.idleTimeout conn.lastFrameAt readings.idle = true := by
  by_contra in_time
  simp only [midFrameReason, in_time] at reason
  split at reason
  · cases reason
  · split at reason
    · cases reason
    · cases reason

theorem breached_handshake {conn : Conn} {readings : Readings} (waiting : conn.established = false)
    (timeout : config.handshakeTimeout ≠ 0)
    (late : connStart + config.handshakeTimeout < readings.polled) :
    conn.breached config connStart readings = some .handshakeTimeout := by
  rw [breached, waiting, lapsed_handshake timeout late]
  rfl

theorem breached_idle {conn : Conn} {readings : Readings}
    (missed : conn.breached config connStart readings = some .idleTimeout) :
    lapsed config.idleTimeout conn.lastFrameAt readings.idle = true := by
  by_contra in_time
  rw [breached, if_neg in_time] at missed
  split at missed
  · cases missed
  · cases missed

/-- A poll that ends the loop for another reason than idleness. -/
theorem enforced_ends {trace : List Label} {before after : Conn} {label : Label}
    {closing : Closing} (closed : after.closed = some closing)
    (other : closing ≠ .reaped .idleTimeout)
    (dispatched_eq : after.dispatched = before.dispatched) :
    Enforced config auth connStart trace before label after := by
  have ended : after.closed ≠ none := by
    rw [closed]
    simp
  constructor
  case incomplete => exact fun _ _ _ _ _ _ _ _ => ended
  case handshake => exact fun _ _ _ _ _ _ _ => ended
  case hello => exact fun differs => absurd dispatched_eq differs
  case idle =>
    intro _ idle
    rw [closed] at idle
    exact absurd (Option.some.inj idle) other

theorem Tracks.enforced_checkFrame {trace : List Label} {conn : Conn} {readings : Readings}
    {outcome : Outcome} (tracks : Tracks auth connStart trace conn) (going : conn.closed = none)
    {lastFrameAt : Nat}
    (received : lastByteAt connStart (polls trace ++ [⟨readings, outcome⟩]) ≤ lastFrameAt) :
    Enforced config auth connStart trace conn (.poll readings outcome)
      (Conn.checkFrame config connStart readings { conn with lastFrameAt := lastFrameAt }) := by
  constructor
  case incomplete =>
    rintro _ _ begun ⟨⟩ _ started timeout late
    rw [← tracks.frameStartedAt_eq going] at started
    rw [checkFrame_closed, ne_eq, Option.map_eq_none_iff]
    exact midFrameReason_incomplete started timeout late
  case handshake =>
    rintro _ _ ⟨⟩ _ not_greeted timeout late
    have waiting : conn.established = false := by
      simpa using mt (tracks.greeted going).1 not_greeted
    rw [checkFrame_closed, ne_eq, Option.map_eq_none_iff]
    exact midFrameReason_handshake waiting timeout late
  case hello => exact fun differs => absurd rfl differs
  case idle =>
    intro _ idle
    rw [checkFrame_closed] at idle
    obtain ⟨reason, found, same⟩ := Option.map_eq_some_iff.1 idle
    cases same
    have passed := ((lapsed_iff _ _ _).1 (midFrameReason_idle found)).2
    refine ⟨readings, outcome, rfl, ?_⟩
    rw [polls_snoc_poll]
    exact Nat.lt_of_le_of_lt (Nat.add_le_add_right received _) passed

theorem Tracks.enforced_quiet {trace : List Label} {before after : Conn} {readings : Readings}
    {gaps : Gaps} (tracks : Tracks auth connStart trace before) (going : before.closed = none)
    (taken : before.poll config auth connStart readings (.quiet gaps) = some after) :
    Enforced config auth connStart trace before (.poll readings (.quiet gaps)) after := by
  have counted : Conn.Counted { before with frameStartedAt := none } :=
    tracks.counted.of_eq rfl rfl
  have waiting : ¬ Greeted auth trace → before.established = false := by
    intro not_greeted
    simpa using mt (tracks.greeted going).1 not_greeted
  rcases poll_quiet taken with rfl | ⟨missed, rfl⟩ | ⟨reason, active, found, missed, looked, rfl⟩
  · exact enforced_ends rfl (by simp) rfl
  · constructor
    case incomplete =>
      rintro _ _ _ ⟨⟩ not_frame
      cases not_frame
    case handshake =>
      rintro _ _ ⟨⟩ _ not_greeted timeout late
      rw [breached_handshake (waiting not_greeted) timeout late] at missed
      cases missed
    case hello => exact fun differs => absurd rfl differs
    case idle =>
      intro _ idle
      exact absurd (going.symm.trans idle) (by simp)
  · have spec := hasActivity_looked counted looked
    constructor
    case incomplete =>
      rintro _ _ _ ⟨⟩ not_frame
      cases not_frame
    case handshake =>
      rintro _ _ ⟨⟩ _ not_greeted _ _
      cases active with
      | false => exact Option.some_ne_none _
      | true => exact absurd (tracks.silent (waiting not_greeted)) (spec.active rfl)
    case hello =>
      intro differs
      have dispatched_eq : found.dispatched = before.dispatched := spec.worked.dispatched_eq
      cases active with
      | false => exact absurd dispatched_eq differs
      | true => exact absurd dispatched_eq differs
    case idle =>
      intro _ idle
      cases active with
      | false =>
          cases idle
          have passed := ((lapsed_iff _ _ _).1 (breached_idle missed)).2
          refine ⟨readings, .quiet gaps, rfl, ?_⟩
          rw [polls_snoc_poll, lastByteAt_snoc]
          exact Nat.lt_of_le_of_lt (Nat.add_le_add_right (tracks.lastByteAt_le going) _) passed
      | true =>
          have closed_eq : found.closed = before.closed := spec.worked.closed_eq
          have idle : found.closed = some (.reaped .idleTimeout) := idle
          rw [closed_eq, going] at idle
          cases idle

theorem Tracks.enforced {trace : List Label} {before after : Conn} {label : Label}
    (tracks : Tracks auth connStart trace before)
    (taken : before.step config auth connStart label = some after) :
    Enforced config auth connStart trace before label after := by
  cases label with
  | work label =>
      have worked := worked_of_workStep taken
      constructor
      case incomplete => exact fun _ _ _ differs => by cases differs
      case handshake => exact fun _ _ differs => by cases differs
      case hello => exact fun differs => absurd worked.dispatched_eq differs
      case idle =>
        intro going idle
        rw [worked.closed_eq, going] at idle
        cases idle
  | poll readings outcome =>
      rw [Conn.step] at taken
      split at taken
      · cases taken
      rename_i still
      have going : before.closed = none := by simpa using still
      cases outcome with
      | frame request =>
          rcases poll_frame taken with ⟨established, sent⟩ | ⟨_, _, rfl⟩ | ⟨_, _, rfl⟩
          · obtain ⟨_, _, _, closed_eq, _⟩ := dispatch_reader sent
            constructor
            case incomplete =>
              rintro _ _ _ ⟨⟩ not_frame
              cases not_frame
            case handshake =>
              rintro _ _ ⟨⟩ not_frame
              exact absurd rfl (not_frame request)
            case hello => exact fun _ => (tracks.greeted going).1 established
            case idle =>
              intro _ idle
              rw [closed_eq] at idle
              exact absurd (going.symm.trans idle) (by simp)
          · constructor
            case incomplete =>
              rintro _ _ _ ⟨⟩ not_frame
              cases not_frame
            case handshake =>
              rintro _ _ ⟨⟩ not_frame
              exact absurd rfl (not_frame request)
            case hello => exact fun differs => absurd rfl differs
            case idle =>
              intro _ idle
              exact absurd (going.symm.trans idle) (by simp)
          · exact enforced_ends rfl (by simp) rfl
      | quiet gaps => exact tracks.enforced_quiet going taken
      | eof =>
          cases taken
          exact enforced_ends rfl (by simp) rfl
      | failed =>
          cases taken
          exact enforced_ends rfl (by simp) rfl
      | progress =>
          rw [Conn.poll] at taken
          split at taken
          · cases taken
            exact enforced_ends rfl (by simp) rfl
          · cases taken
            apply tracks.enforced_checkFrame going
            rw [lastByteAt_snoc]
            exact Nat.le_refl _
      | stalled =>
          rw [Conn.poll] at taken
          split at taken
          · cases taken
            exact enforced_ends rfl (by simp) rfl
          · cases taken
            apply tracks.enforced_checkFrame going
            rw [lastByteAt_snoc]
            exact tracks.lastByteAt_le going

theorem Tracks.sparesBusy {trace : List Label} {before after : Conn} {label : Label}
    (tracks : Tracks auth connStart trace before) (steady : Steady label)
    (taken : before.step config auth connStart label = some after) : SparesBusy label after := by
  rintro readings gaps rfl idle
  rw [Conn.step] at taken
  split at taken
  · cases taken
  rename_i still
  have going : before.closed = none := by simpa using still
  rcases poll_quiet taken with rfl | ⟨_, rfl⟩ | ⟨reason, active, found, missed, looked, rfl⟩
  · cases idle
  · rw [going] at idle
    cases idle
  · have counted : Conn.Counted { before with frameStartedAt := none } :=
      tracks.counted.of_eq rfl rfl
    have spec := hasActivity_looked counted looked
    cases active with
    | false => exact spec.idle rfl steady
    | true =>
        have closed_eq : found.closed = before.closed := spec.worked.closed_eq
        have idle : found.closed = some (.reaped .idleTimeout) := idle
        rw [closed_eq, going] at idle
        cases idle

end Traces

/-- Every step behind every trace meets its deadlines.  A connection that is closed as idle at a
frame boundary has nothing in flight, unless an overflow read has taken its permit between the
looks at the permits and at the slots. -/
theorem deadlines_enforced (config : Config) (auth : Option (List UInt8 → Bool)) (connStart : Nat)
    {trace : List Label} {label : Label} {before after : Conn}
    (reached : run (Conn.step config auth connStart) (Conn.start config connStart) trace =
      some before)
    (taken : before.step config auth connStart label = some after) :
    Enforced config auth connStart trace before label after ∧
      (Steady label → SparesBusy label after) := by
  have tracks := tracks_of_run reached
  exact ⟨tracks.enforced taken, fun steady => tracks.sparesBusy steady taken⟩

/-- All readings at once. -/
def Readings.instant (now : Nat) : Readings :=
  ⟨now, now, now, now, now, now, Nat.le_refl now, Nat.le_refl now, Nat.le_refl now,
    Nat.le_refl now, Nat.le_refl now⟩

/-- One read at a time, and an idle timeout. -/
def narrow : Config := ⟨0, 0, 10, 1, 1⟩

/-- Two reads, the second in the overflow, and the end of the first. -/
def overflowing : List Label :=
  [.poll (.instant 0) (.frame (.hello 1 none)), .poll (.instant 0) (.frame (.read true true)),
    .poll (.instant 0) (.frame (.read true true)), .work .endRead]

theorem deadlines_enforced_overflowing :
    ∃ before after,
      run (Conn.step narrow none 0) (Conn.start narrow 0) overflowing = some before ∧
        before.step narrow none 0 (.poll (.instant 11) (.quiet ⟨[], [], [.permit]⟩)) = some after ∧
        after.closed = none ∧
        SparesBusy (.poll (.instant 11) (.quiet ⟨[], [], [.permit]⟩)) after := by
  refine ⟨_, _, rfl, rfl, rfl, ?_⟩
  refine (@deadlines_enforced narrow none 0 overflowing _ _ _ rfl rfl).2 ?_
  simp [Steady]

/-- The second read takes its permit behind the look at the permits, and drops its slot in front
of the look at the slots. -/
theorem not_sparesBusy :
    ¬ ∀ (config : Config) (auth : Option (List UInt8 → Bool)) (connStart : Nat)
      (trace : List Label) (label : Label) (before after : Conn),
      run (Conn.step config auth connStart) (Conn.start config connStart) trace = some before →
        before.step config auth connStart label = some after →
        Enforced config auth connStart trace before label after ∧ SparesBusy label after := by
  intro all
  have spared := (all narrow none 0 overflowing
    (.poll (.instant 11) (.quiet ⟨[], [.permit], []⟩)) _ _ rfl rfl).2
  have nothing := spared _ _ rfl rfl
  cases nothing

end Tephra.Reaping
