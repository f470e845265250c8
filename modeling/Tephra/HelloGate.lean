import Tephra.DeadlineTraces

/-!
# The gate of a connection

The first frame of a connection must be a hello of this protocol version, with a token that the
server was configured with if it asks for one.  Nothing is dispatched in front of it, every frame
behind it is dispatched, and a connection without it ends with one reply handed to
`send_control`, which drops it when the writer is gone.
-/

namespace Tephra.Reaping

open Histories

/-- The digests of the accepted tokens. -/
structure AuthConfig (Digest : Type) where
  digests : List Digest

namespace AuthConfig

variable {Digest : Type}

def new (digest : List UInt8 → Digest) (tokens : List (List UInt8)) : AuthConfig Digest :=
  ⟨tokens.map digest⟩

def accepts [DecidableEq Digest] (digest : List UInt8 → Digest) (self : AuthConfig Digest)
    (token : List UInt8) : Bool :=
  self.digests.contains (digest token)

/-- A text is accepted if it has the digest of a configured token. -/
theorem accepts_new_iff [DecidableEq Digest] (digest : List UInt8 → Digest)
    (tokens : List (List UInt8)) (text : List UInt8) :
    (new digest tokens).accepts digest text = true ↔
      ∃ token ∈ tokens, digest token = digest text := by
  rw [accepts, new, List.contains_iff_mem, List.mem_map]

end AuthConfig

/-- A hello of this protocol version, with a text of the digest of a configured token where the
server has been given tokens. -/
def Authenticated {Digest : Type} (digest : List UInt8 → Digest)
    (tokens : Option (List (List UInt8))) (request : Request) : Prop :=
  ∃ presented, request = .hello protocolVersion presented ∧
    ∀ configured, tokens = some configured →
      ∃ text, presented = some text ∧ validUtf8 text = true ∧
        ∃ token ∈ configured, digest token = digest text

/-- What the server asks of the token of a hello. -/
def authOf {Digest : Type} [DecidableEq Digest] (digest : List UInt8 → Digest)
    (tokens : Option (List (List UInt8))) : Option (List UInt8 → Bool) :=
  tokens.map fun configured => (AuthConfig.new digest configured).accepts digest

theorem helloAccepted_authOf {Digest : Type} [DecidableEq Digest] (digest : List UInt8 → Digest)
    (tokens : Option (List (List UInt8))) (request : Request) :
    HelloAccepted (authOf digest tokens) request ↔ Authenticated digest tokens request := by
  cases tokens with
  | none => simp [HelloAccepted, Authenticated, authOf]
  | some configured => simp [HelloAccepted, Authenticated, authOf, AuthConfig.accepts_new_iff]

theorem handleHello_of_accepted {auth : Option (List UInt8 → Bool)} {request : Request}
    (accepted : HelloAccepted auth request) :
    handleHello auth request = .ack protocolVersion := by
  obtain ⟨token, rfl, allowed⟩ := accepted
  cases auth with
  | none => rfl
  | some accepts =>
      obtain ⟨text, rfl, utf8, known⟩ := allowed accepts rfl
      simp [handleHello, Option.filter, utf8, known]

namespace Conn

theorem control_of_workStep {conn next : Conn} {label : WorkStep}
    (taken : conn.workStep label = some next) : next.control = conn.control := by
  cases label <;> simp only [workStep] at taken
  case stop => cases taken; rfl
  all_goals
    split at taken
    all_goals cases taken
    all_goals rfl

theorem control_of_run {conn last : Conn} {gap : List WorkStep}
    (ran : run workStep conn gap = some last) : last.control = conn.control :=
  @invariant_of_steps _ _ workStep (fun other => other.control = conn.control)
    (fun _ _ _ same taken => (control_of_workStep taken).trans same) _ _ _ rfl ran

theorem control_of_hasActivity {conn after : Conn} {gaps : Gaps} {active : Bool}
    (looked : conn.hasActivity gaps = some (active, after)) : after.control = conn.control := by
  rw [hasActivity] at looked
  split at looked
  · cases looked
  next second toSecond =>
  split at looked
  · cases looked
  next third toThird =>
  split at looked
  · cases looked
  next fourth toFourth =>
  cases looked
  rw [control_of_run toFourth, control_of_run toThird, control_of_run toSecond]

theorem control_of_dispatch {conn next : Conn} {request : Request}
    (taken : conn.dispatch request = some next) : next.control = conn.control := by
  cases request with
  | append valid accepted =>
      cases valid with
      | false => cases taken; rfl
      | true =>
          simp only [dispatch] at taken
          split at taken
          · cases taken
          · cases accepted <;> cases taken <;> rfl
  | read valid queued =>
      cases valid with
      | false => cases taken; rfl
      | true =>
          simp only [dispatch] at taken
          split at taken
          · cases queued <;> cases taken <;> rfl
          · split at taken
            · cases queued <;> cases taken <;> rfl
            · cases taken; rfl
  | subscribe valid spawned =>
      cases valid with
      | false => cases taken; rfl
      | true =>
          simp only [dispatch] at taken
          split at taken
          · cases taken; rfl
          · cases spawned <;> cases taken <;> rfl
  | _ => cases taken; rfl

end Conn

/-- The frame that a step receives. -/
def Label.frame : Label → List Request
  | .poll _ (.frame request) => [request]
  | _ => []

/-- The frames that were received, in order. -/
def received (trace : List Label) : List Request :=
  trace.flatMap Label.frame

section Gate

variable (auth : Option (List UInt8 → Bool))

/-- The gate has let nothing in yet, was closed by the first frame, or was opened by it and let
in what came behind. -/
def Passed (frames : List Request) (conn : Conn) : Prop :=
  match frames with
  | [] => conn.established = false ∧ conn.dispatched = []
  | first :: rest =>
      (HelloAccepted auth first ∧ conn.established = true ∧ conn.dispatched = rest) ∨
        (¬ HelloAccepted auth first ∧ rest = [] ∧ conn.established = false ∧
          conn.dispatched = [] ∧ conn.closed = some .rejected)

/-- The gate, and the reply to the first frame. -/
structure Gated (frames : List Request) (conn : Conn) : Prop where
  passed : Passed auth frames conn
  control_eq : conn.control = (frames.take 1).map (handleHello auth)

variable {auth} {config : Config} {connStart : Nat} {frames : List Request} {conn next last : Conn}

theorem gated_start : Gated auth [] (Conn.start config connStart) :=
  ⟨⟨rfl, rfl⟩, rfl⟩

/-- What comes without a frame leaves the gate as it is. -/
theorem Gated.of_eq (gated : Gated auth frames conn)
    (established : next.established = conn.established)
    (dispatched : next.dispatched = conn.dispatched) (control : next.control = conn.control)
    (closed : conn.closed = some .rejected → next.closed = some .rejected) :
    Gated auth (frames ++ []) next := by
  rw [List.append_nil]
  obtain ⟨passed, control_eq⟩ := gated
  refine ⟨?_, control.trans control_eq⟩
  cases frames with
  | nil => exact ⟨established.trans passed.1, dispatched.trans passed.2⟩
  | cons first rest =>
      refine passed.imp ?_ ?_
      · rintro ⟨accepted, open', sent⟩
        exact ⟨accepted, established.trans open', dispatched.trans sent⟩
      · rintro ⟨refused, nothing, shut, sent, ended⟩
        exact ⟨refused, nothing, established.trans shut, dispatched.trans sent, closed ended⟩

/-- A frame is dispatched, or it is the first one and is answered. -/
theorem Gated.frame (gated : Gated auth frames conn) (going : conn.closed = none)
    {readings : Readings} {request : Request}
    (taken : conn.poll config auth connStart readings (.frame request) = some next) :
    Gated auth (frames ++ [request]) next := by
  obtain ⟨passed, control_eq⟩ := gated
  cases frames with
  | nil =>
      obtain ⟨shut, sent⟩ := passed
      rcases Conn.poll_frame taken with ⟨established, -⟩ | ⟨-, acked, rfl⟩ | ⟨-, refused, rfl⟩
      · rw [shut] at established
        cases established
      · refine ⟨.inl ⟨(handleHello_ack auth request).mp acked, rfl, sent⟩, ?_⟩
        change conn.control ++ _ = _
        rw [control_eq]
        rfl
      · refine ⟨.inr ⟨fun accepted => ?_, rfl, shut, sent, rfl⟩, ?_⟩
        · obtain ⟨version, acked⟩ := (handleHello_ack auth request).mpr accepted
          exact refused version acked
        · change conn.control ++ _ = _
          rw [control_eq]
          rfl
  | cons first rest =>
      rcases passed with ⟨accepted, established, sent⟩ | ⟨-, -, -, -, ended⟩
      · rcases Conn.poll_frame taken with ⟨-, dispatched⟩ | ⟨waiting, -⟩ | ⟨waiting, -⟩
        · obtain ⟨kept, -, -, -, more⟩ := Conn.dispatch_reader dispatched
          refine ⟨.inl ⟨accepted, kept.trans established, ?_⟩, ?_⟩
          · rw [more]
            exact congrArg (· ++ [request]) sent
          · rw [Conn.control_of_dispatch dispatched]
            exact control_eq
        · rw [established] at waiting
          cases waiting
        · rw [established] at waiting
          cases waiting
      · rw [going] at ended
        cases ended

theorem Gated.step (counted : conn.Counted) (gated : Gated auth frames conn) {label : Label}
    (taken : conn.step config auth connStart label = some next) :
    Gated auth (frames ++ label.frame) next := by
  cases label with
  | work work =>
      have worked := Conn.worked_of_workStep taken
      exact gated.of_eq worked.established_eq worked.dispatched_eq
        (Conn.control_of_workStep taken) worked.closed_eq.trans
  | poll readings outcome =>
      rw [Conn.step] at taken
      split at taken
      · cases taken
      next still =>
      have going : conn.closed = none := by simpa using still
      have shut {ending : Option Closing} :
          conn.closed = some .rejected → ending = some .rejected := by
        intro rejected
        rw [going] at rejected
        cases rejected
      cases outcome with
      | frame request => exact gated.frame going taken
      | eof =>
          cases taken
          exact gated.of_eq rfl rfl rfl shut
      | failed =>
          cases taken
          exact gated.of_eq rfl rfl rfl shut
      | progress =>
          rw [Conn.poll] at taken
          split at taken
          all_goals
            cases taken
            exact gated.of_eq rfl rfl rfl shut
      | stalled =>
          rw [Conn.poll] at taken
          split at taken
          all_goals
            cases taken
            exact gated.of_eq rfl rfl rfl shut
      | quiet gaps =>
          rcases Conn.poll_quiet taken with rfl | ⟨-, rfl⟩ | ⟨reason, active, after, -, looked, rfl⟩
          · exact gated.of_eq rfl rfl rfl shut
          · exact gated.of_eq rfl rfl rfl shut
          · have same : Conn.Counted { conn with frameStartedAt := none } := counted.of_eq rfl rfl
            have worked := (Conn.hasActivity_looked same looked).worked
            have control := Conn.control_of_hasActivity looked
            cases active
            · exact gated.of_eq worked.established_eq worked.dispatched_eq control shut
            · exact gated.of_eq worked.established_eq worked.dispatched_eq control shut

theorem gated_of_run {trace : List Label}
    (reached : run (Conn.step config auth connStart) (Conn.start config connStart) trace =
      some last) : Gated auth (received trace) last := by
  induction trace using List.reverseRecOn generalizing last with
  | nil =>
      cases reached
      exact gated_start
  | append_singleton trace label ih =>
      obtain ⟨middle, front, back⟩ := run_append reached
      simp only [run] at back
      split at back
      · cases back
      · rename_i next taken
        cases back
        rw [received, List.flatMap_append, List.flatMap_singleton]
        exact (ih front).step (tracks_of_run front).counted taken

end Gate

/-- Requests are dispatched behind an authenticated hello only: all of them, and in the order they
were received in.  Any other first frame is refused, and is the only one that is received. -/
theorem requests_authenticated {Digest : Type} [DecidableEq Digest] (digest : List UInt8 → Digest)
    (tokens : Option (List (List UInt8))) (config : Config) (connStart : Nat) {trace : List Label}
    {last : Conn}
    (reached : run (Conn.step config (authOf digest tokens) connStart)
      (Conn.start config connStart) trace = some last) :
    (received trace = [] ∧ last.dispatched = [] ∧ last.control = []) ∨
      ∃ first rest, received trace = first :: rest ∧
        ((Authenticated digest tokens first ∧ last.dispatched = rest ∧
            last.control = [.ack protocolVersion]) ∨
          (¬ Authenticated digest tokens first ∧ rest = [] ∧ last.dispatched = [] ∧
            last.closed = some .rejected ∧
            ∃ reply, last.control = [reply] ∧ ∀ version, reply ≠ .ack version)) := by
  obtain ⟨passed, control_eq⟩ := gated_of_run reached
  cases frames : received trace with
  | nil =>
      rw [frames] at passed control_eq
      exact .inl ⟨rfl, passed.2, control_eq⟩
  | cons first rest =>
      rw [frames] at passed control_eq
      refine .inr ⟨first, rest, rfl, passed.imp ?_ ?_⟩
      · rintro ⟨accepted, -, dispatched⟩
        refine ⟨(helloAccepted_authOf digest tokens first).mp accepted, dispatched, ?_⟩
        rw [control_eq, List.take_succ_cons, List.map_cons, handleHello_of_accepted accepted]
        rfl
      · rintro ⟨refused, alone, -, dispatched, closed⟩
        refine ⟨fun shown => refused ((helloAccepted_authOf digest tokens first).mpr shown), alone,
          dispatched, closed, _, control_eq, ?_⟩
        intro version acked
        exact refused ((handleHello_ack _ first).mp ⟨version, acked⟩)

/-- A token of a server. -/
def alpha : List UInt8 := [97, 108, 112, 104, 97]

/-- The digest of the token, and nothing of other texts. -/
def digestOfAlpha (text : List UInt8) : List UInt8 :=
  if text = alpha then
    [142, 211, 246, 173, 104, 91, 149, 158, 173, 112, 34, 81, 142, 26, 247, 108, 216, 22, 248, 232,
      236, 124, 205, 218, 30, 212, 1, 142, 143, 34, 35, 248]
  else []

/-- A hello with the token, and a read. -/
def greeting : List Label :=
  [.poll (.instant 0) (.frame (.hello 1 (some alpha))),
    .poll (.instant 0) (.frame (.read true true))]

theorem requests_authenticated_alpha :
    ∃ last, run (Conn.step narrow (authOf digestOfAlpha (some [alpha])) 0) (Conn.start narrow 0)
        greeting = some last ∧
      ((received greeting = [] ∧ last.dispatched = [] ∧ last.control = []) ∨
        ∃ first rest, received greeting = first :: rest ∧
          ((Authenticated digestOfAlpha (some [alpha]) first ∧ last.dispatched = rest ∧
              last.control = [.ack protocolVersion]) ∨
            (¬ Authenticated digestOfAlpha (some [alpha]) first ∧ rest = [] ∧
              last.dispatched = [] ∧ last.closed = some .rejected ∧
              ∃ reply, last.control = [reply] ∧ ∀ version, reply ≠ .ack version))) := by
  have served : (run (Conn.step narrow (authOf digestOfAlpha (some [alpha])) 0)
      (Conn.start narrow 0) greeting).isSome = true := by decide +kernel
  obtain ⟨last, reached⟩ := Option.isSome_iff_exists.mp served
  exact ⟨last, reached, requests_authenticated digestOfAlpha (some [alpha]) narrow 0 reached⟩

end Tephra.Reaping
