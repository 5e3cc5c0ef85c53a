import KeysharpInput.Runs

/-!
Hook lanes, stalled streams and quarantine.
A lane thread calls the connections an event was captured for, one after the other. A callback that
times out marks its stream as stalled for the hook type, and only then a failure is posted for the
main thread, which quarantines the hook when it comes to it. Until then, and as long as the mark
stands, events skip the connection.
-/
namespace KeysharpInput.Session

/-- What `create_hook_lane_event` captures of an event: the hook type and the connections
to call, in calling order. -/
structure HookCall where
  hookType : HookType
  subscribers : List Nat
  deriving DecidableEq, Repr

inductive CallPhase
  /-- The next subscriber is about to be called. -/
  | next
  /-- The event has been sent to the connection and its decision is awaited. -/
  | called (connectionId : Nat)
  /-- A failure of the connection is about to be posted. -/
  | posting (connectionId : Nat)
  deriving DecidableEq, Repr

/-- One run of `lane_process_event`, with the subscribers still to be called. -/
structure Activation where
  call : HookCall
  phase : CallPhase := .next
  deriving DecidableEq, Repr

/-- A lane thread: events waiting, members of recursive Sends waiting, and what it is
processing, the innermost first. -/
structure Lane where
  queue : List HookCall := []
  nested : List HookCall := []
  stack : List Activation := []

structure HookSystem where
  daemon : State := {}
  lanes : HookType → Lane := fun _ => {}
  failures : List (Nat × HookType) := []
  failOpenRequested : Bool := false

/-- The clients `create_hook_lane_event` collects for a hook type. -/
def State.hooked (s : State) (t : HookType) (c : Client) : Bool :=
  !c.permissionRefreshPending && decide (t ∈ c.hookSubscriptions)
    && decide (t ∉ c.quarantinedHooks) && s.inputOwnerMatchesUid c.uid

def calledBefore (t : HookType) (c d : Client) : Prop :=
  d.hookSubscriptionOrdinal t < c.hookSubscriptionOrdinal t ∨
    c.hookSubscriptionOrdinal t = d.hookSubscriptionOrdinal t ∧ d.connectionId ≤ c.connectionId

instance (t : HookType) : DecidableRel (calledBefore t) := fun _ _ =>
  inferInstanceAs (Decidable (_ ∨ _))

/-- `create_hook_lane_event`; a stream that cannot be retained is left out. -/
def State.createHookLaneEvent (s : State) (t : HookType) : HookCall where
  hookType := t
  subscribers := ((((s.clients.filter (s.hooked t)).insertionSort (calledBefore t)).filter
    (·.streamValid)).map (·.connectionId))

/-- `hook_send_ref_is_stalled`, for a stream that may be called at all. -/
def State.isStalled (s : State) (connectionId : Nat) (t : HookType) : Bool :=
  s.clients.any fun c => c.connectionId == connectionId && decide (t ∈ c.stalledLanes)

def State.modifyStalled (s : State) (connectionId : Nat)
    (f : Finset HookType → Finset HookType) : State :=
  { s with clients := s.clients.map fun c =>
    if c.connectionId = connectionId then { c with stalledLanes := f c.stalledLanes } else c }

namespace HookSystem

def setLane (s : HookSystem) (lane : HookType) (l : Lane) : HookSystem :=
  { s with lanes := Function.update s.lanes lane l }

def continueWith (s : HookSystem) (lane : HookType) (a : Activation) (rest : List Activation) :
    HookSystem :=
  s.setLane lane { s.lanes lane with stack := a :: rest }

end HookSystem

inductive LaneMove
  /-- The lane turns to the next subscriber. -/
  | callSubscriber
  /-- The next subscriber's stream is busy or closed: this event passes it. -/
  | skip
  /-- A decision arrives; a Block or a Modify ends the round. -/
  | decided (ends : Bool)
  | timedOut
  | sendFailed
  | cancelled
  /-- `lane_post_hook_failure`; whether the ring has room depends on other commands too. -/
  | post (room : Bool)
  | finish
  deriving DecidableEq, Repr

inductive HookEvent
  /-- Anything the main thread does besides hook failures. -/
  | daemon (input : Input)
  /-- An event of the class is captured and queued. -/
  | dispatch (t : HookType)
  /-- A member of a recursive Send is captured for the lane whose callback sent it. -/
  | nest (lane t : HookType)
  /-- The main thread takes the oldest failure from the ring. -/
  | processFailure (env : Env)
  | start (lane : HookType)
  | startNested (lane : HookType)
  | lane (lane : HookType) (move : LaneMove)

namespace HookSystem

/-- The steps of `lane_process_event` and `lane_call_subscriber` on the innermost event
of a lane. -/
def laneStep (s : HookSystem) (lane : HookType) (a : Activation) (rest : List Activation) :
    LaneMove → Option HookSystem
  | .callSubscriber =>
    match a.phase, a.call.subscribers with
    | .next, connectionId :: subscribers =>
      -- A stalled stream is skipped at once.
      let phase := if s.daemon.isStalled connectionId a.call.hookType then .next
        else .called connectionId
      some (s.continueWith lane ⟨{ a.call with subscribers }, phase⟩ rest)
    | _, _ => none
  | .skip =>
    match a.phase, a.call.subscribers with
    | .next, _ :: subscribers =>
      some (s.continueWith lane { call := { a.call with subscribers } } rest)
    | _, _ => none
  | .decided ends =>
    match a.phase with
    | .called connectionId =>
      let s := { s with daemon := s.daemon.modifyStalled connectionId (·.erase a.call.hookType) }
      if ends then some (s.setLane lane { s.lanes lane with stack := rest })
      else some (s.continueWith lane { a with phase := .next } rest)
    | _ => none
  | .timedOut =>
    match a.phase with
    | .called connectionId =>
      let s := { s with daemon := s.daemon.modifyStalled connectionId (insert a.call.hookType) }
      some (s.continueWith lane { a with phase := .posting connectionId } rest)
    | _ => none
  | .sendFailed =>
    match a.phase with
    | .called connectionId =>
      some (s.continueWith lane { a with phase := .posting connectionId } rest)
    | _ => none
  | .cancelled =>
    match a.phase with
    | .called _ => some (s.setLane lane { s.lanes lane with stack := rest })
    | _ => none
  | .post room =>
    match a.phase with
    | .posting connectionId =>
      let s := if room then
          { s with failures := s.failures ++ [(connectionId, a.call.hookType)] }
        else { s with failOpenRequested := true }
      some (s.continueWith lane { a with phase := .next } rest)
    | _ => none
  | .finish =>
    match a.phase, a.call.subscribers with
    | .next, [] => some (s.setLane lane { s.lanes lane with stack := rest })
    | _, _ => none

def step (s : HookSystem) : HookEvent → Option HookSystem
  | .daemon input =>
    match input.event with
    -- Failures come from the ring only.
    | .hookFailure .. => none
    | _ => (Session.step s.daemon input).map fun daemon => { s with daemon }
  | .dispatch t =>
    some (s.setLane t { s.lanes t with
      queue := (s.lanes t).queue ++ [s.daemon.createHookLaneEvent t] })
  | .nest lane t =>
    some (s.setLane lane { s.lanes lane with
      nested := (s.lanes lane).nested ++ [s.daemon.createHookLaneEvent t] })
  | .processFailure env =>
    match s.failures with
    | [] => none
    | (connectionId, t) :: failures =>
      (Session.step s.daemon ⟨env, .hookFailure connectionId t⟩).map fun daemon =>
        { s with daemon, failures }
  | .start lane =>
    match s.lanes lane with
    | ⟨call :: queue, nested, []⟩ => some (s.setLane lane ⟨queue, nested, [{ call }]⟩)
    | _ => none
  | .startNested lane =>
    match s.lanes lane with
    -- A recursive Send runs while its parent's callback is awaited.
    | ⟨queue, call :: nested, ⟨parent, .called connectionId⟩ :: rest⟩ =>
      some (s.setLane lane
        ⟨queue, nested, { call } :: ⟨parent, .called connectionId⟩ :: rest⟩)
    | _ => none
  | .lane lane move =>
    match (s.lanes lane).stack with
    | [] => none
    | a :: rest => s.laneStep lane a rest move

end HookSystem

end KeysharpInput.Session
