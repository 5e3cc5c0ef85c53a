import KeysharpInput.Transition
import KeysharpInput.Session
import KeysharpInput.Inputs

/-!
Hook decisions on their way from a client to a lane.
A lane thread publishes who may answer its event, sends the event and takes decisions from a slot
that holds one. The main thread reads a client's reply, finds the lane whose event it names, looks
at who may answer there, and puts the decision into the slot. A lane that gives up on a callback
leaves the event in the stream's expired slot of that hook type before it withdraws the responder.
-/

namespace KeysharpInput.Reply

open Function

open Session (HookType)
open Output (Input)

inductive HookDecision
  | pass
  | block
  | modify
  deriving DecidableEq

def decodeDecision : Nat → Option HookDecision
  | 0 => some .pass
  | 1 => some .block
  | 2 => some .modify
  | _ => none

inductive SynthOperation
  | keyboard
  | mouse
  | absolutePointer
  deriving DecidableEq

def requiredOperations : Input → Finset SynthOperation
  | .keyboard _ => {.keyboard}
  | .mouse input =>
    if Output.movesAbsolutely input then {.mouse, .absolutePointer} else {.mouse}

/-- `KSI_MAX_MODIFY_INPUTS`. -/
def maxModifyInputs : Nat := 1024

/-- `KSI_INPUT_WIRE_SIZE`. -/
def inputWireSize : Nat := 40

inductive ReplyPayload
  /-- No room for a status. -/
  | short
  /-- A status other than OK, the bytes that follow it and the length that they state. -/
  | failure (size diagnosticLength : Nat)
  /-- Status OK without room for the decision and its count. -/
  | truncated
  /-- The decision, the stated count, the whole records that follow and the bytes left over. -/
  | decision (value inputCount : Nat) (records : List (Option Input)) (trailing : Fin inputWireSize)
  deriving DecidableEq

inductive Verdict
  | invalid
  /-- The client reports a failure; its hook passes the event. -/
  | failed
  | decided (decision : HookDecision) (inputs : List Input)
  deriving DecidableEq

/-- How `handle_hook_decision` reads a payload. -/
def ReplyPayload.verdict : ReplyPayload → Verdict
  | .short | .truncated => .invalid
  | .failure size diagnosticLength =>
    if size = 0 ∨ (4 ≤ size ∧ diagnosticLength = size - 4) then .failed else .invalid
  | .decision value inputCount records trailing =>
    if maxModifyInputs < inputCount ∨
        records.length * inputWireSize + trailing ≠ inputCount * inputWireSize then .invalid
    else
      match decodeDecision value, records.mapM id with
      | some d, some inputs =>
        if d = .modify ∧ inputCount = 0 then .invalid else .decided d inputs
      | _, _ => .invalid

structure Message where
  connectionId : Nat
  requestId : Nat
  payload : ReplyPayload
  deriving DecidableEq

def Message.WellFormed (m : Message) : Prop := m.payload.verdict ≠ .invalid

instance (m : Message) : Decidable m.WellFormed :=
  inferInstanceAs (Decidable (m.payload.verdict ≠ .invalid))

structure Rights where
  ownerMatches : Bool := true
  inputControl : Bool := true
  readyOperations : Finset SynthOperation := {.keyboard, .mouse, .absolutePointer}

structure LaneDecision where
  eventId : Nat
  responder : Nat
  decision : HookDecision
  inputs : List Input
  deriving DecidableEq

def Message.laneDecision (m : Message) (decision : HookDecision) (inputs : List Input) :
    LaneDecision :=
  { eventId := m.requestId, responder := m.connectionId, decision := decision, inputs := inputs }

def Rights.allow (rights : Rights) (decision : HookDecision) : Bool :=
  rights.ownerMatches && (decision = .pass || rights.inputControl)

def Rights.ready (rights : Rights) (inputs : List Input) : Bool :=
  inputs.all fun input => requiredOperations input ⊆ rights.readyOperations

def Message.accepted (m : Message) (rights : Rights) : Option LaneDecision :=
  match m.payload.verdict with
  | .invalid => none
  | .failed => some (m.laneDecision .pass [])
  | .decided decision inputs =>
    if rights.allow decision && rights.ready inputs then some (m.laneDecision decision inputs)
    else none

inductive CallPhase
  | between
  | published (connectionId : Nat)
  | waiting (connectionId : Nat)
  | decided (connectionId : Nat) (decision : LaneDecision)
  /-- The event is in the expired slot and the responder is still published. -/
  | expired (connectionId : Nat)
  deriving DecidableEq

def CallPhase.isWaiting : CallPhase → Bool
  | .waiting _ => true
  | _ => false

/-- One activation of `lane_process_event`, with the context of its parent. -/
structure LaneFrame where
  eventId : Nat
  hookType : HookType
  subscribers : List Nat
  phase : CallPhase := .between
  savedEventId : Nat
  savedResponder : Nat
  deriving DecidableEq

structure Lane where
  currentEventId : Nat := 0
  currentResponder : Nat := 0
  decision : Option LaneDecision := none
  stack : List LaneFrame := []
  deriving DecidableEq

/-- `lane_decision_queue_push`; a full slot refuses. -/
def Lane.push (lane : Lane) (d : LaneDecision) : Option Lane :=
  if lane.decision = none then some { lane with decision := some d } else none

def Lane.offer (lane : Lane) (d : LaneDecision) : Lane := (lane.push d).getD lane

inductive MainPhase
  | idle
  /-- `lane_for_event_id` returned a lane. -/
  | found (lane : HookType) (m : Message)
  /-- The lane's responder was the sender. -/
  | checked (lane : HookType) (m : Message)
  /-- The slot was full; a pass decision is offered in its place. -/
  | passing (lane : HookType) (m : Message)
  deriving DecidableEq

/-- The two lanes, the streams' expired slots and the main thread. The last four fields record
what has happened. -/
structure System where
  lanes : HookType → Lane := fun _ => {}
  expired : Nat → HookType → Nat := fun _ _ => 0
  quarantined : Finset (Nat × HookType) := ∅
  main : MainPhase := .idle
  closed : List Nat := []
  /-- Event ids given out. -/
  used : List Nat := []
  /-- Callbacks sent, as the stream and the event. -/
  sent : List (Nat × Nat) := []
  /-- Callbacks that timed out and have no responder any more. -/
  gaveUp : List (Nat × Nat) := []
  /-- Callbacks for which a reply has been handled. -/
  answered : List (Nat × Nat) := []

inductive LaneMove
  /-- The next subscriber is stalled or its turn does not come. -/
  | skip
  | publish
  | send (ok : Bool)
  | pop
  /-- The deadline passes, the event is flushed or the stream has closed. -/
  | giveUp
  | clear
  | finish
  deriving DecidableEq

inductive Event
  /-- A lane takes an event; inside a wait it is a member of a recursive Send. -/
  | begin (lane : HookType) (eventId : Nat) (hookType : HookType) (subscribers : List Nat)
  | lane (lane : HookType) (move : LaneMove)
  | read (m : Message)
  | check
  | deliver (rights : Rights)
  | pass
  | quarantine (connectionId : Nat) (hookType : HookType)
  | rearm (connectionId : Nat) (hookType : HookType)

namespace System

variable (s : System)

def setLane (k : HookType) (lane : Lane) : System :=
  { s with lanes := update s.lanes k lane }

def laneForEventId (eventId : Nat) : Option HookType :=
  if eventId = 0 then none
  else if (s.lanes .keyboard).currentEventId = eventId then some .keyboard
  else if (s.lanes .mouse).currentEventId = eventId then some .mouse
  else none

def consumeExpiredEvent (expired : HookType → Nat) (eventId : Nat) : Option (HookType → Nat) :=
  if eventId = 0 then none
  else if expired .keyboard = eventId then some (update expired .keyboard 0)
  else if expired .mouse = eventId then some (update expired .mouse 0)
  else none

def done (m : Message) : System :=
  { s with main := .idle, answered := (m.connectionId, m.requestId) :: s.answered }

/-- `handle_hook_decision` returns false and the client is removed. -/
def close (m : Message) : System :=
  { s.done m with closed := m.connectionId :: s.closed }

def unmatched (m : Message) : System :=
  match consumeExpiredEvent (s.expired m.connectionId) m.requestId with
  | none => s.close m
  | some slots =>
    let s := { s with expired := update s.expired m.connectionId slots }
    if m.WellFormed then s.done m else s.close m

def deliver (k : HookType) (m : Message) (rights : Rights) : System :=
  let refused := (s.setLane k ((s.lanes k).offer (m.laneDecision .pass []))).close m
  match m.payload.verdict with
  | .invalid => refused
  | .failed =>
    match (s.lanes k).push (m.laneDecision .pass []) with
    | some lane => (s.setLane k lane).done m
    | none => s.close m
  | .decided decision inputs =>
    if rights.allow decision && rights.ready inputs then
      match (s.lanes k).push (m.laneDecision decision inputs) with
      | some lane => (s.setLane k lane).done m
      | none => { s with main := .passing k m }
    else refused

def laneStep (k : HookType) (frame : LaneFrame) (rest : List LaneFrame) : LaneMove → Option System
  | .skip =>
    match frame.phase, frame.subscribers with
    | .between, _ :: others =>
      some (s.setLane k { s.lanes k with stack := { frame with subscribers := others } :: rest })
    | _, _ => none
  | .publish =>
    match frame.phase, frame.subscribers with
    | .between, c :: others =>
      some (s.setLane k { s.lanes k with
        currentResponder := c
        stack := { frame with subscribers := others, phase := .published c } :: rest })
    | _, _ => none
  | .send ok =>
    match frame.phase with
    | .published c =>
      if ok then
        some { s.setLane k { s.lanes k with
            stack := { frame with phase := .waiting c } :: rest } with
          sent := (c, frame.eventId) :: s.sent }
      else
        some (s.setLane k { s.lanes k with
          currentResponder := 0, stack := { frame with phase := .between } :: rest })
    | _ => none
  | .pop =>
    match frame.phase, (s.lanes k).decision with
    | .waiting c, some d =>
      -- A decision for another event or from another responder is dropped.
      let phase := if d.eventId = frame.eventId ∧ d.responder = c then .decided c d else .waiting c
      some (s.setLane k { s.lanes k with
        decision := none, stack := { frame with phase := phase } :: rest })
    | _, _ => none
  | .giveUp =>
    match frame.phase with
    | .waiting c =>
      some { s.setLane k { s.lanes k with
          stack := { frame with phase := .expired c } :: rest } with
        expired := update s.expired c
          (update (s.expired c) frame.hookType frame.eventId) }
    | _ => none
  | .clear =>
    match frame.phase with
    | .decided _ _ =>
      some (s.setLane k { s.lanes k with
        currentResponder := 0, stack := { frame with phase := .between } :: rest })
    | .expired c =>
      some { s.setLane k { s.lanes k with
          currentResponder := 0, stack := { frame with phase := .between } :: rest } with
        gaveUp := (c, frame.eventId) :: s.gaveUp }
    | _ => none
  | .finish =>
    match frame.phase with
    | .between =>
      some (s.setLane k { s.lanes k with
        currentEventId := frame.savedEventId
        currentResponder := frame.savedResponder
        stack := rest })
    | _ => none

def step : Event → Option System
  | .begin k eventId t subscribers =>
    -- Event ids are never given out twice, and the client table has no duplicates.
    if eventId = 0 ∨ eventId ∈ s.used ∨ ¬ subscribers.Nodup ∨ 0 ∈ subscribers then none
    else if (s.lanes k).stack.head?.all (·.phase.isWaiting) then
      some { s.setLane k { s.lanes k with
          currentEventId := eventId
          stack := { eventId := eventId, hookType := t, subscribers := subscribers,
                     savedEventId := (s.lanes k).currentEventId,
                     savedResponder := (s.lanes k).currentResponder } :: (s.lanes k).stack } with
        used := eventId :: s.used }
    else none
  | .read m =>
    if s.main ≠ .idle ∨ m.connectionId ∈ s.closed then none
    else if m.payload = .short then some (s.close m)
    else
      match s.laneForEventId m.requestId with
      | none => some (s.unmatched m)
      | some k => some { s with main := .found k m }
  | .check =>
    match s.main with
    | .found k m =>
      if (s.lanes k).currentResponder = m.connectionId then some { s with main := .checked k m }
      else some (s.unmatched m)
    | _ => none
  | .deliver rights =>
    match s.main with
    | .checked k m => some (s.deliver k m rights)
    | _ => none
  | .pass =>
    match s.main with
    | .passing k m => some ((s.setLane k ((s.lanes k).offer (m.laneDecision .pass []))).close m)
    | _ => none
  | .quarantine c t => some { s with quarantined := insert (c, t) s.quarantined }
  | .rearm c t => some { s with quarantined := s.quarantined.erase (c, t) }
  | .lane k move =>
    match (s.lanes k).stack with
    | frame :: rest => s.laneStep k frame rest move
    | [] => none

end System

end KeysharpInput.Reply
