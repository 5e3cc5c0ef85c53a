import KeysharpInput.CallStack
import KeysharpInput.Transition
import KeysharpInput.Session

/-!
Recursive Sends between the lanes and the main loop.
A callback's Send starts the pump of its frame and becomes a transaction of the lane that runs the
callback. The lane runs the members inside the callback's wait, through the same subscriber calls,
and posts an acknowledgement when it is through with them. The main thread ends the pump before it
replies, and inside `hook_send_ref_end_pump` it waits while frames stand above the pumping one. It
is also the only thread that reads decisions.
-/

namespace KeysharpInput.Pump

open Session (HookType)
open Callback (Stream)
open Transition Function

def mainThread : Nat := 0

def laneThread : HookType → Nat
  | .keyboard => 1
  | .mouse => 2

/-- Where `lane_process_event` stands with its subscribers. -/
inductive CallPhase
  | between
  /-- In `hook_send_ref_wait_event_turn`. -/
  | turn (connectionId : Nat)
  | entered (connectionId : Nat)
  /-- The event was sent; `delivered` once the main thread has put its decision into the slot. -/
  | waiting (connectionId : Nat) (delivered : Bool)
  /-- The call is over and its frame still stands. -/
  | left (connectionId : Nat)
  deriving DecidableEq

def turnPhase (c : Nat) : Option Callback.Returned → CallPhase
  | some (.turn _ _ true) => .entered c
  | some _ => .between
  | none => .turn c

structure Transaction where
  originConnectionId : Nat
  parentHookEventId : Nat
  members : List (Option (List Nat))
  deriving DecidableEq

/-- One activation of `lane_process_event`, with the transaction that runs inside its wait. -/
structure LaneCall where
  eventId : Nat
  recursive : Bool
  subscribers : List Nat
  phase : CallPhase := .between
  nested : Option Transaction := none
  deriving DecidableEq

structure Lane where
  stack : List LaneCall := []
  ring : List Transaction := []

inductive MainPhase
  | idle
  /-- `handle_synthesize_input` has found the lane of the stream's current event. -/
  | sending (connectionId parent : Nat) (lane : HookType)
  /-- In `hook_send_ref_end_pump`. -/
  | ending (connectionId parent index : Nat)
  deriving DecidableEq

structure System where
  streams : Nat → Stream := fun _ => {}
  lanes : HookType → Lane := fun _ => {}
  main : MainPhase := .idle
  /-- The acknowledgements of recursive Sends, as the stream and the parent event. -/
  acks : List (Nat × Nat) := []
  nextEventId : Nat := 1

inductive LaneMove
  | start (subscribers : List Nat)
  /-- The next subscriber is stalled. -/
  | skip
  | turn (sawValid : Bool)
  | wake
  | timeout
  | send (ok : Bool)
  | pop
  /-- The deadline passes, the event is cancelled or the stream has closed. -/
  | giveUp
  | leave
  | finish
  /-- `current` unless the lane was flushed, the depth differs or the seat changed. -/
  | nestedStart (current room : Bool)
  | nestedMember
  /-- What is left of the transaction fails open or is dropped. -/
  | nestedBreak
  | nestedEnd (room : Bool)
  deriving DecidableEq

inductive Event
  | lane (lane : HookType) (move : LaneMove)
  | request (connectionId : Nat)
  | beginPump (sawValid : Bool) (members : List (Option (List Nat))) (queued room : Bool)
  | ack (sawValid : Bool)
  | wakeMain
  | deliver (lane : HookType)
  | invalidate (connectionId : Nat)
  deriving DecidableEq

namespace System

variable (s : System)

def stack (k : HookType) : List LaneCall := (s.lanes k).stack

def setStream (c : Nat) (stream : Stream) : System :=
  { s with streams := update s.streams c stream }

def setStack (k : HookType) (stack : List LaneCall) : System :=
  { s with lanes := update s.lanes k { s.lanes k with stack := stack } }

def setRing (k : HookType) (ring : List Transaction) : System :=
  { s with lanes := update s.lanes k { s.lanes k with ring := ring } }

def invalidate (c : Nat) : System :=
  s.setStream c { s.streams c with ref := { (s.streams c).ref with valid := false } }

/-- The last share of a recursive completion: its acknowledgement, or the end of its stream when
the command ring is full. -/
def postAck (t : Transaction) (room : Bool) : System :=
  if room then { s with acks := s.acks ++ [(t.originConnectionId, t.parentHookEventId)] }
  else s.invalidate t.originConnectionId

def pushCall (k : HookType) (recursive : Bool) (subscribers : List Nat) (rest : List LaneCall) :
    System :=
  let call : LaneCall :=
    { eventId := s.nextEventId, recursive := recursive, subscribers := subscribers }
  { s.setStack k (call :: rest) with nextEventId := s.nextEventId + 1 }

/-- A round of `hook_send_ref_wait_event_turn` for the innermost activation. -/
def settleTurn (k : HookType) (call : LaneCall) (rest : List LaneCall) (c : Nat)
    (stream : Stream) : System :=
  (s.setStream c stream).setStack k
    ({ call with phase := turnPhase c stream.returned } :: rest)

def callStep (k : HookType) (call : LaneCall) (rest : List LaneCall) : LaneMove → Option System
  | .skip =>
    match call.phase, call.subscribers with
    | .between, _ :: others => some (s.setStack k ({ call with subscribers := others } :: rest))
    | _, _ => none
  | .turn sawValid =>
    match call.phase, call.subscribers with
    | .between, c :: others =>
      let call := { call with subscribers := others }
      if sawValid then
        let stream := { s.streams c with
          ref := (s.streams c).ref.appendWaiter ⟨laneThread k, call.recursive⟩ }
        some (s.settleTurn k call rest c (stream.tryTurn (laneThread k) call.eventId
          call.recursive))
      else some (s.setStack k (call :: rest))
    | _, _ => none
  | .wake =>
    match call.phase with
    | .turn c =>
      some (s.settleTurn k call rest c ((s.streams c).tryTurn (laneThread k) call.eventId
        call.recursive))
    | _ => none
  | .timeout =>
    match call.phase with
    | .turn c =>
      some (s.settleTurn k call rest c ((s.streams c).leaveTurn (laneThread k) call.eventId
        call.recursive false (s.streams c).ref))
    | _ => none
  | .send ok =>
    match call.phase with
    | .entered c =>
      let phase := if ok then CallPhase.waiting c false else .left c
      some (s.setStack k ({ call with phase := phase } :: rest))
    | _ => none
  | .pop =>
    match call.phase, call.nested with
    | .waiting c true, none => some (s.setStack k ({ call with phase := .left c } :: rest))
    | _, _ => none
  | .giveUp =>
    match call.phase, call.nested with
    | .waiting c _, none => some (s.setStack k ({ call with phase := .left c } :: rest))
    | _, _ => none
  | .leave =>
    match call.phase with
    | .left c =>
      let stream := { s.streams c with
        ref := (s.streams c).ref.completeEvent call.eventId, returned := none }
      some ((s.setStream c stream).setStack k ({ call with phase := .between } :: rest))
    | _ => none
  | .finish => if call.phase = .between then some (s.setStack k rest) else none
  | .nestedMember =>
    match call.nested with
    | some t =>
      match t.members with
      | m :: members =>
        let parent := { call with nested := some { t with members := members } }
        match m with
        | some subscribers =>
          if subscribers.Nodup then some (s.pushCall k true subscribers (parent :: rest)) else none
        | none => some (s.setStack k (parent :: rest))
      | [] => none
    | none => none
  | .nestedBreak =>
    match call.nested with
    | some t => some (s.setStack k ({ call with nested := some { t with members := [] } } :: rest))
    | none => none
  | .nestedEnd room =>
    match call.nested with
    | some t =>
      if t.members = [] then
        some ((s.setStack k ({ call with nested := none } :: rest)).postAck t room)
      else none
    | none => none
  | .start _ | .nestedStart _ _ => none

/-- The lane takes a transaction from its ring: inside a wait it runs it if the wait is the
parent's, and otherwise the inputs go out unhooked. -/
def nestedStart (k : HookType) (t : Transaction) (current room : Bool) :
    List LaneCall → Option System
  | [] => some (s.postAck t room)
  | call :: rest =>
    match call.phase, call.nested with
    | .waiting c _, none =>
      if current ∧ t.parentHookEventId = call.eventId ∧ t.originConnectionId = c then
        some (s.setStack k ({ call with nested := some t } :: rest))
      else some (s.postAck t room)
    | _, _ => none

def laneStep (k : HookType) (move : LaneMove) : Option System :=
  match move with
  | .start subscribers =>
    if s.stack k = [] ∧ subscribers.Nodup then some (s.pushCall k false subscribers []) else none
  | .nestedStart current room =>
    match (s.lanes k).ring with
    | t :: ring => (s.setRing k ring).nestedStart k t current room (s.stack k)
    | [] => none
  | move =>
    match s.stack k with
    | call :: rest => s.callStep k call rest move
    | [] => none

def answers (k : HookType) (eventId c : Nat) : Bool :=
  (s.stack k).head?.any fun call =>
    call.eventId == eventId && (call.phase == .waiting c false || call.phase == .waiting c true)

/-- A round of `hook_send_ref_end_pump` on the main thread; the reply follows it, or the stream
ends. -/
def settlePump (c parent index : Nat) (stream : Stream) : System :=
  let s := s.setStream c stream
  match stream.returned with
  | some (.endPump _ true) => { s with main := .idle }
  | some _ => { s.invalidate c with main := .idle }
  | none => { s with main := .ending c parent index }

def step : Event → Option System
  | .lane k move => s.laneStep k move
  | .request c =>
    let parent := (s.streams c).ref.currentEventId
    if s.main = .idle ∧ parent ≠ 0 then
      if s.answers .keyboard parent c then some { s with main := .sending c parent .keyboard }
      else if s.answers .mouse parent c then some { s with main := .sending c parent .mouse }
      else none
    else none
  | .beginPump sawValid members queued room =>
    match s.main with
    | .sending c parent k =>
      let s := { s with main := .idle }
      let (ref, ok) := (s.streams c).ref.beginPump parent
      if sawValid && ok then
        let s := s.setStream c { s.streams c with ref := ref }
        let t : Transaction :=
          { originConnectionId := c, parentHookEventId := parent, members := members }
        if queued then some (s.setRing k ((s.lanes k).ring ++ [t]))
        else some (s.postAck t room)
      else some s
    | _ => none
  | .ack sawValid =>
    match s.main, s.acks with
    | .idle, (c, parent) :: acks =>
      let s := { s with acks := acks }
      if sawValid then
        some (s.settlePump c parent (((s.streams c).ref.findCall parent).getD 0)
          ((s.streams c).endPump mainThread parent))
      else some (s.invalidate c)
    | _, _ => none
  | .wakeMain =>
    match s.main with
    | .ending c parent index =>
      some (s.settlePump c parent index ((s.streams c).tryEndPump mainThread parent index))
    | _ => none
  | .deliver k =>
    match s.main, s.stack k with
    | .idle, call :: rest =>
      match call.phase with
      | .waiting c _ => some (s.setStack k ({ call with phase := .waiting c true } :: rest))
      | _ => none
    | _, _ => none
  | .invalidate c => some (s.invalidate c)

/-- The main thread waits for a frame above the pumping one whose lane still needs the decision
that the main thread would read. -/
def waitsOnItself : Bool :=
  match s.main with
  | .ending c _ index =>
    (List.range (s.streams c).ref.callDepth).any fun i =>
      decide (index < i) && (s.stack .keyboard ++ s.stack .mouse).any fun call =>
        call.eventId == ((s.streams c).ref.calls i).eventId && call.phase == .waiting c false
  | _ => false

/-- Stream 1's keyboard callback sends one input that no hook sees. Stream 2's mouse callback sends
one input that stream 1 may see, and its turn enters above the pumping keyboard callback. -/
def crossedSends : List Event :=
  [.lane .keyboard (.start [1]), .lane .keyboard (.turn true), .lane .keyboard (.send true),
    .request 1, .beginPump true [none] true true, .lane .keyboard (.nestedStart true true),
    .lane .mouse (.start [2]), .lane .mouse (.turn true), .lane .mouse (.send true),
    .request 2, .beginPump true [some [1]] true true, .lane .mouse (.nestedStart true true),
    .lane .mouse .nestedMember, .lane .mouse (.turn true), .lane .mouse (.send true),
    .lane .keyboard .nestedMember, .lane .keyboard (.nestedEnd true), .ack true]

/-- The main loop waits for a decision that only it can read. -/
theorem main_loop_waits_on_itself :
    ∃ s : System, Reaches System.step always {} s ∧ s.waitsOnItself = true :=
  exists_reaches _ _ crossedSends (by decide)

end System

end KeysharpInput.Pump
