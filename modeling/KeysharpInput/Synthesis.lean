import KeysharpInput.Session
import KeysharpInput.OutputQueue

/-!
Synthesis requests on their way through the hooks.
A batch that hooks may see is cut into fragments, which wait in one queue and go to the lanes one
at a time; a batch sent from inside a callback is a transaction of the lane that runs it. A
completion counts what is left of a batch, from whichever thread each part ends on, and the last
part makes it reply. While a completion owns an atomic transaction, the ingress does not hand
device events to the lanes.
-/

namespace KeysharpInput.Synthesis

open Session (HookType)
open Output (Input SynthOwner SynthFlags MouseFlag MouseInput OutputState OutputEvent)

/-- `mouse_primitives`: the flag that starts a primitive, the flags it keeps and whether it keeps
the motion. -/
def mousePrimitives : List (MouseFlag × Finset MouseFlag × Bool) :=
  [(.move, {.move, .moveNoCoalesce, .virtualDesktop, .absolute}, true),
    (.wheel, {.wheel}, false), (.horizontalWheel, {.horizontalWheel}, false),
    (.leftDown, {.leftDown}, false), (.leftUp, {.leftUp}, false),
    (.rightDown, {.rightDown}, false), (.rightUp, {.rightUp}, false),
    (.middleDown, {.middleDown}, false), (.middleUp, {.middleUp}, false),
    (.xDown, {.xDown}, false), (.xUp, {.xUp}, false)]

def mousePrimitive (input : MouseInput) (row : MouseFlag × Finset MouseFlag × Bool) : MouseInput :=
  { input with
    flags := input.flags ∩ row.2.1
    dx := if row.2.2 then input.dx else 0
    dy := if row.2.2 then input.dy else 0 }

/-- `ksi_synthetic_hook_expand_input`: what hooks see of one input. -/
def expandInput : Input → List Input
  | .keyboard input => [.keyboard input]
  | .mouse input =>
    match mousePrimitives.filter (·.1 ∈ input.flags) with
    | [] => [.mouse input]
    | rows => rows.map fun row => .mouse (mousePrimitive input row)

def expandBatch (inputs : List Input) : List Input := inputs.flatMap expandInput

/-- `KSI_MAX_SYNTH_HOOK_ACTIONS`. -/
def maxSynthHookActions : Nat := 4096

/-- `KSI_MAX_LANE_ACTIONS`. -/
def maxLaneActions : Nat := 512

/-- `KSI_LANE_TRANSITION_RESERVE`: the places that only device transitions may take. -/
def laneTransitionReserve : Nat := 64

inductive Failure
  | cancelled
  | resourceExhausted
  | timeout
  deriving DecidableEq

/-- How far a completion is: the last share turns it to `ending`, then the transaction counter is
given back, then its acknowledgement is posted, and the main thread sends the reply. -/
inductive Phase
  | counting
  | ending
  | retired
  | acked
  | gone
  deriving DecidableEq

structure Completion where
  remaining : Nat := 1
  ownsAtomicTransaction : Bool := false
  admitted : Bool := false
  terminalResult : Option Failure := none
  phase : Phase := .counting
  deriving DecidableEq

def Phase.live : Phase → Bool
  | .counting | .ending => true
  | .retired | .acked | .gone => false

/-- `atomic_fetch_sub` on an unsigned counter. -/
def fetchSub (n : Nat) : Nat := if n = 0 then 2 ^ 32 - 1 else n - 1

/-- `synth_completion_finish` up to the count: the first failure is kept. -/
def Completion.finish (failure : Option Failure) (c : Completion) : Completion :=
  { c with
    terminalResult := c.terminalResult <|> failure
    remaining := fetchSub c.remaining
    phase := if c.remaining = 1 then .ending else c.phase }

structure Request where
  stream : Nat
  completion : Option Completion := none
  deriving DecidableEq

structure Fragment where
  request : Nat
  place : Nat
  input : Input
  batchStart : Bool
  inputGeneration : Nat
  connectionId : Nat
  deriving DecidableEq

inductive QueueItem
  | fragment (f : Fragment)
  /-- Where a closed connection's accepted output ends. -/
  | release (connectionId : Nat)
  deriving DecidableEq

inductive LaneEvent
  | physical
  | synthetic (f : Fragment) (hookType : HookType) (generation : Nat)
  deriving DecidableEq

structure Member where
  place : Nat
  input : Input
  event : Option (HookType × Nat)
  deriving DecidableEq

structure Transaction where
  request : Nat
  lane : HookType
  originGeneration : Nat
  inputGeneration : Nat
  connectionId : Nat
  members : List Member
  started : Bool := false
  deriving DecidableEq

structure Lane where
  queue : List LaneEvent := []
  running : Option LaneEvent := none
  flushGeneration : Nat := 0
  shuttingDown : Bool := false
  deriving DecidableEq

inductive Outcome
  | pass
  | block
  /-- The replacement, who made it, and whether the lane is flushed before it is admitted. -/
  | modify (inputs : List Input) (responder : Nat) (flushed : Bool)
  deriving DecidableEq

inductive Dispatch
  | fragment (request : Nat)
  | physical
  deriving DecidableEq

inductive Handling
  /-- The hooks decided and the decision's output was admitted. -/
  | decided (outcome : Outcome)
  /-- The input itself went to the output queue. -/
  | unchanged
  | refused
  deriving DecidableEq

structure Handled where
  request : Nat
  place : Nat
  handling : Handling
  deriving DecidableEq

structure Admission where
  request : Nat
  inputs : List Input
  owner : SynthOwner
  deriving DecidableEq

structure System where
  requests : List Request := []
  /-- `synthetic_hook_queue`, and the item that the main thread has taken from it. -/
  queue : List QueueItem := []
  hand : Option QueueItem := none
  syntheticInflight : Bool := false
  physicalHookInflight : Nat := 0
  activeSyntheticTransactions : Nat := 0
  lanes : HookType → Lane := fun _ => {}
  nested : List Transaction := []
  /-- The acknowledgements on the command ring. -/
  acks : List Nat := []
  output : OutputState := {}
  /-- Replies by request, with the status; streams that were invalidated. -/
  replies : List (Nat × Option Failure) := []
  invalidated : List Nat := []
  /-- What happened: completions that reached zero, dispatches and handled parts, in order. -/
  zeroed : List Nat := []
  dispatched : List Dispatch := []
  handled : List Handled := []
  /-- The parts of each accepted batch, what was admitted, and the requests that an admission of
  their input or an allocation was refused for. -/
  batches : List (List Input) := []
  admitted : List Admission := []
  refusals : List Nat := []

inductive DevicePath
  | ingress
  /-- The loop over the backend's descriptors. -/
  | descriptor
  /-- `drain_pending_input`, for a query of the idle time or a change of the seat's owner. -/
  | drain
  deriving DecidableEq

inductive Routing
  /-- No event could be made for it. -/
  | createFailed
  /-- No hook sees it. -/
  | direct
  | lane (hookType : HookType)
  deriving DecidableEq

inductive Route
  /-- Answered at once, with or without output of its own. -/
  | refused (failure : Failure)
  | direct
  | hooked
  | nested (lane : HookType) (allocated pumpBegan eventsCreated room : Bool)
      (events : List (Option HookType))
  deriving DecidableEq

def Route.taken (inputs : List Input) : Route → Route
  | .refused failure => .refused failure
  | route => if inputs = [] then .direct else route

inductive Event
  | request (stream : Nat) (inputs : List Input) (route : Route) (allocOk sendOk : Bool)
  | pop
  | handle (routing : Routing) (lastClient : Bool)
  | abort
  | disconnect (stream : Nat) (lastClient : Bool)
  | physical (lane : HookType) (path : DevicePath) (room : Bool)
  | take (lane : HookType)
  /-- The lane ends its event with this outcome. -/
  | finish (lane : HookType) (outcome : Outcome)
  | nestedStart (i : Nat) (parentActive allocated : Bool)
  | nestedMember (i : Nat) (outcome : Outcome) (allocated : Bool)
  | nestedEnd (i : Nat)
  | closeLane (lane : HookType)
  | closeNested (i : Nat)
  | flush (lane : HookType)
  | shutDown (lane : HookType)
  | retire (request : Nat)
  | postAck (request : Nat) (room : Bool)
  | ack (pumpEnded sendOk : Bool)
  /-- Another admission, a seat change or a turn of the sequencer. -/
  | output (e : OutputEvent)

namespace System

variable (s : System)

def completion (r : Nat) : Option Completion := (s.requests[r]?).bind (·.completion)

def modifyCompletion (r : Nat) (f : Completion → Completion) : System :=
  { s with requests := s.requests.modify r fun q => { q with completion := q.completion.map f } }

def finish (r : Nat) (failure : Option Failure) : System :=
  { s.modifyCompletion r (Completion.finish failure) with
    zeroed := if (s.completion r).any (·.remaining = 1) then s.zeroed ++ [r] else s.zeroed }

def beginAtomic (r : Nat) : System :=
  if (s.completion r).any (!·.ownsAtomicTransaction) then
    { s.modifyCompletion r fun c => { c with ownsAtomicTransaction := true } with
      activeSyntheticTransactions := s.activeSyntheticTransactions + 1 }
  else s

def reply (r stream : Nat) (status : Option Failure) (sent : Bool) : System :=
  if sent then { s with replies := s.replies ++ [(r, status)] }
  else { s with invalidated := stream :: s.invalidated }

def isStale (generation : Nat) : Bool := s.output.isStale generation

def hookTypeValue : HookType → Nat
  | .keyboard => 13
  | .mouse => 14

/-- An output push for a request, with its result. Stale input counts as pushed and is dropped; a
refused Modify replacement passes its event instead. -/
def push (r : Nat) (inputs : List Input) (flags : SynthFlags) (generation : Nat)
    (owner : SynthOwner) (flushed : Bool) : Bool × System :=
  let (ok, output) := s.output.pushOwnedSynth inputs flags generation owner flushed
  (ok, { s with
    output := output
    admitted := if ok && !s.isStale generation then s.admitted ++ [⟨r, inputs, owner⟩]
      else s.admitted
    refusals := if ok || owner.hookType != 0 then s.refusals else r :: s.refusals })

def pushInput (r : Nat) (input : Input) (batchStart : Bool) (generation connectionId : Nat) :
    Bool × System :=
  s.push r [input] { fragment := true, batchStart := batchStart } generation
    { connectionId := connectionId } false

def note (r place : Nat) (handling : Handling) : System :=
  { s with handled := s.handled ++ [⟨r, place, handling⟩] }

def dispatch (d : Dispatch) : System := { s with dispatched := s.dispatched ++ [d] }

/-- `lane_emit_output` for a synthetic event, with what became of the input. -/
def emitOutput (r : Nat) (input : Input) (batchStart : Bool) (generation connectionId : Nat)
    (hookType : HookType) : Outcome → Handling × System
  | .block => (.decided .block, s)
  | .pass =>
    let (ok, s) := s.pushInput r input batchStart generation connectionId
    (if ok then .unchanged else .refused, s)
  | .modify inputs responder flushed =>
    if inputs = [] then (.decided .block, s)
    else
      let owner : SynthOwner := { connectionId := responder, hookType := hookTypeValue hookType }
      let (ok, s) := s.push r inputs { fragment := true } generation owner flushed
      if ok then (.decided (.modify inputs responder flushed), s)
      else
        let (ok, s) := s.pushInput r input batchStart generation connectionId
        (if ok then .unchanged else .refused, s)

/-- `lane_event_cancelled`. -/
def cancelled (lane : HookType) (generation inputGeneration : Nat) : Bool :=
  (s.lanes lane).shuttingDown || generation != (s.lanes lane).flushGeneration
    || s.isStale inputGeneration

def modifyLane (k : HookType) (f : Lane → Lane) : System :=
  { s with lanes := Function.update s.lanes k (f (s.lanes k)) }

def newRequest (stream : Nat) (batch : List Input) (completion : Option Completion) : System :=
  { s with
    requests := s.requests ++ [⟨stream, completion⟩]
    batches := s.batches ++ [batch] }

def fragments (r generation connectionId : Nat) (nodes : List Input) : List QueueItem :=
  nodes.mapIdx fun place input =>
    .fragment ⟨r, place, input, place == 0, generation, connectionId⟩

def noteAll (r : Nat) (handling : Handling) (places : List Nat) : System :=
  { s with handled := s.handled ++ places.map fun place => ⟨r, place, handling⟩ }

def sendDirect (stream : Nat) (inputs : List Input) (sendOk : Bool) : System :=
  let r := s.requests.length
  let (ok, s) := s.push r inputs {} s.output.inputGeneration { connectionId := stream } false
  if ok then
    ((s.noteAll r .unchanged (List.range inputs.length)).newRequest stream inputs none).reply r
      stream none sendOk
  else (s.newRequest stream [] none).reply r stream (some .resourceExhausted) sendOk

/-- `handle_synthesize_input` once the request is decoded. -/
def handleSynthesizeInput (stream : Nat) (inputs : List Input) (route : Route)
    (allocOk sendOk : Bool) : System :=
  let r := s.requests.length
  let generation := s.output.inputGeneration
  let answer := fun status => (s.newRequest stream [] none).reply r stream status sendOk
  let empty := s.newRequest stream [] (some {})
  match route.taken inputs with
  | .refused failure => answer (some failure)
  | .direct => s.sendDirect stream inputs sendOk
  | .hooked =>
    let nodes := expandBatch inputs
    if maxSynthHookActions < nodes.length ∨ !allocOk then answer (some .resourceExhausted)
    else if maxSynthHookActions - nodes.length < s.queue.length then
      empty.finish r (some .resourceExhausted)
    else
      { s.newRequest stream nodes (some { remaining := nodes.length, admitted := true }) with
        queue := s.queue ++ fragments r generation stream nodes }
  | .nested k allocated pumpBegan eventsCreated room events =>
    let nodes := expandBatch inputs
    if maxSynthHookActions < nodes.length ∨ !allocOk then answer (some .resourceExhausted)
    else if !allocated then empty.finish r (some .resourceExhausted)
    else if !pumpBegan then empty.finish r (some .timeout)
    else if !eventsCreated then empty.finish r (some .resourceExhausted)
    else if !room then (empty.beginAtomic r).finish r (some .resourceExhausted)
    else
      let s := (s.newRequest stream nodes (some {})).beginAtomic r
      { s with nested := s.nested ++ [{
          request := r, lane := k
          originGeneration := (s.lanes k).flushGeneration
          inputGeneration := generation
          connectionId := stream
          members := nodes.mapIdx fun place input =>
            { place := place, input := input,
              event := (events[place]?.join).map fun t => (t, (s.lanes t).flushGeneration) } }] }

/-- `enqueue_synth_direct_complete`, and the fallback of a fragment that its lane refuses. -/
def completeDirect (f : Fragment) : System :=
  let (ok, s) := s.pushInput f.request f.input f.batchStart f.inputGeneration f.connectionId
  if ok then (s.note f.request f.place .unchanged).finish f.request none
  else (s.note f.request f.place .refused).finish f.request (some .resourceExhausted)

def processSyntheticHookInput (f : Fragment) : Routing → System
  | .createFailed =>
    let s := { s with refusals := f.request :: s.refusals }
    (s.note f.request f.place .refused).finish f.request (some .resourceExhausted)
  | .direct => (s.dispatch (.fragment f.request)).completeDirect f
  | .lane k =>
    let s := s.dispatch (.fragment f.request)
    if (s.lanes k).queue.length < maxLaneActions - laneTransitionReserve then
      { s.modifyLane k fun lane => { lane with
          queue := lane.queue ++ [LaneEvent.synthetic f k lane.flushGeneration] } with
        syntheticInflight := true }
    else { s.completeDirect f with syntheticInflight := false }

def releaseConnection (connectionId : Nat) (lastClient : Bool) : System :=
  let output := (s.output.pushReleaseOwner { connectionId := connectionId }).2
  { s with output := if lastClient then output.pushReleaseGeneric.2 else output }

/-- `remove_client`: the release waits for the batches already sent, unless the queue is full. -/
def removeClient (stream : Nat) (lastClient : Bool) : System :=
  let s := { s with invalidated := stream :: s.invalidated }
  if s.queue.length < maxSynthHookActions then { s with queue := s.queue ++ [.release stream] }
  else s.releaseConnection stream lastClient

/-- The part of `process_synthetic_hook_queue_one` after the pop. -/
def processSyntheticHookQueueOne (item : QueueItem) (routing : Routing) (lastClient : Bool) :
    System :=
  let s := { s with hand := none }
  match item with
  | .release connectionId => s.releaseConnection connectionId lastClient
  | .fragment f =>
    if s.isStale f.inputGeneration then
      (s.note f.request f.place .refused).finish f.request (some .cancelled)
    else (if f.batchStart then s.beginAtomic f.request else s).processSyntheticHookInput f routing

/-- `synthetic_hook_queue_abort` for one item: a release marker stays. -/
def abortItem (s : System) : QueueItem → System
  | .release connectionId => { s with queue := s.queue ++ [.release connectionId] }
  | .fragment f => (s.note f.request f.place .refused).finish f.request (some .cancelled)

/-- The end of `lane_process_event` for the event that a lane runs. -/
def laneProcessEvent (k : HookType) (outcome : Outcome) : LaneEvent → System
  | .physical => { s with physicalHookInflight := s.physicalHookInflight - 1 }
  | .synthetic f hookType generation =>
    if s.cancelled k generation f.inputGeneration then
      { (s.note f.request f.place .refused).finish f.request (some .resourceExhausted) with
        syntheticInflight := false }
    else
      let (handling, s) := s.emitOutput f.request f.input f.batchStart f.inputGeneration
        f.connectionId hookType outcome
      let failure := if handling = .refused then some .resourceExhausted else none
      { (s.note f.request f.place handling).finish f.request failure with
        syntheticInflight := false }

/-- `lane_action_queue_close` for one event. -/
def closeEvent (s : System) : LaneEvent → System
  | .physical => s
  | .synthetic f _ _ =>
    (s.note f.request f.place .refused).finish f.request (some .resourceExhausted)

/-- The end of `lane_process_nested_transaction`. -/
def endTransaction (i : Nat) (t : Transaction) (ok : Bool) : System :=
  let s := { s with nested := s.nested.eraseIdx i }
  let s := if s.output.ownerIsLive { connectionId := t.connectionId } then s
    else { s with output := (s.output.pushReleaseOwner { connectionId := t.connectionId }).2 }
  s.finish t.request (if ok then none else some .timeout)

/-- `lane_fail_open_nested_transaction` for the members that are left. -/
def failOpenNestedTransaction (i : Nat) (t : Transaction) (members : List Member)
    (allocated : Bool) : System :=
  if members = [] then s.endTransaction i t true
  else
    let (ok, s) :=
      if allocated then s.push t.request (members.map (·.input)) {} t.inputGeneration
        { connectionId := t.connectionId } false
      else (false, { s with refusals := t.request :: s.refusals })
    (s.noteAll t.request (if ok then .unchanged else .refused)
      (members.map (·.place))).endTransaction i t ok

def setTransaction (i : Nat) (t : Transaction) : System :=
  { s with nested := s.nested.set i t }

/-- The head of `lane_process_nested_transaction`. -/
def startTransaction (i : Nat) (t : Transaction) (parentActive allocated : Bool) : System :=
  if s.isStale t.inputGeneration then
    (s.noteAll t.request .refused (t.members.map (·.place))).endTransaction i t false
  else if parentActive && t.originGeneration == (s.lanes t.lane).flushGeneration then
    s.setTransaction i { t with started := true }
  else s.failOpenNestedTransaction i t t.members allocated

/-- One turn of the loop of `lane_process_nested_transaction`. -/
def processMember (i : Nat) (t : Transaction) (m : Member) (rest : List Member)
    (outcome : Outcome) (allocated : Bool) : System :=
  if s.isStale t.inputGeneration then
    (s.noteAll t.request .refused (t.members.map (·.place))).endTransaction i t false
  else match m.event with
    | none =>
      let (ok, s) := (s.dispatch (.fragment t.request)).pushInput t.request m.input
        (m.place == 0) t.inputGeneration t.connectionId
      if ok then (s.note t.request m.place .unchanged).setTransaction i { t with members := rest }
      else (s.noteAll t.request .refused (t.members.map (·.place))).endTransaction i t false
    | some (hookType, generation) =>
      if s.cancelled t.lane generation t.inputGeneration then
        s.failOpenNestedTransaction i t t.members allocated
      else
        let (handling, s) := (s.dispatch (.fragment t.request)).emitOutput t.request m.input
          (m.place == 0) t.inputGeneration t.connectionId hookType outcome
        if handling = .refused then s.failOpenNestedTransaction i t t.members allocated
        else (s.note t.request m.place handling).setTransaction i { t with members := rest }

def step : Event → Option System
  | .request stream inputs route allocOk sendOk =>
    some (s.handleSynthesizeInput stream inputs route allocOk sendOk)
  | .pop =>
    match s.hand, s.queue with
    | none, item :: queue =>
      if s.syntheticInflight ∨ s.physicalHookInflight ≠ 0 then none
      else some { s with queue := queue, hand := some item }
    | _, _ => none
  | .handle routing lastClient =>
    s.hand.map fun item => s.processSyntheticHookQueueOne item routing lastClient
  | .abort => some (s.queue.foldl abortItem { s with queue := [] })
  | .disconnect stream lastClient => some (s.removeClient stream lastClient)
  | .physical k path room =>
    -- The ingress checks the counter; the other places do not.
    if path = .ingress ∧ s.activeSyntheticTransactions ≠ 0 then none
    else
      let s := s.dispatch .physical
      some (if room then
          { s.modifyLane k fun lane => { lane with queue := lane.queue ++ [.physical] } with
            physicalHookInflight := s.physicalHookInflight + 1 }
        else s)
  | .take k =>
    match (s.lanes k).running, (s.lanes k).queue with
    | none, e :: queue =>
      some (s.modifyLane k fun lane => { lane with queue := queue, running := some e })
    | _, _ => none
  | .finish k outcome =>
    (s.lanes k).running.map fun e =>
      (s.modifyLane k fun lane => { lane with running := none }).laneProcessEvent k outcome e
  | .nestedStart i parentActive allocated =>
    match s.nested[i]? with
    | some t => if t.started then none else some (s.startTransaction i t parentActive allocated)
    | none => none
  | .nestedMember i outcome allocated =>
    match s.nested[i]? with
    | some t =>
      match t.members with
      | m :: rest => if t.started then some (s.processMember i t m rest outcome allocated) else none
      | [] => none
    | none => none
  | .nestedEnd i =>
    match s.nested[i]? with
    | some t => if t.started ∧ t.members = [] then some (s.endTransaction i t true) else none
    | none => none
  | .closeLane k =>
    some ((s.lanes k).queue.foldl closeEvent (s.modifyLane k fun lane => { lane with queue := [] }))
  | .closeNested i =>
    match s.nested[i]? with
    | some t =>
      let s := { s with nested := s.nested.eraseIdx i }
      some ((s.noteAll t.request .refused (t.members.map (·.place))).finish t.request
        (some .resourceExhausted))
    | none => none
  | .flush k =>
    some (s.modifyLane k fun lane => { lane with
      flushGeneration := (lane.flushGeneration + 1) % 2 ^ 32 })
  | .shutDown k => some (s.modifyLane k fun lane => { lane with shuttingDown := true })
  | .retire r =>
    match s.completion r with
    | some c =>
      if c.phase = .ending then
        some { s.modifyCompletion r fun c => { c with phase := .retired } with
          activeSyntheticTransactions :=
            if c.ownsAtomicTransaction then fetchSub s.activeSyntheticTransactions
            else s.activeSyntheticTransactions }
      else none
    | none => none
  | .postAck r room =>
    match s.requests[r]? with
    | some q =>
      if q.completion.any (·.phase = .retired) then
        if room then
          some { s.modifyCompletion r fun c => { c with phase := .acked } with
            acks := s.acks ++ [r] }
        else
          some { s.modifyCompletion r fun c => { c with phase := .gone } with
            invalidated := q.stream :: s.invalidated }
      else none
    | none => none
  | .ack pumpEnded sendOk =>
    match s.acks with
    | r :: acks =>
      match s.requests[r]? with
      | some q =>
        let status := q.completion.bind fun c => if c.admitted then none else c.terminalResult
        let sent := pumpEnded && sendOk && !s.invalidated.contains q.stream
        some (({ s with acks := acks }.modifyCompletion r fun c =>
          { c with phase := .gone }).reply r q.stream status sent)
      | none => none
    | [] => none
  | .output e => (s.output.step e).map fun output => { s with output := output }

end System

end KeysharpInput.Synthesis
