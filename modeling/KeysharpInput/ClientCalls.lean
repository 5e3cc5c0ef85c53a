import KeysharpInput.ClientMessages
import KeysharpInput.Transition

/-!
The calls of the client library on one connection.
A request sends a frame and waits for its response; meanwhile notices are buffered, and a hook
event runs the nested handler, which may call the library again. The calls in progress form a
stack, and a step is one turn of the innermost call: a call that starts, a frame that it
receives, or the return of the handler it runs. Visitors and the device handler do not call the
library, as its header asks.
-/

namespace KeysharpInput.Client

open Opcode

open Session (ConnectionRole)

/-- `KSI_CLIENT_MAX_RECURSION`. -/
def maxRecursion : Nat := 32

/-- `KSI_CLIENT_NOTIFICATION_CAPACITY`. -/
def notificationCapacity : Nat := 16

def uint64Max : Nat := 2 ^ 64 - 1

/-- `KSI_SCOPE_INPUT_MONITORING`. -/
def inputMonitoring : BitVec 32 := 1

/-- `KSI_SCOPE_ALL`. -/
def scopeAll : BitVec 32 := 3

structure RequestSpec where
  opcode : Nat
  payload : List Nat
  /-- The arguments pass the function's own checks. -/
  accepted : Bool := true
  /-- The size of a successful result; none if the function checks it later. -/
  successSize : Option Nat := none
  /-- The flags are checked before the status, as `simple_request` does. -/
  flagsFirst : Bool := true
  /-- The checks of the result's data. -/
  resultIsValid : List Nat → Bool := fun _ => true
  /-- The scopes in the result are the connection's from then on, as in `authorize_request`. -/
  grants : Bool := false

def ksiPing : RequestSpec :=
  { opcode := 0x0003, payload := [], successSize := some statusPayloadSize }

inductive Awaiting
  | request (spec : RequestSpec)
  | permissionsList (cancelled : Bool)
  | devicesList (offset generation : Nat)

inductive Activity
  | awaiting (opcode requestId : Nat) (kind : Awaiting)
  | hookNext
  | leaseNext
  | observerNext
  | handling (requestId : Nat)

def Activity.receives : Activity → Bool
  | .handling _ => false
  | _ => true

structure Return where
  status : Status
  buffered : Bool := false
  deriving DecidableEq

/-- `ksi_connection`. History: the bytes sent, whether a frame was cut off, whether a read or a
write failed, the requests without response and the hook events without reply that were sent and
received in waiting calls, the observer frames received and the observer messages returned,
whether a revocation emptied the observer's buffer, and the returns. -/
structure Connection where
  role : ConnectionRole
  receiver : Receiver
  shutdown : Bool := false
  requestId : Nat := 1
  grantedScopes : BitVec 32 := 0
  pendingRevokedScopes : BitVec 32 := 0
  leaseNotifications : List LeaseMessage := []
  notifications : List HookMessage := []
  observerNotifications : List ObserverMessage := []
  observerDropped : Nat := 0
  outstandingHookRequest : Nat := 0
  recursionDepth : Nat := 0
  nestedHandler : Bool := false
  deviceHandler : Bool := false
  /-- `ready_fd` is readable. -/
  ready : Bool := false
  calls : List Activity := []
  sent : List Nat := []
  cut : Bool := false
  broken : Bool := false
  unread : List Nat := []
  unanswered : List Nat := []
  observed : List ObserverMessage := []
  told : List ObserverMessage := []
  emptied : Bool := false
  returned : List Return := []

namespace Connection

variable (c : Connection)

def terminalFailure : Connection := { c with shutdown := true }

def finish (status : Status) : Connection :=
  { c with calls := c.calls.tail, returned := c.returned ++ [⟨status, false⟩] }

def answer (status : Status) (buffered : Bool) : Connection :=
  { c with returned := c.returned ++ [⟨status, buffered⟩] }

def nextRequestId : Nat × Connection :=
  let next := (c.requestId + 1) % 2 ^ 64
  if c.requestId = 0 then (next, { c with requestId := (next + 1) % 2 ^ 64 })
  else (c.requestId, { c with requestId := next })

/-- `send_frame`; a socket that was shut down takes nothing. -/
def sendFrame (frame : OutFrame) (outcomes : List WriteOutcome) : Status × Connection :=
  if maxPayloadSize < frame.payload.length then (.invalidRequest, c)
  else if c.shutdown then (.unavailable, { c with broken := true })
  else
    let header := frame.bytes.take frameHeaderSize
    let (status, written, outcomes) := writeAll outcomes header
    let (status, written) :=
      if status ≠ .ok then (status, written)
      else
        let (status, more, _) := writeAll outcomes frame.payload
        (status, written ++ more)
    (status, { c with
        sent := c.sent ++ written
        cut := c.cut || (written ≠ [] && status ≠ .ok)
        broken := c.broken || status == .unavailable })

/-- `receive_frame`. A header that fails its checks ends the connection. -/
def receiveFrame (outcomes : List ReadOutcome) :
    Except Status (WireHeader × List Nat) × Connection :=
  let (result, receiver) := c.receiver.receiveFrame outcomes
  let failed := match result with
    | .error .unavailable => true
    | _ => false
  (result, { c with
      receiver := receiver
      shutdown := c.shutdown || receiver.headerInvalid
      broken := c.broken || failed })

def updateBufferedReadiness : Connection :=
  { c with ready :=
    !c.notifications.isEmpty || !c.observerNotifications.isEmpty || c.observerDropped != 0 ||
      !c.leaseNotifications.isEmpty ||
      (c.role == .observerStream && c.pendingRevokedScopes != 0) }

def applyRevocation (revoked : BitVec 32) : Connection :=
  { c with
    grantedScopes := c.grantedScopes &&& ~~~ revoked
    pendingRevokedScopes := c.pendingRevokedScopes ||| revoked }

def queueNotification (message : HookMessage) : Bool × Connection :=
  if c.notifications.length = notificationCapacity then (false, c)
  else
    (true, updateBufferedReadiness { c with notifications := c.notifications ++ [message] })

def popNotification : Option Connection :=
  match c.notifications with
  | [] => none
  | message :: notifications =>
    let c := { c with notifications := notifications }
    some (updateBufferedReadiness (match message with
      | .sessionRevoked scopes =>
        { c with pendingRevokedScopes := c.pendingRevokedScopes &&& ~~~ scopes }
      | _ => c))

/-- The end of `queue_lease_event`: a keyboard state replaces one that waits last. -/
def queueLease (message : LeaseMessage) : Bool × Connection :=
  match message, c.leaseNotifications.getLast? with
  | .keyboard _ granted payload, some (.keyboard ..) =>
    (true, updateBufferedReadiness { c with leaseNotifications :=
      c.leaseNotifications.dropLast ++ [.keyboard true granted payload] })
  | _, _ =>
    if c.leaseNotifications.length = notificationCapacity then (false, c)
    else
      (true, updateBufferedReadiness
        { c with leaseNotifications := c.leaseNotifications ++ [message] })

def queueLeaseEvent (header : WireHeader) (payload : List Nat) : Bool × Connection :=
  if header.opcode = keyStateEvent.code then
    if !keyStateIsValid payload then (false, c)
    else c.queueLease (.keyboard (readU32 payload 0 == 3) c.grantedScopes payload)
  else if header.opcode = sessionGranted.code then
    if payload.length ≠ 8 ∨ readU32 payload 4 ≠ 0 then (false, c)
    else
      let granted := BitVec.ofNat 32 (readU32 payload 0)
      queueLease { c with grantedScopes := granted } (.granted granted)
  else if header.opcode = sessionRevoked.code then
    let revoked := decodeRevocation payload
    if revoked = 0 then (false, c)
    else
      let c := { c.applyRevocation revoked with pendingRevokedScopes := 0 }
      c.queueLease (.revoked revoked c.grantedScopes)
  else (false, c)

/-- The part of `queue_service_event` that buffers an observer message. -/
def queueObserver (message : ObserverMessage) : Connection :=
  if c.observerNotifications.length = notificationCapacity then
    if c.observerDropped ≠ uint64Max then { c with observerDropped := c.observerDropped + 1 } else c
  else
    updateBufferedReadiness
      { c with observerNotifications := c.observerNotifications ++ [message] }

def queueServiceEvent (header : WireHeader) (payload : List Nat) : Bool × Connection :=
  if c.role = .authorizationLease ∨ c.role = .rpc then c.queueLeaseEvent header payload
  else if header.opcode = observerEvent.code then
    match decodeObserver payload with
    | none => (false, c)
    | some message =>
      if c.role = .callbackStream then
        (message.kind != .input && message.kind != .rawInput, c)
      else (true, { c with observed := c.observed ++ [message] }.queueObserver message)
  else if header.opcode = sessionRevoked.code then
    let revoked := decodeRevocation payload
    if revoked = 0 then (false, c)
    else
      let c := c.applyRevocation revoked
      if c.role = .callbackStream then c.queueNotification (.sessionRevoked revoked)
      else if revoked &&& inputMonitoring ≠ 0 then
        (true, { c with observerNotifications := [], observerDropped := 0, emptied := true })
      else (true, c)
  else if header.opcode = hookQuarantined.code ∧ c.role = .callbackStream ∧
      quarantineIsValid payload then c.queueNotification (.quarantined payload)
  else (false, c)

/-- The head of the loop of `ksi_observer_next`: a revocation, a buffered message or the count of
those that were lost. -/
def takeObserver : Option Connection :=
  if c.pendingRevokedScopes ≠ 0 then
    some (updateBufferedReadiness { c with pendingRevokedScopes := 0 })
  else match c.observerNotifications with
    | message :: notifications =>
      some (updateBufferedReadiness
        { c with observerNotifications := notifications, told := c.told ++ [message] })
    | [] =>
      if c.observerDropped ≠ 0 then
        some (updateBufferedReadiness { c with
          observerDropped := 0
          told := c.told ++ [⟨.overflow, 0, c.observerDropped, []⟩] })
      else none

def popLease : Connection :=
  updateBufferedReadiness { c with leaseNotifications := c.leaseNotifications.tail }

def sendHookResponse (requestId status detail : Nat) (reply : HookReply)
    (writes : List WriteOutcome) : Status × Connection :=
  if requestId = 0 then (.invalidRequest, c)
  else match hookResponsePayload status detail reply with
    | none => (.invalidRequest, c)
    | some payload => c.sendFrame ⟨hookEvent.code, 1, requestId, payload⟩ writes

def respond (requestId status detail : Nat) (reply : HookReply) (writes : List WriteOutcome) :
    Connection :=
  let (sent, c) := c.sendHookResponse requestId status detail reply writes
  if sent = .ok then { c with unanswered := c.unanswered.erase requestId } else c.finish sent

/-- `handle_nested_hook` up to the handler; without one the event passes. -/
def handleNestedHook (header : WireHeader) (payload : List Nat) (writes : List WriteOutcome) :
    Connection :=
  match decodeHookEvent payload header.requestId with
  | none => c.terminalFailure.finish .internal
  | some _ =>
    let c := { c with unanswered := header.requestId :: c.unanswered }
    if !c.nestedHandler then c.respond header.requestId 0 0 {} writes
    else if maxRecursion ≤ c.recursionDepth then c.respond header.requestId 7 0 {} writes
    else
      { c with
        calls := .handling header.requestId :: c.calls
        recursionDepth := c.recursionDepth + 1 }

/-- The end of `ksi_hook_reply_event`: a reply that was not written may be given again. -/
def replyEvent (requestId : Nat) (reply : HookReply) (writes : List WriteOutcome) : Connection :=
  let (sent, c) := c.sendHookResponse requestId 0 0 reply writes
  answer { c with
    outstandingHookRequest := if sent = .ok then 0 else c.outstandingHookRequest } sent false

def callbackStatus (status : Nat) : Nat := if 10 < status ∧ status ≠ 255 then 255 else status

def beginRequest (opcode : Nat) (payload : List Nat) (kind : Awaiting)
    (writes : List WriteOutcome) : Connection :=
  let (requestId, c) := c.nextRequestId
  let (sent, c) := c.sendFrame ⟨opcode, 0, requestId, payload⟩ writes
  if sent = .ok then
    { c with calls := .awaiting opcode requestId kind :: c.calls, unread := requestId :: c.unread }
  else if sent = .timeout then c.terminalFailure.answer sent false
  else c.answer sent false

/-- The payload of a page request of `devices_list_paged`. -/
def devicesListPayload (offset generation : Nat) : List Nat :=
  writeLe 4 offset ++ writeLe 4 0 ++ writeLe 8 generation

def finishStatus (result : Status × Bool) : Connection :=
  if result.2 then c.terminalFailure.finish result.1 else c.finish result.1

def finishRequest (spec : RequestSpec) (header : WireHeader) (payload : List Nat) : Connection :=
  let result := decodeStatus payload spec.successSize
  if spec.flagsFirst && header.flags ≠ 1 then c.terminalFailure.finish .internal
  else if result ≠ (.ok, false) then c.finishStatus result
  else if header.flags ≠ 1 || !spec.resultIsValid payload then c.terminalFailure.finish .internal
  else
    let granted := if spec.grants then BitVec.ofNat 32 (readU32 payload 8) &&& scopeAll else 0
    finish { c with grantedScopes := c.grantedScopes ||| granted } .ok

/-- A response of `ksi_permissions_list`; the visitor says whether it wants more. -/
def finishPermissionsList (opcode requestId : Nat) (cancelled goOn : Bool) (header : WireHeader)
    (payload : List Nat) : Connection :=
  if header.flags = 1 then
    let result := decodeStatus payload (some statusPayloadSize)
    if result = (.ok, false) ∧ cancelled then c.finish .cancelled else c.finishStatus result
  else if header.flags ≠ 5 ∨ payload.length < 56 then c.terminalFailure.finish .internal
  else
    let result := decodeStatus payload none
    if result ≠ (.ok, false) then c.finishStatus result
    else if readU32 payload 12 ≠ payload.length - 56 ∨ 4096 ≤ readU32 payload 12 then
      c.terminalFailure.finish .internal
    else
      { c with calls :=
        .awaiting opcode requestId (.permissionsList (cancelled || !goOn)) :: c.calls.tail }

/-- The loop of `devices_list_paged` over the devices of a page. -/
def visitDevices (isValid goOn : Nat → Bool) : List Nat → Status
  | [] => .ok
  | i :: rest =>
    if !isValid i then .internal else if !goOn i then .cancelled else visitDevices isValid goOn rest

/-- A page of `devices_list_paged`; a next page is asked for at once. -/
def finishDevicesList (opcode offset generation : Nat) (goOn : Nat → Bool) (header : WireHeader)
    (payload : List Nat) (writes : List WriteOutcome) : Connection :=
  let result := decodeStatus payload none
  if result ≠ (.ok, false) then c.finishStatus result
  else
    let count := readU32 payload 20
    let next := readU32 payload 16
    let returned := readU64 payload 8
    let device := fun i => (payload.drop (24 + 2984 * i)).take 2984
    if header.flags ≠ 1 ∨ payload.length < 24 ∨ 8 < count ∨ payload.length ≠ 24 + 2984 * count ∨
        (next ≠ 0 ∧ next ≤ offset) ∨ (generation ≠ 0 ∧ returned ≠ generation) then
      c.terminalFailure.finish .internal
    else match visitDevices (fun i => deviceIsValid (device i)) goOn (List.range count) with
      | .ok =>
        if next = 0 then c.finish .ok
        else beginRequest { c with calls := c.calls.tail } opcode
          (devicesListPayload next returned) (.devicesList next returned) writes
      | .internal => c.terminalFailure.finish .internal
      | status => c.finish status

/-- A frame that `wait_response` has received. -/
def awaitFrame (opcode requestId : Nat) (kind : Awaiting) (goOn : Nat → Bool) (header : WireHeader)
    (payload : List Nat) (writes : List WriteOutcome) : Connection :=
  if header.flags = 2 then
    match c.queueServiceEvent header payload with
    | (true, c) => c
    | (false, c) => c.terminalFailure.finish .internal
  else if header.flags = 0 ∧ header.opcode = hookEvent.code then
    c.handleNestedHook header payload writes
  else if !header.response || header.opcode ≠ opcode || header.requestId ≠ requestId then
    c.terminalFailure.finish .internal
  else
    let c := if header.more then c else { c with unread := c.unread.erase requestId }
    match kind with
    | .request spec => c.finishRequest spec header payload
    | .permissionsList cancelled =>
      c.finishPermissionsList opcode requestId cancelled (goOn 0) header payload
    | .devicesList offset generation =>
      c.finishDevicesList opcode offset generation goOn header payload writes

/-- A frame that `ksi_hook_next` has received. -/
def hookNextFrame (header : WireHeader) (payload : List Nat) : Connection :=
  let invalid := fun c : Connection => c.terminalFailure.finish .internal
  if header.flags = 2 then
    match c.queueServiceEvent header payload with
    | (true, c) => match c.popNotification with
      | some c => c.finish .ok
      | none => c
    | (false, c) => invalid c
  else if header.flags ≠ 0 ∨ header.opcode ≠ hookEvent.code ∨
      (decodeHookEvent payload header.requestId).isNone then invalid c
  else finish { c with outstandingHookRequest := header.requestId } .ok

/-- A frame that `ksi_lease_next` has received. -/
def leaseNextFrame (header : WireHeader) (payload : List Nat) : Connection :=
  if header.flags = 2 then
    match c.queueLeaseEvent header payload with
    | (true, c) => c.popLease.finish .ok
    | (false, c) => c.terminalFailure.finish .internal
  else c.terminalFailure.finish .internal

/-- A frame that `ksi_observer_next` has received. -/
def observerNextFrame (header : WireHeader) (payload : List Nat) : Connection :=
  if header.flags = 2 then
    match c.queueServiceEvent header payload with
    | (true, c) => match c.takeObserver with
      | some c => c.finish .ok
      | none => c
    | (false, c) => c.terminalFailure.finish .internal
  else c.terminalFailure.finish .internal

end Connection

inductive Event
  | request (spec : RequestSpec) (writes : List WriteOutcome)
  | permissionsList (writes : List WriteOutcome)
  | devicesList (opcode : Nat) (writes : List WriteOutcome)
  | setNestedHookHandler (present : Bool)
  | setDeviceChangeHandler (present : Bool)
  | hookNext
  | leaseNext
  | observerNext
  | hookReplyEvent (requestId : Nat) (reply : HookReply) (writes : List WriteOutcome)
  /-- The innermost call receives; `goOn` is what a visitor answers for each entry. -/
  | receive (reads : List ReadOutcome) (goOn : Nat → Bool) (writes : List WriteOutcome)
  /-- The deadline of a waiting request has passed. -/
  | expire
  | handlerReturns (status detail : Nat) (reply : HookReply) (writes : List WriteOutcome)

namespace Connection

variable (c : Connection)

def mayCall : Bool :=
  match c.calls with
  | [] => true
  | .handling _ :: _ => true
  | _ => false

def receiveFailed (call : Activity) (status : Status) : Connection :=
  match call with
  | .awaiting .. => if status = .timeout then c.terminalFailure.finish status else c.finish status
  | _ => c.finish status

def receivedFrame (call : Activity) (goOn : Nat → Bool) (header : WireHeader) (payload : List Nat)
    (writes : List WriteOutcome) : Connection :=
  match call with
  | .awaiting opcode requestId kind => c.awaitFrame opcode requestId kind goOn header payload writes
  | .hookNext => c.hookNextFrame header payload
  | .leaseNext => c.leaseNextFrame header payload
  | .observerNext => c.observerNextFrame header payload
  | .handling _ => c

def receive (reads : List ReadOutcome) (goOn : Nat → Bool) (writes : List WriteOutcome) :
    Option Connection :=
  match c.calls with
  | [] => none
  | call :: _ =>
    if !call.receives then none
    else match c.receiveFrame reads with
      | (.error status, c) => some (c.receiveFailed call status)
      | (.ok (header, payload), c) => some (c.receivedFrame call goOn header payload writes)

def start : Event → Option Connection
  | .request spec writes =>
    some (if !spec.accepted then c.answer .invalidRequest false
      else c.beginRequest spec.opcode spec.payload (.request spec) writes)
  | .permissionsList writes =>
    some (if c.role ≠ .rpc then c.answer .invalidRequest false
      else c.beginRequest permissionsList.code [] (.permissionsList false) writes)
  | .devicesList opcode writes =>
    some (c.beginRequest opcode (devicesListPayload 0 0) (.devicesList 0 0) writes)
  -- The setters only store the handler; they return nothing of the connection.
  | .setNestedHookHandler present =>
    some (if c.role ≠ .callbackStream then c.answer .invalidRequest false
      else { c with nestedHandler := present })
  | .setDeviceChangeHandler present =>
    some (if c.role ≠ .callbackStream then c.answer .invalidRequest false
      else { c with deviceHandler := present })
  | .hookNext =>
    some (if c.role ≠ .callbackStream then c.answer .invalidRequest false
      else if c.outstandingHookRequest ≠ 0 then c.answer .busy false
      else match c.popNotification with
        | some c => c.answer .ok true
        | none => { c with calls := .hookNext :: c.calls })
  | .leaseNext =>
    some (if c.role ≠ .authorizationLease ∧ c.role ≠ .rpc then c.answer .invalidRequest false
      else if c.leaseNotifications ≠ [] then c.popLease.answer .ok true
      else { c with calls := .leaseNext :: c.calls })
  | .observerNext =>
    some (if c.role ≠ .observerStream then c.answer .invalidRequest false
      else match c.takeObserver with
        | some c => c.answer .ok true
        | none => { c with calls := .observerNext :: c.calls })
  | .hookReplyEvent requestId reply writes =>
    some (if requestId = 0 ∨ requestId ≠ c.outstandingHookRequest then
        c.answer .invalidRequest false
      else c.replyEvent requestId reply writes)
  | _ => none

def step (e : Event) : Option Connection :=
  match e with
  | .receive reads goOn writes => c.receive reads goOn writes
  | .expire =>
    match c.calls with
    | .awaiting .. :: _ => some (c.terminalFailure.finish .timeout)
    | _ => none
  | .handlerReturns status detail reply writes =>
    match c.calls with
    | .handling requestId :: calls =>
      some (respond { c with calls := calls, recursionDepth := c.recursionDepth - 1 } requestId
        (callbackStatus status) detail reply writes)
    | _ => none
  | e => if c.mayCall then c.start e else none

end Connection

/-- A new connection: the service will send `stream`. -/
def connect (role : ConnectionRole) (stream : List Nat) : Connection :=
  { role := role, receiver := { stream := stream } }

end KeysharpInput.Client
