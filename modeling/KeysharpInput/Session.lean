import Mathlib

/-!
The daemon's control plane: connections, authorization leases and permission work.
Clients stand in acceptance order, leases live on a heap and are shared by pointer,
and permission tasks run beside the main thread. A lease is named by the connection
that allocated it, since a connection completes HELLO at most once.
Counters are natural numbers, so wrap-around is outside this model.
Outcomes the daemon does not control (a send, an allocation, a grab) are given by an
environment that each step reads. Fields that only record history say so.
-/
namespace KeysharpInput.Session

inductive Scope
  | inputMonitoring
  | inputControl
  deriving DecidableEq, Repr

abbrev Scopes := Finset Scope

/-- `KSI_INPUT_PERMISSION_SCOPES`. -/
def inputPermissionScopes : Scopes := {.inputMonitoring, .inputControl}

/-- A wire mask with a bit outside `KSI_INPUT_PERMISSION_SCOPES` has no decoding. -/
def decodeScopes : Nat → Option Scopes
  | 0 => some ∅
  | 1 => some {.inputMonitoring}
  | 2 => some {.inputControl}
  | 3 => some inputPermissionScopes
  | _ => none

inductive ConnectionRole
  | rpc
  | callbackStream
  | authorizationLease
  | observerStream
  deriving DecidableEq, Repr

def decodeRole : Nat → Option ConnectionRole
  | 0 => some .rpc
  | 2 => some .callbackStream
  | 3 => some .authorizationLease
  | 4 => some .observerStream
  | _ => none

inductive AuthorizationMode
  | check
  | request
  deriving DecidableEq, Repr

def decodeAuthorizationMode : Nat → Option AuthorizationMode
  | 0 => some .check
  | 1 => some .request
  | _ => none

inductive HookType
  | keyboard
  | mouse
  deriving DecidableEq, Repr

def decodeHookType : Nat → Option HookType
  | 13 => some .keyboard
  | 14 => some .mouse
  | _ => none

/-- The bits of `observer_subscriptions`. -/
inductive Observed
  | keyboard
  | mouse
  | devices
  deriving DecidableEq, Repr

def HookType.observed : HookType → Observed
  | .keyboard => .keyboard
  | .mouse => .mouse

/-- `KSI_BLOCK_KEYBOARD` and `KSI_BLOCK_MOUSE`. -/
def decodeBlockMask : Nat → Option (Finset HookType)
  | 0 => some ∅
  | 1 => some {.keyboard}
  | 2 => some {.mouse}
  | 3 => some {.keyboard, .mouse}
  | _ => none

def hookOperation : HookType → Nat
  | .keyboard => 0x1
  | .mouse => 0x2

def blockInputOperation : Nat := 0x10

inductive ClientState
  | identifying
  | ready
  | awaitingPrompt
  deriving DecidableEq, Repr

inductive Status
  | ok
  | denied
  | unsupported
  | invalidRequest
  | unavailable
  | busy
  | notFound
  | resourceExhausted
  | cancelled
  | internal
  deriving DecidableEq, Repr

inductive Detail
  | none
  | payloadSize
  | valueRange
  | reservedNonzero
  | wrongRole
  | wrongState
  | unknownScope
  | noAuthenticationAgent
  deriving DecidableEq, Repr

inductive Opcode
  | hello
  | authorize
  | devicesAuthorize
  | permissionsList
  | permissionsRevoke
  | subscribeHook
  | unsubscribeHook
  | devicesSubscribe
  | setBlockInput
  deriving DecidableEq, Repr

inductive Frame
  | status (opcode : Opcode) (requestId : Nat) (status : Status) (detail : Detail)
  | helloResult (requestId : Nat) (granted : Scopes) (operations leaseId : Nat)
  | authorizeResult (opcode : Opcode) (requestId : Nat) (granted : Scopes)
  | hooksResult (opcode : Opcode) (requestId : Nat) (active : Finset HookType)
  | observedResult (opcode : Opcode) (requestId : Nat) (active : Finset Observed)
  | blockResult (requestId : Nat) (mask : Finset HookType)
  | sessionGranted (scopes : Scopes)
  | sessionRevoked (scopes : Scopes)
  deriving DecidableEq

abbrev Hash := List Nat

/-- `ksi_authorization_lease`. The last field is history: for each scope, when the
store operation began whose answer granted it. -/
structure Lease where
  grantedScopes : Scopes := ∅
  references : Nat
  active : Bool
  id : Nat
  hash : Hash := []
  grantedBegan : Scope → Nat := fun _ => 0

abbrev Leases := Nat → Option Lease

def Leases.modify (leases : Leases) (p : Nat) (f : Lease → Lease) : Leases :=
  Function.update leases p ((leases p).map f)

/-- `ksi_client` with the validity and stall bits of its send handle, and the frames
put on its connection so far. -/
structure Client where
  connectionId : Nat
  pid : Nat
  uid : Nat
  startTime : Nat
  state : ClientState := .ready
  identityAttempted : Bool := false
  hasIdentity : Bool := false
  identityHash : Hash := []
  helloComplete : Bool := false
  connectionRole : ConnectionRole := .rpc
  authorizationLease : Option Nat := none
  advertisedOperations : Nat := 0
  hookSubscriptions : Finset HookType := ∅
  observerSubscriptions : Finset Observed := ∅
  observerQueue : Bool := false
  hookSubscriptionOrdinal : HookType → Nat := fun _ => 0
  blockInputMask : Finset HookType := ∅
  consecutiveHookFailures : HookType → Nat := fun _ => 0
  quarantinedHooks : Finset HookType := ∅
  quarantineRearmAfterMs : HookType → Nat := fun _ => 0
  lastHookQuarantineMs : HookType → Nat := fun _ => 0
  pendingAuthorization : Bool := false
  pendingAuthorizationOpcode : Opcode := .hello
  pendingAuthorizationMode : AuthorizationMode := .check
  pendingRequestedScopes : Scopes := ∅
  pendingRequestId : Nat := 0
  pendingPermissionGeneration : Nat := 0
  permissionTask : Option Nat := none
  permissionRefreshPending : Bool := false
  permissionStoreGeneration : Option Nat := none
  streamValid : Bool := true
  stalledLanes : Finset HookType := ∅
  sent : List Frame := []

inductive TaskKind
  | check
  | list
  | revoke
  | refresh
  deriving DecidableEq, Repr

inductive RevokeTarget
  | hash
  | pid
  | all
  deriving DecidableEq, Repr

structure Snapshot where
  uid : Nat
  hash : Hash
  allowed : Scopes := ∅
  generation : Nat := 0

/-- Where `permission_worker` stands with a task: not started, inside its store
operation, past it, or handed back on the command ring. -/
inductive WorkerPhase
  | queued
  | inStore
  | checked
  | done
  deriving DecidableEq, Repr

/-- `ksi_permission_task` with its worker's position. The last three fields are
history: when the task was made, when its store operation began and when it took effect. -/
structure PermissionTask where
  id : Nat
  kind : TaskKind
  connectionId : Nat := 0
  requestId : Nat := 0
  permissionGeneration : Nat
  inputGeneration : Nat
  uid : Nat := 0
  identityHash : Hash := []
  revokeTarget : RevokeTarget := .all
  revokeScopes : Scopes := ∅
  hash : Hash := []
  requested : Scopes := ∅
  allowed : Scopes := ∅
  storeGeneration : Nat := 0
  status : Status := .ok
  snapshots : List Snapshot := []
  snapshotNext : Nat := 0
  phase : WorkerPhase := .queued
  createdAt : Nat
  beganAt : Nat := 0
  committedAt : Nat := 0

inductive PolkitResult
  | granted
  | denied
  | unavailable
  | noAgent
  deriving DecidableEq, Repr

/-- Where `prompt_worker` stands: waiting for its lock, before its first check, asking
the agent, before the grant, before its last check, inside it, or handed back. -/
inductive PromptPhase
  | queued
  | locked
  | asking
  | decided
  | final
  | inStore
  | finished
  | done
  deriving DecidableEq, Repr

/-- `ksi_prompt_task` with its worker's position and results. -/
structure PromptTask where
  id : Nat
  connectionId : Nat
  uid : Nat
  identityHash : Hash
  permissionGeneration : Nat
  inputGeneration : Nat
  requestedScopes : Scopes
  missingScopes : Scopes
  allowed : Scopes := ∅
  generation : Nat := 0
  decision : PolkitResult := .unavailable
  phase : PromptPhase := .queued
  createdAt : Nat
  beganAt : Nat := 0

structure IdentifyTask where
  connectionId : Nat
  pid : Nat
  uid : Nat
  startTime : Nat

/-- A revoke whose completion the main thread has processed, with the time its store
operation took effect. History only. -/
structure ProcessedRevoke where
  uid : Nat
  hash : Hash
  allExecutables : Bool
  scopes : Scopes
  committedAt : Nat

/-- The parts of `ksi_daemon_state` the control plane reads, the permission store and
the work in flight. `clock` counts steps and only feeds history fields. -/
structure State where
  clients : List Client := []
  leases : Leases := fun _ => none
  nextConnectionId : Nat := 1
  permissionGeneration : Nat := 1
  inputGeneration : Nat := 1
  inputOwnerEnforced : Bool := false
  activeInputUid : Option Nat := none
  systemService : Bool := false
  daemonUid : Nat := 0
  permissionsOpen : Bool := true
  permissionMonitorFailed : Bool := false
  permissionRefreshInflight : Bool := false
  availableOperations : Nat := 0
  readyOperations : Nat := 0
  nextHookSubscriptionOrdinal : HookType → Nat := fun _ => 0
  tasks : List PermissionTask := []
  prompts : List PromptTask := []
  identifies : List IdentifyTask := []
  nextTaskId : Nat := 1
  store : Nat → Hash → Scopes := fun _ _ => ∅
  storeGeneration : Nat → Nat := fun _ => 0
  clock : Nat := 0
  processedRevokes : List ProcessedRevoke := []

/-- What a step is told about the world around the daemon. `sendOk` answers a notice
on a connection by the number of frames already put on it. -/
structure Env where
  sendOk : Nat → Nat → Bool := fun _ _ => true
  allocOk : Bool := true
  submitOk : Bool := true
  fenceOk : Bool := true
  grabOk : Bool := true
  timeUp : Bool := false
  nowMs : Nat := 0
  availableOperations : Nat := 0
  readyOperations : Nat := 0

def clientGrants (leases : Leases) (c : Client) : Scopes :=
  match c.authorizationLease.bind leases with
  | some l => if l.active then l.grantedScopes else ∅
  | none => ∅

def clientHasScope (leases : Leases) (c : Client) (scopes : Scopes) : Bool :=
  if !c.helloComplete || c.permissionRefreshPending then false
  else decide (scopes ⊆ clientGrants leases c)

namespace State

def inputOwnerMatchesUid (s : State) (uid : Nat) : Bool :=
  !s.inputOwnerEnforced || s.activeInputUid == some uid

/-- A connection's stream is valid while it stands in the table and nothing has
invalidated its send handle. -/
def streamIsValid (s : State) (connectionId : Nat) : Bool :=
  s.clients.any fun c => c.connectionId == connectionId && c.streamValid

/-- `find_client_index_by_connection`; a zero connection id names nobody. -/
def findClientIndexByConnection (s : State) (connectionId : Nat) : Option Nat :=
  if connectionId = 0 then none
  else s.clients.findIdx? fun c => c.connectionId == connectionId

def modifyClient (s : State) (i : Nat) (f : Client → Client) : State :=
  { s with clients := s.clients.modify i f }

def modifyLease (s : State) (p : Nat) (f : Lease → Lease) : State :=
  { s with leases := s.leases.modify p f }

end State

def Client.reply (f : Frame) (c : Client) : Client := { c with sent := c.sent ++ [f] }

/-- `hook_send_ref_try_send` for a notice: anything but success retires the stream. -/
def Client.notify (env : Env) (f : Frame) (c : Client) : Client :=
  if c.streamValid && env.sendOk c.connectionId c.sent.length then
    { c with sent := c.sent ++ [f] }
  else { c with streamValid := false }

def Client.invalidate (c : Client) : Client := { c with streamValid := false }

end KeysharpInput.Session
