import KeysharpInput.Transition
import KeysharpInput.Workers

/-!
The main thread's handling of finished work, and the control plane as one system.
A step is one message, one completion, one worker move or one change outside the
daemon, in any order. A step that would read a missing lease has no successor:
`process_permission_done` follows the pointer without a test.
-/
namespace KeysharpInput.Session

variable (env : Env) (s : State)

/-- `process_client_identified`. The identity is dropped when the start time read now
differs from the one read at accept. -/
def processClientIdentified (connectionId : Nat) (result : Option (Hash × Nat)) : State :=
  match s.findClientIndexByConnection connectionId with
  | none => s
  | some i =>
    match s.clients[i]? with
    | none => s
    | some c =>
      let deny := fun (s : State) =>
        sendPendingAuthorizationStatus (s.modifyClient i fun c =>
          { c with pendingAuthorization := false }) i .denied .none ∅
      if !s.inputOwnerMatchesUid c.uid then
        let s := s.modifyClient i fun c => { c with state := .ready }
        if c.pendingAuthorization then deny s else s
      else
        let identity := result.filter fun r =>
          r.2 != 0 && c.startTime != 0 && r.2 == c.startTime
        let s := s.modifyClient i fun c =>
          { c with
            hasIdentity := identity.isSome
            identityHash := (identity.map Prod.fst).getD c.identityHash
            state := .ready }
        if !c.pendingAuthorization then s
        else if identity.isNone || !s.permissionsOpen || s.permissionMonitorFailed
            || s.permissionRefreshInflight then deny s
        else
          let (s, started) := startPermissionCheck env s i
          if started then s else deny s

def prepareRequestedScopes (requested : Scopes) : State :=
  if requested = ∅ then s
  else { s with
    availableOperations := env.availableOperations
    readyOperations := env.readyOperations }

def snapshotMatches (snapshot : Snapshot) (c : Client) : Bool :=
  c.hasIdentity && c.uid == snapshot.uid && c.identityHash == snapshot.hash

def snapshotRevoked (leases : Leases) (snapshot : Snapshot) : List Client → Option Scopes
  | [] => some ∅
  | c :: cs =>
    if snapshotMatches snapshot c then
      match c.authorizationLease.bind leases with
      | none => none
      | some l => (snapshotRevoked leases snapshot cs).map fun revoked =>
          (l.grantedScopes \ snapshot.allowed) ∪ revoked
    else snapshotRevoked leases snapshot cs

def applySnapshot (snapshot : Snapshot) : Option State :=
  (snapshotRevoked s.leases snapshot s.clients).map fun revoked =>
    let s := { s with clients := s.clients.map fun c =>
      if snapshotMatches snapshot c then
        { c with permissionStoreGeneration := some snapshot.generation }
      else c }
    if revoked = ∅ then s
    else invalidateConnectedPermissions env s snapshot.uid snapshot.hash false revoked

def Client.resume (c : Client) : Client := { c with permissionRefreshPending := false }

/-- `process_permission_done` for a refresh. -/
def processRefreshDone (task : PermissionTask) : Option State :=
  let s := { s with permissionRefreshInflight := false }
  if s.permissionMonitorFailed then some s
  else if task.permissionGeneration ≠ s.permissionGeneration then
    let (s, ok) := refreshExternalPermissions env s
    some (if ok then s else permissionMonitorFailOpen env s)
  else if task.status ≠ .ok then some (permissionMonitorFailOpen env s)
  else
    (task.snapshots.foldlM (applySnapshot env) s).map fun s =>
      let s := { s with clients := s.clients.map Client.resume }
      if env.grabOk then s else permissionMonitorFailOpen env s

/-- History: the revoke of `task` has now been processed. -/
def recordRevoke (task : PermissionTask) : State :=
  { s with processedRevokes := s.processedRevokes ++
    [⟨task.uid, task.hash, task.revokeTarget == .all, task.revokeScopes, task.committedAt⟩] }

/-- The part of `process_permission_done` that concerns every connection: a revoke that
took effect in the store. -/
def processRevoked (task : PermissionTask) : State :=
  let (s, fenced) := fencePermissionOutput env s
  let s := if fenced then s else permissionMonitorFailOpen env s
  recordRevoke (invalidateConnectedPermissions env s task.uid task.hash
    (task.revokeTarget == .all) task.revokeScopes) task

def startPromptTask (c : Client) (requested missing : Scopes) : State × Bool :=
  if env.submitOk then
    ({ s with
      prompts := s.prompts ++
        [{ id := s.nextTaskId
           connectionId := c.connectionId
           uid := c.uid
           identityHash := c.identityHash
           permissionGeneration := s.permissionGeneration
           inputGeneration := s.inputGeneration
           requestedScopes := requested
           missingScopes := missing
           createdAt := s.clock }]
      nextTaskId := s.nextTaskId + 1 }, true)
  else (s, false)

def processCheckDone (i : Nat) (c : Client) (task : PermissionTask) : State :=
  if task.status ≠ .ok || permissionTaskCancelled env s task || s.permissionMonitorFailed
      || s.permissionRefreshInflight then
    sendPendingAuthorizationStatus (s.modifyClient i fun c =>
      { c with pendingAuthorization := false }) i .denied .none ∅
  else
    let s := s.modifyClient i fun c =>
      { c with permissionStoreGeneration := some task.storeGeneration }
    let granted := task.allowed ∩ task.requested
    let missing := task.requested \ task.allowed
    if missing ≠ ∅ ∧ c.pendingAuthorizationMode = .request then
      let (s, started) := startPromptTask env s c task.requested missing
      if started then s.modifyClient i fun c => { c with state := .awaitingPrompt }
      else
        sendPendingAuthorizationStatus (s.modifyClient i fun c =>
          { c with pendingAuthorization := false }) i .unavailable .none ∅
    else
      let s := if c.pendingAuthorizationOpcode ≠ .devicesAuthorize
          ∧ (c.connectionRole ≠ .observerStream ∨ .inputControl ∈ granted)
        then prepareRequestedScopes env s granted else s
      let s := s.modifyClient i fun c => { c with pendingAuthorization := false }
      finishClientAuthorization env s i c.pendingAuthorizationOpcode c.pendingRequestId
        task.requested granted task.beganAt

/-- The part of `process_permission_done` that concerns the requester. -/
def processRequesterDone (task : PermissionTask) : State :=
  match s.findClientIndexByConnection task.connectionId with
  | none => s
  | some i =>
    match s.clients[i]? with
    | none => s
    | some c =>
      if c.permissionTask ≠ some task.id then s
      else
        let s := s.modifyClient i fun c => { c with permissionTask := none }
        if !c.streamValid then s
        else if task.kind = .revoke then
          sendStatus s i .permissionsRevoke task.requestId task.status .none
        else if task.kind ≠ .check ∨ !c.pendingAuthorization
            ∨ c.pendingRequestId ≠ task.requestId then s
        else processCheckDone env s i c task

def processPermissionDone (task : PermissionTask) : Option State :=
  if task.kind = .refresh then processRefreshDone env s task
  else
    let s := if task.kind = .revoke ∧ task.status = .ok then processRevoked env s task else s
    some (processRequesterDone env s task)

def processClientPromptDone (task : PromptTask) : State :=
  match s.findClientIndexByConnection task.connectionId with
  | none => s
  | some i =>
    match s.clients[i]? with
    | none => s
    | some c =>
      if !c.pendingAuthorization then s
      else
        let s := s.modifyClient i fun c =>
          { c with state := .ready, pendingAuthorization := false }
        if !c.streamValid || !s.inputOwnerMatchesUid c.uid
            || task.inputGeneration != s.inputGeneration
            || task.permissionGeneration != s.permissionGeneration
            || c.pendingPermissionGeneration != s.permissionGeneration
            || s.permissionMonitorFailed || s.permissionRefreshInflight then
          sendPendingAuthorizationStatus s i .denied .none ∅
        else match task.decision with
          | .noAgent => sendPendingAuthorizationStatus s i .unavailable .noAuthenticationAgent ∅
          | .denied | .unavailable => sendPendingAuthorizationStatus s i .denied .none ∅
          | .granted =>
            let s := if c.connectionRole ≠ .observerStream
                ∨ .inputControl ∈ c.pendingRequestedScopes
              then prepareRequestedScopes env s c.pendingRequestedScopes else s
            let s := s.modifyClient i fun c =>
              { c with permissionStoreGeneration := some task.generation }
            finishClientAuthorization env s i c.pendingAuthorizationOpcode c.pendingRequestId
              c.pendingRequestedScopes (task.allowed ∩ c.pendingRequestedScopes) task.beganAt

inductive Request
  | hello (payload : Option HelloPayload)
  | authorize (payload : Option AuthorizePayload)
  | devicesAuthorize (payloadEmpty : Bool)
  | permissionsList (payloadEmpty : Bool)
  | permissionsRevoke (payload : Option RevokePayload)
  | subscribeHook (payload : Option HookPayload)
  | unsubscribeHook (payload : Option HookPayload)
  | devicesSubscribe (payloadEmpty : Bool)
  | setBlockInput (payload : Option BlockPayload)

def Request.isHello : Request → Bool
  | .hello _ => true
  | _ => false

def handleRequest (i : Nat) (requestId : Nat) : Request → State
  | .hello payload => handleClientHello env s i requestId payload
  | .authorize payload => handleAuthorize env s i requestId payload
  | .devicesAuthorize payloadEmpty => handleDevicesAuthorize env s i requestId payloadEmpty
  | .permissionsList payloadEmpty => handleListPermissions env s i requestId payloadEmpty
  | .permissionsRevoke payload => handleRevokePermissions env s i requestId payload
  | .subscribeHook payload => handleHookSubscription env s i .subscribeHook requestId payload
  | .unsubscribeHook payload => handleHookSubscription env s i .unsubscribeHook requestId payload
  | .devicesSubscribe payloadEmpty => handleDevicesSubscribe env s i requestId payloadEmpty
  | .setBlockInput payload => handleSetBlockInput env s i requestId payload

/-- `handle_binary_message`: before HELLO any other request drops the connection. -/
def handleBinaryMessage (i : Nat) (requestId : Nat) (r : Request) : State :=
  match s.clients[i]? with
  | none => s
  | some c =>
    if !c.helloComplete && !r.isHello then removeClient s i
    else handleRequest env s i requestId r

/-- `set_active_input_owner`, as far as the control plane sees it. -/
def setActiveInputOwner (owner : Option Nat) : State :=
  if !s.inputOwnerEnforced || s.activeInputUid == owner then s
  else { s with activeInputUid := owner, inputGeneration := s.inputGeneration + 1 }

inductive Event
  | accept (pid uid startTime : Nat)
  /-- A hang-up, a failed read or an expiry. -/
  | remove (i : Nat)
  | request (i requestId : Nat) (r : Request)
  | identified (connectionId : Nat) (result : Option (Hash × Nat))
  | permissionDone (k : Nat)
  | promptDone (k : Nat)
  | notification (n : Notification)
  /-- A refresh that took longer than the permission timeout. -/
  | refreshTimeout
  | failOpen
  | streamFailed (connectionId : Nat)
  | hookFailure (connectionId : Nat) (t : HookType)
  | retryHooks
  | setActiveInputOwner (owner : Option Nat)
  | worker (k : Nat) (step : WorkerStep)
  | prompt (k : Nat) (step : PromptStep)
  /-- Another process changes the store. -/
  | storeChanged (uid : Nat) (hash : Hash) (scopes : Scopes)

def handle : Event → Option State
  | .accept pid uid startTime => some (acceptClient env s pid uid startTime)
  | .remove i => some (removeClient s i)
  | .request i requestId r => some (handleBinaryMessage env s i requestId r)
  | .identified connectionId result =>
    if s.identifies.any fun t => t.connectionId == connectionId then
      some (processClientIdentified env
        { s with identifies := s.identifies.filter fun t => t.connectionId != connectionId }
        connectionId result)
    else some s
  | .permissionDone k =>
    match s.tasks[k]? with
    | none => some s
    | some task =>
      if task.phase = .done then
        processPermissionDone env { s with tasks := s.tasks.eraseIdx k } task
      else some s
  | .promptDone k =>
    match s.prompts[k]? with
    | none => some s
    | some task =>
      if task.phase = .done then
        some (processClientPromptDone env { s with prompts := s.prompts.eraseIdx k } task)
      else some s
  | .notification n => some (processPermissionNotifications env s n)
  | .refreshTimeout =>
    some (if s.permissionRefreshInflight then permissionMonitorFailOpen env s else s)
  | .failOpen => some (clearHookState s)
  | .streamFailed connectionId => some { s with clients := s.clients.map fun c =>
      if c.connectionId = connectionId then c.invalidate else c }
  | .hookFailure connectionId t =>
    match s.findClientIndexByConnection connectionId with
    | none => some s
    | some i => some (recordClientHookFailure env s i t)
  | .retryHooks => some (retryQuarantinedHooks env s)
  | .setActiveInputOwner owner => some (setActiveInputOwner s owner)
  | .worker k step => some (runWorker env s k step)
  | .prompt k step => some (runPrompt env s k step)
  | .storeChanged uid hash scopes => some
      { s with store := fun u h => if u = uid ∧ h = hash then scopes else s.store u h }

structure Input where
  env : Env := {}
  event : Event

def step (input : Input) : Option State :=
  (handle input.env s input.event).map fun t => { t with clock := s.clock + 1 }

structure State.Initial (s : State) : Prop where
  clients : s.clients = []
  leases : ∀ p, s.leases p = none
  tasks : s.tasks = []
  prompts : s.prompts = []
  identifies : s.identifies = []
  refresh : s.permissionRefreshInflight = false
  revokes : s.processedRevokes = []
  connectionIds : 0 < s.nextConnectionId

end KeysharpInput.Session
