import KeysharpInput.Grants

/-!
Connections and their requests: accepting and removing clients, HELLO, AUTHORIZE,
revocation requests, subscriptions and BlockInput (`protocol_server.inc` and
`client_lifecycle.inc`). Every handler checks in the order of the source and answers
with the same status and detail. A payload that does not decode is `none`.
Removing the connection that owns a lease ends that lease for every connection
attached to it.
-/
namespace KeysharpInput.Session

def maxClients : Nat := 64

def maxClientsPerUid : Nat := maxClients - 8

def maxConsecutiveHookFailures : Nat := 5

def Leases.release (leases : Leases) (p : Nat) : Leases :=
  Function.update leases p ((leases p).bind fun l =>
    if l.references - 1 = 0 then none else some { l with references := l.references - 1 })

def Client.orphan (c : Client) : Client :=
  { c with hookSubscriptions := ∅, observerSubscriptions := ∅, blockInputMask := ∅ }.invalidate

variable (env : Env) (s : State)

/-- `remove_client`. The removed client itself is orphaned too, which nobody sees. -/
def removeClient (i : Nat) : State :=
  match s.clients[i]? with
  | none => s
  | some c =>
    match c.authorizationLease with
    | none => { s with clients := s.clients.eraseIdx i }
    | some p =>
      let s := if c.connectionRole = .authorizationLease then
          { s.modifyLease p fun l => { l with active := false, grantedScopes := ∅ } with
            clients := s.clients.map fun o =>
              if o.authorizationLease = some p then o.orphan else o }
        else s
      { s with
        leases := s.leases.release p
        clients := s.clients.eraseIdx i }

def addClient (pid uid startTime : Nat) : State :=
  if s.clients.length ≥ maxClients then s
  else if s.clients.countP (fun c => c.uid == uid) ≥ maxClientsPerUid then s
  else if !env.allocOk then s
  else { s with
    clients := s.clients ++ [{ connectionId := s.nextConnectionId, pid, uid, startTime }]
    nextConnectionId := s.nextConnectionId + 1 }

def peerUidAllowed (uid : Nat) : Bool :=
  if s.systemService then s.inputOwnerMatchesUid uid else uid == s.daemonUid

/-- `ensure_active_client_slot`: the oldest client of another user gives way. -/
def ensureActiveClientSlot : State × Bool :=
  if s.clients.length < maxClients then (s, true)
  else match s.clients.findIdx? fun c => !s.inputOwnerMatchesUid c.uid with
    | some i =>
      let s := removeClient s i
      (s, s.clients.length < maxClients)
    | none => (s, false)

/-- `accept_client` for a peer whose credentials were read. -/
def acceptClient (pid uid startTime : Nat) : State :=
  if !peerUidAllowed s uid then s
  else
    let (s, room) := ensureActiveClientSlot s
    if room then addClient env s pid uid startTime else s

def Client.rememberAuthorization (opcode : Opcode) (mode : AuthorizationMode)
    (requested : Scopes) (requestId : Nat) (c : Client) : Client :=
  { c with
    pendingAuthorization := true
    pendingAuthorizationOpcode := opcode
    pendingAuthorizationMode := mode
    pendingRequestedScopes := requested
    pendingRequestId := requestId }

/-- A task made for a client, as `new_permission_task` fills it. -/
def newPermissionTask (c : Client) (kind : TaskKind) (requestId : Nat) : PermissionTask :=
  { id := s.nextTaskId
    kind := kind
    connectionId := c.connectionId
    requestId := requestId
    permissionGeneration := s.permissionGeneration
    inputGeneration := s.inputGeneration
    uid := c.uid
    identityHash := c.identityHash
    createdAt := s.clock }

/-- `submit_permission_task` for client `i`; false when the client already has a task
or the task cannot be made or queued. -/
def submitPermissionTask (i : Nat) (task : PermissionTask) : State × Bool :=
  match s.clients[i]? with
  | none => (s, false)
  | some c =>
    if c.permissionTask.isSome || !env.allocOk || !env.submitOk then (s, false)
    else
      ({ s.modifyClient i fun c => { c with permissionTask := some task.id } with
        tasks := s.tasks ++ [task]
        nextTaskId := s.nextTaskId + 1 }, true)

def startPermissionCheck (i : Nat) : State × Bool :=
  match s.clients[i]? with
  | none => (s, false)
  | some c =>
    let task := { newPermissionTask s c .check c.pendingRequestId with
      requested := c.pendingRequestedScopes }
    let s := s.modifyClient i fun c =>
      { c with pendingPermissionGeneration := s.permissionGeneration }
    submitPermissionTask env s i task

def endAuthorization (i : Nat) (opcode : Opcode) (requestId : Nat) (status : Status) : State :=
  sendAuthorizationStatus (s.modifyClient i fun c => { c with pendingAuthorization := false })
    i opcode requestId status .none ∅

def beginAuthorization (i : Nat) (opcode : Opcode)
    (mode : AuthorizationMode) (requested : Scopes) (requestId : Nat) : State :=
  match s.clients[i]? with
  | none => s
  | some c =>
    if !s.inputOwnerMatchesUid c.uid then
      sendAuthorizationStatus s i opcode requestId .denied .none ∅
    else if requested = ∅ then
      finishClientAuthorization env s i opcode requestId ∅ ∅ s.clock
    else if c.pendingAuthorization || c.permissionTask.isSome || s.permissionRefreshInflight
        || c.state == .awaitingPrompt then
      sendAuthorizationStatus s i opcode requestId .busy .wrongState ∅
    else
      let s := s.modifyClient i (Client.rememberAuthorization opcode mode requested requestId)
      if !c.identityAttempted then
        if env.submitOk then
          { s.modifyClient i fun c =>
              { c with identityAttempted := true, state := .identifying } with
            identifies := s.identifies ++ [⟨c.connectionId, c.pid, c.uid, c.startTime⟩] }
        else
          endAuthorization (s.modifyClient i fun c =>
            { c with identityAttempted := true, state := .ready }) i opcode requestId .unavailable
      else if c.state == .identifying then s
      else if !c.hasIdentity then endAuthorization s i opcode requestId .denied
      else if !s.permissionsOpen || s.permissionMonitorFailed then
        endAuthorization s i opcode requestId .denied
      else
        let (s, started) := startPermissionCheck env s i
        if started then s else endAuthorization s i opcode requestId .denied

structure HelloPayload where
  role : Nat
  authorizationMode : Nat
  requestedScopes : Nat
  /-- The lease to attach to, zero for none. -/
  reserved : Nat

def newLease (i : Nat) : State :=
  match s.clients[i]? with
  | none => s
  | some c =>
    { s.modifyClient i fun c => { c with authorizationLease := some c.connectionId } with
      leases := Function.update s.leases c.connectionId
        (some { references := 1, active := true, id := c.connectionId }) }

def leaseOwner (c : Client) (leaseId : Nat) : Option Client :=
  s.clients.find? fun owner =>
    owner.connectionRole == .authorizationLease && owner.helloComplete
      && ((owner.authorizationLease.bind s.leases).any fun l => l.active && l.id == leaseId)
      && owner.uid == c.uid && owner.pid == c.pid && owner.startTime == c.startTime

def attachLease (i : Nat) (leaseId : Nat) : State :=
  match s.clients[i]?.bind fun c => (leaseOwner s c leaseId).bind (·.authorizationLease) with
  | none => s
  | some p =>
    (s.modifyClient i fun c => { c with authorizationLease := some p }).modifyLease p fun l =>
      { l with references := l.references + 1 }

def answerAttachment (i : Nat) (requested : Scopes) (leaseId requestId : Nat) : State :=
  match s.clients[i]? with
  | none => s
  | some c =>
    if (leaseId ≠ 0 ∧ c.authorizationLease = none) ∨ ¬ requested ⊆ clientGrants s.leases c then
      sendAuthorizationStatus s i .hello requestId .denied .none ∅
    else
      sendAuthorizationStatus s i .hello requestId .ok .none (clientGrants s.leases c)

/-- What `handle_client_hello` writes once its payload is accepted. -/
def Client.greet (role : ConnectionRole) (operations : Nat) (c : Client) : Client :=
  { c with connectionRole := role, advertisedOperations := operations, helloComplete := true }

/-- The part of `handle_client_hello` after its payload checks. -/
def acceptHello (i : Nat) (role : ConnectionRole)
    (mode : AuthorizationMode) (requested : Scopes) (leaseId requestId : Nat) : State :=
  let s := s.modifyClient i (Client.greet role s.availableOperations)
  if role = .authorizationLease then
    if leaseId ≠ 0 then sendStatus s i .hello requestId .invalidRequest .wrongState
    else if !env.allocOk then sendStatus s i .hello requestId .resourceExhausted .none
    else beginAuthorization env (newLease s i) i .hello mode requested requestId
  else
    answerAttachment (if leaseId ≠ 0 then attachLease s i leaseId else s) i requested leaseId
      requestId

def handleClientHello (i : Nat) (requestId : Nat) (payload : Option HelloPayload) : State :=
  match s.clients[i]?, payload with
  | none, _ => s
  | some c, payload =>
    if c.helloComplete then sendStatus s i .hello requestId .invalidRequest .wrongState
    else match payload with
      | none => sendStatus s i .hello requestId .invalidRequest .payloadSize
      | some payload =>
        match decodeRole payload.role, decodeAuthorizationMode payload.authorizationMode,
            decodeScopes payload.requestedScopes with
        | none, _, _ => sendStatus s i .hello requestId .unsupported .wrongRole
        | some _, none, _ => sendStatus s i .hello requestId .invalidRequest .valueRange
        | some _, some _, none => sendStatus s i .hello requestId .invalidRequest .unknownScope
        | some role, some mode, some requested =>
          acceptHello env s i role mode requested payload.reserved requestId

structure AuthorizePayload where
  authorizationMode : Nat
  reserved0 : Nat
  requestedScopes : Nat
  reserved1 : Nat

def handleAuthorize (i : Nat) (requestId : Nat) (payload : Option AuthorizePayload) : State :=
  match s.clients[i]? with
  | none => s
  | some c =>
    if c.connectionRole ≠ .authorizationLease then
      sendStatus s i .authorize requestId .denied .wrongRole
    else match payload with
      | none => sendStatus s i .authorize requestId .invalidRequest .payloadSize
      | some payload =>
        if payload.reserved0 ≠ 0 ∨ payload.reserved1 ≠ 0 then
          sendStatus s i .authorize requestId .invalidRequest .reservedNonzero
        else match decodeAuthorizationMode payload.authorizationMode,
            decodeScopes payload.requestedScopes with
          | none, _ => sendStatus s i .authorize requestId .invalidRequest .valueRange
          | some _, none => sendStatus s i .authorize requestId .invalidRequest .unknownScope
          | some mode, some requested =>
            if requested = ∅ then
              sendStatus s i .authorize requestId .invalidRequest .valueRange
            else beginAuthorization env s i .authorize mode requested requestId

def handleDevicesAuthorize (i : Nat) (requestId : Nat) (payloadEmpty : Bool) : State :=
  match s.clients[i]? with
  | none => s
  | some c =>
    if c.connectionRole ≠ .authorizationLease then
      sendStatus s i .devicesAuthorize requestId .denied .wrongRole
    else if !payloadEmpty then
      sendStatus s i .devicesAuthorize requestId .invalidRequest .payloadSize
    else beginAuthorization env s i .devicesAuthorize .check {.inputMonitoring} requestId

def handleListPermissions (i : Nat) (requestId : Nat) (payloadEmpty : Bool) : State :=
  match s.clients[i]? with
  | none => s
  | some c =>
    if c.connectionRole ≠ .rpc then
      sendStatus s i .permissionsList requestId .denied .wrongRole
    else if !payloadEmpty then
      sendStatus s i .permissionsList requestId .invalidRequest .payloadSize
    else if !s.permissionsOpen then
      sendStatus s i .permissionsList requestId .unavailable .none
    else
      let (s, submitted) := submitPermissionTask env s i (newPermissionTask s c .list requestId)
      if submitted then s else sendStatus s i .permissionsList requestId .busy .none

structure RevokePayload where
  targetKind : Nat
  scopes : Nat
  pid : Nat
  hash : Hash

def intMax : Nat := 2147483647

def rawHashIsZero (hash : Hash) : Bool := hash.all (· == 0)

/-- The target checks of `handle_revoke_permissions`. -/
def revokeTarget (payload : RevokePayload) : Option RevokeTarget :=
  match payload.targetKind with
  | 1 => if payload.pid ≠ 0 ∨ rawHashIsZero payload.hash then none else some .hash
  | 2 => if payload.pid = 0 ∨ payload.pid > intMax ∨ !rawHashIsZero payload.hash then none
      else some .pid
  | 3 => if payload.pid ≠ 0 ∨ !rawHashIsZero payload.hash then none else some .all
  | _ => none

def handleRevokePermissions (i : Nat) (requestId : Nat) (payload : Option RevokePayload) : State :=
  match s.clients[i]? with
  | none => s
  | some c =>
    let fail := sendStatus s i .permissionsRevoke requestId
    if c.connectionRole ≠ .rpc then fail .denied .wrongRole
    else if !s.permissionsOpen then fail .unavailable .none
    else match payload with
      | none => fail .invalidRequest .payloadSize
      | some payload =>
        match decodeScopes payload.scopes, revokeTarget payload with
        | none, _ => fail .invalidRequest .unknownScope
        | some scopes, target =>
          if scopes = ∅ then fail .invalidRequest .valueRange
          else match target with
            | none => fail .invalidRequest .valueRange
            | some target =>
              let task := { newPermissionTask s c .revoke requestId with
                revokeTarget := target
                revokeScopes := scopes
                hash := if target = .hash then payload.hash else [] }
              let (s, submitted) := submitPermissionTask env s i task
              if submitted then s else sendStatus s i .permissionsRevoke requestId .busy .none

end KeysharpInput.Session
