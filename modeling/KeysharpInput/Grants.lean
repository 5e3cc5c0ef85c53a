import KeysharpInput.Session

/-!
Granting and withdrawing scopes: the functions of `grab_leases.inc` that change leases.
A grant is added to the lease of the connection that asked and announced on it. A
revocation walks the whole client table, because the grants of one lease are used by
every connection attached to it. The output side of these functions (lane flushes,
queue fences, device grabs) enters only through the outcomes the environment reports;
keyboard state records are not part of this model.
-/
namespace KeysharpInput.Session

open Function Session.Client

/-- `send_authorization_status`: a failure is a bare status under the same opcode. -/
def authorizationFrame (c : Client) (opcode : Opcode) (requestId : Nat) (status : Status)
    (detail : Detail) (granted : Scopes) : Frame :=
  if status ≠ .ok then .status opcode requestId status detail
  else if opcode = .authorize ∨ opcode = .devicesAuthorize then
    .authorizeResult opcode requestId granted
  else .helloResult requestId granted c.advertisedOperations (c.authorizationLease.getD 0)

variable (env : Env) (s : State)

def sendAuthorizationStatus (i : Nat) (opcode : Opcode) (requestId : Nat)
    (status : Status) (detail : Detail) (granted : Scopes) : State :=
  s.modifyClient i fun c => c.reply (authorizationFrame c opcode requestId status detail granted)

def sendPendingAuthorizationStatus (i : Nat) (status : Status) (detail : Detail)
    (granted : Scopes) : State :=
  s.modifyClient i fun c => c.reply (authorizationFrame c c.pendingAuthorizationOpcode
    c.pendingRequestId status detail granted)

def sendStatus (i : Nat) (opcode : Opcode) (requestId : Nat) (status : Status)
    (detail : Detail) : State :=
  s.modifyClient i (reply (.status opcode requestId status detail))

/-- The lease part of `finish_client_authorization`. Scopes the lease already had keep
their history. -/
def Lease.grant (granted : Scopes) (hash : Hash) (began : Nat) (l : Lease) : Lease :=
  { l with
    grantedScopes := l.grantedScopes ∪ granted
    hash := hash
    grantedBegan := fun scope => if scope ∈ l.grantedScopes then l.grantedBegan scope else began }

/-- The frames of `finish_client_authorization`: the lease hears the grant as a notice,
before the reply of AUTHORIZE and after that of HELLO. -/
def Client.announce (opcode : Opcode) (reply : Frame) (grants : Scopes) (c : Client) : Client :=
  let notice := fun c : Client =>
    if c.connectionRole = .authorizationLease then c.notify env (.sessionGranted grants) else c
  if opcode = .authorize ∨ opcode = .devicesAuthorize then (notice c).reply reply
  else notice (c.reply reply)

/-- `finish_client_authorization`; `began` is when the store operation began that
allowed `granted`. -/
def finishClientAuthorization (i : Nat) (opcode : Opcode)
    (requestId : Nat) (requested granted : Scopes) (began : Nat) : State :=
  match s.clients[i]? with
  | none => s
  | some c =>
    let leases := match c.authorizationLease with
      | some p => s.leases.modify p (Lease.grant granted c.identityHash began)
      | none => s.leases
    let grants := clientGrants leases c
    let reply := if requested ⊆ granted then
        authorizationFrame c opcode requestId .ok .none grants
      else authorizationFrame c opcode requestId .denied .none ∅
    { s with
      leases := leases
      clients := s.clients.modify i (announce env opcode reply grants) }

def Client.clearHook (t : HookType) (c : Client) : Client :=
  { c with
    hookSubscriptions := c.hookSubscriptions.erase t
    hookSubscriptionOrdinal := update c.hookSubscriptionOrdinal t 0
    consecutiveHookFailures := update c.consecutiveHookFailures t 0
    quarantinedHooks := c.quarantinedHooks.erase t
    quarantineRearmAfterMs := update c.quarantineRearmAfterMs t 0
    lastHookQuarantineMs := update c.lastHookQuarantineMs t 0
    stalledLanes := c.stalledLanes.erase t }

/-- What `invalidate_connected_permissions` takes from a matching client besides the
grant itself. -/
def Client.dropScopes (scopes : Scopes) (c : Client) : Client :=
  let c := if .inputMonitoring ∈ scopes then
      ({ c with observerSubscriptions := ∅ }.clearHook .keyboard).clearHook .mouse
    else c
  let c := if .inputControl ∈ scopes then { c with blockInputMask := ∅ } else c
  if .inputMonitoring ∈ scopes ∧
      (c.connectionRole = .callbackStream ∨ c.connectionRole = .observerStream) then
    c.invalidate
  else c

def revokeMatches (leases : Leases) (uid : Nat) (hash : Hash) (allExecutables : Bool)
    (c : Client) : Bool :=
  match c.authorizationLease with
  | none => false
  | some p => c.uid == uid && (allExecutables || (leases p).any fun l => l.hash == hash)

/-- One turn of the loop of `invalidate_connected_permissions`. -/
def invalidateClient (uid : Nat) (hash : Hash) (allExecutables : Bool)
    (scopes : Scopes) (leases : Leases) (c : Client) : Client × Leases :=
  if revokeMatches leases uid hash allExecutables c then
    let old := clientGrants leases c
    let c' := if scopes ∩ old ≠ ∅ ∧ c.connectionRole = .authorizationLease then
        c.notify env (.sessionRevoked (scopes ∩ old))
      else c
    let leases := match c.authorizationLease with
      | some p => if c.connectionRole = .authorizationLease then
          leases.modify p fun l => { l with grantedScopes := l.grantedScopes \ scopes }
        else leases
      | none => leases
    (c'.dropScopes scopes, leases)
  else (c, leases)

def invalidateLoop (env : Env) (uid : Nat) (hash : Hash) (allExecutables : Bool)
    (scopes : Scopes) : Leases → List Client → List Client × Leases
  | leases, [] => ([], leases)
  | leases, c :: cs =>
    let (c', leases) := invalidateClient env uid hash allExecutables scopes leases c
    let (cs', leases) := invalidateLoop env uid hash allExecutables scopes leases cs
    (c' :: cs', leases)

def invalidateConnectedPermissions (uid : Nat) (hash : Hash)
    (allExecutables : Bool) (scopes : Scopes) : State :=
  let (clients, leases) := invalidateLoop env uid hash allExecutables scopes s.leases s.clients
  { s with
    permissionGeneration := s.permissionGeneration + 1
    clients := clients
    leases := leases }

/-- `fence_permission_output`: whether its release-all fits is the environment's answer. -/
def fencePermissionOutput : State × Bool :=
  ({ s with inputGeneration := s.inputGeneration + 1 }, env.fenceOk)

def refreshSnapshots (clients : List Client) : List Snapshot :=
  clients.foldl (fun snapshots c =>
    if !c.hasIdentity || snapshots.any (fun p => p.uid == c.uid && p.hash == c.identityHash) then
      snapshots
    else snapshots ++ [{ uid := c.uid, hash := c.identityHash }]) []

def Client.pause (c : Client) : Client :=
  { c with permissionRefreshPending := c.authorizationLease.isSome }

def refreshExternalPermissions : State × Bool :=
  if !s.permissionsOpen then (s, false)
  else if s.permissionRefreshInflight then (s, true)
  else if !env.allocOk then (s, false)
  else
    let task : PermissionTask :=
      { id := s.nextTaskId
        kind := .refresh
        permissionGeneration := s.permissionGeneration
        inputGeneration := s.inputGeneration
        snapshots := refreshSnapshots s.clients
        createdAt := s.clock }
    let s := { s with clients := s.clients.map pause }
    if !env.submitOk then (s, false)
    else
      let s := { s with
        tasks := s.tasks ++ [task]
        nextTaskId := s.nextTaskId + 1
        permissionRefreshInflight := true }
      let (s, fenced) := fencePermissionOutput env s
      (s, fenced && env.grabOk)

def clearHookState : State :=
  { s with clients := s.clients.map fun c =>
    { c with
      hookSubscriptions := ∅
      hookSubscriptionOrdinal := fun _ => 0
      blockInputMask := ∅
      consecutiveHookFailures := fun _ => 0 } }

/-- One turn of the loop of `permission_monitor_fail_open`. -/
def monitorFailOpenClient (i : Nat) : State :=
  match s.clients[i]? with
  | none => s
  | some c =>
    let s := s.modifyClient i fun c => { c with permissionStoreGeneration := none }
    if !c.hasIdentity then
      match c.authorizationLease with
      | some p => s.modifyLease p fun l =>
          { l with grantedScopes := l.grantedScopes \ inputPermissionScopes }
      | none => s
    else if (s.clients.take i).any fun o =>
        o.hasIdentity && o.uid == c.uid && o.identityHash == c.identityHash then s
    else invalidateConnectedPermissions env s c.uid c.identityHash false inputPermissionScopes

def permissionMonitorFailOpen : State :=
  if s.permissionMonitorFailed then s
  else
    let s := { s with
      permissionMonitorFailed := true
      inputGeneration := s.inputGeneration + 1 }
    let s := (List.range s.clients.length).foldl (monitorFailOpenClient env) s
    clearHookState { s with permissionGeneration := s.permissionGeneration + 1 }

/-- What `process_permission_notifications` read from the watch on the store. -/
inductive Notification
  | failure
  | generationChanged
  | unrelated
  deriving DecidableEq, Repr

def processPermissionNotifications (n : Notification) : State :=
  if s.permissionMonitorFailed then s
  else match n with
    | .failure => permissionMonitorFailOpen env s
    | .unrelated => s
    | .generationChanged =>
      let (s, ok) := refreshExternalPermissions env
        { s with permissionGeneration := s.permissionGeneration + 1 }
      if ok then s else permissionMonitorFailOpen env s

end KeysharpInput.Session
