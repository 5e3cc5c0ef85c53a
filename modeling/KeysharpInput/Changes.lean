import KeysharpInput.Effects

/-!
What one step of the control plane can do, said once.
Every handler is a sequence of a few kinds of change: most only touch data that no invariant reads,
and the others accept, greet, attach, identify, grant, revoke or remove. Each invariant of the
system is then a case analysis over these kinds.
-/
namespace KeysharpInput.Session

open Session.Client

/-- A client before and after a change that no invariant is about, except that a client
with Input Monitoring may subscribe and one with Input Control may block. A new hook
subscription stands in the chain only if `fresh` allows it. -/
structure Quiet (fresh : Prop) (leases : Leases) (c c' : Client) : Prop where
  core : c'.core = c.core
  hooks : c'.hookSubscriptions ⊆ c.hookSubscriptions ∨ .inputMonitoring ∈ clientGrants leases c
  observed : c'.observerSubscriptions ⊆ c.observerSubscriptions ∨
    .inputMonitoring ∈ clientGrants leases c
  block : c'.blockInputMask ⊆ c.blockInputMask ∨ .inputControl ∈ clientGrants leases c
  paused : c.permissionRefreshPending = true → c'.permissionRefreshPending = true
  stream : c'.streamValid = true → c.streamValid = true ∧ grantsHeard c'.sent = grantsHeard c.sent
  covered : ∀ t, c.Covered t → c'.Covered t
  timed : ∀ t, c.Timed t → c'.Timed t
  ordinals : fresh ∨ c.KeepsOrdinals c'

/-- What is known about the times of a task at time `now`. -/
structure TaskTimes (now : Nat) (x : PermissionTask) : Prop where
  created : x.createdAt ≤ now
  committed : x.committedAt ≤ now
  began : x.phase = .inStore ∨ x.allowed ≠ ∅ → x.createdAt ≤ x.beganAt

structure PromptTimes (now : Nat) (x : PromptTask) : Prop where
  created : x.createdAt ≤ now
  queued : x.phase = .queued → x.allowed = ∅
  began : x.phase = .inStore ∨ ((x.phase = .finished ∨ x.phase = .done) ∧ x.allowed ≠ ∅) →
    x.createdAt ≤ x.beganAt

/-- A task handed to a worker in state `s`. A check is made only for an identified client. -/
structure NewTask (s : State) (x : PermissionTask) : Prop where
  created : x.createdAt = s.clock
  committed : x.committedAt = 0
  queued : x.phase = .queued
  allowed : x.allowed = ∅
  generation : x.permissionGeneration ≤ s.permissionGeneration
  client : x.kind = .check → x.connectionId < s.nextConnectionId ∧
    ∀ c ∈ s.cores, c.connectionId = x.connectionId → c.hasIdentity = true

structure NewPrompt (s : State) (x : PromptTask) : Prop where
  created : x.createdAt = s.clock
  queued : x.phase = .queued
  allowed : x.allowed = ∅
  generation : x.permissionGeneration ≤ s.permissionGeneration
  client : x.connectionId < s.nextConnectionId ∧
    ∀ c ∈ s.cores, c.connectionId = x.connectionId → c.hasIdentity = true

/-- Task `x` is task `y` after some work. -/
structure SameTask (now : Nat) (y x : PermissionTask) : Prop where
  kind : x.kind = y.kind
  connectionId : x.connectionId = y.connectionId
  generation : x.permissionGeneration = y.permissionGeneration
  created : x.createdAt = y.createdAt
  times : TaskTimes now y → TaskTimes now x

structure SamePrompt (now : Nat) (y x : PromptTask) : Prop where
  connectionId : x.connectionId = y.connectionId
  generation : x.permissionGeneration = y.permissionGeneration
  created : x.createdAt = y.createdAt
  times : PromptTimes now y → PromptTimes now x

structure QuietStep (fresh : Prop) (s t : State) : Prop where
  clients : List.Forall₂ (Quiet fresh s.leases) s.clients t.clients
  leases : t.leases = s.leases
  next : t.nextConnectionId = s.nextConnectionId
  failed : t.permissionMonitorFailed = s.permissionMonitorFailed
  refresh : t.permissionRefreshInflight = true → s.permissionRefreshInflight = true
  generation : s.permissionGeneration ≤ t.permissionGeneration
  identifies : ∀ x ∈ t.identifies, x ∈ s.identifies
  tasks : ∀ x ∈ t.tasks, (∃ y ∈ s.tasks, SameTask s.clock y x) ∨ NewTask s x
  prompts : ∀ x ∈ t.prompts, (∃ y ∈ s.prompts, SamePrompt s.clock y x) ∨ NewPrompt s x
  clock : t.clock = s.clock
  revokes : t.processedRevokes = s.processedRevokes
  ordinals : ∀ k, s.nextHookSubscriptionOrdinal k ≤ t.nextHookSubscriptionOrdinal k

/-- A connection without identity that is attached to a lease with grants and stands in
the table before every identified client of the lease's user and hash. -/
def EarlySharer (s : State) : Prop :=
  ∃ (i : Nat) (c : Core) (p : Nat) (l : Lease), s.cores[i]? = some c ∧ c.hasIdentity = false ∧
    c.lease = some p ∧ s.leases p = some l ∧ l.grantedScopes ≠ ∅ ∧
    ∀ j < i, ∀ o, s.cores[j]? = some o →
      ¬ (o.hasIdentity = true ∧ o.uid = c.uid ∧ o.identityHash = l.hash)

/-- The changes a run may be asked to exclude: a lease connection left without a lease,
an attachment to a lease with grants during a refresh, and a monitor failure while a
connection stands before every identified client of its lease. -/
structure Permits where
  nullLease : Prop
  lateAttach : Prop
  silentClear : Prop
  /-- Not to be excluded: whether the step is a request to subscribe. -/
  subscribes : Prop

inductive Change (p : Permits) : State → State → Prop
  | quiet {s t : State} (h : QuietStep p.subscribes s t) : Change p s t
  | accept (s : State) (pid uid startTime : Nat) (hroom : s.clients.length < maxClients) :
      Change p s
      { s with
        clients := s.clients ++ [{ connectionId := s.nextConnectionId, pid, uid, startTime }]
        nextConnectionId := s.nextConnectionId + 1 }
  | remove (s : State) (i : Nat) : Change p s (removeClient s i)
  | hello {s : State} {i : Nat} {c : Client} (role : ConnectionRole) (operations : Nat)
      (hc : s.clients[i]? = some c) (hfresh : c.helloComplete = false)
      (hrole : role = .authorizationLease → p.nullLease) :
      Change p s (s.modifyClient i (greet role operations))
  | helloLease {s : State} {i : Nat} {c : Client} (operations : Nat)
      (hc : s.clients[i]? = some c) (hfresh : c.helloComplete = false) :
      Change p s (newLease (s.modifyClient i (greet .authorizationLease operations)) i)
  | attach {s : State} {i : Nat} {c : Client} (leaseId : Nat) (hc : s.clients[i]? = some c)
      (hhello : c.helloComplete = true) (hrole : c.connectionRole ≠ .authorizationLease)
      (hnone : c.authorizationLease = none)
      (hlate : p.lateAttach ∨ s.permissionRefreshInflight = false ∨
        ∀ o, leaseOwner s c leaseId = some o → clientGrants s.leases o = ∅) :
      Change p s (attachLease s i leaseId)
  | attempt {s : State} {i : Nat} {c : Client} (state : ClientState)
      (started : List IdentifyTask) (hc : s.clients[i]? = some c)
      (hrole : c.connectionRole = .authorizationLease) (hhello : c.helloComplete = true)
      (hattempted : c.identityAttempted = false)
      (hstarted : ∀ t ∈ started, t.connectionId = c.connectionId) :
      Change p s { s.modifyClient i fun c => { c with identityAttempted := true, state := state }
        with identifies := s.identifies ++ started }
  | identified {s : State} {i : Nat} {c : Client} (hasIdentity : Bool) (hash : Option Hash)
      (hc : s.clients[i]? = some c)
      (ht : ∃ t ∈ s.identifies, t.connectionId = c.connectionId) :
      Change p s ({ s with identifies := s.identifies.filter fun t =>
          t.connectionId != c.connectionId }.modifyClient i fun c =>
        { c with
          hasIdentity := hasIdentity
          identityHash := hash.getD c.identityHash
          state := .ready })
  | finish {s : State} {i : Nat} {c : Client} (env : Env) (opcode : Opcode)
      (requestId : Nat) (requested granted : Scopes) (began : Nat)
      (hc : s.clients[i]? = some c) (hrole : c.connectionRole = .authorizationLease)
      (hident : granted ≠ ∅ → c.hasIdentity = true)
      (hrefresh : granted ≠ ∅ → s.permissionRefreshInflight = false)
      (hbegan : granted ≠ ∅ → ∀ r ∈ s.processedRevokes, r.committedAt < began) :
      Change p s (finishClientAuthorization env s i opcode requestId requested granted began)
  | invalidate (s : State) (env : Env) (uid : Nat) (hash : Hash) (allExecutables : Bool)
      (scopes : Scopes) :
      Change p s (invalidateConnectedPermissions env s uid hash allExecutables scopes)
  | revoked (s : State) (env : Env) (task : PermissionTask)
      (hcommitted : task.committedAt < s.clock) :
      Change p s (recordRevoke (invalidateConnectedPermissions env s task.uid task.hash
        (task.revokeTarget == .all) task.revokeScopes) task)
  | failOpen (s : State) (env : Env) (h : EarlySharer s → p.silentClear) :
      Change p s (permissionMonitorFailOpen env s)
  | pause (s : State) : Change p s { s with
      clients := s.clients.map pause
      permissionRefreshInflight := true }
  | pauseOnly (s : State) (hrefresh : s.permissionRefreshInflight = false) :
      Change p s { s with clients := s.clients.map pause }
  | resume (s : State) (hrefresh : s.permissionRefreshInflight = false) :
      Change p s { s with clients := s.clients.map resume }

def Changes (p : Permits) : State → State → Prop := Relation.ReflTransGen (Change p)

end KeysharpInput.Session
