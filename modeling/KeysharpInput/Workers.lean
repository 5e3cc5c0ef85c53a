import KeysharpInput.Subscriptions

/-!
The worker threads that ask the permission store and the user.
The store belongs to another library and is taken as linearizable: an operation begins
in one step and takes effect in a later one, at a single moment. Between the two
anything may happen, in this daemon and in other processes that use the store.
Each worker is a small program with its position kept in the task.
-/
namespace KeysharpInput.Session

variable (env : Env) (s : State)

/-- `permission_task_cancelled`; `timeUp` stands for shutdown and the task's deadline. -/
def permissionTaskCancelled (task : PermissionTask) : Bool :=
  env.timeUp
    || (task.kind != .refresh
      && (!s.streamIsValid task.connectionId || !s.inputOwnerMatchesUid task.uid
        || s.inputGeneration != task.inputGeneration))
    || (task.kind == .check && s.permissionGeneration != task.permissionGeneration)

def State.modifyTask (k : Nat) (f : PermissionTask → PermissionTask) : State :=
  { s with tasks := s.tasks.modify k f }

def State.modifyPrompt (k : Nat) (f : PromptTask → PromptTask) : State :=
  { s with prompts := s.prompts.modify k f }

/-- `ksp_store_check_at_generation` at the moment it takes effect. -/
def storeCheck (uid : Nat) (hash : Hash) (scopes : Scopes) : Scopes × Nat :=
  (s.store uid hash ∩ scopes, s.storeGeneration uid)

/-- `ksp_store_revoke` and `ksp_store_revoke_uid`. -/
def storeRevoke (uid : Nat) (target : RevokeTarget) (hash : Hash) (scopes : Scopes) : State :=
  { s with
    store := fun u h =>
      if u = uid ∧ (target = .all ∨ h = hash) then s.store u h \ scopes else s.store u h
    storeGeneration := Function.update s.storeGeneration uid (s.storeGeneration uid + 1) }

/-- The start of `permission_worker`, up to the call into the store. `captured` is the
hash of the process a revoke by pid names. -/
def startWorker (captured : Option Hash) (task : PermissionTask) : PermissionTask :=
  if permissionTaskCancelled env s task then
    { task with status := .cancelled, phase := .checked }
  else match task.kind with
    | .check | .refresh => { task with phase := .inStore, beganAt := s.clock }
    | .list => { task with phase := .checked }
    | .revoke =>
      if task.revokeTarget = .pid then
        match captured with
        | none => { task with status := .notFound, phase := .checked }
        | some hash => { task with hash := hash, phase := .inStore, beganAt := s.clock }
      else { task with phase := .inStore, beganAt := s.clock }

def refreshSnapshot (ok : Bool) (task : PermissionTask) : PermissionTask :=
  match task.snapshots[task.snapshotNext]? with
  | none => { task with phase := .checked }
  | some snapshot =>
    if permissionTaskCancelled env s task || !ok then
      { task with status := .unavailable, phase := .checked }
    else
      let (allowed, generation) := storeCheck s snapshot.uid snapshot.hash inputPermissionScopes
      { task with
        snapshots := task.snapshots.set task.snapshotNext { snapshot with allowed, generation }
        snapshotNext := task.snapshotNext + 1 }

/-- The store operation of `permission_worker` taking effect. -/
def workerStore (k : Nat) (task : PermissionTask) (ok : Bool) : State :=
  match task.kind with
  | .check =>
    let (allowed, generation) := storeCheck s task.uid task.identityHash inputPermissionScopes
    s.modifyTask k fun t =>
      if ok then
        { t with allowed := allowed, storeGeneration := generation, phase := .checked }
      else { t with status := .denied, phase := .checked }
  | .revoke =>
    if ok then
      (storeRevoke s task.uid task.revokeTarget task.hash task.revokeScopes).modifyTask k
        fun t => { t with phase := .checked, committedAt := s.clock }
    else s.modifyTask k fun t => { t with status := .internal, phase := .checked }
  | .refresh => s.modifyTask k (refreshSnapshot env s ok)
  | .list => s

/-- The end of `permission_worker`; a full command ring loses the task and retires the
stream it was for. -/
def finishWorker (k : Nat) (task : PermissionTask) (pushed : Bool) : State :=
  if pushed then
    s.modifyTask k fun t =>
      { t with
        status := if t.kind = .check ∧ permissionTaskCancelled env s t then .cancelled
          else t.status
        phase := .done }
  else
    { s with
      tasks := s.tasks.eraseIdx k
      clients := s.clients.map fun c =>
        if c.connectionId = task.connectionId then c.invalidate else c }

inductive WorkerStep
  | start (captured : Option Hash)
  | store (ok : Bool)
  | finish (pushed : Bool)

/-- A step of the worker of task `k`; a step it is not ready for does nothing. -/
def runWorker (k : Nat) (step : WorkerStep) : State :=
  match s.tasks[k]? with
  | none => s
  | some task =>
    match step, task.phase with
    | .start captured, .queued => s.modifyTask k (startWorker env s captured)
    | .store ok, .inStore => workerStore env s k task ok
    | .finish pushed, .checked => finishWorker env s k task pushed
    | _, _ => s

def promptCancelled (task : PromptTask) : Bool :=
  env.timeUp || !s.streamIsValid task.connectionId || !s.inputOwnerMatchesUid task.uid
    || s.inputGeneration != task.inputGeneration
    || s.permissionGeneration != task.permissionGeneration

inductive PromptStep
  | lock (ok : Bool)
  | check (ok : Bool)
  | answer (decision : PolkitResult)
  | grant (ok revalidated : Bool)
  | begin (revalidated : Bool)
  | final (ok : Bool)
  | finish (pushed : Bool)

/-- The first check of `prompt_worker`: what other scopes are still missing. -/
def checkPrompt (ok : Bool) (task : PromptTask) : PromptTask :=
  if ok then
    let (allowed, generation) := storeCheck s task.uid task.identityHash task.missingScopes
    let missing := task.missingScopes \ allowed
    if missing = ∅ then
      { task with allowed, generation, missingScopes := missing, decision := .granted,
                  phase := .decided }
    else { task with allowed, generation, missingScopes := missing, phase := .asking }
  else { task with decision := .unavailable, phase := .decided }

/-- `ksp_store_grant_if_generation_cancelled`: it takes effect only while the store's
generation is the one the worker read and the task is not cancelled. -/
def grantPrompt (k : Nat) (task : PromptTask) (ok revalidated : Bool) : State :=
  if task.decision = .granted ∧ task.missingScopes ≠ ∅ then
    if ok && revalidated && !promptCancelled env s task
        && s.storeGeneration task.uid == task.generation then
      { s.modifyPrompt k fun t => { t with phase := .final } with
        store := fun u h =>
          if u = task.uid ∧ h = task.identityHash then s.store u h ∪ task.missingScopes
          else s.store u h }
    else s.modifyPrompt k fun t => { t with decision := .denied, phase := .final }
  else s.modifyPrompt k fun t => { t with phase := .final }

/-- A step of `prompt_worker` on task `k`. -/
def runPrompt (k : Nat) (step : PromptStep) : State :=
  match s.prompts[k]? with
  | none => s
  | some task =>
    match step, task.phase with
    | .lock ok, .queued => s.modifyPrompt k fun t =>
        if ok then { t with phase := .locked }
        else { t with decision := .unavailable, phase := .finished }
    | .check ok, .locked => s.modifyPrompt k (checkPrompt s ok)
    | .answer decision, .asking => s.modifyPrompt k fun t => { t with decision, phase := .decided }
    | .grant ok revalidated, .decided => grantPrompt env s k task ok revalidated
    | .begin revalidated, .final => s.modifyPrompt k fun t =>
        if promptCancelled env s t || !revalidated then
          { t with allowed := ∅, decision := .denied, phase := .finished }
        else { t with phase := .inStore, beganAt := s.clock }
    | .final ok, .inStore => s.modifyPrompt k fun t =>
        if ok then
          { t with
            allowed := (storeCheck s t.uid t.identityHash inputPermissionScopes).1
            generation := (storeCheck s t.uid t.identityHash inputPermissionScopes).2
            phase := .finished }
        else { t with allowed := ∅, decision := .denied, phase := .finished }
    | .finish pushed, .finished =>
      if pushed then s.modifyPrompt k fun t => { t with phase := .done }
      else { s with prompts := s.prompts.eraseIdx k }
    | _, _ => s

end KeysharpInput.Session
