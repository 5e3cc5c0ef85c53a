import KeysharpInput.Steps

/-!
Steps and runs of the control plane as sequences of changes.
Worker moves only advance a task. Completions are where the history matters: the answer
of a check or a prompt is used only if its permission generation is still current.
Every state a run reaches has the invariant, and every step is a sequence of changes
under the permits that the step's own input and state give.
-/
namespace KeysharpInput.Session

open Tables List Finset Function Transition Nat Session.Client

variable {s t init : State} {input : Input} {task : PermissionTask} {p : Permits}
  {guard : State → Input → Prop}

namespace Changes

variable {p : Permits} {s t u : State} {i k : Nat} {c : Client}

section Workers

variable {x y : PermissionTask}

theorem modifyTask {f : PermissionTask → PermissionTask}
    (hf : ∀ x, s.tasks[k]? = some x → SameTask s.clock x (f x)) :
    Changes p s (s.modifyTask k f) := by
  refine quiet { QuietStep.refl p.subscribes s with tasks := fun x hx => .inl ?_ }
  rcases mem_of_mem_modify hx with hx | ⟨y, hy, hyk, rfl⟩
  · exact ⟨x, hx, .refl _ x⟩
  · exact ⟨y, hy, hf y hyk⟩

theorem modifyPrompt {f : PromptTask → PromptTask}
    (hf : ∀ x, s.prompts[k]? = some x → SamePrompt s.clock x (f x)) :
    Changes p s (s.modifyPrompt k f) := by
  refine quiet { QuietStep.refl p.subscribes s with prompts := fun x hx => .inl ?_ }
  rcases mem_of_mem_modify hx with hx | ⟨y, hy, hyk, rfl⟩
  · exact ⟨x, hx, .refl _ x⟩
  · exact ⟨y, hy, hf y hyk⟩

theorem dropTask (s : State) (k : Nat) : Changes p s { s with tasks := s.tasks.eraseIdx k } :=
  quiet { QuietStep.refl p.subscribes s with
    tasks := fun x hx => .inl ⟨x, mem_of_mem_eraseIdx hx, .refl _ x⟩ }

theorem dropPrompt (s : State) (k : Nat) : Changes p s { s with prompts := s.prompts.eraseIdx k } :=
  quiet { QuietStep.refl p.subscribes s with
    prompts := fun x hx => .inl ⟨x, mem_of_mem_eraseIdx hx, .refl _ x⟩ }

theorem sameTask_of_allowed (hkind : y.kind = x.kind) (hconn : y.connectionId = x.connectionId)
    (hgen : y.permissionGeneration = x.permissionGeneration) (hcreated : y.createdAt = x.createdAt)
    (hcommitted : y.committedAt = x.committedAt) (hphase : y.phase ≠ .inStore)
    (hallowed : y.allowed = x.allowed) (hbegan : y.beganAt = x.beganAt) : SameTask s.clock x y := by
  refine ⟨hkind, hconn, hgen, hcreated, fun h => ⟨?_, ?_, fun hy => ?_⟩⟩
  · rw [hcreated]
    exact h.created
  · rw [hcommitted]
    exact h.committed
  · rw [hcreated, hbegan]
    exact h.began (.inr (by simpa [hphase, hallowed] using hy))

theorem sameTask_of_began (hkind : y.kind = x.kind) (hconn : y.connectionId = x.connectionId)
    (hgen : y.permissionGeneration = x.permissionGeneration) (hcreated : y.createdAt = x.createdAt)
    (hcommitted : y.committedAt = x.committedAt) (hbegan : y.beganAt = s.clock) :
    SameTask s.clock x y := by
  refine ⟨hkind, hconn, hgen, hcreated, fun h => ⟨?_, ?_, fun _ => ?_⟩⟩
  · rw [hcreated]
    exact h.created
  · rw [hcommitted]
    exact h.committed
  · rw [hcreated, hbegan]
    exact h.created

variable (env : Env)

theorem startWorker (captured : Option Hash) (x : PermissionTask) :
    SameTask s.clock x (startWorker env s captured x) := by
  unfold Session.startWorker
  split
  · exact sameTask_of_allowed rfl rfl rfl rfl rfl (by simp) rfl rfl
  split
  · exact sameTask_of_began rfl rfl rfl rfl rfl rfl
  · exact sameTask_of_began rfl rfl rfl rfl rfl rfl
  · exact sameTask_of_allowed rfl rfl rfl rfl rfl (by simp) rfl rfl
  split
  · split
    · exact sameTask_of_allowed rfl rfl rfl rfl rfl (by simp) rfl rfl
    · exact sameTask_of_began rfl rfl rfl rfl rfl rfl
  · exact sameTask_of_began rfl rfl rfl rfl rfl rfl

theorem sameTask_of_store (hstore : x.phase = .inStore) (hkind : y.kind = x.kind)
    (hconn : y.connectionId = x.connectionId)
    (hgen : y.permissionGeneration = x.permissionGeneration) (hcreated : y.createdAt = x.createdAt)
    (hcommitted : y.committedAt = x.committedAt ∨ y.committedAt = s.clock)
    (hbegan : y.beganAt = x.beganAt) : SameTask s.clock x y := by
  refine ⟨hkind, hconn, hgen, hcreated, fun h => ⟨?_, ?_, fun _ => ?_⟩⟩
  · rw [hcreated]
    exact h.created
  · rcases hcommitted with hc | hc
    · rw [hc]
      exact h.committed
    · rw [hc]
  · rw [hcreated, hbegan]
    exact h.began (.inl hstore)

theorem refreshSnapshot (ok : Bool) (hstore : x.phase = .inStore) :
    SameTask s.clock x (refreshSnapshot env s ok x) := by
  unfold Session.refreshSnapshot
  split
  · exact sameTask_of_store hstore rfl rfl rfl rfl (.inl rfl) rfl
  split <;> exact sameTask_of_store hstore rfl rfl rfl rfl (.inl rfl) rfl

theorem workerStore (ok : Bool) (hk : s.tasks[k]? = some task)
    (hstore : task.phase = .inStore) : Changes p s (workerStore env s k task ok) := by
  have hat : ∀ x, s.tasks[k]? = some x → x.phase = .inStore :=
    fun x hx => Option.some.inj (hx.symm.trans hk) ▸ hstore
  unfold Session.workerStore
  split
  · refine modifyTask fun x hx => ?_
    split <;> exact sameTask_of_store (hat x hx) rfl rfl rfl rfl (.inl rfl) rfl
  · split
    · refine .trans (t := storeRevoke s task.uid task.revokeTarget task.hash task.revokeScopes)
        (quiet { QuietStep.refl p.subscribes s with }) (modifyTask fun x hx => ?_)
      exact sameTask_of_store (hat x hx) rfl rfl rfl rfl (.inr rfl) rfl
    · exact modifyTask fun x hx =>
        sameTask_of_store (hat x hx) rfl rfl rfl rfl (.inl rfl) rfl
  · exact modifyTask fun x hx => refreshSnapshot env ok (hat x hx)
  · exact refl s

theorem finishWorker (s : State) (k : Nat) (task : PermissionTask) (pushed : Bool) :
    Changes p s (finishWorker env s k task pushed) := by
  unfold Session.finishWorker
  split
  · exact modifyTask fun x _ => sameTask_of_allowed rfl rfl rfl rfl rfl (by simp) rfl rfl
  refine (dropTask s k).trans (mapClients _ _ fun c => ?_)
  split
  · exact .invalidate
  · exact .refl _ c

theorem runWorker (s : State) (k : Nat) (step : WorkerStep) :
    Changes p s (runWorker env s k step) := by
  unfold Session.runWorker
  split
  · exact refl s
  rename_i hk
  split
  · exact modifyTask fun x _ => startWorker env _ x
  · rename_i hphase
    exact workerStore env _ hk hphase
  · exact finishWorker ..
  · exact refl s

theorem samePrompt {x y : PromptTask} (hconn : y.connectionId = x.connectionId)
    (hgen : y.permissionGeneration = x.permissionGeneration) (hcreated : y.createdAt = x.createdAt)
    (hqueued : y.phase ≠ .queued) (hbegan : PromptTimes s.clock x →
      y.phase = .inStore ∨ (y.phase = .finished ∨ y.phase = .done) ∧ y.allowed ≠ ∅ →
      x.createdAt ≤ y.beganAt) : SamePrompt s.clock x y := by
  refine ⟨hconn, hgen, hcreated, fun h => ⟨?_, fun hq => absurd hq hqueued, fun hy => ?_⟩⟩
  · rw [hcreated]
    exact h.created
  · rw [hcreated]
    exact hbegan h hy

theorem checkPrompt (ok : Bool) (x : PromptTask) : SamePrompt s.clock x (checkPrompt s ok x) := by
  unfold Session.checkPrompt
  split
  · dsimp only
    split <;> exact samePrompt rfl rfl rfl (by simp) (by simp)
  · exact samePrompt rfl rfl rfl (by simp) (by simp)

theorem grantPrompt (s : State) (k : Nat) (task : PromptTask)
    (ok revalidated : Bool) : Changes p s (grantPrompt env s k task ok revalidated) := by
  have hfinal : ∀ u : State, Changes p u (u.modifyPrompt k fun t => { t with phase := .final }) :=
    fun u => modifyPrompt fun x _ => samePrompt rfl rfl rfl (by simp) (by simp)
  unfold Session.grantPrompt
  split
  · split
    · exact (hfinal s).trans (quiet { QuietStep.refl p.subscribes _ with })
    · exact modifyPrompt fun x _ => samePrompt rfl rfl rfl (by simp) (by simp)
  · exact hfinal s

theorem runPrompt (s : State) (k : Nat) (step : PromptStep) :
    Changes p s (runPrompt env s k step) := by
  unfold Session.runPrompt
  split
  · exact refl s
  rename_i task hk
  have hat : ∀ {x : PromptTask} {phase : PromptPhase}, s.prompts[k]? = some x →
      task.phase = phase → x.phase = phase :=
    fun hx hphase => Option.some.inj (hx.symm.trans hk) ▸ hphase
  split
  · rename_i hphase
    refine modifyPrompt fun x hx => ?_
    split
    · exact samePrompt rfl rfl rfl (by simp) (by simp)
    · -- The worker that got no lock never asked, so nothing is allowed.
      exact samePrompt rfl rfl rfl (by simp) fun h => by simp [h.queued (hat hx hphase)]
  · exact modifyPrompt fun x _ => checkPrompt _ x
  · exact modifyPrompt fun x _ => samePrompt rfl rfl rfl (by simp) (by simp)
  · exact grantPrompt ..
  · refine modifyPrompt fun x _ => ?_
    split
    · exact samePrompt rfl rfl rfl (by simp) (by simp)
    · exact samePrompt rfl rfl rfl (by simp) fun h _ => h.created
  · rename_i hphase
    refine modifyPrompt fun x hx => ?_
    split
    · exact samePrompt rfl rfl rfl (by simp) fun h _ => h.began (.inl (hat hx hphase))
    · exact samePrompt rfl rfl rfl (by simp) (by simp)
  · rename_i hphase
    split
    · refine modifyPrompt fun x hx => samePrompt rfl rfl rfl (by simp) fun h hy => ?_
      exact h.began (.inr ⟨.inl (hat hx hphase), by simpa using hy⟩)
    · exact dropPrompt s k
  · exact refl s

end Workers

section Completions

theorem findClient_spec {connectionId : Nat}
    (h : s.findClientIndexByConnection connectionId = some i) :
    ∃ c, s.clients[i]? = some c ∧ c.connectionId = connectionId := by
  unfold State.findClientIndexByConnection at h
  split at h
  · simp at h
  · obtain ⟨hlt, hi, -⟩ := findIdx?_eq_some_iff_getElem.mp h
    exact ⟨s.clients[i], by simp, by simpa using hi⟩

variable (env : Env)

theorem processClientIdentified (connectionId : Nat) (result : Option (Hash × Nat))
    (h : Inv s) (ht : ∃ t ∈ s.identifies, t.connectionId = connectionId) :
    Changes p s (processClientIdentified env
      { s with identifies := s.identifies.filter fun t => t.connectionId != connectionId }
      connectionId result) := by
  have hdrop : Changes p s
      { s with identifies := s.identifies.filter fun t => t.connectionId != connectionId } :=
    quiet { QuietStep.refl p.subscribes s with identifies := fun x hx => (mem_filter.mp hx).1 }
  unfold Session.processClientIdentified
  split
  · exact hdrop
  rename_i i hi
  obtain ⟨c, hc, rfl⟩ := findClient_spec hi
  replace hc : s.clients[i]? = some c := hc
  rw [hc]
  dsimp only
  split
  · have hready : Changes p s (State.modifyClient { s with
        identifies := s.identifies.filter fun t => t.connectionId != c.connectionId } i
        fun c => { c with state := .ready }) :=
      hdrop.trans (modifyClient _ i _ fun d => { Quiet.refl s.leases d with })
    split
    · exact hready.trans (denyPending ..)
    · exact hready
  generalize hident : result.filter _ = identity
  have hknown := one (.identified (p := p) identity.isSome (identity.map Prod.fst) hc ht)
  split
  · exact hknown
  split
  · exact hknown.trans (denyPending ..)
  rename_i hopen
  have hsome : identity.isSome = true := by
    cases identity with
    | none => simp at hopen
    | some => rfl
  have hstart := startPermissionCheck (p := p) (i := i) (c := { c with
      hasIdentity := identity.isSome
      identityHash := (identity.map Prod.fst).getD c.identityHash
      state := .ready }) env (hknown.inv h) (by simp [State.modifyClient, hc]) hsome
  split
  · exact hknown.trans hstart
  · exact (hknown.trans hstart).trans (denyPending ..)

theorem startPromptTask (requested missing : Scopes) (h : Inv s) (hc : s.clients[i]? = some c)
    {d : Client} (hd : d.connectionId = c.connectionId) (hident : c.hasIdentity = true) :
    Changes p s (startPromptTask env s d requested missing).1 := by
  unfold Session.startPromptTask
  split
  · refine quiet { QuietStep.refl p.subscribes s with prompts := fun x hx => ?_ }
    rcases mem_append.mp hx with hx | hx
    · exact .inl ⟨x, hx, .refl _ x⟩
    rw [List.mem_singleton] at hx
    subst hx
    refine .inr ⟨rfl, rfl, rfl, le_refl _, ?_, fun k hk hkc => ?_⟩
    · rw [hd]
      exact (h.registry.bounds _ (Inv.mem_core hc)).2
    · obtain rfl := eq_of_key_eq h.registry.nodup hk (Inv.mem_core hc) (hkc.trans hd)
      exact hident
  · exact refl s

theorem prepareRequestedScopes_eq (s : State) (requested : Scopes) (q : Prop)
    [Decidable q] : ∃ available ready, (if q then prepareRequestedScopes env s requested else s) =
      { s with availableOperations := available, readyOperations := ready } := by
  unfold prepareRequestedScopes
  split
  · split <;> exact ⟨_, _, rfl⟩
  · exact ⟨_, _, rfl⟩

/-- A grant to client `i` after quiet changes of that client and the operations on offer. -/
theorem finishAfter (opcode : Opcode) (requestId : Nat)
    (requested granted : Scopes) (began : Nat) (f : Client → Client) (available ready : Nat)
    (h : Inv s) (hc : s.clients[i]? = some c) (hf : ∀ c, Quiet p.subscribes s.leases c (f c))
    (hident : c.hasIdentity = true) (hrefresh : s.permissionRefreshInflight = false)
    (hbegan : granted ≠ ∅ → ∀ r ∈ s.processedRevokes, r.committedAt < began) :
    Changes p s (finishClientAuthorization env (State.modifyClient
      { s with availableOperations := available, readyOperations := ready } i f) i opcode
      requestId requested granted began) := by
  have hoffer : Changes p s
      { s with availableOperations := available, readyOperations := ready } :=
    quiet { QuietStep.refl p.subscribes s with }
  have hcore : (f c).core = c.core := (hf c).core
  have hrole : c.connectionRole = .authorizationLease :=
    (h.registry.identified _ (Inv.mem_core hc) hident).1
  refine (hoffer.trans (modifyClient _ i f hf)).trans (one (.finish (c := f c) env opcode requestId
    requested granted began ?_ ?_ ?_ (fun _ => hrefresh) hbegan))
  · simp [State.modifyClient, hc]
  · exact (congrArg Core.role hcore).trans hrole
  · exact fun _ => (congrArg Core.hasIdentity hcore).trans hident

theorem generation_of_not_cancelled {env : Env} (hkind : task.kind = .check)
    (h : permissionTaskCancelled env s task = false) :
    task.permissionGeneration = s.permissionGeneration := by
  obtain ⟨-, hgen⟩ := Bool.or_eq_false_iff.mp h
  rw [hkind] at hgen
  have hsame : s.permissionGeneration = task.permissionGeneration := by simpa using hgen
  exact hsame.symm

theorem processCheckDone (task : PermissionTask) {d : Client} (h : Inv s)
    (hc : s.clients[i]? = some d) (hd : d.connectionId = c.connectionId)
    (hident : d.hasIdentity = true) (hkind : task.kind = .check)
    (hbegan : task.permissionGeneration = s.permissionGeneration → task.allowed ≠ ∅ →
      ∀ r ∈ s.processedRevokes, r.committedAt < task.beganAt) :
    Changes p s (processCheckDone env s i c task) := by
  unfold Session.processCheckDone
  split
  · exact denyPending ..
  rename_i hgo
  simp only [Bool.or_eq_true, not_or, Bool.not_eq_true] at hgo
  obtain ⟨⟨⟨-, hcancelled⟩, -⟩, hrefresh⟩ := hgo
  have hgen := generation_of_not_cancelled hkind hcancelled
  dsimp only
  have hnote : Changes p s (s.modifyClient i fun c =>
      { c with permissionStoreGeneration := some task.storeGeneration }) :=
    modifyClient s i _ fun c => { Quiet.refl s.leases c with }
  have hc' : (s.modifyClient i fun c => { c with
      permissionStoreGeneration := some task.storeGeneration }).clients[i]? =
      some { d with permissionStoreGeneration := some task.storeGeneration } := by
    simp [State.modifyClient, hc]
  split
  · have hprompt := startPromptTask (p := p) env task.requested (task.requested \ task.allowed)
      (hnote.inv h) hc' hd.symm hident
    split
    · exact (hnote.trans hprompt).trans (modifyClient _ i _ fun c => { Quiet.refl _ c with })
    · exact (hnote.trans hprompt).trans (denyPending ..)
  refine hnote.trans ?_
  obtain ⟨available, ready, heq⟩ := prepareRequestedScopes_eq env (s.modifyClient i fun c =>
      { c with permissionStoreGeneration := some task.storeGeneration })
    (task.allowed ∩ task.requested) (c.pendingAuthorizationOpcode ≠ .devicesAuthorize ∧
      (c.connectionRole ≠ .observerStream ∨ .inputControl ∈ task.allowed ∩ task.requested))
  rw [heq]
  refine finishAfter env _ _ _ _ _ _ available ready (hnote.inv h) hc'
    (fun c => { Quiet.refl _ c with }) hident hrefresh fun hne => hbegan hgen ?_
  rintro hempty
  simp [hempty] at hne

theorem processRequesterDone (task : PermissionTask) (h : Inv s) (hcheck : task.kind = .check →
      (∀ d ∈ s.cores, d.connectionId = task.connectionId → d.hasIdentity = true) ∧
      (task.permissionGeneration = s.permissionGeneration → task.allowed ≠ ∅ →
        ∀ r ∈ s.processedRevokes, r.committedAt < task.beganAt)) :
    Changes p s (processRequesterDone env s task) := by
  unfold Session.processRequesterDone
  split
  · exact refl s
  rename_i i hi
  obtain ⟨c, hc, hcid⟩ := findClient_spec hi
  rw [hc]
  dsimp only
  split
  · exact refl s
  have hforget : Changes p s (s.modifyClient i fun c => { c with permissionTask := none }) :=
    modifyClient s i _ fun c => { Quiet.refl s.leases c with }
  split
  · exact hforget
  split
  · exact hforget.trans (sendStatus ..)
  split
  · exact hforget
  rename_i hwaits
  simp only [not_or, Decidable.not_not] at hwaits
  obtain ⟨hident, hbegan⟩ := hcheck hwaits.1
  exact hforget.trans (processCheckDone (d := { c with permissionTask := none }) env task
    (hforget.inv h) (by simp [State.modifyClient, hc]) rfl (hident _ (Inv.mem_core hc) hcid)
    hwaits.1 hbegan)

theorem processClientPromptDone (task : PromptTask) (h : Inv s)
    (hident : ∀ d ∈ s.cores, d.connectionId = task.connectionId → d.hasIdentity = true)
    (hbegan : task.permissionGeneration = s.permissionGeneration → task.allowed ≠ ∅ →
      ∀ r ∈ s.processedRevokes, r.committedAt < task.beganAt) :
    Changes p s (processClientPromptDone env s task) := by
  unfold Session.processClientPromptDone
  split
  · exact refl s
  rename_i i hi
  obtain ⟨c, hc, hcid⟩ := findClient_spec hi
  rw [hc]
  dsimp only
  split
  · exact refl s
  have hready : Changes p s (s.modifyClient i fun c =>
      { c with state := .ready, pendingAuthorization := false }) :=
    modifyClient s i _ fun c => { Quiet.refl s.leases c with }
  split
  · exact hready.trans (sendPendingAuthorizationStatus ..)
  rename_i hgo
  simp only [Bool.or_eq_true, not_or, Bool.not_eq_true, bne_eq_false_iff_eq] at hgo
  obtain ⟨⟨⟨⟨-, hgen⟩, -⟩, -⟩, hrefresh⟩ := hgo
  split
  · exact hready.trans (sendPendingAuthorizationStatus ..)
  · exact hready.trans (sendPendingAuthorizationStatus ..)
  · exact hready.trans (sendPendingAuthorizationStatus ..)
  refine hready.trans ?_
  obtain ⟨available, ready, heq⟩ := prepareRequestedScopes_eq env (s.modifyClient i fun c =>
      { c with state := .ready, pendingAuthorization := false }) c.pendingRequestedScopes
    (c.connectionRole ≠ .observerStream ∨ .inputControl ∈ c.pendingRequestedScopes)
  rw [heq]
  refine finishAfter (c := { c with state := .ready, pendingAuthorization := false }) env _ _ _ _
    _ _ available ready (hready.inv h) (by simp [State.modifyClient, hc])
    (fun c => { Quiet.refl _ c with }) (hident _ (Inv.mem_core hc) hcid) hrefresh
    fun hne => hbegan hgen ?_
  rintro hempty
  simp [hempty] at hne

end Completions

section Refresh

variable {env : Env}

theorem earlySharer_of_shrinks (hcores : t.cores = s.cores) (hleases : s.leases.Shrinks t.leases)
    (h : EarlySharer t) : EarlySharer s := by
  obtain ⟨i, c, q, l, hc, hid, hq, hl, hg, hfirst⟩ := h
  obtain ⟨_, hshrunk⟩ := hleases q
  rw [hcores] at hc hfirst
  rw [hl] at hshrunk
  obtain ⟨k, hk, rfl⟩ := Option.map_eq_some_iff.mp hshrunk.symm
  refine ⟨i, c, q, k, hc, hid, hq, hk, ?_, hfirst⟩
  rintro hempty
  simp [hempty] at hg

theorem refresh_cores (env : Env) (s : State) :
    (Session.refreshExternalPermissions env s).1.cores = s.cores ∧
      (Session.refreshExternalPermissions env s).1.leases = s.leases := by
  have hpause : (s.clients.map pause).map core = s.clients.map core := by
    rw [List.map_map]
    rfl
  unfold Session.refreshExternalPermissions
  split
  · exact ⟨rfl, rfl⟩
  split
  · exact ⟨rfl, rfl⟩
  split
  · exact ⟨rfl, rfl⟩
  split <;> exact ⟨hpause, rfl⟩

theorem refreshOrFailOpen (env : Env) (h : EarlySharer s → p.silentClear) :
    Changes p s (if (Session.refreshExternalPermissions env s).2 then
        (Session.refreshExternalPermissions env s).1
      else permissionMonitorFailOpen env (Session.refreshExternalPermissions env s).1) := by
  obtain ⟨hcores, hleases⟩ := refresh_cores env s
  have hrefresh := refreshExternalPermissions (p := p) env s
  split
  · exact hrefresh
  · refine hrefresh.trans (failOpen env fun he => h (earlySharer_of_shrinks hcores ?_ he))
    rw [hleases]
    exact .refl _

theorem applySnapshot {snapshot : Snapshot} (h : applySnapshot env s snapshot = some t) :
    Changes p s t ∧ Withdraws s t := by
  obtain ⟨_, -, rfl⟩ := Option.map_eq_some_iff.mp h
  let note : Client → Client := fun c => if snapshotMatches snapshot c then
    { c with permissionStoreGeneration := some snapshot.generation } else c
  have hquiet : ∀ c, Quiet p.subscribes s.leases c (note c) := by
    intro c
    unfold note
    split
    · exact { Quiet.refl s.leases c with }
    · exact .refl _ c
  have hnote : ∀ c, Withdrawn c (note c) := by
    intro c
    unfold note
    split
    · exact { Withdrawn.refl c with }
    · exact .refl c
  have hwithdraw : Withdraws s { s with clients := s.clients.map note } :=
    { Withdraws.refl s with clients := forall₂_map fun c _ => hnote c }
  split
  · exact ⟨mapClients s note hquiet, hwithdraw⟩
  · exact ⟨(mapClients s note hquiet).trans (one (.invalidate ..)),
      hwithdraw.trans (.invalidate ..)⟩

theorem applySnapshots {snapshots : List Snapshot}
    (h : snapshots.foldlM (Session.applySnapshot env) s = some t) :
    Changes p s t ∧ Withdraws s t := by
  induction snapshots generalizing s with
  | nil =>
    obtain rfl : s = t := by simpa using h
    exact ⟨refl s, .refl s⟩
  | cons _ _ ih =>
    obtain ⟨u, hu, hrest⟩ := Option.bind_eq_some_iff.mp h
    obtain ⟨hchange, hwithdraw⟩ := applySnapshot hu
    obtain ⟨hchanges, hwithdraws⟩ := ih hrest
    exact ⟨hchange.trans hchanges, hwithdraw.trans hwithdraws⟩

theorem processRefreshDone (h : processRefreshDone env s task = some t)
    (he : EarlySharer s → p.silentClear) : Changes p s t := by
  have hend : Changes p s { s with permissionRefreshInflight := false } :=
    quiet { QuietStep.refl p.subscribes s with
      refresh := fun hfalse => absurd hfalse Bool.false_ne_true }
  unfold Session.processRefreshDone at h
  dsimp only at h
  split at h
  · cases h
    exact hend
  split at h
  · cases h
    exact hend.trans (refreshOrFailOpen env he)
  split at h
  · cases h
    exact hend.trans (failOpen env he)
  obtain ⟨u, hu, rfl⟩ := Option.map_eq_some_iff.mp h
  obtain ⟨hchanges, hwithdraws⟩ := applySnapshots hu
  have hresume : Changes p u { u with clients := u.clients.map resume } :=
    one (.resume u hwithdraws.refresh)
  split
  · exact (hend.trans hchanges).trans hresume
  refine ((hend.trans hchanges).trans hresume).trans (failOpen env fun hearly => he ?_)
  refine earlySharer_of_shrinks (t := { u with clients := u.clients.map resume }) ?_
    hwithdraws.leases hearly
  refine Eq.trans ?_ hwithdraws.cores
  simp only [State.cores, List.map_map]
  rfl

theorem processRevoked (env : Env) (task : PermissionTask) (hcommitted : task.committedAt < s.clock)
    (he : EarlySharer s → p.silentClear) : Changes p s (processRevoked env s task) := by
  have hfence : Changes p s { s with inputGeneration := s.inputGeneration + 1 } :=
    quiet { QuietStep.refl p.subscribes s with }
  refine .trans ?_
    (one (.revoked _ env task ?_))
  · split
    · exact hfence
    · exact hfence.trans (failOpen env he)
  · split
    · exact hcommitted
    · rwa [(Withdraws.failOpen env _).clock]

theorem processPermissionNotifications (env : Env) (n : Notification)
    (he : EarlySharer s → p.silentClear) :
    Changes p s (processPermissionNotifications env s n) := by
  unfold Session.processPermissionNotifications
  split
  · exact refl s
  split
  · exact failOpen env he
  · exact refl s
  · have hbump : Changes p s { s with permissionGeneration := s.permissionGeneration + 1 } :=
      quiet { QuietStep.refl p.subscribes s with generation := le_succ _ }
    exact hbump.trans (refreshOrFailOpen env he)

end Refresh

section Connections

theorem removeClient (s : State) (i : Nat) : Changes p s (removeClient s i) := one (.remove s i)

theorem acceptClient (env : Env) (s : State) (pid uid startTime : Nat) :
    Changes p s (acceptClient env s pid uid startTime) := by
  have hslot : Changes p s (ensureActiveClientSlot s).1 := by
    unfold ensureActiveClientSlot
    split
    · exact refl s
    split
    · exact removeClient s _
    · exact refl s
  have hadd : ∀ u, Changes p u (addClient env u pid uid startTime) := by
    intro u
    unfold addClient
    split
    · exact refl u
    rename_i hroom
    split
    · exact refl u
    split
    · exact refl u
    · exact one (.accept u pid uid startTime (Nat.lt_of_not_le hroom))
  unfold Session.acceptClient
  split
  · exact refl s
  dsimp only
  split
  · exact hslot.trans (hadd _)
  · exact hslot

theorem retryAfterMs_pos (failures : Nat) : 0 < retryAfterMs failures := by
  unfold retryAfterMs
  rw [shiftLeft_eq]
  exact Nat.mul_pos (by decide) (Nat.two_pow_pos _)

theorem recordClientHookFailure (env : Env) (s : State) (i : Nat) (t : HookType) :
    Changes p s (recordClientHookFailure env s i t) := by
  unfold Session.recordClientHookFailure
  split
  · exact refl s
  split
  · exact refl s
  split
  · exact refl s
  let quarantine : Nat → Client → Client := fun failures c =>
    { c with
      consecutiveHookFailures := update c.consecutiveHookFailures t failures
      lastHookQuarantineMs := update c.lastHookQuarantineMs t env.nowMs
      quarantinedHooks := insert t c.quarantinedHooks
      stalledLanes := insert t c.stalledLanes
      quarantineRearmAfterMs := update c.quarantineRearmAfterMs t
        (env.nowMs + retryAfterMs failures) }
  have hrecord : ∀ failures, Changes p s (if failures < maxConsecutiveHookFailures then
      s.modifyClient i (quarantine failures)
      else Session.removeClient (s.modifyClient i (quarantine failures)) i) := by
    intro failures
    have hcovered : ∀ c : Client, ∀ t', c.Covered t' → (quarantine failures c).Covered t' := by
      intro c t' hc hvalid hstalled
      by_cases hsame : t' = t
      · subst hsame
        exact mem_insert_self _ _
      · exact mem_insert_of_mem
          (hc hvalid (mem_of_mem_insert_of_ne hstalled hsame))
    have htimed : ∀ c : Client, ∀ t', c.Timed t' → (quarantine failures c).Timed t' := by
      intro c t' hc hquarantined
      by_cases hsame : t' = t
      · subst hsame
        have hpos := retryAfterMs_pos failures
        simp only [quarantine, update_self]
        omega
      · simpa [quarantine, hsame] using hc (mem_of_mem_insert_of_ne hquarantined hsame)
    have hquiet : Changes p s (s.modifyClient i (quarantine failures)) :=
      modifyClient s i _ fun c => { Quiet.refl s.leases c with
        covered := hcovered c
        timed := htimed c }
    split
    · exact hquiet
    · exact hquiet.trans (removeClient _ i)
  exact hrecord _

theorem retryQuarantinedHooks (env : Env) (s : State) :
    Changes p s (retryQuarantinedHooks env s) := by
  have hretry : ∀ (c d : Client) (t : HookType), Quiet p.subscribes s.leases c d →
      Quiet p.subscribes s.leases c (d.retryHook env.nowMs t) := by
    intro c d t h
    unfold retryHook
    split
    · exact h
    refine { h with
      covered := fun t' hc hvalid hstalled => ?_, timed := fun t' hc hquarantined => ?_ }
    · obtain ⟨hne, hstalled⟩ := mem_erase.mp hstalled
      exact mem_erase.mpr ⟨hne, h.covered t' hc hvalid hstalled⟩
    · obtain ⟨hne, hquarantined⟩ := mem_erase.mp hquarantined
      simpa [hne] using h.timed t' hc hquarantined
  exact mapClients s _ fun c => hretry _ _ _ (hretry _ _ _ (.refl _ c))

theorem clearHookState (s : State) : Changes p s (clearHookState s) :=
  mapClients s _ fun c => { (Quiet.refl s.leases c : Quiet p.subscribes s.leases c c) with
    hooks := .inl (empty_subset _)
    block := .inl (empty_subset _)
    ordinals := .inr fun t ht => absurd ht (notMem_empty t) }

end Connections

end Changes

def LeaseHelloOk (input : Input) : Prop :=
  ∀ i requestId x, input.event = .request i requestId (.hello (some x)) →
    decodeRole x.role = some .authorizationLease → x.reserved = 0 ∧ input.env.allocOk = true

def AttachOk (s : State) (input : Input) : Prop :=
  ∀ i requestId x c o, input.event = .request i requestId (.hello (some x)) →
    decodeRole x.role ≠ some .authorizationLease → s.permissionRefreshInflight = true →
    s.clients[i]? = some c → leaseOwner s c x.reserved = some o → clientGrants s.leases o = ∅

def permits (s : State) (input : Input) : Permits where
  nullLease := ¬ LeaseHelloOk input
  lateAttach := ¬ AttachOk s input
  silentClear := EarlySharer s
  subscribes := ∃ i requestId payload, input.event = .request i requestId (.subscribeHook payload)

structure Settled (s : State) : Prop extends Inv s where
  committed : ∀ x ∈ s.tasks, x.committedAt < s.clock

theorem handleBinaryMessage_changes {i requestId : Nat} {r : Request} (h : Inv s)
    (hevent : input.event = .request i requestId r) :
    Changes (permits s input) s (handleBinaryMessage input.env s i requestId r) := by
  unfold handleBinaryMessage
  split
  · exact .refl s
  rename_i c hc
  split
  · exact .removeClient s i
  refine .handleRequest input.env requestId r h hc ?_ ?_ ?_ fun payload hr =>
    ⟨i, requestId, payload, hr ▸ hevent⟩
  · cases hr : r.isHello <;> simp_all
  · rintro x rfl hrole hbad hok
    obtain ⟨hzero, halloc⟩ := hok i requestId x hevent hrole
    simp [hzero, halloc] at hbad
  rintro x rfl hrole
  by_cases hinflight : s.permissionRefreshInflight = true
  · by_cases hok : AttachOk s input
    · exact .inr (.inr fun o ho => hok i requestId x c o hevent hrole hinflight hc ho)
    · exact .inl hok
  · exact .inr (.inl (by simpa using hinflight))

/-- The store's answer to a task of the current generation began after the processed revokes. -/
theorem Inv.task_began (h : Inv s) (hmem : task ∈ s.tasks)
    (hgen : task.permissionGeneration = s.permissionGeneration) (hallowed : task.allowed ≠ ∅) :
    ∀ r ∈ s.processedRevokes, r.committedAt < task.beganAt := by
  intro r hr
  have hcreated := (h.tasks task hmem).revokes hgen r hr
  have hbegan := (h.taskTimes task hmem).began (.inr hallowed)
  omega

theorem Inv.prompt_began (h : Inv s) {task : PromptTask} (hmem : task ∈ s.prompts)
    (hdone : task.phase = .done) (hgen : task.permissionGeneration = s.permissionGeneration)
    (hallowed : task.allowed ≠ ∅) : ∀ r ∈ s.processedRevokes, r.committedAt < task.beganAt := by
  intro r hr
  have hcreated := (h.prompts task hmem).revokes hgen r hr
  have hbegan := (h.promptTimes task hmem).began (.inr ⟨.inr hdone, hallowed⟩)
  omega

theorem processPermissionDone_changes {env : Env} {k : Nat} (h : Settled s)
    (hk : s.tasks[k]? = some task) (he : EarlySharer s → p.silentClear)
    (ht : processPermissionDone env { s with tasks := s.tasks.eraseIdx k } task = some t) :
    Changes p s t := by
  have hmem : task ∈ s.tasks := mem_of_getElem? hk
  have hdrop : Changes p s { s with tasks := s.tasks.eraseIdx k } := .dropTask s k
  unfold processPermissionDone at ht
  split at ht
  · exact hdrop.trans (.processRefreshDone ht he)
  cases ht
  split
  · rename_i hrevoke
    have hrevoked : Changes p _ _ := .processRevoked env task (s := { s with
      tasks := s.tasks.eraseIdx k }) (h.committed task hmem) he
    refine (hdrop.trans hrevoked).trans (.processRequesterDone env task
      ((hdrop.trans hrevoked).inv h.toInv) fun hcheck => ?_)
    simp [hrevoke.1] at hcheck
  · exact hdrop.trans (.processRequesterDone env task (hdrop.inv h.toInv) fun hcheck =>
      ⟨(h.work.checks task hmem hcheck).2, h.task_began hmem⟩)

theorem handle_changes (h : Settled s) (ht : handle input.env s input.event = some t) :
    Changes (permits s input) s t := by
  cases hevent : input.event with
  | accept =>
    obtain rfl : _ = t := by simpa [handle, hevent] using ht
    exact .acceptClient ..
  | remove i =>
    obtain rfl : _ = t := by simpa [handle, hevent] using ht
    exact .removeClient s i
  | request =>
    obtain rfl : _ = t := by simpa [handle, hevent] using ht
    exact handleBinaryMessage_changes h.toInv hevent
  | identified connectionId result =>
    rw [hevent] at ht
    simp only [handle] at ht
    split at ht
    · rename_i hany
      cases ht
      refine .processClientIdentified _ _ _ h.toInv ?_
      simpa using hany
    · cases ht
      exact .refl s
  | permissionDone k =>
    rw [hevent] at ht
    simp only [handle] at ht
    split at ht
    · cases ht
      exact .refl s
    rename_i task hk
    split at ht
    · exact processPermissionDone_changes h hk id ht
    · cases ht
      exact .refl s
  | promptDone k =>
    rw [hevent] at ht
    simp only [handle] at ht
    split at ht
    · cases ht
      exact .refl s
    rename_i task hk
    have hmem : task ∈ s.prompts := mem_of_getElem? hk
    have hdrop := Changes.dropPrompt (p := permits s input) s k
    split at ht
    · rename_i hdone
      cases ht
      exact hdrop.trans (.processClientPromptDone _ task (hdrop.inv h.toInv)
        (h.work.prompts task hmem).2 (h.prompt_began hmem hdone))
    · cases ht
      exact .refl s
  | notification n =>
    obtain rfl : _ = t := by simpa [handle, hevent] using ht
    exact .processPermissionNotifications _ n id
  | refreshTimeout =>
    rw [hevent] at ht
    cases ht
    split
    · exact .failOpen _ id
    · exact .refl s
  | failOpen =>
    obtain rfl : _ = t := by simpa [handle, hevent] using ht
    exact .clearHookState s
  | streamFailed =>
    rw [hevent] at ht
    cases ht
    refine .mapClients s _ fun c => ?_
    split
    · exact .invalidate
    · exact .refl _ c
  | hookFailure =>
    rw [hevent] at ht
    simp only [handle] at ht
    split at ht
    · cases ht
      exact .refl s
    · cases ht
      exact .recordClientHookFailure ..
  | retryHooks =>
    obtain rfl : _ = t := by simpa [handle, hevent] using ht
    exact .retryQuarantinedHooks ..
  | setActiveInputOwner =>
    rw [hevent] at ht
    cases ht
    unfold setActiveInputOwner
    split
    · exact .refl s
    · exact .quiet { QuietStep.refl (permits s input).subscribes s with }
  | worker =>
    obtain rfl : _ = t := by simpa [handle, hevent] using ht
    exact .runWorker ..
  | prompt =>
    obtain rfl : _ = t := by simpa [handle, hevent] using ht
    exact .runPrompt ..
  | storeChanged =>
    rw [hevent] at ht
    cases ht
    exact .quiet { QuietStep.refl (permits s input).subscribes s with }

structure ChangeFrame (s t : State) : Prop where
  clock : t.clock = s.clock
  ordinals : ∀ k, s.nextHookSubscriptionOrdinal k ≤ t.nextHookSubscriptionOrdinal k
  failed : s.permissionMonitorFailed = true → t.permissionMonitorFailed = true
  length : s.clients.length ≤ maxClients → t.clients.length ≤ maxClients

theorem Withdraws.frame (h : Withdraws s t) : ChangeFrame s t :=
  ⟨h.clock, fun k => (congrFun h.ordinals k).ge, h.failed, fun hs => h.clients.length_eq ▸ hs⟩

theorem Change.frame (h : Change p s t) : ChangeFrame s t := by
  have hsame : ∀ {clients leases identifies refresh}, clients.length ≤ s.clients.length →
      ChangeFrame s { s with
        clients, leases, identifies, permissionRefreshInflight := refresh } :=
    fun hlength => ⟨rfl, fun _ => le_refl _, id, hlength.trans⟩
  cases h with
  | quiet hq =>
    exact ⟨hq.clock, hq.ordinals, hq.failed.trans, fun hs => hq.clients.length_eq ▸ hs⟩
  | accept _ _ _ hroom =>
    refine ⟨rfl, fun _ => le_refl _, id, fun _ => ?_⟩
    rw [List.length_append]
    exact hroom
  | remove i =>
    obtain ⟨clients, leases, hlength, heq⟩ := removeClient_frame s i
    exact heq ▸ hsame hlength
  | hello | attempt | identified => exact hsame (List.length_modify ..).le
  | helloLease operations hc =>
    rw [newLease_greet operations hc]
    exact hsame (List.length_modify ..).le
  | attach leaseId hc =>
    rcases attachLease_cases leaseId hc with heq | ⟨o, q, -, -, heq⟩
    · exact heq.symm ▸ hsame (le_refl _)
    · rw [heq]
      exact hsame (List.length_modify ..).le
  | finish env opcode requestId requested granted began hc =>
    obtain ⟨reply, leases, -, -, heq⟩ :=
      finish_cases env opcode requestId requested granted began hc
    rw [heq]
    exact hsame (List.length_modify ..).le
  | invalidate env uid hash all scopes =>
    exact (Withdraws.invalidate env s uid hash all scopes).frame
  | revoked env task =>
    exact { (Withdraws.invalidate env s task.uid task.hash (task.revokeTarget == .all)
      task.revokeScopes).frame with }
  | failOpen env => exact (Withdraws.failOpen env s).frame
  | _ => exact hsame (List.length_map _).le

theorem Changes.clock (h : Changes p s t) : t.clock = s.clock := by
  induction h with
  | refl => rfl
  | tail _ hlast ih => exact hlast.frame.clock.trans ih

theorem step_changes (h : Settled s) (ht : step s input = some t) :
    ∃ u, Changes (permits s input) s u ∧ t = { u with clock := s.clock + 1 } := by
  obtain ⟨u, hu, rfl⟩ := Option.map_eq_some_iff.mp ht
  exact ⟨u, handle_changes h hu, rfl⟩

theorem Inv.tick (h : Inv s) : Settled { s with clock := s.clock + 1 } where
  registry := h.registry
  work := h.work
  taskTimes := fun x hx => by
    have hx := h.taskTimes x hx
    exact ⟨le_succ_of_le hx.created, le_succ_of_le hx.committed, hx.began⟩
  promptTimes := fun x hx => by
    have hx := h.promptTimes x hx
    exact ⟨le_succ_of_le hx.created, hx.queued, hx.began⟩
  tasks := fun x hx => ⟨(h.tasks x hx).past, (h.tasks x hx).revokes⟩
  prompts := fun x hx => ⟨(h.prompts x hx).past, (h.prompts x hx).revokes⟩
  revokes := fun r hr => lt_succ_of_lt (h.revokes r hr)
  committed := fun x hx => lt_succ_of_le (h.taskTimes x hx).committed

theorem State.Initial.settled (h : s.Initial) : Settled s where
  registry := by
    have hcores : s.cores = [] := by simp [State.cores, h.clients]
    rw [hcores]
    exact ⟨h.connectionIds, by simp, by simp, by simp, by simp, by simp,
      by simp [h.leases], by simp [attached], by simp [h.leases], by simp [h.leases], by simp⟩
  work := by
    rw [h.identifies, h.tasks, h.prompts]
    exact ⟨by simp, by simp, by simp⟩
  taskTimes := by simp [h.tasks]
  promptTimes := by simp [h.prompts]
  tasks := by simp [h.tasks]
  prompts := by simp [h.prompts]
  revokes := by simp [h.revokes]
  committed := by simp [h.tasks]

theorem initial_default : ({} : State).Initial :=
  ⟨rfl, fun _ => rfl, rfl, rfl, rfl, rfl, rfl, by decide⟩

theorem Settled.step (h : Settled s) (ht : step s input = some t) : Settled t := by
  obtain ⟨u, hu, rfl⟩ := step_changes h ht
  rw [← hu.clock]
  exact (hu.inv h.toInv).tick

theorem settled_of_reaches (hinit : init.Initial) (h : Reaches step guard init s) : Settled s :=
  h.invariant hinit.settled fun _ _ _ hs _ ht => hs.step ht

theorem invariant_of_changes {P : State → Prop} (hinit : init.Initial) (hP : P init)
    (htick : ∀ s n, P s → P { s with clock := n })
    (hchange : ∀ s input u v, guard s input → Inv u → P u → Change (permits s input) u v → P v)
    (h : Reaches step guard init s) : P s := by
  have hboth : Settled s ∧ P s := by
    refine h.invariant (P := fun s => Settled s ∧ P s) ⟨hinit.settled, hP⟩ ?_
    rintro s input t ⟨hs, hPs⟩ hguard ht
    refine ⟨hs.step ht, ?_⟩
    obtain ⟨u, hu, rfl⟩ := step_changes hs ht
    exact htick u _ (hu.keeps hs.toInv hPs fun u v => hchange s input u v hguard)
  exact hboth.2

end KeysharpInput.Session
