import KeysharpInput.Daemon
import KeysharpInput.Registry

/-!
What the handlers that touch leases do, in terms of cores and leases.
A revocation and a monitor failure only withdraw: they leave every core alone and take
grants and subscriptions away. Removing a client unlinks it from its lease. The
statements here are what the invariants use in place of the handlers' own text.
-/
namespace KeysharpInput.Session

open Function Tables List Finset State Nat Session.Client

def hearNotice (heard : Scopes) : Frame → Scopes
  | .sessionGranted scopes => scopes
  | .sessionRevoked scopes => heard \ scopes
  | _ => heard

def grantsHeard (sent : List Frame) : Scopes := sent.foldl hearNotice ∅

def Frame.Plain (f : Frame) : Prop := ∀ heard, hearNotice heard f = heard

theorem authorizationFrame_plain (c : Client) (opcode : Opcode) (requestId : Nat)
    (status : Status) (detail : Detail) (granted : Scopes) :
    (authorizationFrame c opcode requestId status detail granted).Plain := by
  intro _
  unfold authorizationFrame
  split
  · rfl
  · split <;> rfl

section Cores

variable {s : State} {i : Nat} {c : Client} {f : Client → Client}

theorem cores_getElem? (hc : s.clients[i]? = some c) : s.cores[i]? = some c.core := by
  simp [cores, hc]

theorem exists_of_cores_getElem? {k : Core} (hk : s.cores[i]? = some k) :
    ∃ c, s.clients[i]? = some c ∧ c.core = k := by
  simpa [cores] using hk

theorem mem_cores (hc : c ∈ s.clients) : c.core ∈ s.cores := mem_map_of_mem hc

theorem exists_of_mem_cores {k : Core} (hk : k ∈ s.cores) : ∃ c ∈ s.clients, c.core = k :=
  mem_map.mp hk

theorem cores_modifyClient (f' : Core → Core) (hf : ∀ c, (f c).core = f' c.core) :
    (s.modifyClient i f).cores = s.cores.modify i f' :=
  map_modify core f' hf

theorem cores_modifyClient_of_eq (hf : ∀ c, (f c).core = c.core) :
    (s.modifyClient i f).cores = s.cores :=
  map_modify_of_eq core hf

theorem mem_modifyClient {d : Client} (hc : s.clients[i]? = some c)
    (hd : d ∈ (s.modifyClient i f).clients) : d ∈ s.clients ∨ d = f c := by
  rcases mem_of_mem_modify hd with hd | ⟨a, -, ha, rfl⟩
  · exact .inl hd
  · exact .inr (by rw [Option.some.inj (ha.symm.trans hc)])

end Cores

section CoreGrants

variable {leases leases' : Leases} {k : Core} {cs : List Core} {f : Lease → Lease}

/-- `client_grants` reads only the core. -/
def Core.grants (leases : Leases) (k : Core) : Scopes :=
  match k.lease.bind leases with
  | some l => if l.active then l.grantedScopes else ∅
  | none => ∅

theorem clientGrants_eq (leases : Leases) (c : Client) :
    clientGrants leases c = c.core.grants leases := rfl

theorem Core.grants_of_lease {q : Nat} {l : Lease} (hk : k.lease = some q)
    (hl : leases q = some l) (hactive : l.active = true) : k.grants leases = l.grantedScopes := by
  simp [grants, hk, hl, hactive]

theorem Core.grants_of_none (hk : k.lease = none) : k.grants leases = ∅ := by
  simp [grants, hk]

theorem Core.exists_of_mem_grants {scope : Scope} (h : scope ∈ k.grants leases) :
    ∃ q l, k.lease = some q ∧ leases q = some l ∧ l.active = true ∧ scope ∈ l.grantedScopes := by
  unfold grants at h
  split at h
  · rename_i l hl
    obtain ⟨q, hq, hql⟩ := Option.bind_eq_some_iff.mp hl
    split at h
    · exact ⟨q, l, hq, hql, ‹_›, h⟩
    · simp at h
  · simp at h

theorem Core.grants_subset (h : ∀ q l', k.lease = some q → leases' q = some l' →
      l'.grantedScopes = ∅ ∨ ∃ l, leases q = some l ∧ l'.active = l.active ∧
        l'.grantedScopes ⊆ l.grantedScopes) : k.grants leases' ⊆ k.grants leases := by
  intro _ hscope
  obtain ⟨q, l', hq, hl', hactive, hmem⟩ := exists_of_mem_grants hscope
  rcases h q l' hq hl' with hempty | ⟨l, hl, ha, hsub⟩
  · simp [hempty] at hmem
  · rw [grants_of_lease hq hl (ha ▸ hactive)]
    exact hsub hmem

theorem Core.grants_shrinks (k : Core) (h : leases.Shrinks leases') :
    k.grants leases' ⊆ k.grants leases := by
  refine grants_subset fun q l' _ hl' => ?_
  obtain ⟨_, hq⟩ := h q
  rw [hl'] at hq
  obtain ⟨l, hl, rfl⟩ := Option.map_eq_some_iff.mp hq.symm
  exact .inr ⟨l, hl, rfl, sdiff_subset⟩

theorem Core.grants_unlinks {c : Core} (k : Core) (h : Registry.Unlinks cs c leases leases') :
    k.grants leases' ⊆ k.grants leases := by
  refine grants_subset fun q l' _ hl' => ?_
  by_cases hq : c.lease = some q
  · obtain ⟨l, hl, -, ⟨-, ha, hg, -⟩ | ⟨-, -, hempty⟩⟩ := h.linked q l' hq hl'
    · exact .inr ⟨l, hl, ha, subset_of_eq hg⟩
    · exact .inl hempty
  · exact .inr ⟨l', h.other q hq ▸ hl', rfl, Subset.refl _⟩

theorem Core.grants_subset_unlinks {i : Nat} {c : Core} (hc : cs[i]? = some c)
    (hk : k ∈ cs.eraseIdx i) (h : Registry.Unlinks cs c leases leases')
    (hstays : ¬ (c.role = .authorizationLease ∧ c.lease.isSome = true ∧ k.lease = c.lease)) :
    k.grants leases ⊆ k.grants leases' := by
  intro _ hscope
  obtain ⟨q, l, hq, hl, hactive, hmem⟩ := exists_of_mem_grants hscope
  by_cases hcq : c.lease = some q
  · have hcount := countP_eraseIdx (fun c : Core => c.lease == some q) hc
    have hpos := attached_pos hk hq
    cases hl' : leases' q with
    | none =>
      have hlast := h.last q hcq hl'
      simp only [attached, hcq, beq_self_eq_true, if_true] at hcount hlast hpos
      omega
    | some l' =>
      obtain ⟨m, hm, -, ⟨-, ha, hg, -⟩ | ⟨hrole, -⟩⟩ := h.linked q l' hcq hl'
      · obtain rfl : m = l := Option.some.inj (hm.symm.trans hl)
        rw [grants_of_lease hq hl' (ha.trans hactive), hg]
        exact hmem
      · exact absurd ⟨hrole, by simp [hcq], hq.trans hcq.symm⟩ hstays
  · rw [grants_of_lease hq (h.other q hcq ▸ hl) hactive]
    exact hmem

theorem Core.grants_newLease (k : Core) (q : Nat) {l : Lease} (hl : l.grantedScopes = ∅) :
    k.grants (update leases q (some l)) ⊆ k.grants leases := by
  refine grants_subset fun r l' _ hl' => ?_
  by_cases hr : r = q
  · subst hr
    rw [update_self] at hl'
    exact .inl (Option.some.inj hl' ▸ hl)
  · rw [update_of_ne hr] at hl'
    exact .inr ⟨l', hl', rfl, Subset.refl _⟩

theorem Leases.modify_eq_self {p : Nat} (h : ∀ l, leases p = some l → f l = l) :
    leases.modify p f = leases := by
  unfold Leases.modify
  cases hl : leases p with
  | none => exact update_eq_self_iff.mpr hl.symm
  | some l => exact update_eq_self_iff.mpr (by rw [hl, Option.map_some, h l hl])

theorem Core.grants_modify (k : Core) (q : Nat) (ha : ∀ l, (f l).active = l.active)
    (hg : ∀ l, (f l).grantedScopes = l.grantedScopes) :
    k.grants (leases.modify q f) = k.grants leases := by
  unfold Core.grants
  cases hk : k.lease with
  | none => rfl
  | some r =>
    by_cases hr : r = q
    · subst hr
      cases hl : leases r <;> simp [Leases.modify, hl, ha, hg]
    · simp [Leases.modify, hr]

theorem Core.grants_reference (k : Core) (q : Nat) :
    k.grants (leases.modify q fun l => { l with references := l.references + 1 }) =
      k.grants leases :=
  grants_modify k q (fun _ => rfl) fun _ => rfl

theorem Core.grants_grant (k : Core) (q : Nat) (granted : Scopes) (hash : Hash) (began : Nat) :
    k.grants leases ⊆ k.grants (leases.modify q (Lease.grant granted hash began)) := by
  intro _ hscope
  obtain ⟨r, l, hr, hl, hactive, hmem⟩ := exists_of_mem_grants hscope
  by_cases hrq : r = q
  · subst hrq
    have hl' : leases.modify r (Lease.grant granted hash began) r =
        some (l.grant granted hash began) := by simp [Leases.modify, hl]
    rw [grants_of_lease hr hl' hactive]
    exact mem_union_left _ hmem
  · rw [grants_of_lease hr (by simpa [Leases.modify, hrq] using hl) hactive]
    exact hmem

end CoreGrants

def Client.Covered (c : Client) (t : HookType) : Prop :=
  c.streamValid = true → t ∈ c.stalledLanes → t ∈ c.quarantinedHooks

def Client.Timed (c : Client) (t : HookType) : Prop :=
  t ∈ c.quarantinedHooks → 0 < c.quarantineRearmAfterMs t

def Client.KeepsOrdinals (c c' : Client) : Prop :=
  ∀ t ∈ c'.hookSubscriptions, t ∈ c.hookSubscriptions ∧
    c'.hookSubscriptionOrdinal t = c.hookSubscriptionOrdinal t

theorem Client.KeepsOrdinals.refl (c : Client) : c.KeepsOrdinals c := fun _ ht => ⟨ht, rfl⟩

theorem Client.KeepsOrdinals.trans {c c' c'' : Client} (h : c.KeepsOrdinals c')
    (k : c'.KeepsOrdinals c'') : c.KeepsOrdinals c'' := fun t ht =>
  ⟨(h t (k t ht).1).1, (k t ht).2.trans (h t (k t ht).1).2⟩

theorem Client.KeepsOrdinals.erase (c : Client) (t : HookType) : c.KeepsOrdinals { c with
    hookSubscriptions := c.hookSubscriptions.erase t
    hookSubscriptionOrdinal := update c.hookSubscriptionOrdinal t 0 } := by
  intro _ ht'
  obtain ⟨hne, hmem⟩ := mem_erase.mp ht'
  exact ⟨hmem, update_of_ne hne _ _⟩

structure Withdrawn (c c' : Client) : Prop where
  core : c'.core = c.core
  pending : c'.permissionRefreshPending = c.permissionRefreshPending
  hooks : c'.hookSubscriptions ⊆ c.hookSubscriptions
  observed : c'.observerSubscriptions ⊆ c.observerSubscriptions
  block : c'.blockInputMask ⊆ c.blockInputMask
  covered : ∀ t, c.Covered t → c'.Covered t
  timed : ∀ t, c.Timed t → c'.Timed t
  ordinals : c.KeepsOrdinals c'

namespace Withdrawn

variable {c c' c'' : Client}

theorem refl (c : Client) : Withdrawn c c :=
  ⟨rfl, rfl, Subset.refl _, Subset.refl _, Subset.refl _, fun _ => id, fun _ => id, .refl c⟩

theorem trans (h : Withdrawn c c') (k : Withdrawn c' c'') : Withdrawn c c'' where
  core := k.core.trans h.core
  pending := k.pending.trans h.pending
  hooks := k.hooks.trans h.hooks
  observed := k.observed.trans h.observed
  block := k.block.trans h.block
  covered := fun t hc => k.covered t (h.covered t hc)
  timed := fun t hc => k.timed t (h.timed t hc)
  ordinals := h.ordinals.trans k.ordinals

theorem notify (env : Env) (frame : Frame) (c : Client) : Withdrawn c (c.notify env frame) := by
  unfold Client.notify
  split
  · exact { refl c with }
  · exact { refl c with covered := fun _ _ hvalid => absurd hvalid Bool.false_ne_true }

theorem clearHook (t : HookType) (c : Client) : Withdrawn c (c.clearHook t) where
  core := rfl
  pending := rfl
  hooks := erase_subset _ _
  observed := Subset.refl _
  block := Subset.refl _
  covered := fun t' hc hvalid hstalled => by
    obtain ⟨hne, hstalled⟩ := mem_erase.mp hstalled
    exact mem_erase.mpr ⟨hne, hc hvalid hstalled⟩
  timed := fun t' hc hquarantined => by
    obtain ⟨hne, hquarantined⟩ := mem_erase.mp hquarantined
    simpa [Client.clearHook, hne] using hc hquarantined
  ordinals := .erase c t

theorem invalidate (c : Client) : Withdrawn c c.invalidate :=
  { refl c with covered := fun _ _ hvalid => absurd hvalid Bool.false_ne_true }

theorem dropScopes (scopes : Scopes) (c : Client) : Withdrawn c (c.dropScopes scopes) := by
  have hunwatch : ∀ c : Client, Withdrawn c { c with observerSubscriptions := ∅ } :=
    fun c => { refl c with observed := empty_subset _ }
  have hunblock : ∀ c : Client, Withdrawn c { c with blockInputMask := ∅ } :=
    fun c => { refl c with block := empty_subset _ }
  have hmonitoring : Withdrawn c (if .inputMonitoring ∈ scopes then
      ({ c with observerSubscriptions := ∅ }.clearHook .keyboard).clearHook .mouse else c) := by
    split
    · exact ((hunwatch c).trans (clearHook _ _)).trans (clearHook _ _)
    · exact refl c
  have hcontrol : ∀ c : Client, Withdrawn c (if .inputControl ∈ scopes then
      { c with blockInputMask := ∅ } else c) := by
    intro c
    split
    · exact hunblock c
    · exact refl c
  have hretire : ∀ (p : Prop) [Decidable p] (c : Client),
      Withdrawn c (if p then c.invalidate else c) := by
    intro p _ c
    split
    · exact invalidate c
    · exact refl c
  exact (hmonitoring.trans (hcontrol _)).trans (hretire _ _)

theorem reply (frame : Frame) (c : Client) : Withdrawn c (c.reply frame) := { refl c with }

theorem announce (env : Env) (opcode : Opcode) (frame : Frame) (grants : Scopes) (c : Client) :
    Withdrawn c (c.announce env opcode frame grants) := by
  have hnotice : ∀ c : Client, Withdrawn c (if c.connectionRole = .authorizationLease then
      c.notify env (.sessionGranted grants) else c) := by
    intro c
    split
    · exact notify env _ c
    · exact refl c
  unfold Client.announce
  split
  · exact (hnotice c).trans (reply frame _)
  · exact (reply frame c).trans (hnotice _)

end Withdrawn

section Invalidation

variable (env : Env) (uid : Nat) (hash : Hash) (all : Bool) (scopes : Scopes)

variable (leases : Leases)

theorem invalidateClient_withdrawn (c : Client) :
    Withdrawn c (invalidateClient env uid hash all scopes leases c).1 := by
  unfold invalidateClient
  split
  · dsimp only
    split
    · exact (Withdrawn.notify env _ c).trans (Withdrawn.dropScopes scopes _)
    · exact Withdrawn.dropScopes scopes c
  · exact .refl c

theorem invalidateClient_shrinks (c : Client) :
    leases.Shrinks (invalidateClient env uid hash all scopes leases c).2 := by
  unfold invalidateClient
  split
  · split
    · split
      · exact leases.shrinks_modify _ scopes
      · exact .refl leases
    · exact .refl leases
  · exact .refl leases

theorem invalidateLoop_withdrawn (cs : List Client) :
    List.Forall₂ Withdrawn cs (invalidateLoop env uid hash all scopes leases cs).1 := by
  induction cs generalizing leases with
  | nil => exact .nil
  | cons c _ ih => exact .cons (invalidateClient_withdrawn env uid hash all scopes leases c) (ih _)

theorem invalidateLoop_shrinks (cs : List Client) :
    leases.Shrinks (invalidateLoop env uid hash all scopes leases cs).2 := by
  induction cs generalizing leases with
  | nil => exact .refl leases
  | cons c _ ih => exact (invalidateClient_shrinks env uid hash all scopes leases c).trans (ih _)

end Invalidation

structure Withdraws (s t : State) : Prop where
  clients : List.Forall₂ Withdrawn s.clients t.clients
  leases : s.leases.Shrinks t.leases
  next : t.nextConnectionId = s.nextConnectionId
  failed : s.permissionMonitorFailed = true → t.permissionMonitorFailed = true
  refresh : t.permissionRefreshInflight = s.permissionRefreshInflight
  generation : s.permissionGeneration ≤ t.permissionGeneration
  identifies : t.identifies = s.identifies
  tasks : t.tasks = s.tasks
  prompts : t.prompts = s.prompts
  clock : t.clock = s.clock
  revokes : t.processedRevokes = s.processedRevokes
  ordinals : t.nextHookSubscriptionOrdinal = s.nextHookSubscriptionOrdinal

namespace Withdraws

variable (s : State)

theorem refl : Withdraws s s where
  clients := forall₂_same.mpr fun c _ => .refl c
  leases := .refl _
  next := rfl
  failed := id
  refresh := rfl
  generation := le_refl _
  identifies := rfl
  tasks := rfl
  prompts := rfl
  clock := rfl
  revokes := rfl
  ordinals := rfl

theorem trans {s t u : State} (h : Withdraws s t) (k : Withdraws t u) : Withdraws s u where
  clients := forall₂_trans (fun _ _ _ => Withdrawn.trans) h.clients k.clients
  leases := h.leases.trans k.leases
  next := k.next.trans h.next
  failed := k.failed ∘ h.failed
  refresh := k.refresh.trans h.refresh
  generation := le_trans h.generation k.generation
  identifies := k.identifies.trans h.identifies
  tasks := k.tasks.trans h.tasks
  prompts := k.prompts.trans h.prompts
  clock := k.clock.trans h.clock
  revokes := k.revokes.trans h.revokes
  ordinals := k.ordinals.trans h.ordinals

theorem cores {s t : State} (h : Withdraws s t) : t.cores = s.cores :=
  map_eq_of_forall₂ core (fun _ _ hc => hc.core) h.clients

theorem invalidate (env : Env) (s : State) (uid : Nat) (hash : Hash) (all : Bool)
    (scopes : Scopes) : Withdraws s (invalidateConnectedPermissions env s uid hash all scopes) :=
  { refl s with
    clients := invalidateLoop_withdrawn env uid hash all scopes s.leases s.clients
    leases := invalidateLoop_shrinks env uid hash all scopes s.leases s.clients
    generation := le_succ _ }

theorem modifyClient (i : Nat) (f : Client → Client) (hf : ∀ c, Withdrawn c (f c)) :
    Withdraws s (s.modifyClient i f) :=
  { refl s with clients := forall₂_modify (fun c _ => .refl c) fun c _ => hf c }

theorem modifyLease (p : Nat) (scopes : Scopes) :
    Withdraws s (s.modifyLease p fun l => { l with grantedScopes := l.grantedScopes \ scopes }) :=
  { refl s with leases := s.leases.shrinks_modify p scopes }

theorem monitorFailOpenClient (env : Env) (s : State) (i : Nat) :
    Withdraws s (monitorFailOpenClient env s i) := by
  have hforget : Withdraws s (s.modifyClient i fun c =>
      { c with permissionStoreGeneration := none }) := by
    exact modifyClient s i _ fun c => { Withdrawn.refl c with }
  unfold Session.monitorFailOpenClient
  split
  · exact .refl s
  dsimp only
  split
  · split
    · exact hforget.trans (modifyLease _ _ _)
    · exact hforget
  · split
    · exact hforget
    · exact hforget.trans (invalidate env _ _ _ _ _)

theorem foldl {f : State → Nat → State} (hf : ∀ s i, Withdraws s (f s i)) (indices : List Nat)
    (s : State) : Withdraws s (indices.foldl f s) := by
  induction indices generalizing s with
  | nil => exact .refl s
  | cons i _ ih => exact (hf s i).trans (ih _)

theorem clearHookState : Withdraws s (clearHookState s) := by
  refine { refl s with clients := forall₂_map fun c _ => ?_ }
  exact ⟨rfl, rfl, empty_subset _, Subset.refl _, empty_subset _, fun _ => id,
    fun _ => id, fun t ht => absurd ht (notMem_empty t)⟩

theorem failOpen (env : Env) (s : State) : Withdraws s (permissionMonitorFailOpen env s) := by
  unfold permissionMonitorFailOpen
  split
  · exact .refl s
  have hstart : Withdraws s { s with
      permissionMonitorFailed := true
      inputGeneration := s.inputGeneration + 1 } := { refl s with failed := fun _ => rfl }
  have hbump : ∀ u : State, Withdraws u { u with
      permissionGeneration := u.permissionGeneration + 1 } :=
    fun u => { refl u with generation := le_succ _ }
  exact ((hstart.trans (foldl (monitorFailOpenClient env) _ _)).trans (hbump _)).trans
    (clearHookState _)

end Withdraws

section Attachment

variable {s : State} {i : Nat} {c : Client}

theorem newLease_greet (operations : Nat) (hc : s.clients[i]? = some c) :
    newLease (s.modifyClient i (greet .authorizationLease operations)) i =
      { s.modifyClient i fun c => { c.greet .authorizationLease operations with
          authorizationLease := some c.connectionId } with
        leases := update s.leases c.connectionId
          (some { references := 1, active := true, id := c.connectionId }) } := by
  have hc' : (s.modifyClient i (greet .authorizationLease operations)).clients[i]? =
      some (c.greet .authorizationLease operations) := by simp [modifyClient, hc]
  unfold newLease
  rw [hc']
  simp only [modifyClient, modify_modify_eq]
  rfl

theorem attachLease_cases (leaseId : Nat) (hc : s.clients[i]? = some c) :
    attachLease s i leaseId = s ∨ ∃ o p, leaseOwner s c leaseId = some o ∧
      o.authorizationLease = some p ∧
      attachLease s i leaseId = { s.modifyClient i fun c => { c with authorizationLease := some p }
        with leases := s.leases.modify p fun l => { l with references := l.references + 1 } } := by
  unfold attachLease
  rw [hc, Option.bind_some]
  cases hp : (leaseOwner s c leaseId).bind (·.authorizationLease) with
  | none => exact .inl rfl
  | some p =>
    obtain ⟨o, ho, hop⟩ := Option.bind_eq_some_iff.mp hp
    exact .inr ⟨o, p, ho, hop, rfl⟩

theorem finish_cases (env : Env) (opcode : Opcode) (requestId : Nat)
    (requested granted : Scopes) (began : Nat) (hc : s.clients[i]? = some c) :
    ∃ reply leases, reply.Plain ∧ (leases = match c.authorizationLease with
        | some p => s.leases.modify p (Lease.grant granted c.identityHash began)
        | none => s.leases) ∧
      finishClientAuthorization env s i opcode requestId requested granted began =
        { s.modifyClient i (announce env opcode reply (clientGrants leases c)) with
          leases := leases } := by
  unfold finishClientAuthorization
  rw [hc]
  refine ⟨_, _, ?_, rfl, rfl⟩
  split <;> exact authorizationFrame_plain _ _ _ _ _ _

end Attachment

section Removal

variable {s : State} {i : Nat} {c : Client}

theorem core_orphan (c : Client) : c.orphan.core = c.core := rfl

/-- Who is left after a removal; a client of the lease that ended with its owner is orphaned. -/
theorem mem_removeClient {d : Client} (hc : s.clients[i]? = some c)
    (hd : d ∈ (removeClient s i).clients) : ∃ o ∈ s.clients.eraseIdx i, d = o.orphan ∨ d = o ∧
      ¬ (c.connectionRole = .authorizationLease ∧ c.authorizationLease.isSome = true ∧
        o.authorizationLease = c.authorizationLease) := by
  unfold removeClient at hd
  rw [hc] at hd
  dsimp only at hd
  cases hp : c.authorizationLease with
  | none =>
    rw [hp] at hd
    exact ⟨d, hd, .inr ⟨rfl, by simp⟩⟩
  | some p =>
    rw [hp] at hd
    dsimp only at hd
    split at hd
    · rw [eraseIdx_map] at hd
      obtain ⟨o, ho, rfl⟩ := mem_map.mp hd
      refine ⟨o, ho, ?_⟩
      by_cases hop : o.authorizationLease = some p
      · exact .inl (if_pos hop)
      · exact .inr ⟨if_neg hop, fun h => hop h.2.2⟩
    · rename_i hrole
      exact ⟨d, hd, .inr ⟨rfl, fun h => hrole h.1⟩⟩

theorem removeClient_frame (s : State) (i : Nat) : ∃ clients leases,
    clients.length ≤ s.clients.length ∧ removeClient s i = { s with clients, leases } := by
  unfold removeClient
  split
  · exact ⟨_, _, le_refl _, rfl⟩
  split
  · exact ⟨_, _, length_eraseIdx_le .., rfl⟩
  split
  · exact ⟨_, _, (length_eraseIdx_le ..).trans (length_map _).le, rfl⟩
  · exact ⟨_, _, length_eraseIdx_le .., rfl⟩

theorem removeClient_cores (hc : s.clients[i]? = some c) :
    (removeClient s i).cores = s.cores.eraseIdx i := by
  have hmap : ∀ l : List Client, (l.eraseIdx i).map core = (l.map core).eraseIdx i :=
    fun l => (eraseIdx_map _ l i).symm
  unfold removeClient
  rw [hc]
  dsimp only
  split
  · exact hmap _
  split
  · refine (hmap _).trans ?_
    rw [List.map_map]
    congr 2
    funext o
    by_cases ho : o.authorizationLease = some ‹Nat› <;> simp [ho, core_orphan]
  · exact hmap _

theorem removeClient_unlinks (h : Registry s.cores s.leases s.nextConnectionId)
    (hc : s.clients[i]? = some c) :
    Registry.Unlinks s.cores c.core s.leases (removeClient s i).leases := by
  have hmem : c.core ∈ s.cores := mem_of_getElem? (cores_getElem? hc)
  unfold removeClient
  rw [hc]
  dsimp only
  cases hp : c.authorizationLease with
  | none =>
    have hnone : c.core.lease = none := hp
    exact ⟨fun _ _ => rfl, by simp [hnone], by simp [hnone]⟩
  | some p =>
    have hlease : c.core.lease = some p := hp
    obtain ⟨l, hl⟩ := h.lease_exists hmem hlease
    have hcount := h.counted p l hl
    have hpos := attached_pos hmem hlease
    by_cases hr : c.connectionRole = .authorizationLease
    · have hrole : c.core.role = .authorizationLease := hr
      refine ⟨?_, ?_, ?_⟩
      · intro q hq
        have hqp : q ≠ p := by
          rintro rfl
          exact hq hlease
        simp [hr, Leases.release, Leases.modify, modifyLease, hqp]
      · intro q hq hnone
        obtain rfl : p = q := Option.some.inj (hlease.symm.trans hq)
        simp [hr, Leases.release, Leases.modify, modifyLease, hl] at hnone
        omega
      intro q l' hq hl'
      obtain rfl : p = q := Option.some.inj (hlease.symm.trans hq)
      simp [hr, Leases.release, Leases.modify, modifyLease, hl] at hl'
      obtain ⟨hlast, rfl⟩ := hl'
      refine ⟨l, hl, ?_, .inr ⟨hrole, rfl, rfl⟩⟩
      dsimp only
      omega
    · have hrole : c.core.role ≠ .authorizationLease := hr
      refine ⟨?_, ?_, ?_⟩
      · intro q hq
        have hqp : q ≠ p := by
          rintro rfl
          exact hq hlease
        simp [hr, Leases.release, hqp]
      · intro q hq hnone
        obtain rfl : p = q := Option.some.inj (hlease.symm.trans hq)
        simp [hr, Leases.release, hl] at hnone
        omega
      intro q _ hq hl'
      obtain rfl : p = q := Option.some.inj (hlease.symm.trans hq)
      simp [hr, Leases.release, hl] at hl'
      obtain ⟨-, rfl⟩ := hl'
      refine ⟨l, hl, ?_, .inl ⟨hrole, rfl, rfl, rfl, rfl⟩⟩
      dsimp only
      omega

end Removal

end KeysharpInput.Session
