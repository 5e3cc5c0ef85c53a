import KeysharpInput.Invalidation

/-!
No privilege without a grant.
A client with a hook or an observer subscription has Input Monitoring through an active
lease, and one that blocks input has Input Control. Grants of a lease are shared, so
whatever takes them has to reach every client of the lease: a revocation does by user
and hash, the removal of the owner by the lease itself, and a monitor failure through
the first identified client of each executable.
-/
namespace KeysharpInput.Session

open Tables List Finset Transition Session.Client Session.Core

structure Entitled (leases : Leases) (c : Client) : Prop where
  hooks : c.hookSubscriptions ≠ ∅ → .inputMonitoring ∈ c.core.grants leases
  observed : c.observerSubscriptions ≠ ∅ → .inputMonitoring ∈ c.core.grants leases
  block : c.blockInputMask ≠ ∅ → .inputControl ∈ c.core.grants leases

def Privileged (s : State) : Prop := ∀ c ∈ s.clients, Entitled s.leases c

namespace Entitled

variable {leases leases' : Leases} {c d : Client}

theorem mono (h : Entitled leases c) (hooks : d.hookSubscriptions ⊆ c.hookSubscriptions)
    (observed : d.observerSubscriptions ⊆ c.observerSubscriptions)
    (block : d.blockInputMask ⊆ c.blockInputMask)
    (hgrants : c.core.grants leases ⊆ d.core.grants leases') : Entitled leases' d where
  hooks := fun hne => hgrants (h.hooks fun hempty =>
    hne (subset_empty.mp (hempty ▸ hooks)))
  observed := fun hne => hgrants (h.observed fun hempty =>
    hne (subset_empty.mp (hempty ▸ observed)))
  block := fun hne => hgrants (h.block fun hempty =>
    hne (subset_empty.mp (hempty ▸ block)))

theorem grants (h : Entitled leases c) (hgrants : c.core.grants leases ⊆ c.core.grants leases') :
    Entitled leases' c :=
  h.mono (Subset.refl _) (Subset.refl _) (Subset.refl _) hgrants

theorem idle (hooks : c.hookSubscriptions = ∅) (observed : c.observerSubscriptions = ∅)
    (block : c.blockInputMask = ∅) : Entitled leases c :=
  ⟨fun hne => absurd hooks hne, fun hne => absurd observed hne, fun hne => absurd block hne⟩

theorem of_no_grants (h : Entitled leases c) (hnone : c.core.grants leases = ∅)
    (hooks : d.hookSubscriptions = c.hookSubscriptions)
    (observed : d.observerSubscriptions = c.observerSubscriptions)
    (block : d.blockInputMask = c.blockInputMask) : Entitled leases' d := by
  have hunused : ∀ {α : Type} {used : Finset α} {scope : Scope},
      (used ≠ ∅ → scope ∈ c.core.grants leases) → used = ∅ := by
    intro _ _ _ huse
    by_contra hne
    have := huse hne
    simp [hnone] at this
  refine idle ?_ ?_ ?_
  · rw [hooks]
    exact hunused h.hooks
  · rw [observed]
    exact hunused h.observed
  · rw [block]
    exact hunused h.block

theorem quiet {fresh : Prop} (h : Entitled leases c) (hq : Quiet fresh leases c d) :
    Entitled leases d := by
  have hgrants : d.core.grants leases = clientGrants leases c := by rw [hq.core]; rfl
  constructor
  · intro hne
    rw [hgrants]
    rcases hq.hooks with hsub | hmem
    · exact h.hooks fun hempty => hne (subset_empty.mp (hempty ▸ hsub))
    · exact hmem
  · intro hne
    rw [hgrants]
    rcases hq.observed with hsub | hmem
    · exact h.observed fun hempty => hne (subset_empty.mp (hempty ▸ hsub))
    · exact hmem
  · intro hne
    rw [hgrants]
    rcases hq.block with hsub | hmem
    · exact h.block fun hempty => hne (subset_empty.mp (hempty ▸ hsub))
    · exact hmem

end Entitled

theorem dropScopes_monitoring {scopes : Scopes} (h : .inputMonitoring ∈ scopes) (c : Client) :
    (c.dropScopes scopes).hookSubscriptions = ∅ ∧
      (c.dropScopes scopes).observerSubscriptions = ∅ := by
  have hboth : ∀ hooks : Finset HookType, (hooks.erase .keyboard).erase .mouse = ∅ := by
    intro _
    ext t
    cases t <;> simp
  have hretire : ∀ (p : Prop) [Decidable p] (c : Client),
      (if p then c.invalidate else c).hookSubscriptions = c.hookSubscriptions ∧
      (if p then c.invalidate else c).observerSubscriptions = c.observerSubscriptions := by
    intro p _ c
    split <;> exact ⟨rfl, rfl⟩
  have hunblock : ∀ (p : Prop) [Decidable p] (c : Client),
      (if p then { c with blockInputMask := ∅ } else c).hookSubscriptions = c.hookSubscriptions ∧
      (if p then { c with blockInputMask := ∅ } else c).observerSubscriptions =
        c.observerSubscriptions := by
    intro p _ c
    split <;> exact ⟨rfl, rfl⟩
  unfold dropScopes
  rw [(hretire _ _).1, (hretire _ _).2, (hunblock _ _).1, (hunblock _ _).2, if_pos h]
  exact ⟨hboth _, rfl⟩

theorem dropScopes_control {scopes : Scopes} (h : .inputControl ∈ scopes) (c : Client) :
    (c.dropScopes scopes).blockInputMask = ∅ := by
  have hretire : ∀ (p : Prop) [Decidable p] (c : Client),
      (if p then c.invalidate else c).blockInputMask = c.blockInputMask := by
    intro p _ c
    split <;> rfl
  unfold dropScopes
  rw [hretire, if_pos h]

theorem invalidateClient_matches (env : Env) (scopes : Scopes) {uid : Nat} {hash : Hash}
    {all : Bool} {leases : Leases} {c : Client} (h : revokeMatches leases uid hash all c = true) :
    ∃ c' : Client,
      (invalidateClient env uid hash all scopes leases c).1 = c'.dropScopes scopes := by
  unfold invalidateClient
  rw [if_pos h]
  exact ⟨_, rfl⟩

namespace Privileged

variable {s t : State} {i : Nat} {c : Client}

section

variable (h : Privileged s)

include h

theorem modify {f : Client → Client} (hc : s.clients[i]? = some c)
    (hclients : t.clients = s.clients.modify i f)
    (hothers : ∀ d ∈ s.clients, d.connectionId ≠ c.connectionId →
      d.core.grants s.leases ⊆ d.core.grants t.leases)
    (hinv : Inv s) (hf : Entitled t.leases (f c)) : Privileged t := by
  intro d hd
  rw [hclients] at hd
  rcases (mem_modify hinv.clients_nodup hc).mp hd with rfl | ⟨hd, hne⟩
  · exact hf
  · exact (h d hd).grants (hothers d hd hne)

section

variable (hinv : Inv s)

include hinv

theorem invalidate (env : Env) (uid : Nat) (hash : Hash) (all : Bool)
    (scopes : Scopes) : Privileged (invalidateConnectedPermissions env s uid hash all scopes) := by
  classical
  intro d hd
  rw [hinv.invalidate_clients] at hd
  obtain ⟨c, hc, rfl⟩ := mem_map.mp hd
  have hkeep := invalidateClient_withdrawn env uid hash all scopes s.leases c
  have hgrants := hinv.invalidate_grants env uid hash all scopes (mem_cores hc)
  by_cases hmatch : c.core.Matches s.leases uid hash all
  · rw [if_pos hmatch] at hgrants
    obtain ⟨c', hdrop⟩ := invalidateClient_matches env scopes
      ((hinv.revokeMatches_iff hc).mpr hmatch)
    -- A scope that is not revoked stays granted; for one that is, the uses are dropped.
    have hstill : ∀ {α : Type} {used used' : Finset α} {scope : Scope}, used' ⊆ used →
        (used ≠ ∅ → scope ∈ c.core.grants s.leases) → (scope ∈ scopes → used' = ∅) → used' ≠ ∅ →
        scope ∈ c.core.grants s.leases \ scopes := by
      intro _ _ _ _ hsub huse hgone hne
      refine mem_sdiff.mpr ⟨huse ?_, fun hscope => hne (hgone hscope)⟩
      rintro rfl
      exact hne (subset_empty.mp hsub)
    constructor
    · rw [hkeep.core, hgrants]
      refine hstill hkeep.hooks (h c hc).hooks fun hscope => ?_
      rw [hdrop]
      exact (dropScopes_monitoring hscope c').1
    · rw [hkeep.core, hgrants]
      refine hstill hkeep.observed (h c hc).observed fun hscope => ?_
      rw [hdrop]
      exact (dropScopes_monitoring hscope c').2
    · rw [hkeep.core, hgrants]
      refine hstill hkeep.block (h c hc).block fun hscope => ?_
      rw [hdrop]
      exact dropScopes_control hscope c'
  · rw [if_neg hmatch] at hgrants
    refine (h c hc).mono hkeep.hooks hkeep.observed hkeep.block ?_
    rw [hkeep.core, hgrants]

theorem remove (i : Nat) : Privileged (removeClient s i) := by
  cases hc : s.clients[i]? with
  | none =>
    unfold removeClient
    rwa [hc]
  | some =>
    intro d hd
    obtain ⟨o, ho, rfl | ⟨rfl, hstays⟩⟩ := mem_removeClient hc hd
    · exact .idle rfl rfl rfl
    have hmem : d.core ∈ s.cores.eraseIdx i := by
      rw [State.cores, eraseIdx_map]
      exact mem_map_of_mem ho
    exact (h d (mem_of_mem_eraseIdx ho)).grants (grants_subset_unlinks
      (cores_getElem? hc) hmem (removeClient_unlinks hinv.registry hc) hstays)

theorem helloLease (hc : s.clients[i]? = some c)
    (hfresh : c.helloComplete = false) (operations : Nat) :
    Privileged (newLease (s.modifyClient i (greet .authorizationLease operations)) i) := by
  obtain ⟨-, hnone, -⟩ := hinv.fresh_core hc hfresh
  rw [newLease_greet operations hc]
  refine h.modify hc rfl (fun d hd _ => hinv.grants_subset_newLease hc hfresh hd) hinv ?_
  · exact (h c (mem_of_getElem? hc)).of_no_grants (grants_of_none hnone) rfl rfl rfl

theorem attach (leaseId : Nat) (hc : s.clients[i]? = some c)
    (hnone : c.authorizationLease = none) : Privileged (attachLease s i leaseId) := by
  rcases attachLease_cases leaseId hc with heq | ⟨o, q, -, -, heq⟩
  · rwa [heq]
  rw [heq]
  refine h.modify hc rfl (fun d _ _ => ?_) hinv ?_
  · exact subset_of_eq (grants_reference d.core q).symm
  · exact (h c (mem_of_getElem? hc)).of_no_grants (grants_of_none hnone) rfl rfl rfl

theorem finish (env : Env) (opcode : Opcode) (requestId : Nat)
    (requested granted : Scopes) (began : Nat) (hc : s.clients[i]? = some c) :
    Privileged (finishClientAuthorization env s i opcode requestId requested granted began) := by
  obtain ⟨reply, leases, -, hleases, heq⟩ :=
    finish_cases env opcode requestId requested granted began hc
  have hgrow : ∀ k : Core, k.grants s.leases ⊆ k.grants leases := by
    intro k
    rw [hleases]
    split
    · exact grants_grant k _ granted _ began
    · exact Subset.refl _
  have hkeep := Withdrawn.announce env opcode reply (clientGrants leases c) c
  rw [heq]
  refine h.modify hc rfl (fun d _ _ => hgrow d.core) hinv ?_
  refine (h c (mem_of_getElem? hc)).mono hkeep.hooks hkeep.observed hkeep.block ?_
  rw [hkeep.core]
  exact hgrow c.core

theorem failOpen (env : Env) : Privileged (permissionMonitorFailOpen env s) := by
  unfold permissionMonitorFailOpen
  split
  · exact h
  intro d hd
  obtain ⟨e, he, rfl⟩ := mem_map.mp hd
  refine .idle rfl ?_ rfl
  -- A client that observed has a lease of an identified owner, whose executable the loop
  -- revokes at the first of its clients.
  let s₀ : State := { s with
    permissionMonitorFailed := true
    inputGeneration := s.inputGeneration + 1 }
  have hstart : Withdraws s s₀ := { Withdraws.refl s with failed := fun _ => rfl }
  have hloop := withdraws_failOpenLoop env s₀ s.clients.length
  obtain ⟨c, hc, hce⟩ := exists_of_mem_right (hstart.trans hloop).clients he
  by_contra hne
  have hobserved : c.observerSubscriptions ≠ ∅ :=
    fun hempty => hne (subset_empty.mp (hempty ▸ hce.observed))
  obtain ⟨p, l, hp, hl, -, hmem⟩ := exists_of_mem_grants ((h c hc).observed hobserved)
  obtain ⟨o, ho, -, hident, hhash, hpeer⟩ := hinv.registry.granted_peer (mem_cores hc) hp hl
    (ne_empty_of_mem hmem)
  obtain ⟨j, hj⟩ := mem_iff_getElem?.mp ho
  have hjlt : j < s.clients.length := by
    have := (List.getElem?_eq_some_iff.mp hj).1
    simpa [State.cores] using this
  obtain ⟨u, hu, hsu, hut⟩ := failOpenLoop_revokes env (hinv.withdraws hstart)
    hj ⟨hident, congrArg (·.1) hpeer, rfl⟩ hjlt
  obtain ⟨_, hc₂, hc₂e⟩ := exists_of_mem_right hut.clients he
  rw [hu.invalidate_clients] at hc₂
  obtain ⟨c₁, hc₁, rfl⟩ := mem_map.mp hc₂
  have hcore : c₁.core = c.core := by
    rw [← (invalidateClient_withdrawn env _ _ _ _ u.leases c₁).core, ← hc₂e.core, hce.core]
  have hmatch : c₁.core.Matches u.leases c.core.uid o.identityHash false := by
    rw [hcore]
    exact Matches.shrinks ⟨rfl, p, l, hp, hl, .inr hhash⟩ hsu.leases
  obtain ⟨c', hdrop⟩ := invalidateClient_matches env inputPermissionScopes
    ((hu.revokeMatches_iff hc₁).mpr hmatch)
  have hgone := (dropScopes_monitoring (by decide : .inputMonitoring ∈ inputPermissionScopes) c').2
  rw [← hdrop] at hgone
  exact hne (subset_empty.mp (hgone ▸ hc₂e.observed))

end

end

end Privileged

theorem privileged_change {p : Permits} {s t : State} (hinv : Inv s) (h : Privileged s)
    (hc : Change p s t) : Privileged t := by
  cases hc with
  | quiet hq =>
    intro d hd
    obtain ⟨c, hc, hcd⟩ := exists_of_mem_right hq.clients hd
    rw [hq.leases]
    exact (h c hc).quiet hcd
  | accept =>
    intro d hd
    rcases mem_append.mp hd with hd | hd
    · exact h d hd
    · rw [List.mem_singleton] at hd
      subst hd
      exact .idle rfl rfl rfl
  | remove i => exact h.remove hinv i
  | hello _ _ hc hfresh =>
    refine h.modify hc rfl (fun _ _ _ => Subset.refl _) hinv ?_
    exact (h _ (mem_of_getElem? hc)).of_no_grants
      (grants_of_none (hinv.fresh_core hc hfresh).2.1) rfl rfl rfl
  | helloLease operations hc hfresh => exact h.helloLease hinv hc hfresh operations
  | attach leaseId hc _ _ hnone => exact h.attach hinv leaseId hc hnone
  | attempt state started hc hrole hhello hattempted hstarted | identified hasIdentity hash hc ht =>
    refine h.modify hc rfl (fun _ _ _ => Subset.refl _) hinv ?_
    exact { h _ (mem_of_getElem? hc) with }
  | finish env opcode requestId requested granted began hc =>
    exact h.finish hinv env opcode requestId requested granted began hc
  | invalidate env uid hash all scopes => exact h.invalidate hinv env uid hash all scopes
  | revoked env task =>
    have hw := h.invalidate hinv env task.uid task.hash (task.revokeTarget == .all)
      task.revokeScopes
    exact hw
  | failOpen env => exact h.failOpen hinv env
  | pause | pauseOnly hrefresh | resume hrefresh =>
    intro d hd
    obtain ⟨c, hc, rfl⟩ := mem_map.mp hd
    exact { h c hc with }

/-- In every state of every run, subscriptions need Input Monitoring and blocking needs
Input Control, both through an active lease. -/
theorem privilege_needs_grant {init s : State} (hinit : init.Initial)
    (h : Reaches step always init s) :
    ∀ c ∈ s.clients, (c.hookSubscriptions ≠ ∅ ∨ c.observerSubscriptions ≠ ∅ →
        ∃ p l, c.authorizationLease = some p ∧
        s.leases p = some l ∧ l.active = true ∧ .inputMonitoring ∈ l.grantedScopes) ∧
      (c.blockInputMask ≠ ∅ → ∃ p l, c.authorizationLease = some p ∧
        s.leases p = some l ∧ l.active = true ∧ .inputControl ∈ l.grantedScopes) := by
  have hprivileged : Privileged s := by
    refine invariant_of_changes hinit ?_ (fun _ _ hs => hs) ?_ h
    · simp [Privileged, hinit.clients]
    · exact fun _ _ _ _ _ hinv hu hchange => privileged_change hinv hu hchange
  intro c hc
  have hentitled := hprivileged c hc
  refine ⟨?_, fun hblock => exists_of_mem_grants (hentitled.block hblock)⟩
  rintro (hhooks | hobserved)
  · exact exists_of_mem_grants (hentitled.hooks hhooks)
  · exact exists_of_mem_grants (hentitled.observed hobserved)

def subscribedRun : List Input :=
  [{ event := .storeChanged 0 [1] {.inputMonitoring} }, { event := .accept 10 0 5 },
   { event := .request 0 1 (.hello (some ⟨3, 0, 1, 0⟩)) },
   { event := .identified 1 (some ([1], 5)) },
   { event := .worker 0 (.start none) },
   { event := .worker 0 (.store true) },
   { event := .worker 0 (.finish true) },
   { env := { readyOperations := 1 }, event := .permissionDone 0 },
   { event := .accept 10 0 5 },
   { event := .request 1 1 (.hello (some ⟨2, 0, 0, 1⟩)) },
   { event := .request 1 2 (.subscribeHook (some ⟨13, 0⟩)) }]

theorem privilege_needs_grant_run : ∃ s, Reaches step always {} s ∧ ∃ c ∈ s.clients,
      c.hookSubscriptions ≠ ∅ ∧ ∃ p l, c.authorizationLease = some p ∧ s.leases p = some l ∧
        l.active = true ∧ .inputMonitoring ∈ l.grantedScopes := by
  obtain ⟨s, hs, c, hc, hhooks⟩ := exists_reaches step {} subscribedRun
    (q := fun s => ∃ c ∈ s.clients, c.hookSubscriptions ≠ ∅) (by decide)
  exact ⟨s, hs, c, hc, hhooks, (privilege_needs_grant initial_default hs c hc).1 (.inl hhooks)⟩

end KeysharpInput.Session
