import KeysharpInput.Invalidation

/-!
A revoke against grants in flight.
Each scope of a lease carries the time at which the store operation began whose answer
granted it, and each processed revoke the time at which it took effect in the store.
A stale answer never reaches a lease: a check or a prompt made before the revoke was
processed has an old permission generation by then, and one made later asks the store
after the revoke took effect.
-/
namespace KeysharpInput.Session

open Tables List Finset Function State Transition Session.Client

/-- The revoke `r` concerns lease `l` when a client of user `uid` has it. -/
def ProcessedRevoke.Concerns (r : ProcessedRevoke) (uid : Nat) (l : Lease) : Prop :=
  uid = r.uid ∧ (r.allExecutables = true ∨ l.hash = r.hash)

def LaterThan (r : ProcessedRevoke) (l : Lease) : Prop :=
  ∀ scope ∈ l.grantedScopes, scope ∈ r.scopes → r.committedAt < l.grantedBegan scope

def Fresh (s : State) : Prop :=
  ∀ r ∈ s.processedRevokes, ∀ c ∈ s.cores, ∀ p l, c.lease = some p → s.leases p = some l →
    r.Concerns c.uid l → LaterThan r l

/-- `l'` grants nothing that `l` did not, with the same history. -/
structure Lease.Within (l' l : Lease) : Prop where
  hash : l'.hash = l.hash
  granted : l'.grantedScopes ⊆ l.grantedScopes
  began : l'.grantedBegan = l.grantedBegan

theorem Lease.Within.refl (l : Lease) : l.Within l := ⟨rfl, Subset.refl _, rfl⟩

theorem LaterThan.of_empty {r : ProcessedRevoke} {l : Lease} (h : l.grantedScopes = ∅) :
    LaterThan r l := by
  intro _ hscope
  simp [h] at hscope

theorem LaterThan.within {r : ProcessedRevoke} {l l' : Lease} (h : LaterThan r l)
    (hl : l'.Within l) : LaterThan r l' := by
  intro scope hscope hr
  rw [hl.began]
  exact h scope (hl.granted hscope) hr

namespace Fresh

variable {s t : State} {i : Nat} {c : Client}

theorem of_leases (h : Fresh s) (hrevokes : t.processedRevokes = s.processedRevokes)
    (hold : ∀ d ∈ t.cores, ∀ p l', d.lease = some p → t.leases p = some l' →
      l'.grantedScopes = ∅ ∨ ∃ c ∈ s.cores, ∃ l, c.uid = d.uid ∧ c.lease = some p ∧
        s.leases p = some l ∧ l'.Within l) : Fresh t := by
  intro r hr d hd p l' hp hl' hconcerns
  rw [hrevokes] at hr
  rcases hold d hd p l' hp hl' with hempty | ⟨c, hc, l, huid, hcp, hl, hwithin⟩
  · exact .of_empty hempty
  · refine (h r hr c hc p l hcp hl ?_).within hwithin
    unfold ProcessedRevoke.Concerns at hconcerns ⊢
    rwa [huid, ← hwithin.hash]

theorem within_of_shrinks {leases leases' : Leases} (h : leases.Shrinks leases') {p : Nat}
    {l' : Lease} (hl' : leases' p = some l') : ∃ l, leases p = some l ∧ l'.Within l := by
  obtain ⟨_, hp⟩ := h p
  rw [hl'] at hp
  obtain ⟨l, hl, rfl⟩ := Option.map_eq_some_iff.mp hp.symm
  exact ⟨l, hl, rfl, sdiff_subset, rfl⟩

section

variable (h : Fresh s)

include h

theorem of_shrinks (hcores : t.cores = s.cores) (hleases : s.leases.Shrinks t.leases)
    (hrevokes : t.processedRevokes = s.processedRevokes) : Fresh t := by
  refine h.of_leases hrevokes fun d hd p l' hp hl' => .inr ?_
  rw [hcores] at hd
  obtain ⟨l, hl, hwithin⟩ := within_of_shrinks hleases hl'
  exact ⟨d, hd, l, rfl, hp, hl, hwithin⟩

theorem withdraws (hw : Withdraws s t) : Fresh t :=
  h.of_shrinks hw.cores hw.leases hw.revokes

theorem modify {f : Core → Core} (hcores : t.cores = s.cores.modify i f)
    (hf : ∀ k, (f k).uid = k.uid ∧ (f k).lease = k.lease) (hleases : t.leases = s.leases)
    (hrevokes : t.processedRevokes = s.processedRevokes) : Fresh t := by
  refine h.of_leases hrevokes fun d hd p l' hp hl' => .inr ?_
  rw [hcores] at hd
  rw [hleases] at hl'
  rcases mem_of_mem_modify hd with hd | ⟨a, ha, -, rfl⟩
  · exact ⟨d, hd, l', rfl, hp, hl', .refl l'⟩
  · exact ⟨a, ha, l', (hf a).1.symm, (hf a).2 ▸ hp, hl', .refl l'⟩

theorem remove (hinv : Inv s) (i : Nat) : Fresh (removeClient s i) := by
  cases hc : s.clients[i]? with
  | none =>
    unfold removeClient
    rwa [hc]
  | some c =>
    have hunlinks := removeClient_unlinks hinv.registry hc
    have hrevokes : (removeClient s i).processedRevokes = s.processedRevokes := by
      obtain ⟨_, _, -, heq⟩ := removeClient_frame s i
      rw [heq]
    refine h.of_leases hrevokes fun d hd p l' hp hl' => ?_
    rw [removeClient_cores hc] at hd
    have hd' := mem_of_mem_eraseIdx hd
    by_cases hq : c.core.lease = some p
    · obtain ⟨l, hl, -, ⟨-, -, hg, hh, hb⟩ | ⟨-, -, hempty⟩⟩ := hunlinks.linked p l' hq hl'
      · exact .inr ⟨d, hd', l, rfl, hp, hl, hh, subset_of_eq hg, hb⟩
      · exact .inl hempty
    · exact .inr ⟨d, hd', l', rfl, hp, hunlinks.other p hq ▸ hl', .refl l'⟩

theorem helloLease (hc : s.clients[i]? = some c) (operations : Nat) :
    Fresh (newLease (s.modifyClient i (greet .authorizationLease operations)) i) := by
  rw [newLease_greet operations hc]
  refine h.of_leases rfl fun d hd p l' hp hl' => ?_
  obtain ⟨e, he, rfl⟩ := exists_of_mem_cores hd
  by_cases hpc : p = c.connectionId
  · subst hpc
    left
    dsimp only at hl'
    rw [update_self] at hl'
    rw [← Option.some.inj hl']
  · dsimp only at hl'
    rw [update_of_ne hpc] at hl'
    rcases mem_modifyClient hc he with he | rfl
    · exact .inr ⟨e.core, mem_cores he, l', rfl, hp, hl', .refl l'⟩
    · exact absurd (Option.some.inj hp).symm hpc

theorem attach (hinv : Inv s) (leaseId : Nat) (hc : s.clients[i]? = some c) :
    Fresh (attachLease s i leaseId) := by
  rcases attachLease_cases leaseId hc with heq | ⟨o, q, ho, hoq, heq⟩
  · rwa [heq]
  rw [heq]
  obtain ⟨homem, how, hpeer, -⟩ := hinv.leaseOwner_owns ho hoq
  refine h.of_leases rfl fun d hd p l' hp hl' => .inr ?_
  have hback : ∃ l, s.leases p = some l ∧ l'.Within l := by
    by_cases hpq : p = q
    · subst hpq
      obtain ⟨l, hl, hl'⟩ := Option.map_eq_some_iff.mp
        (show (s.leases p).map _ = some l' by simpa [Leases.modify] using hl')
      exact ⟨l, hl, by rw [← hl']; exact ⟨rfl, Subset.refl _, rfl⟩⟩
    · exact ⟨l', by simpa [Leases.modify, hpq] using hl', .refl l'⟩
  obtain ⟨l, hl, hwithin⟩ := hback
  obtain ⟨e, he, rfl⟩ := exists_of_mem_cores hd
  rcases mem_modifyClient hc he with he | rfl
  · exact ⟨e.core, mem_cores he, l, rfl, hp, hl, hwithin⟩
  · obtain rfl : q = p := Option.some.inj hp
    exact ⟨o.core, homem, l, congrArg (·.1) hpeer, how.2.2, hl, hwithin⟩

theorem finish (hinv : Inv s) (env : Env) (opcode : Opcode) (requestId : Nat)
    (requested granted : Scopes) (began : Nat) (hc : s.clients[i]? = some c)
    (hrole : c.connectionRole = .authorizationLease)
    (hbegan : granted ≠ ∅ → ∀ r ∈ s.processedRevokes, r.committedAt < began) :
    Fresh (finishClientAuthorization env s i opcode requestId requested granted began) := by
  obtain ⟨reply, leases, -, hleases, heq⟩ :=
    finish_cases env opcode requestId requested granted began hc
  have hcores : (s.modifyClient i
      (announce env opcode reply (clientGrants leases c))).cores = s.cores :=
    cores_modifyClient_of_eq fun c => (Withdrawn.announce env opcode reply _ c).core
  rw [heq]
  intro r hr d hd p l' hp hl' hconcerns
  replace hd : d ∈ s.cores := hcores ▸ hd
  have hmem : c.core ∈ s.cores := Inv.mem_core hc
  cases hq : c.authorizationLease with
  | none =>
    rw [hq] at hleases
    refine h r hr d hd p l' hp ?_ hconcerns
    simpa [hleases] using hl'
  | some q =>
    rw [hq] at hleases
    by_cases hpq : p = q
    · subst hpq
      obtain ⟨l, hl, hgrant⟩ := Option.map_eq_some_iff.mp
        (show (s.leases p).map (Lease.grant granted c.identityHash began) = some l' by
          simpa [hleases, Leases.modify] using hl')
      subst hgrant
      intro scope hscope hr'
      by_cases hold : scope ∈ l.grantedScopes
      · have howns : c.core.Owns p := ⟨(hinv.registry.own _ hmem hrole p hq).1.symm, hrole, hq⟩
        have hhash := (hinv.registry.granted_owner hmem howns hl (ne_empty_of_mem hold)).2
        have hlater := h r hr d hd p l hp hl ⟨hconcerns.1, by
          rw [hhash]
          exact hconcerns.2⟩
        simpa [Lease.grant, hold] using hlater scope hold hr'
      · have hnew : scope ∈ granted := by simpa [Lease.grant, hold] using hscope
        simpa [Lease.grant, hold] using hbegan (ne_empty_of_mem hnew) r hr
    · refine h r hr d hd p l' hp ?_ hconcerns
      simpa [hleases, Leases.modify, hpq] using hl'

theorem revoked (hinv : Inv s) (env : Env) (task : PermissionTask) :
    Fresh (recordRevoke (invalidateConnectedPermissions env s task.uid task.hash
      (task.revokeTarget == .all) task.revokeScopes) task) := by
  have hw := Withdraws.invalidate env s task.uid task.hash (task.revokeTarget == .all)
    task.revokeScopes
  intro r hr d hd p l' hp hl' hconcerns
  rcases List.mem_append.mp hr with hr | hr
  · exact h.withdraws hw r hr d hd p l' hp hl' hconcerns
  rw [List.mem_singleton] at hr
  subst hr
  intro _ hscope hr'
  have hd' : d ∈ s.cores := hw.cores ▸ hd
  obtain ⟨l, hl, hwithin⟩ := within_of_shrinks hw.leases hl'
  obtain ⟨hactive, -⟩ := hinv.registry.granted p l hl
    (Finset.ne_empty_of_mem (hwithin.granted hscope))
  have hmatch : d.Matches s.leases task.uid task.hash (task.revokeTarget == .all) :=
    ⟨hconcerns.1, p, l, hp, hl, hwithin.hash ▸ hconcerns.2⟩
  have hgone := hinv.invalidate_lease_of_matches env task.revokeScopes hd' hp hl hactive
    hmatch
  obtain rfl := Option.some.inj (hgone.symm.trans hl')
  exact absurd hr' (Finset.mem_sdiff.mp hscope).2

end

end Fresh

theorem fresh_change {p : Permits} {s t : State} (hinv : Inv s) (h : Fresh s)
    (hc : Change p s t) : Fresh t := by
  cases hc with
  | quiet hq =>
    refine h.of_shrinks (map_eq_of_forall₂ core (fun _ _ hc => hc.core) hq.clients) ?_
      hq.revokes
    rw [hq.leases]
    exact .refl _
  | accept =>
    refine h.of_leases rfl fun d hd p l' hp hl' => ?_
    obtain ⟨e, he, rfl⟩ := exists_of_mem_cores hd
    rcases List.mem_append.mp he with he | he
    · exact .inr ⟨e.core, mem_cores he, l', rfl, hp, hl', .refl l'⟩
    · rw [List.mem_singleton] at he
      subst he
      simp [core] at hp
  | remove i => exact h.remove hinv i
  | hello role =>
    exact h.modify (cores_modifyClient (fun k => { k with role := role, hello := true })
      fun _ => rfl) (fun _ => ⟨rfl, rfl⟩) rfl rfl
  | helloLease operations hc => exact h.helloLease hc operations
  | attach leaseId hc => exact h.attach hinv leaseId hc
  | attempt =>
    exact h.modify (cores_modifyClient (fun k => { k with attempted := true }) fun _ => rfl)
      (fun _ => ⟨rfl, rfl⟩) rfl rfl
  | identified hasIdentity hash =>
    exact h.modify (cores_modifyClient (fun k => { k with
      hasIdentity := hasIdentity, identityHash := hash.getD k.identityHash }) fun _ => rfl)
      (fun _ => ⟨rfl, rfl⟩) rfl rfl
  | finish env opcode requestId requested granted began hc hrole _ _ hbegan =>
    exact h.finish hinv env opcode requestId requested granted began hc hrole hbegan
  | invalidate => exact h.withdraws (.invalidate ..)
  | revoked env task => exact h.revoked hinv env task
  | failOpen env => exact h.withdraws (.failOpen env s)
  | pause => exact h.of_shrinks (by simp only [cores, List.map_map]; rfl) (.refl _) rfl
  | pauseOnly hrefresh | resume hrefresh =>
    exact h.of_shrinks (by simp only [cores, List.map_map]; rfl) (.refl _) rfl

/-- After a revoke has been processed, a lease of its user and executable has one of its
scopes only by a store check that began after the revoke took effect. -/
theorem revoked_scope_regained_later {init s : State} (hinit : init.Initial)
    (h : Reaches step always init s) {r : ProcessedRevoke}
    (hr : r ∈ s.processedRevokes) {c : Client} (hc : c ∈ s.clients) (huid : c.uid = r.uid)
    {p : Nat} {l : Lease} (hp : c.authorizationLease = some p) (hl : s.leases p = some l)
    (hhash : r.allExecutables = true ∨ l.hash = r.hash) {scope : Scope} (hscope : scope ∈ r.scopes)
    (hgranted : scope ∈ l.grantedScopes) : r.committedAt < l.grantedBegan scope := by
  have hfresh : Fresh s := by
    refine invariant_of_changes hinit ?_ (fun _ _ hs => hs) ?_ h
    · simp [Fresh, hinit.revokes]
    · exact fun _ _ _ _ _ hinv hu hchange => fresh_change hinv hu hchange
  exact hfresh r hr c.core (mem_cores hc) p l hp hl ⟨huid, hhash⟩ scope hgranted hscope

def regrantRun : List Input :=
  [{ event := .storeChanged 0 [1] {.inputMonitoring} }, { event := .accept 10 0 5 },
   { event := .request 0 1 (.hello (some ⟨3, 0, 1, 0⟩)) },
   { event := .identified 1 (some ([1], 5)) },
   { event := .worker 0 (.start none) },
   { event := .worker 0 (.store true) },
   { event := .worker 0 (.finish true) },
   { event := .permissionDone 0 },
   { event := .accept 11 0 6 },
   { event := .request 1 1 (.hello (some ⟨0, 0, 0, 0⟩)) },
   { event := .request 1 2 (.permissionsRevoke (some ⟨3, 1, 0, []⟩)) },
   { event := .worker 0 (.start none) },
   { event := .worker 0 (.store true) },
   { event := .worker 0 (.finish true) },
   { event := .permissionDone 0 },
   { event := .storeChanged 0 [1] {.inputMonitoring} },
   { event := .request 0 3 (.authorize (some ⟨0, 0, 1, 0⟩)) },
   { event := .worker 0 (.start none) },
   { event := .worker 0 (.store true) },
   { event := .worker 0 (.finish true) },
   { event := .permissionDone 0 }]

theorem revoked_scope_regained_later_run : ∃ s, Reaches step always {} s ∧ ∃ r ∈ s.processedRevokes,
      r.allExecutables = true ∧ .inputMonitoring ∈ r.scopes ∧ ∃ l, s.leases 1 = some l ∧
      .inputMonitoring ∈ l.grantedScopes ∧ r.committedAt < l.grantedBegan .inputMonitoring := by
  obtain ⟨s, hs, ⟨r, hr, hru, hall, hrs⟩, ⟨c, hc, hcu, hcp⟩, hlease⟩ := exists_reaches step {}
    regrantRun (q := fun s => (∃ r ∈ s.processedRevokes, r.uid = 0 ∧ r.allExecutables = true ∧
        .inputMonitoring ∈ r.scopes) ∧
      (∃ c ∈ s.clients, c.uid = 0 ∧ c.authorizationLease = some 1) ∧
      (s.leases 1).any fun l => .inputMonitoring ∈ l.grantedScopes) (by decide)
  obtain ⟨l, hl, hg⟩ := (Option.any_eq_true _ _).mp hlease
  replace hg := of_decide_eq_true hg
  exact ⟨s, hs, r, hr, hall, hrs, l, hl, hg, revoked_scope_regained_later initial_default hs hr hc
    (hcu.trans hru.symm) hcp hl (.inl hall) hrs hg⟩

end KeysharpInput.Session
