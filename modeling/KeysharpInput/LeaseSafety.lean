import KeysharpInput.Runs

/-!
Two safety results about leases and one run against each.
A client with an identity has a lease, so the completion of a refresh never follows a
missing one, as long as every lease connection got its lease at HELLO; a HELLO of the
lease role that names a lease is refused but leaves the connection usable without one.
While a refresh is in flight nobody passes a scope check, as long as no connection
attaches to a lease with grants meanwhile: the pause marks the clients of that moment.
-/
namespace KeysharpInput.Session

open Tables List Finset State Transition Session.Client Session.Core

section IdentityLease

def Equipped (s : State) : Prop :=
  ∀ c ∈ s.cores, c.role = .authorizationLease → c.lease ≠ none

variable {s t : State}

theorem Equipped.of_cores (h : Equipped s) (hcores : t.cores = s.cores) : Equipped t := by
  unfold Equipped
  rwa [hcores]

theorem Equipped.modify (h : Equipped s) {i : Nat} {f : Core → Core}
    (hcores : t.cores = s.cores.modify i f)
    (hf : ∀ k, s.cores[i]? = some k → (f k).role = .authorizationLease → (f k).lease ≠ none) :
    Equipped t := by
  intro k hk
  rw [hcores] at hk
  rcases mem_of_mem_modify hk with hk | ⟨a, -, ha, rfl⟩
  · exact h k hk
  · exact hf a ha

theorem equipped_change {p : Permits} (hp : ¬ p.nullLease) (h : Equipped s)
    (hc : Change p s t) : Equipped t := by
  cases hc with
  | quiet hq => exact h.of_cores (map_eq_of_forall₂ core (fun _ _ hc => hc.core) hq.clients)
  | accept =>
    intro k hk
    obtain ⟨c, hc, rfl⟩ := exists_of_mem_cores hk
    rcases mem_append.mp hc with hc | hc
    · exact h _ (mem_cores hc)
    · rw [List.mem_singleton] at hc
      simp [hc, core]
  | remove i =>
    cases hc : s.clients[i]? with
    | none =>
      unfold removeClient
      rwa [hc]
    | some =>
      intro k hk
      rw [removeClient_cores hc] at hk
      exact h k (mem_of_mem_eraseIdx hk)
  | hello role _ _ _ hrole =>
    refine h.modify (cores_modifyClient (fun k => { k with role := role, hello := true })
      fun _ => rfl) fun k _ hr => ?_
    exact absurd (hrole hr) hp
  | helloLease operations hc =>
    rw [newLease_greet operations hc]
    refine h.modify (cores_modifyClient (fun k => { k with
      role := .authorizationLease, hello := true, lease := some k.connectionId })
      fun _ => rfl) fun k _ _ => ?_
    exact Option.some_ne_none _
  | attach leaseId hc =>
    rcases attachLease_cases leaseId hc with heq | ⟨o, q, -, -, heq⟩
    · rwa [heq]
    · rw [heq]
      exact h.modify (cores_modifyClient (fun k => { k with lease := some q }) fun _ => rfl)
        fun k _ _ => Option.some_ne_none q
  | attempt =>
    exact h.modify (cores_modifyClient (fun k => { k with attempted := true }) fun _ => rfl)
      fun k hk => h k (mem_of_getElem? hk)
  | identified hasIdentity hash =>
    exact h.modify (cores_modifyClient (fun k => { k with
      hasIdentity := hasIdentity, identityHash := hash.getD k.identityHash }) fun _ => rfl)
      fun k hk => h k (mem_of_getElem? hk)
  | finish env opcode requestId requested granted began hc =>
    obtain ⟨reply, leases, -, -, heq⟩ :=
      finish_cases env opcode requestId requested granted began hc
    rw [heq]
    exact h.of_cores (cores_modifyClient_of_eq fun c =>
      (Withdrawn.announce env opcode reply _ c).core)
  | invalidate env uid hash all scopes
  | revoked => exact h.of_cores (Withdraws.invalidate ..).cores
  | failOpen env => exact h.of_cores (Withdraws.failOpen env s).cores
  | pause | pauseOnly hrefresh
  | resume => exact h.of_cores (by simp only [cores, List.map_map]; rfl)

def Supplied (s : State) : Prop :=
  ∀ c ∈ s.clients, c.hasIdentity = true → ∃ p l, c.authorizationLease = some p ∧ s.leases p = some l

theorem Equipped.supplied (h : Equipped s) (hinv : Inv s) : Supplied s := by
  intro c hc hident
  have hmem := mem_cores hc
  obtain ⟨hrole, -⟩ := hinv.registry.identified _ hmem hident
  obtain ⟨p, hp⟩ := Option.ne_none_iff_exists'.mp (h _ hmem hrole)
  obtain ⟨l, hl⟩ := hinv.registry.lease_exists hmem hp
  exact ⟨p, l, hp, hl⟩

theorem Supplied.withdraws (h : Supplied s) (hw : Withdraws s t) : Supplied t := by
  intro d hd hident
  obtain ⟨c, hc, hcd⟩ := exists_of_mem_right hw.clients hd
  obtain ⟨p, l, hp, hl⟩ := h c hc ((congrArg Core.hasIdentity hcd.core).symm.trans hident)
  obtain ⟨_, hshrunk⟩ := hw.leases p
  rw [hl] at hshrunk
  exact ⟨p, _, (congrArg lease hcd.core).trans hp, hshrunk⟩

theorem snapshotRevoked_isSome (leases : Leases) (snapshot : Snapshot) (cs : List Client)
    (h : ∀ c ∈ cs, c.hasIdentity = true →
      ∃ p l, c.authorizationLease = some p ∧ leases p = some l) :
    (snapshotRevoked leases snapshot cs).isSome = true := by
  induction cs with
  | nil => rfl
  | cons c cs ih =>
    have hrest := ih fun d hd => h d (mem_cons_of_mem _ hd)
    unfold snapshotRevoked
    split
    · rename_i hmatch
      have hident : c.hasIdentity = true := by
        simp only [snapshotMatches, Bool.and_eq_true] at hmatch
        exact hmatch.1.1
      obtain ⟨p, l, hp, hl⟩ := h c mem_cons_self hident
      simp [hp, hl, hrest]
    · exact hrest

theorem applySnapshots_isSome (env : Env) (snapshots : List Snapshot) (h : Supplied s) :
    (snapshots.foldlM (applySnapshot env) s).isSome = true := by
  induction snapshots generalizing s with
  | nil => rfl
  | cons snapshot _ ih =>
    have hone : (applySnapshot env s snapshot).isSome = true := by
      unfold applySnapshot
      rw [Option.isSome_map]
      exact snapshotRevoked_isSome s.leases snapshot s.clients h
    obtain ⟨t, ht⟩ := Option.isSome_iff_exists.mp hone
    have hchange := Changes.applySnapshot (p := ⟨True, True, True, True⟩) ht
    rw [foldlM_cons, ht]
    exact ih (h.withdraws hchange.2)

theorem processRefreshDone_isSome (env : Env) (task : PermissionTask) (h : Supplied s) :
    (processRefreshDone env s task).isSome = true := by
  have hsnapshots := applySnapshots_isSome env task.snapshots
    (s := { s with permissionRefreshInflight := false }) h
  unfold processRefreshDone
  dsimp only
  split
  · rfl
  split
  · rfl
  split
  · rfl
  · rwa [Option.isSome_map]

theorem Supplied.step_isSome (h : Supplied s) (input : Input) : (step s input).isSome = true := by
  have hdone : ∀ k task, (processPermissionDone input.env
      { s with tasks := s.tasks.eraseIdx k } task).isSome = true := by
    intro k task
    unfold processPermissionDone
    split
    · exact processRefreshDone_isSome input.env task h
    · rfl
  unfold step
  rw [Option.isSome_map]
  cases input.event with
  | permissionDone k =>
    simp only [handle]
    split
    · rfl
    split
    · exact hdone k _
    · rfl
  | identified connectionId result | hookFailure connectionId t =>
    simp only [handle]
    split <;> rfl
  | promptDone =>
    simp only [handle]
    split
    · rfl
    · split <;> rfl
  | _ => rfl

/-- In every run whose lease connections all get their lease at HELLO, an identified
client has one, and no completion meets a missing lease. -/
theorem identified_has_lease {init s : State} (hinit : init.Initial)
    (h : Reaches step (fun _ input => LeaseHelloOk input) init s) :
    (∀ c ∈ s.clients, c.hasIdentity = true →
      ∃ p l, c.authorizationLease = some p ∧ s.leases p = some l) ∧
    ∀ input, step s input ≠ none := by
  have hequipped : Equipped s := by
    refine invariant_of_changes hinit ?_ (fun _ _ hs => hs) ?_ h
    · simp [Equipped, cores, hinit.clients]
    · intro s input u v hok _ hu hchange
      exact equipped_change (not_not_intro hok) hu hchange
  have hsupplied := hequipped.supplied (settled_of_reaches hinit h).toInv
  refine ⟨hsupplied, fun input hnone => ?_⟩
  have := hsupplied.step_isSome input
  simp [hnone] at this

def identifiedRun : List Input :=
  [{ event := .accept 10 0 5 }, { event := .request 0 1 (.hello (some ⟨3, 0, 1, 0⟩)) },
   { event := .identified 1 (some ([1], 5)) }]

theorem identified_has_lease_run : ∃ s, Reaches step (fun _ input => LeaseHelloOk input) {} s ∧
      (∃ c ∈ s.clients, c.hasIdentity = true) ∧
      (∀ c ∈ s.clients, c.hasIdentity = true →
        ∃ p l, c.authorizationLease = some p ∧ s.leases p = some l) ∧
      ∀ input, step s input ≠ none := by
  have hguard : GuardedRun step (fun _ input => LeaseHelloOk input) ({} : State)
      identifiedRun := by
    apply guardedRun_of_forall
    simp [identifiedRun, LeaseHelloOk]
  obtain ⟨s, hs, hident⟩ := Reaches.exists_of_run
    (q := fun s => ∃ c ∈ s.clients, c.hasIdentity = true) hguard (by decide)
  exact ⟨s, hs, hident, identified_has_lease initial_default hs⟩

/-- A lease connection whose HELLO named a lease: refused, yet complete and without a
lease. AUTHORIZE then starts the identification, and a refresh is made to finish. -/
def missingLeaseRun : List Input :=
  [{ event := .accept 10 0 5 }, { event := .request 0 1 (.hello (some ⟨3, 0, 0, 9⟩)) },
   { event := .request 0 2 (.authorize (some ⟨0, 0, 1, 0⟩)) },
   { event := .identified 1 (some ([1], 5)) },
   { event := .notification .generationChanged },
   { event := .worker 1 (.start none) },
   { event := .worker 1 (.store true) },
   { event := .worker 1 (.store true) },
   { event := .worker 1 (.finish true) }]

/-- The refresh completion then follows the missing lease. -/
theorem missing_lease_reached : ∃ s, Reaches step always {} s ∧
      (∃ c ∈ s.clients, c.hasIdentity = true ∧ c.authorizationLease = none) ∧
      step s { event := .permissionDone 1 } = none := by
  obtain ⟨s, hs, hident, hnone⟩ := exists_reaches step {} missingLeaseRun (q := fun s =>
    (∃ c ∈ s.clients, c.hasIdentity = true ∧ c.authorizationLease = none) ∧
      (step s { event := .permissionDone 1 }).isNone) (by decide)
  exact ⟨s, hs, hident, Option.isNone_iff_eq_none.mp hnone⟩

end IdentityLease

section RefreshPause

def Paused (s : State) : Prop :=
  s.permissionRefreshInflight = true → ∀ c ∈ s.clients, c.core.grants s.leases ≠ ∅ →
    c.permissionRefreshPending = true

variable {s t : State} {i : Nat} {c : Client}

theorem Paused.of_clients (h : Paused s)
    (hrefresh : t.permissionRefreshInflight = true → s.permissionRefreshInflight = true)
    (hold : ∀ d ∈ t.clients, d.core.grants t.leases = ∅ ∨ ∃ c ∈ s.clients,
      d.core.grants t.leases ⊆ c.core.grants s.leases ∧
      (c.permissionRefreshPending = true → d.permissionRefreshPending = true)) : Paused t := by
  intro hinflight d hd hg
  rcases hold d hd with hempty | ⟨c, hc, hsub, hpending⟩
  · exact absurd hempty hg
  · refine hpending (h (hrefresh hinflight) c hc ?_)
    rintro hempty
    exact hg (subset_empty.mp (hempty ▸ hsub))

theorem Paused.withdraws (h : Paused s) (hw : Withdraws s t) : Paused t := by
  refine h.of_clients (fun ht => hw.refresh ▸ ht) fun d hd => .inr ?_
  obtain ⟨c, hc, hcd⟩ := exists_of_mem_right hw.clients hd
  refine ⟨c, hc, ?_, hcd.pending.trans⟩
  rw [hcd.core]
  exact grants_shrinks _ hw.leases

theorem Paused.modify (h : Paused s) {f : Client → Client} (hc : s.clients[i]? = some c)
    (hclients : t.clients = s.clients.modify i f)
    (hrefresh : t.permissionRefreshInflight = s.permissionRefreshInflight)
    (hleases : ∀ k : Core, k.grants t.leases ⊆ k.grants s.leases)
    (hf : s.permissionRefreshInflight = true → (f c).core.grants t.leases = ∅ ∨
      (f c).core.lease = c.core.lease ∧
        (f c).permissionRefreshPending = c.permissionRefreshPending) : Paused t := by
  intro hinflight
  rw [hrefresh] at hinflight
  refine h.of_clients (fun _ => hinflight) (fun d hd => ?_) (hrefresh.trans hinflight)
  rw [hclients] at hd
  rcases mem_modifyClient hc hd with hd | rfl
  · exact .inr ⟨d, hd, hleases _, id⟩
  rcases hf hinflight with hempty | ⟨hlease, hpending⟩
  · exact .inl hempty
  · refine .inr ⟨c, mem_of_getElem? hc, ?_, hpending.trans⟩
    refine Finset.Subset.trans (hleases _) (subset_of_eq ?_)
    simp only [grants, hlease]

theorem paused_change {p : Permits} (hp : ¬ p.lateAttach) (hinv : Inv s) (h : Paused s)
    (hc : Change p s t) : Paused t := by
  cases hc with
  | quiet hq =>
    refine h.of_clients hq.refresh fun d hd => .inr ?_
    obtain ⟨c, hc, hcd⟩ := exists_of_mem_right hq.clients hd
    refine ⟨c, hc, ?_, hcd.paused⟩
    rw [hcd.core, hq.leases]
  | accept =>
    refine h.of_clients id fun d hd => ?_
    rcases List.mem_append.mp hd with hd | hd
    · exact .inr ⟨d, hd, Finset.Subset.refl _, id⟩
    · rw [List.mem_singleton] at hd
      exact .inl (grants_of_none (by rw [hd]; rfl))
  | remove i =>
    cases hc : s.clients[i]? with
    | none =>
      unfold removeClient
      rwa [hc]
    | some =>
      refine h.of_clients (fun ht => ?_) fun d hd => .inr ?_
      · obtain ⟨_, leases, -, heq⟩ := removeClient_frame s i
        rwa [heq] at ht
      obtain ⟨o, ho, hd⟩ := mem_removeClient hc hd
      have hunlinks := removeClient_unlinks hinv.registry hc
      refine ⟨o, List.mem_of_mem_eraseIdx ho, ?_, ?_⟩
      · rcases hd with rfl | ⟨rfl, -⟩ <;> exact grants_unlinks _ hunlinks
      · rcases hd with rfl | ⟨rfl, -⟩ <;> exact id
  | hello role operations hc hfresh hrole
  | attempt state started hc hrole hhello hattempted hstarted | identified hasIdentity hash hc ht =>
    exact h.modify hc rfl rfl (fun _ => Finset.Subset.refl _) fun _ => .inr ⟨rfl, rfl⟩
  | helloLease operations hc =>
    rw [newLease_greet operations hc]
    exact h.modify hc rfl rfl (fun k => grants_newLease k _ rfl) fun _ => .inl
      (grants_of_lease rfl (Function.update_self ..) rfl)
  | attach leaseId hc _ _ hnone hlate =>
    rcases attachLease_cases leaseId hc with heq | ⟨o, q, ho, hoq, heq⟩
    · rwa [heq]
    rw [heq]
    refine h.modify hc rfl rfl (fun k => Finset.subset_of_eq (grants_reference k q))
      fun hinflight => .inl ?_
    have hempty : o.core.grants s.leases = ∅ := by
      rcases hlate with hlate | hidle | hnone
      · exact absurd hlate hp
      · simp [hidle] at hinflight
      · exact hnone o ho
    rw [grants_reference, ← hempty]
    simp only [grants, core, hoq]
  | finish env opcode requestId requested granted began hc _ _ hrefresh =>
    obtain ⟨reply, leases, -, hleases, heq⟩ :=
      finish_cases env opcode requestId requested granted began hc
    rw [heq]
    by_cases hgranted : granted = ∅
    · have hsame : ∀ k : Core, k.grants leases = k.grants s.leases := by
        intro k
        rw [hleases]
        split
        · exact grants_modify k _ (fun _ => rfl) fun l => by simp [Lease.grant, hgranted]
        · rfl
      have hkeep : ∀ grants c, Withdrawn c (announce env opcode reply grants c) :=
        Withdrawn.announce env opcode reply
      exact h.modify hc rfl rfl (fun k => Finset.subset_of_eq (hsame k)) fun _ =>
        .inr ⟨congrArg lease (hkeep _ _).core, (hkeep _ _).pending⟩
    · intro hinflight
      simp [modifyClient, hrefresh hgranted] at hinflight
  | invalidate => exact h.withdraws (.invalidate ..)
  | revoked env task =>
    have hw := h.withdraws (.invalidate env s task.uid task.hash (task.revokeTarget == .all)
      task.revokeScopes)
    exact hw
  | failOpen env => exact h.withdraws (.failOpen env s)
  | pause =>
    intro _ d hd hg
    obtain ⟨c, -, rfl⟩ := List.mem_map.mp hd
    cases hlease : c.authorizationLease with
    | none => exact absurd (grants_of_none hlease) hg
    | some => simp [pause, hlease]
  | pauseOnly hrefresh | resume hrefresh =>
    intro hinflight
    simp [hrefresh] at hinflight

theorem clientHasScope_of_paused (h : Paused s) (hinflight : s.permissionRefreshInflight = true)
    (hc : c ∈ s.clients) {scopes : Scopes} (hne : scopes ≠ ∅) :
    clientHasScope s.leases c scopes = false := by
  unfold clientHasScope
  split
  · rfl
  rename_i hgo
  refine decide_eq_false fun hsub => ?_
  have hpending := h hinflight c hc fun hempty =>
    hne (subset_empty.mp (hempty ▸ clientGrants_eq s.leases c ▸ hsub))
  simp [hpending] at hgo

/-- In every run in which no connection attaches to a lease with grants during a refresh,
nobody passes a scope check while a refresh is in flight. -/
theorem refresh_pauses {init s : State} (hinit : init.Initial)
    (h : Reaches step AttachOk init s) (hinflight : s.permissionRefreshInflight = true) :
    ∀ c ∈ s.clients, ∀ scopes, scopes ≠ ∅ → clientHasScope s.leases c scopes = false := by
  have hpaused : Paused s := by
    refine invariant_of_changes hinit ?_ (fun _ _ hs => hs) ?_ h
    · simp [Paused, hinit.refresh]
    · intro _ _ _ _ hok hinv hu hchange
      exact paused_change (not_not_intro hok) hinv hu hchange
  exact fun c hc scopes hne => clientHasScope_of_paused hpaused hinflight hc hne

/-- A lease connection is granted Input Monitoring from the store, another connection is
accepted, and a refresh begins. -/
def refreshRun : List Input :=
  [{ event := .storeChanged 0 [1] {.inputMonitoring} }, { event := .accept 10 0 5 },
   { event := .request 0 1 (.hello (some ⟨3, 0, 1, 0⟩)) },
   { event := .identified 1 (some ([1], 5)) },
   { event := .worker 0 (.start none) },
   { event := .worker 0 (.store true) },
   { event := .worker 0 (.finish true) },
   { event := .permissionDone 0 },
   { event := .accept 10 0 5 },
   { event := .notification .generationChanged }]

theorem refresh_pauses_run :
    ∃ s, Transition.Reaches step AttachOk {} s ∧ s.permissionRefreshInflight = true ∧
      (∃ c ∈ s.clients, clientGrants s.leases c = {.inputMonitoring}) ∧
      ∀ c ∈ s.clients, ∀ scopes, scopes ≠ ∅ → clientHasScope s.leases c scopes = false := by
  have hguard : Transition.GuardedRun step AttachOk ({} : State) refreshRun := by
    apply guardedRun_of_forall
    simp only [refreshRun, AttachOk, List.forall_mem_cons, reduceCtorEq, false_implies,
      implies_true, true_and, and_true, List.not_mem_nil]
    rintro s _ _ _ c _ ⟨rfl, rfl, rfl⟩ hrole
    exact absurd rfl hrole
  obtain ⟨s, hs, hinflight, hgrants⟩ := Transition.Reaches.exists_of_run
    (q := fun s => s.permissionRefreshInflight ∧
      ∃ c ∈ s.clients, clientGrants s.leases c = {.inputMonitoring}) hguard (by decide)
  exact ⟨s, hs, hinflight, hgrants, refresh_pauses initial_default hs hinflight⟩

/-- A connection that attaches to the lease after the pause passes the check. -/
theorem refresh_not_paused_reached :
    ∃ s, Reaches step always {} s ∧ s.permissionRefreshInflight = true ∧
      ∃ c ∈ s.clients, clientHasScope s.leases c {.inputMonitoring} = true :=
  exists_reaches _ _
    (refreshRun ++ [{ event := .request 1 1 (.hello (some ⟨2, 0, 0, 1⟩)) }]) (by decide)

end RefreshPause

end KeysharpInput.Session
