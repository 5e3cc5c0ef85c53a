import KeysharpInput.Runs

/-!
The loop of `invalidate_connected_permissions` in closed form.
The loop changes leases while it walks the table, but whether a client matches depends
only on its user and on the hash of its lease, which stay. A lease is changed once, when
the walk meets its owner, so each client meets its lease as it was before the loop and
the loop is the map of its body over the table.
-/
namespace KeysharpInput.Session

open List Nat Session.Core

section Loop

variable {env : Env} {uid : Nat} {hash : Hash} {all : Bool} {scopes : Scopes}
  {leases leases' : Leases} {c : Client}

theorem revokeMatches_shrinks (h : leases.Shrinks leases') (c : Client) :
    revokeMatches leases' uid hash all c = revokeMatches leases uid hash all c := by
  unfold revokeMatches
  split
  · rfl
  rename_i p _
  obtain ⟨_, hp⟩ := h p
  rw [hp]
  cases leases p <;> rfl

theorem invalidateClient_leases (env : Env) (uid : Nat) (hash : Hash) (all : Bool)
    (scopes : Scopes) (leases : Leases) (c : Client) (q : Nat) :
    (invalidateClient env uid hash all scopes leases c).2 q =
      if c.connectionRole = .authorizationLease ∧ c.authorizationLease = some q ∧
          revokeMatches leases uid hash all c = true then
        (leases q).map fun l => { l with grantedScopes := l.grantedScopes \ scopes }
      else leases q := by
  unfold invalidateClient
  by_cases hmatch : revokeMatches leases uid hash all c = true
  · rw [if_pos hmatch]
    cases hp : c.authorizationLease with
    | none => simp
    | some p =>
      by_cases hrole : c.connectionRole = .authorizationLease
      · by_cases hq : q = p
        · subst hq
          simp [hrole, hmatch, Leases.modify]
        · simp [hrole, Leases.modify, hq, Ne.symm hq]
      · simp [hrole]
  · simp [hmatch]

theorem invalidateClient_congr (h : leases.Shrinks leases')
    (hown : c.connectionRole = .authorizationLease → ∀ p, c.authorizationLease = some p →
      leases' p = leases p) :
    (invalidateClient env uid hash all scopes leases' c).1 =
      (invalidateClient env uid hash all scopes leases c).1 := by
  unfold invalidateClient
  rw [revokeMatches_shrinks h]
  split
  · by_cases hrole : c.connectionRole = .authorizationLease
    · have hgrants : clientGrants leases' c = clientGrants leases c := by
        unfold clientGrants
        cases hp : c.authorizationLease with
        | none => rfl
        | some p => simp [hown hrole p hp]
      simp only [hgrants]
    · simp [hrole]
  · rfl

theorem invalidateLoop_leases (env : Env) (uid : Nat) (hash : Hash) (all : Bool)
    (scopes : Scopes) (leases : Leases) (cs : List Client) (q : Nat) :
    (invalidateLoop env uid hash all scopes leases cs).2 q =
      if ∃ c ∈ cs, c.connectionRole = .authorizationLease ∧ c.authorizationLease = some q ∧
          revokeMatches leases uid hash all c = true then
        (leases q).map fun l => { l with grantedScopes := l.grantedScopes \ scopes }
      else leases q := by
  induction cs generalizing leases with
  | nil => simp [invalidateLoop]
  | cons c cs ih =>
    have hshrinks := invalidateClient_shrinks env uid hash all scopes leases c
    have hhead := invalidateClient_leases env uid hash all scopes leases c q
    simp only [invalidateLoop, ih, revokeMatches_shrinks hshrinks, exists_mem_cons_iff]
    by_cases hc : c.connectionRole = .authorizationLease ∧ c.authorizationLease = some q ∧
        revokeMatches leases uid hash all c = true
    · have hor : _ ∨ ∃ c ∈ cs, c.connectionRole = .authorizationLease ∧
          c.authorizationLease = some q ∧ revokeMatches leases uid hash all c = true := .inl hc
      rw [hhead]
      split
      · simp [Function.comp_def]
      · rfl
    · rw [if_neg hc] at hhead
      simp only [hhead, hc, false_or]

def DistinctOwners (cs : List Client) : Prop :=
  cs.Pairwise fun a b => a.connectionRole = .authorizationLease →
    b.connectionRole = .authorizationLease → a.authorizationLease = b.authorizationLease →
    a.authorizationLease = none

theorem invalidateLoop_clients {cs : List Client} (hdistinct : DistinctOwners cs) :
    (invalidateLoop env uid hash all scopes leases cs).1 =
      cs.map fun c => (invalidateClient env uid hash all scopes leases c).1 := by
  induction cs generalizing leases with
  | nil => rfl
  | cons c _ ih =>
    obtain ⟨hhead, htail⟩ := pairwise_cons.mp hdistinct
    simp only [invalidateLoop, map_cons, cons.injEq, true_and, ih htail]
    refine map_congr_left fun d hd => invalidateClient_congr
      (invalidateClient_shrinks env uid hash all scopes leases c) fun hrole p hp => ?_
    rw [invalidateClient_leases, if_neg]
    rintro ⟨hcrole, hcp, -⟩
    have := hhead d hd hcrole hrole (hcp.trans hp.symm)
    simp [hcp] at this

end Loop

section System

variable {s : State} {env : Env} {uid : Nat} {hash : Hash} {all : Bool} {scopes : Scopes} {k : Core}

theorem Inv.distinctOwners (h : Inv s) : DistinctOwners s.clients := by
  have hnodup := h.clients_nodup
  rw [List.Nodup, pairwise_map] at hnodup
  refine List.Pairwise.imp_of_mem ?_ hnodup
  intro a b ha hb hne harole hbrole hab
  by_contra hsome
  obtain ⟨p, hp⟩ := Option.ne_none_iff_exists'.mp hsome
  have hpa := (h.registry.own _ (mem_cores ha) harole p hp).1
  have hpb := (h.registry.own _ (mem_cores hb) hbrole p (hab.symm.trans hp)).1
  exact hne (hpa.symm.trans hpb)

/-- `invalidate_connected_permissions` is its loop body applied to every client. -/
theorem Inv.invalidate_clients (h : Inv s) :
    (invalidateConnectedPermissions env s uid hash all scopes).clients =
      s.clients.map fun c => (invalidateClient env uid hash all scopes s.leases c).1 :=
  invalidateLoop_clients h.distinctOwners

def Core.Matches (k : Core) (leases : Leases) (uid : Nat) (hash : Hash) (all : Bool) : Prop :=
  k.uid = uid ∧ ∃ p l, k.lease = some p ∧ leases p = some l ∧ (all = true ∨ l.hash = hash)

theorem Core.Matches.shrinks {leases leases' : Leases} (h : k.Matches leases uid hash all)
    (hs : leases.Shrinks leases') : k.Matches leases' uid hash all := by
  obtain ⟨huid, p, l, hp, hl, hhash⟩ := h
  obtain ⟨_, hp'⟩ := hs p
  rw [hl] at hp'
  exact ⟨huid, p, _, hp, hp', hhash⟩

theorem Inv.revokeMatches_iff (h : Inv s) {c : Client} (hc : c ∈ s.clients) :
    revokeMatches s.leases uid hash all c = true ↔ c.core.Matches s.leases uid hash all := by
  unfold revokeMatches Matches
  cases hp : c.authorizationLease with
  | none => simp [Client.core, hp]
  | some =>
    obtain ⟨l, hl⟩ := h.registry.lease_exists (mem_cores hc) hp
    simp [Client.core, hp, hl]

theorem Inv.invalidate_lease_of_matches (h : Inv s) (env : Env) (scopes : Scopes)
    (hk : k ∈ s.cores) {p : Nat} {l : Lease} (hp : k.lease = some p) (hl : s.leases p = some l)
    (hactive : l.active = true) (hmatch : k.Matches s.leases uid hash all) :
    (invalidateConnectedPermissions env s uid hash all scopes).leases p =
      some { l with grantedScopes := l.grantedScopes \ scopes } := by
  obtain ⟨huid, q, l', hq, hl', hhash⟩ := hmatch
  obtain rfl : p = q := Option.some.inj (hp.symm.trans hq)
  obtain rfl : l = l' := Option.some.inj (hl.symm.trans hl')
  obtain ⟨o, ho, how, hsame⟩ := h.registry.owned p l hl hactive
  obtain ⟨c, hc, rfl⟩ := exists_of_mem_cores ho
  have howner : revokeMatches s.leases uid hash all c = true :=
    (h.revokeMatches_iff hc).mpr ⟨(congrArg (·.1) (hsame k hk hp)).symm.trans huid, p, l,
      how.2.2, hl, hhash⟩
  have hloop := invalidateLoop_leases env uid hash all scopes s.leases s.clients p
  rw [if_pos ⟨c, hc, how.2.1, how.2.2, howner⟩, hl] at hloop
  exact hloop

theorem Inv.invalidate_lease_of_not_matches (h : Inv s) (env : Env) (scopes : Scopes)
    (hk : k ∈ s.cores) {p : Nat} {l : Lease} (hp : k.lease = some p) (hl : s.leases p = some l)
    (hactive : l.active = true) (hmatch : ¬ k.Matches s.leases uid hash all) :
    (invalidateConnectedPermissions env s uid hash all scopes).leases p = some l := by
  have hloop := invalidateLoop_leases env uid hash all scopes s.leases s.clients p
  rw [if_neg, hl] at hloop
  · exact hloop
  rintro ⟨c, hc, -, hcp, hcmatch⟩
  obtain ⟨hcuid, q, l', hq, hl', hhash⟩ := (h.revokeMatches_iff hc).mp hcmatch
  obtain ⟨o, -, -, hsame⟩ := h.registry.owned p l hl hactive
  obtain rfl : p = q := Option.some.inj (hcp.symm.trans hq)
  have hpeer := (hsame k hk hp).trans (hsame _ (mem_cores hc) hcp).symm
  exact hmatch ⟨(congrArg (·.1) hpeer).trans hcuid, p, l', hp, hl', hhash⟩

/-- A matching client loses the scopes, by way of its lease's owner; any other keeps its
grants. -/
theorem Inv.invalidate_grants (h : Inv s) (env : Env) (uid : Nat) (hash : Hash) (all : Bool)
    (scopes : Scopes) (hk : k ∈ s.cores) [Decidable (k.Matches s.leases uid hash all)] :
    k.grants (invalidateConnectedPermissions env s uid hash all scopes).leases =
      if k.Matches s.leases uid hash all then k.grants s.leases \ scopes
      else k.grants s.leases := by
  have hshrinks := grants_shrinks k
    (Withdraws.invalidate env s uid hash all scopes).leases
  by_cases hempty : k.grants s.leases = ∅
  · have hafter := Finset.subset_empty.mp (hempty ▸ hshrinks)
    rw [hafter, hempty]
    split <;> simp
  obtain ⟨_, hscope⟩ := Finset.nonempty_iff_ne_empty.mpr hempty
  obtain ⟨p, l, hp, hl, hactive, -⟩ := exists_of_mem_grants hscope
  rw [grants_of_lease hp hl hactive]
  split
  · rename_i hmatch
    exact grants_of_lease hp (h.invalidate_lease_of_matches env scopes hk hp hl hactive
      hmatch) hactive
  · rename_i hmatch
    exact grants_of_lease hp (h.invalidate_lease_of_not_matches env scopes hk hp hl hactive
      hmatch) hactive

end System

section FailOpen

variable {s : State} {env : Env} {uid : Nat} {hash : Hash} {k : Core} {j : Nat}

/-- The first turns of the loop of `permission_monitor_fail_open`. -/
def failOpenLoop (env : Env) (s : State) (turns : Nat) : State :=
  (range turns).foldl (monitorFailOpenClient env) s

theorem failOpenLoop_succ (env : Env) (s : State) (turns : Nat) : failOpenLoop env s (turns + 1) =
      monitorFailOpenClient env (failOpenLoop env s turns) turns := by
  simp [failOpenLoop, range_succ]

theorem failOpenLoop_withdraws (env : Env) (s : State) {a b : Nat} (hab : a ≤ b) :
    Withdraws (failOpenLoop env s a) (failOpenLoop env s b) := by
  induction b, hab using le_induction with
  | base => exact .refl _
  | succ b _ ih =>
    rw [failOpenLoop_succ]
    exact ih.trans (.monitorFailOpenClient env _ b)

theorem withdraws_failOpenLoop (env : Env) (s : State) (turns : Nat) :
    Withdraws s (failOpenLoop env s turns) :=
  failOpenLoop_withdraws env s (zero_le turns)

def Core.Runs (k : Core) (uid : Nat) (hash : Hash) : Prop :=
  k.hasIdentity = true ∧ k.uid = uid ∧ k.identityHash = hash

theorem exists_first_runs {cs : List Core} (hk : cs[j]? = some k) (hruns : k.Runs uid hash) :
    ∃ i ≤ j, ∃ o, cs[i]? = some o ∧ o.Runs uid hash ∧
      ∀ i' < i, ∀ o', cs[i']? = some o' → ¬ o'.Runs uid hash := by
  induction j using Nat.strong_induction_on generalizing k with
  | h j ih =>
    by_cases hearlier : ∃ i < j, ∃ o, cs[i]? = some o ∧ o.Runs uid hash
    · obtain ⟨i, hij, o, ho, horuns⟩ := hearlier
      obtain ⟨i', hi', hrest⟩ := ih i hij ho horuns
      exact ⟨i', by omega, hrest⟩
    · refine ⟨j, le_refl j, k, hk, hruns, fun i hij o ho horuns => hearlier ?_⟩
      exact ⟨i, hij, o, ho, horuns⟩

theorem monitorFailOpenClient_first (hk : s.cores[j]? = some k) (hruns : k.Runs uid hash)
    (hfirst : ∀ i < j, ∀ o, s.cores[i]? = some o → ¬ o.Runs uid hash) :
    monitorFailOpenClient env s j = invalidateConnectedPermissions env
      (s.modifyClient j fun c => { c with permissionStoreGeneration := none }) uid hash false
      inputPermissionScopes := by
  obtain ⟨c, hc, rfl⟩ := exists_of_cores_getElem? hk
  obtain ⟨hident, rfl, rfl⟩ := hruns
  have hnone : ((s.modifyClient j fun c =>
      { c with permissionStoreGeneration := none }).clients.take j).any (fun o =>
        o.hasIdentity && o.uid == c.uid && o.identityHash == c.identityHash) = false := by
    rw [any_eq_false]
    intro o ho hsame
    obtain ⟨i, hi⟩ := mem_iff_getElem?.mp ho
    have hij : i < j := by
      by_contra hge
      simp [hge] at hi
    replace hi : s.clients[i]? = some o := by
      simpa [hij, State.modifyClient, ne_of_gt hij] using hi
    simp only [Bool.and_eq_true, beq_iff_eq] at hsame
    exact hfirst i hij o.core (cores_getElem? hi) ⟨hsame.1.1, hsame.1.2, hsame.2⟩
  have hident' : c.hasIdentity = true := hident
  unfold monitorFailOpenClient
  rw [hc]
  simp only [hident', hnone]
  rfl

/-- Past the turn of the first identified client of a user and an executable, a client of
that user whose lease carries the hash has been through a revocation of everything. -/
theorem failOpenLoop_revokes (env : Env) (hinv : Inv s) {turns : Nat} (hk : s.cores[j]? = some k)
    (hruns : k.Runs uid hash) (hj : j < turns) :
    ∃ u, Inv u ∧ Withdraws s u ∧ Withdraws
      (invalidateConnectedPermissions env u uid hash false inputPermissionScopes)
      (failOpenLoop env s turns) := by
  obtain ⟨i, hij, o, ho, horuns, hfirst⟩ := exists_first_runs hk hruns
  have hforget : Withdraws (failOpenLoop env s i) ((failOpenLoop env s i).modifyClient i fun c =>
      { c with permissionStoreGeneration := none }) :=
    .modifyClient _ i _ fun c => { Withdrawn.refl c with }
  have hstart := withdraws_failOpenLoop env s i
  refine ⟨_, hinv.withdraws (hstart.trans hforget), hstart.trans hforget, ?_⟩
  rw [← hstart.cores] at ho hfirst
  rw [← monitorFailOpenClient_first ho horuns hfirst, ← failOpenLoop_succ]
  exact failOpenLoop_withdraws env s (by omega)

end FailOpen

end KeysharpInput.Session
