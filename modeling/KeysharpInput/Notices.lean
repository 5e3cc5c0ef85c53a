import KeysharpInput.Invalidation

/-!
What a lease connection hears about its grants.
Folding the notices on its stream gives the scopes its lease grants: a grant replaces what was heard
and a revocation takes away what the lease loses, at the same moment. One path is silent: a monitor
failure clears the lease of a connection without an identity before it reaches the identified owner,
and the owner then has nothing left to be told about.
-/
namespace KeysharpInput.Session

open Tables List Finset Transition Session.Client Session.Core

variable {p : Permits} {s t : State}

/-- As long as its stream is valid, a connection has heard nothing before HELLO and, as a
lease connection, exactly what its lease grants. -/
structure Heard (leases : Leases) (c : Client) : Prop where
  fresh : c.streamValid = true → c.helloComplete = false → grantsHeard c.sent = ∅
  lease : c.streamValid = true → c.connectionRole = .authorizationLease →
    grantsHeard c.sent = c.core.grants leases

def Informed (s : State) : Prop := ∀ c ∈ s.clients, Heard s.leases c

theorem grantsHeard_append (sent : List Frame) (frame : Frame) :
    grantsHeard (sent ++ [frame]) = hearNotice (grantsHeard sent) frame := by
  simp [grantsHeard]

namespace Heard

variable {leases leases' : Leases} {c d : Client}

theorem invalid (h : c.streamValid = false) : Heard leases c :=
  ⟨fun hv => by simp [h] at hv, fun hv => by simp [h] at hv⟩

theorem grants (h : Heard leases c) (hgrants : c.connectionRole = .authorizationLease →
    c.core.grants leases' = c.core.grants leases) : Heard leases' c :=
  ⟨h.fresh, fun hv hr => (h.lease hv hr).trans (hgrants hr).symm⟩

theorem of_eq (h : Heard leases c) (hcore : d.core = c.core)
    (hvalid : d.streamValid = c.streamValid) (hsent : d.sent = c.sent) : Heard leases d := by
  have hhello : d.helloComplete = c.helloComplete := congrArg hello hcore
  have hrole : d.connectionRole = c.connectionRole := congrArg role hcore
  constructor
  · rw [hvalid, hhello, hsent]
    exact h.fresh
  · rw [hvalid, hrole, hsent, hcore]
    exact h.lease

theorem quiet {fresh : Prop} (h : Heard leases c) (hq : Quiet fresh leases c d) :
    Heard leases d := by
  have hhello : d.helloComplete = c.helloComplete := congrArg hello hq.core
  have hrole : d.connectionRole = c.connectionRole := congrArg role hq.core
  constructor
  · intro hv hh
    obtain ⟨hcv, hheard⟩ := hq.stream hv
    rw [hheard]
    exact h.fresh hcv (hhello ▸ hh)
  · intro hv hr
    obtain ⟨hcv, hheard⟩ := hq.stream hv
    rw [hheard, hq.core]
    exact h.lease hcv (hrole ▸ hr)

theorem announce (env : Env) (opcode : Opcode) {reply : Frame} (hplain : reply.Plain)
    (hrole : c.connectionRole = .authorizationLease) (hhello : c.helloComplete = true) :
    Heard leases (c.announce env opcode reply (clientGrants leases c)) := by
  have hkeep := Withdrawn.announce env opcode reply (clientGrants leases c) c
  refine ⟨fun _ hh => ?_, fun hv _ => ?_⟩
  · have : c.helloComplete = false := (congrArg Core.hello hkeep.core).symm.trans hh
    simp [hhello] at this
  unfold Client.announce at hv ⊢
  have hrole' : (c.reply reply).connectionRole = .authorizationLease := hrole
  simp only [hrole, hrole', if_true] at hv ⊢
  unfold Client.notify at hv ⊢
  split at hv
  · rename_i hop
    rw [if_pos hop]
    split at hv
    · rename_i hsend
      rw [if_pos hsend]
      simp only [Client.reply, grantsHeard_append]
      exact hplain _
    · simp [Client.reply] at hv
  · rename_i hop
    rw [if_neg hop]
    split at hv
    · rename_i hsend
      rw [if_pos hsend]
      simp only [grantsHeard_append]
      rfl
    · simp at hv

theorem dropScopes_stream (scopes : Scopes) (c : Client) : (c.dropScopes scopes).sent = c.sent ∧
      ((c.dropScopes scopes).streamValid = true → c.streamValid = true) := by
  unfold dropScopes
  dsimp only
  split <;> split <;> split <;> exact ⟨rfl, by simp [clearHook, invalidate]⟩

theorem invalidateClient {env : Env} {uid : Nat} {hash : Hash} {all : Bool} {scopes : Scopes}
    (h : Heard leases c) (hhello : c.helloComplete = true)
    (hmatch : revokeMatches leases uid hash all c = true)
    (hgrants : c.core.grants leases' = c.core.grants leases \ scopes) :
    Heard leases' (invalidateClient env uid hash all scopes leases c).1 := by
  have hkeep := invalidateClient_withdrawn env uid hash all scopes leases c
  refine ⟨fun _ hh => ?_, fun hv hr => ?_⟩
  · have : c.helloComplete = false := (congrArg hello hkeep.core).symm.trans hh
    simp [hhello] at this
  have hrole : c.connectionRole = .authorizationLease :=
    (congrArg role hkeep.core).symm.trans hr
  rw [hkeep.core, hgrants]
  unfold Session.invalidateClient at hv ⊢
  rw [if_pos hmatch] at hv ⊢
  rw [(dropScopes_stream scopes _).1]
  replace hv := (dropScopes_stream scopes _).2 hv
  by_cases hlost : scopes ∩ clientGrants leases c = ∅
  · simp only [hlost, ne_eq, not_true_eq_false, false_and, if_false] at hv ⊢
    rw [h.lease hv hrole]
    ext scope
    have hnot : scope ∉ scopes ∩ clientGrants leases c := by simp [hlost]
    rw [mem_inter] at hnot
    rw [mem_sdiff]
    tauto
  · simp only [hlost, hrole, ne_eq, not_false_eq_true, and_self, if_true] at hv ⊢
    unfold notify at hv ⊢
    split at hv
    · rename_i hsend
      rw [if_pos hsend, grantsHeard_append, h.lease (Bool.and_eq_true_iff.mp hsend).1 hrole]
      simp [hearNotice, clientGrants_eq]
    · simp at hv

end Heard

namespace Informed

variable {s t : State} {i : Nat} {c : Client} {f : Client → Client}

section

variable (h : Informed s)

include h

theorem modify (hc : s.clients[i]? = some c) (hclients : t.clients = s.clients.modify i f)
    (hinv : Inv s) (hothers : ∀ d ∈ s.clients, d.connectionId ≠ c.connectionId →
      d.connectionRole = .authorizationLease → d.core.grants t.leases = d.core.grants s.leases)
    (hf : Heard t.leases (f c)) : Informed t := by
  intro d hd
  rw [hclients] at hd
  rcases (mem_modify hinv.clients_nodup hc).mp hd with rfl | ⟨hd, hne⟩
  · exact hf
  · exact (h d hd).grants (hothers d hd hne)

theorem mapClients (hclients : t.clients = s.clients.map f)
    (hleases : t.leases = s.leases) (hf : ∀ c, (f c).core = c.core)
    (hstream : ∀ c, (f c).streamValid = c.streamValid ∧ (f c).sent = c.sent) : Informed t := by
  intro d hd
  rw [hclients] at hd
  obtain ⟨c, hc, rfl⟩ := mem_map.mp hd
  rw [hleases]
  refine (h c hc).of_eq (hf c) (hstream c).1 (hstream c).2

section

variable (hinv : Inv s)

include hinv

theorem invalidate (env : Env) (uid : Nat) (hash : Hash) (all : Bool)
    (scopes : Scopes) : Informed (invalidateConnectedPermissions env s uid hash all scopes) := by
  classical
  intro d hd
  rw [hinv.invalidate_clients] at hd
  obtain ⟨c, hc, rfl⟩ := mem_map.mp hd
  have hgrants := hinv.invalidate_grants env uid hash all scopes (mem_cores hc)
  by_cases hmatch : c.core.Matches s.leases uid hash all
  · rw [if_pos hmatch] at hgrants
    refine (h c hc).invalidateClient ?_ ((hinv.revokeMatches_iff hc).mpr hmatch) hgrants
    obtain ⟨-, p, -, hp, -⟩ := hmatch
    by_contra hhello
    have hnone := (hinv.registry.fresh _ (mem_cores hc) (by simpa [core] using hhello)).2.1
    simp [hp] at hnone
  · rw [if_neg hmatch] at hgrants
    have hskip : (invalidateClient env uid hash all scopes s.leases c).1 = c := by
      unfold invalidateClient
      rw [if_neg fun hm => hmatch ((hinv.revokeMatches_iff hc).mp hm)]
    rw [hskip]
    exact (h c hc).grants fun _ => hgrants

theorem remove (i : Nat) : Informed (removeClient s i) := by
  cases hc : s.clients[i]? with
  | none =>
    unfold removeClient
    rwa [hc]
  | some =>
    have hunlinks := removeClient_unlinks hinv.registry hc
    intro d hd
    obtain ⟨o, ho, rfl | ⟨rfl, hstays⟩⟩ := mem_removeClient hc hd
    · exact .invalid rfl
    have hmem : d.core ∈ s.cores.eraseIdx i := by
      rw [State.cores, eraseIdx_map]
      exact mem_map_of_mem ho
    exact (h d (mem_of_mem_eraseIdx ho)).grants fun _ => Finset.Subset.antisymm
      (grants_unlinks _ hunlinks)
      (grants_subset_unlinks (cores_getElem? hc) hmem hunlinks hstays)

theorem hello (hc : s.clients[i]? = some c)
    (hfresh : c.helloComplete = false) (role : ConnectionRole) (operations : Nat) :
    Informed (s.modifyClient i (greet role operations)) := by
  have hnone := (hinv.fresh_core hc hfresh).2.1
  refine h.modify hc rfl hinv (fun _ _ _ _ => rfl) ⟨fun _ hh => ?_, fun hv _ => ?_⟩
  · simp [greet] at hh
  · exact ((h c (mem_of_getElem? hc)).fresh hv hfresh).trans
      (grants_of_none hnone).symm

theorem helloLease (hc : s.clients[i]? = some c)
    (hfresh : c.helloComplete = false) (operations : Nat) :
    Informed (newLease (s.modifyClient i (greet .authorizationLease operations)) i) := by
  rw [newLease_greet operations hc]
  refine h.modify hc rfl hinv (fun d hd _ _ => ?_) ⟨fun _ hh => ?_, fun hv _ => ?_⟩
  · exact Finset.Subset.antisymm (grants_newLease _ _ rfl)
      (hinv.grants_subset_newLease hc hfresh hd)
  · simp [greet] at hh
  · rw [grants_of_lease rfl (Function.update_self ..) rfl]
    exact (h c (mem_of_getElem? hc)).fresh hv hfresh

theorem attach (leaseId : Nat) (hc : s.clients[i]? = some c)
    (hhello : c.helloComplete = true) (hrole : c.connectionRole ≠ .authorizationLease) :
    Informed (attachLease s i leaseId) := by
  rcases attachLease_cases leaseId hc with heq | ⟨o, q, -, -, heq⟩
  · rwa [heq]
  rw [heq]
  refine h.modify hc rfl hinv (fun d _ _ _ => grants_reference d.core q)
    ⟨fun _ hh => ?_, fun _ hr => absurd hr hrole⟩
  have : c.helloComplete = false := hh
  simp [hhello] at this

theorem finish (env : Env) (opcode : Opcode) (requestId : Nat)
    (requested granted : Scopes) (began : Nat) (hc : s.clients[i]? = some c)
    (hrole : c.connectionRole = .authorizationLease) :
    Informed (finishClientAuthorization env s i opcode requestId requested granted began) := by
  obtain ⟨reply, leases, hplain, hleases, heq⟩ :=
    finish_cases env opcode requestId requested granted began hc
  have hmem : c.core ∈ s.cores := Inv.mem_core hc
  have hhello : c.helloComplete = true := by
    by_contra hfalse
    have := (hinv.registry.fresh _ hmem (by simpa [core] using hfalse)).1
    simp [core, hrole] at this
  rw [heq]
  refine h.modify hc rfl hinv (fun d hd hne hdrole => ?_) (.announce env opcode hplain hrole hhello)
  -- Another lease connection has a lease of its own.
  rw [hleases]
  split
  · rename_i q hq
    have hqc := (hinv.registry.own _ hmem hrole q hq).1
    cases hdq : d.authorizationLease with
    | none => rw [grants_of_none hdq, grants_of_none hdq]
    | some r =>
      have hrd := (hinv.registry.own _ (mem_cores hd) hdrole r hdq).1
      have hrq : r ≠ q := by
        rintro rfl
        exact hne (hrd.symm.trans hqc)
      simp [grants, core, hdq, Leases.modify, hrq]
  · rfl

end

end

theorem sdiff_inputPermissionScopes (scopes : Scopes) : scopes \ inputPermissionScopes = ∅ := by
  ext scope
  cases scope <;> simp [inputPermissionScopes]

/-- When nobody without identity stands early, the lease of such a client has nothing left
at its turn. -/
theorem failOpenLoop_cleared {env : Env} (hinv : Inv s) (hearly : ¬ EarlySharer s) {turns p : Nat}
    {k : Core} {l : Lease} (hk : s.cores[turns]? = some k) (hident : k.hasIdentity = false)
    (hp : k.lease = some p) (hl : (Session.failOpenLoop env s turns).leases p = some l) :
    l.grantedScopes = ∅ := by
  have hw := withdraws_failOpenLoop env s turns
  by_contra hg
  obtain ⟨hactive, -⟩ := (hinv.withdraws hw).registry.granted p l hl hg
  obtain ⟨_, hshrunk⟩ := hw.leases p
  rw [hl] at hshrunk
  obtain ⟨l₀, hl₀, rfl⟩ := Option.map_eq_some_iff.mp hshrunk.symm
  have hg₀ : l₀.grantedScopes ≠ ∅ := by
    rintro hempty
    simp [hempty] at hg
  refine hearly ⟨turns, k, p, l₀, hk, hident, hp, hl₀, hg₀, fun j hj o ho hruns => ?_⟩
  obtain ⟨u, hu, hsu, hut⟩ := failOpenLoop_revokes env hinv ho hruns hj
  have hmem : k ∈ u.cores := by
    rw [hsu.cores]
    exact mem_of_getElem? hk
  have hmatch : k.Matches u.leases k.uid l₀.hash false :=
    Matches.shrinks ⟨rfl, p, l₀, hp, hl₀, .inr rfl⟩ hsu.leases
  classical
  have hnone := hu.invalidate_grants env k.uid l₀.hash false inputPermissionScopes hmem
  rw [if_pos hmatch, sdiff_inputPermissionScopes] at hnone
  have hleft := grants_shrinks k hut.leases
  rw [hnone, grants_of_lease hp hl hactive] at hleft
  exact hg (subset_empty.mp hleft)

theorem failOpenLoop (h : Informed s) (hinv : Inv s) (hearly : ¬ EarlySharer s) (env : Env)
    (turns : Nat) : Informed (failOpenLoop env s turns) := by
  induction turns with
  | zero => exact h
  | succ turns ih =>
    have hw := withdraws_failOpenLoop env s turns
    have hcleared := @failOpenLoop_cleared s env hinv hearly turns
    rw [failOpenLoop_succ]
    generalize Session.failOpenLoop env s turns = u at *
    have hinvu : Inv u := hinv.withdraws hw
    cases hc : u.clients[turns]? with
    | none =>
      unfold monitorFailOpenClient
      rwa [hc]
    | some c =>
      have hforget : Informed (u.modifyClient turns fun c =>
          { c with permissionStoreGeneration := none }) :=
        ih.modify hc rfl hinvu (fun _ _ _ _ => rfl)
          ((ih c (mem_of_getElem? hc)).of_eq rfl rfl rfl)
      have hinvf : Inv (u.modifyClient turns fun c =>
          { c with permissionStoreGeneration := none }) :=
        hinvu.withdraws (.modifyClient u turns _ fun c => { Withdrawn.refl c with })
      unfold monitorFailOpenClient
      rw [hc]
      dsimp only
      split
      · rename_i hident
        split
        · rename_i p hp
          -- What a connection without identity clears is already gone.
          have hcore : s.cores[turns]? = some c.core := by
            rw [← hw.cores]
            exact cores_getElem? hc
          have hsame : u.leases.modify p (fun l =>
              { l with grantedScopes := l.grantedScopes \ inputPermissionScopes }) = u.leases := by
            refine Leases.modify_eq_self fun l hl => ?_
            have hempty := hcleared hcore (by simpa [core] using hident) hp hl
            rw [hempty, empty_sdiff, ← hempty]
          intro d hd
          change Heard (u.leases.modify p _) d
          rw [hsame]
          exact hforget d hd
        · exact hforget
      split
      · exact hforget
      · exact hforget.invalidate hinvf env _ _ _ _

theorem failOpen (h : Informed s) (hinv : Inv s) (hearly : ¬ EarlySharer s) (env : Env) :
    Informed (permissionMonitorFailOpen env s) := by
  unfold permissionMonitorFailOpen
  split
  · exact h
  let s₀ : State := { s with
    permissionMonitorFailed := true
    inputGeneration := s.inputGeneration + 1 }
  have hinv₀ : Inv s₀ := hinv.withdraws { Withdraws.refl s with failed := fun _ => rfl }
  have hloop : Informed (Session.failOpenLoop env s₀ s.clients.length) :=
    failOpenLoop (s := s₀) h hinv₀ hearly env _
  exact hloop.mapClients rfl rfl (fun _ => rfl) fun _ => ⟨rfl, rfl⟩

end Informed

theorem failOpen_failed (env : Env) (s : State) :
    (permissionMonitorFailOpen env s).permissionMonitorFailed = true := by
  unfold permissionMonitorFailOpen
  split
  · assumption
  · exact (withdraws_failOpenLoop env { s with
      permissionMonitorFailed := true
      inputGeneration := s.inputGeneration + 1 } s.clients.length).failed rfl

/-- Every change keeps the connections informed, except a monitor failure in a state in
which it is permitted to be silent. -/
theorem informed_change (hinv : Inv s) (h : Informed s) (hc : Change p s t) : Informed t ∨
      p.silentClear ∧ s.permissionMonitorFailed = false ∧ t.permissionMonitorFailed = true := by
  cases hc with
  | quiet hq =>
    left
    intro d hd
    obtain ⟨c, hc, hcd⟩ := exists_of_mem_right hq.clients hd
    rw [hq.leases]
    exact (h c hc).quiet hcd
  | accept =>
    left
    intro d hd
    rcases mem_append.mp hd with hd | hd
    · exact h d hd
    · rw [List.mem_singleton] at hd
      subst hd
      exact ⟨fun _ _ => rfl, fun _ hr => by simp at hr⟩
  | remove i => exact .inl (h.remove hinv i)
  | hello role operations hc hfresh => exact .inl (h.hello hinv hc hfresh role operations)
  | helloLease operations hc hfresh => exact .inl (h.helloLease hinv hc hfresh operations)
  | attach leaseId hc hhello hrole => exact .inl (h.attach hinv leaseId hc hhello hrole)
  | attempt state started hc hrole hhello hattempted hstarted | identified hasIdentity hash hc ht =>
    have hheard := h _ (mem_of_getElem? hc)
    exact .inl (h.modify hc rfl hinv (fun _ _ _ _ => rfl) ⟨hheard.fresh, hheard.lease⟩)
  | finish env opcode requestId requested granted began hc hrole =>
    exact .inl (h.finish hinv env opcode requestId requested granted began hc hrole)
  | invalidate env uid hash all scopes => exact .inl (h.invalidate hinv env uid hash all scopes)
  | revoked env task =>
    have hw := h.invalidate hinv env task.uid task.hash (task.revokeTarget == .all)
      task.revokeScopes
    exact .inl hw
  | failOpen env he =>
    by_cases hearly : EarlySharer s
    · cases hfailed : s.permissionMonitorFailed with
      | true =>
        left
        unfold permissionMonitorFailOpen
        rwa [if_pos hfailed]
      | false => exact .inr ⟨he hearly, rfl, failOpen_failed env s⟩
    · exact .inl (h.failOpen hinv hearly env)
  | pause
  | pauseOnly hrefresh
  | resume => exact .inl (h.mapClients rfl rfl (fun _ => rfl) fun _ => ⟨rfl, rfl⟩)

/-- When the monitor fails, no connection without identity stands before every identified
client of the executable whose lease it shares. -/
def MonitorOk (s : State) (input : Input) : Prop :=
  ∀ t, step s input = some t → s.permissionMonitorFailed = false →
    t.permissionMonitorFailed = true → ¬ EarlySharer s

theorem informed_step {input : Input} (hs : Settled s) (h : Informed s) (hok : MonitorOk s input)
    (ht : step s input = some t) : Informed t := by
  obtain ⟨u, hu, rfl⟩ := step_changes hs ht
  have hend : (s.permissionMonitorFailed = true → u.permissionMonitorFailed = true) ∧
      (Informed u ∨ EarlySharer s ∧ s.permissionMonitorFailed = false ∧
        u.permissionMonitorFailed = true) := by
    refine hu.keeps (P := fun u => (s.permissionMonitorFailed = true →
        u.permissionMonitorFailed = true) ∧ (Informed u ∨ EarlySharer s ∧
        s.permissionMonitorFailed = false ∧ u.permissionMonitorFailed = true))
      hs.toInv ⟨id, .inl h⟩ ?_
    rintro u v hinv ⟨hfailed, hinformed⟩ hchange
    refine ⟨fun hsf => hchange.frame.failed (hfailed hsf), ?_⟩
    rcases hinformed with hinformed | ⟨hearly, hsf, huf⟩
    · rcases informed_change hinv hinformed hchange with hv | ⟨hearly, huf, hvf⟩
      · exact .inl hv
      · refine .inr ⟨hearly, ?_, hvf⟩
        by_contra hsf
        simp [hfailed (by simpa using hsf)] at huf
    · exact .inr ⟨hearly, hsf, hchange.frame.failed huf⟩
  rcases hend.2 with hinformed | ⟨hearly, hsf, huf⟩
  · exact hinformed
  · exact absurd hearly (hok _ ht hsf huf)

/-- In every run in which the monitor never fails with such a connection in the table, a
lease connection with a valid stream has heard exactly what its lease grants. -/
theorem notices_give_grants {init s : State} (hinit : init.Initial)
    (h : Reaches step MonitorOk init s) :
    ∀ c ∈ s.clients, c.connectionRole = .authorizationLease → c.streamValid = true →
      grantsHeard c.sent = clientGrants s.leases c := by
  have hboth : Settled s ∧ Informed s := by
    refine h.invariant (P := fun s => Settled s ∧ Informed s) ⟨hinit.settled, ?_⟩ ?_
    · simp [Informed, hinit.clients]
    · rintro _ _ _ ⟨hs, hinformed⟩ hok ht
      exact ⟨hs.step ht, informed_step hs hinformed hok ht⟩
  exact fun c hc hrole hvalid => (hboth.2 c hc).lease hvalid hrole

/-- `MonitorOk` as it can be evaluated. -/
def checkMonitor (s : State) (input : Input) : Bool :=
  s.permissionMonitorFailed || (step s input).all (fun t => !t.permissionMonitorFailed) ||
    (List.range s.clients.length).all fun i => s.clients[i]?.all fun c =>
      c.hasIdentity || (c.authorizationLease.bind s.leases).all fun l =>
        decide (l.grantedScopes = ∅) || (s.clients.take i).any fun o =>
          o.hasIdentity && o.uid == c.uid && o.identityHash == l.hash

theorem monitorOk_of_check (s : State) (input : Input) (h : checkMonitor s input = true) :
    MonitorOk s input := by
  rintro t ht hsf htf ⟨i, k, p, l, hk, hident, hp, hl, hg, hfirst⟩
  obtain ⟨c, hc, rfl⟩ := exists_of_cores_getElem? hk
  have hcp : c.authorizationLease.bind s.leases = some l := by
    rw [show c.authorizationLease = some p from hp]
    exact hl
  have hident' : c.hasIdentity = false := hident
  simp only [checkMonitor, hsf, ht, htf, Option.all_some, Bool.not_true, Bool.false_or,
    List.all_eq_true, List.mem_range] at h
  have hi := h i (List.getElem?_eq_some_iff.mp hc).1
  simp only [hc, Option.all_some, hident', hcp, hg, decide_false, Bool.false_or, List.any_eq_true,
    Bool.and_eq_true, beq_iff_eq] at hi
  obtain ⟨o, ho, ⟨hoident, houid⟩, hohash⟩ := hi
  obtain ⟨j, hj⟩ := List.mem_iff_getElem?.mp ho
  have hji : j < i := by
    by_contra hge
    simp [hge] at hj
  rw [List.getElem?_take, if_pos hji] at hj
  exact hfirst j hji o.core (cores_getElem? hj) ⟨hoident, houid, hohash⟩

/-- Two connections, of which `owner` is granted Input Monitoring and `sharer` attaches to
its lease; then the monitor fails. -/
def monitorFailureRun (owner sharer : Nat) : List Input :=
  [{ event := .storeChanged 0 [1] {.inputMonitoring} }, { event := .accept 10 0 5 },
   { event := .accept 10 0 5 },
   { event := .request owner 1 (.hello (some ⟨3, 0, 1, 0⟩)) },
   { event := .identified (owner + 1) (some ([1], 5)) },
   { event := .worker 0 (.start none) },
   { event := .worker 0 (.store true) },
   { event := .worker 0 (.finish true) },
   { event := .permissionDone 0 },
   { event := .request sharer 1 (.hello (some ⟨0, 0, 0, owner + 1⟩)) },
   { event := .notification .failure }]

theorem notices_give_grants_run :
    ∃ s, Transition.Reaches step MonitorOk {} s ∧ s.permissionMonitorFailed = true ∧
      (∃ c ∈ s.clients, c.connectionRole = .authorizationLease ∧ c.streamValid = true ∧
        .sessionRevoked {.inputMonitoring} ∈ c.sent) ∧
      ∀ c ∈ s.clients, c.connectionRole = .authorizationLease → c.streamValid = true →
        grantsHeard c.sent = clientGrants s.leases c := by
  have hguard : Transition.GuardedRun step MonitorOk ({} : State) (monitorFailureRun 0 1) :=
    guardedRun_of_check monitorOk_of_check (by decide)
  obtain ⟨s, hs, hfailed, htold⟩ := Transition.Reaches.exists_of_run
    (q := fun s => s.permissionMonitorFailed ∧ ∃ c ∈ s.clients,
      c.connectionRole = .authorizationLease ∧ c.streamValid = true ∧
        .sessionRevoked {.inputMonitoring} ∈ c.sent) hguard (by decide)
  exact ⟨s, hs, hfailed, htold, notices_give_grants initial_default hs⟩

/-- With the attached connection first, the owner keeps a grant it no longer has. -/
theorem silent_clear_reached : ∃ s, Reaches step always {} s ∧ ∃ c ∈ s.clients,
      c.connectionRole = .authorizationLease ∧ c.streamValid = true ∧
      grantsHeard c.sent = {.inputMonitoring} ∧ clientGrants s.leases c = ∅ :=
  exists_reaches _ _ (monitorFailureRun 1 0) (by decide)

end KeysharpInput.Session
