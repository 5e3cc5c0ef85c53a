import KeysharpInput.SessionInvariant

/-!
Every handler of the control plane is a sequence of changes.
The proofs follow the text of the handlers. Two facts are found on the way that the
changes ask for: a check or a prompt is made for an identified client only, and an
answer of the store is used only when it was asked for after every processed revoke.
-/
namespace KeysharpInput.Session

open Function Tables List Finset Nat Session.Client

namespace Quiet

variable {fresh : Prop} {leases : Leases} {c : Client}

theorem refl (leases : Leases) (c : Client) : Quiet fresh leases c c :=
  ⟨rfl, .inl (Subset.refl _), .inl (Subset.refl _), .inl (Subset.refl _),
    id, fun h => ⟨h, rfl⟩, fun _ => id, fun _ => id, .inr (.refl c)⟩

theorem reply {frame : Frame} (hplain : frame.Plain) : Quiet fresh leases c (c.reply frame) := by
  refine { refl leases c with stream := fun h => ⟨h, ?_⟩ }
  simp only [Client.reply, grantsHeard, foldl_append]
  exact hplain _

theorem invalidate : Quiet fresh leases c c.invalidate :=
  { refl leases c with
    stream := fun h => absurd h Bool.false_ne_true
    covered := fun _ _ hvalid => absurd hvalid Bool.false_ne_true }

end Quiet

theorem SameTask.refl (now : Nat) (x : PermissionTask) : SameTask now x x :=
  ⟨rfl, rfl, rfl, rfl, id⟩

theorem SamePrompt.refl (now : Nat) (x : PromptTask) : SamePrompt now x x :=
  ⟨rfl, rfl, rfl, id⟩

theorem QuietStep.refl (fresh : Prop) (s : State) : QuietStep fresh s s where
  clients := forall₂_same.mpr fun c _ => .refl s.leases c
  leases := rfl
  next := rfl
  failed := rfl
  refresh := id
  generation := le_refl _
  identifies := fun _ h => h
  tasks := fun x hx => .inl ⟨x, hx, .refl _ x⟩
  prompts := fun x hx => .inl ⟨x, hx, .refl _ x⟩
  clock := rfl
  revokes := rfl
  ordinals := fun _ => le_refl _

namespace Changes

variable {p : Permits} {s t u : State} {i : Nat} {c : Client}

theorem refl (s : State) : Changes p s s := Relation.ReflTransGen.refl

theorem trans (h : Changes p s t) (k : Changes p t u) : Changes p s u :=
  Relation.ReflTransGen.trans h k

theorem one (h : Change p s t) : Changes p s t := Relation.ReflTransGen.single h

theorem quiet (h : QuietStep p.subscribes s t) : Changes p s t := one (.quiet h)

theorem modifyClient (s : State) (i : Nat) (f : Client → Client)
    (hf : ∀ c, Quiet p.subscribes s.leases c (f c)) : Changes p s (s.modifyClient i f) :=
  quiet { QuietStep.refl p.subscribes s with
    clients := forall₂_modify (fun c _ => .refl s.leases c) fun c _ => hf c }

theorem modifyClientAt {f : Client → Client} (hc : s.clients[i]? = some c)
    (hf : Quiet p.subscribes s.leases c (f c)) : Changes p s (s.modifyClient i f) := by
  refine quiet { QuietStep.refl p.subscribes s with
    clients := forall₂_modify (fun c _ => .refl s.leases c) fun d hd => ?_ }
  rwa [Option.some.inj (hd.symm.trans hc)]

theorem modifyClientTwiceAt {f g : Client → Client} (hc : s.clients[i]? = some c)
    (hq : Quiet p.subscribes s.leases c (g (f c))) :
    Changes p s ((s.modifyClient i f).modifyClient i g) := by
  have heq : (s.modifyClient i f).modifyClient i g = s.modifyClient i (g ∘ f) := by
    simp [State.modifyClient, modify_modify_eq]
  rw [heq]
  exact modifyClientAt hc hq

theorem mapClients (s : State) (f : Client → Client)
    (hf : ∀ c, Quiet p.subscribes s.leases c (f c)) :
    Changes p s { s with clients := s.clients.map f } :=
  quiet { QuietStep.refl p.subscribes s with clients := forall₂_map fun c _ => hf c }

theorem sendStatus (s : State) (i : Nat) (opcode : Opcode) (requestId : Nat) (status : Status)
    (detail : Detail) : Changes p s (sendStatus s i opcode requestId status detail) :=
  modifyClient s i _ fun _ => .reply fun _ => rfl

theorem sendAuthorizationStatus (s : State) (i : Nat) (opcode : Opcode) (requestId : Nat)
    (status : Status) (detail : Detail) (granted : Scopes) :
    Changes p s (sendAuthorizationStatus s i opcode requestId status detail granted) :=
  modifyClient s i _ fun _ => .reply (authorizationFrame_plain _ _ _ _ _ _)

theorem sendPendingAuthorizationStatus (s : State) (i : Nat) (status : Status) (detail : Detail)
    (granted : Scopes) : Changes p s (sendPendingAuthorizationStatus s i status detail granted) :=
  modifyClient s i _ fun _ => .reply (authorizationFrame_plain _ _ _ _ _ _)

theorem forgetAuthorization (s : State) (i : Nat) :
    Changes p s (s.modifyClient i fun c => { c with pendingAuthorization := false }) :=
  modifyClient s i _ fun c => { Quiet.refl s.leases c with }

theorem endAuthorization (s : State) (i : Nat) (opcode : Opcode) (requestId : Nat)
    (status : Status) : Changes p s (endAuthorization s i opcode requestId status) :=
  (forgetAuthorization s i).trans (sendAuthorizationStatus ..)

theorem denyPending (s : State) (i : Nat) (status : Status) (detail : Detail) :
    Changes p s (Session.sendPendingAuthorizationStatus (s.modifyClient i fun c =>
      { c with pendingAuthorization := false }) i status detail ∅) :=
  (forgetAuthorization s i).trans (sendPendingAuthorizationStatus ..)

variable (env : Env)

/-- A task is queued for client `i`. -/
theorem submitPermissionTask (task : PermissionTask) (hc : s.clients[i]? = some c)
    (hnew : NewTask s task) : Changes p s (submitPermissionTask env s i task).1 := by
  unfold Session.submitPermissionTask
  rw [hc]
  dsimp only
  split
  · exact refl s
  refine quiet { QuietStep.refl p.subscribes s with
    clients := forall₂_modify (fun c _ => .refl s.leases c)
      fun c _ => { Quiet.refl s.leases c with }
    tasks := fun x hx => ?_ }
  rcases mem_append.mp hx with hx | hx
  · exact .inl ⟨x, hx, .refl _ x⟩
  · rw [List.mem_singleton] at hx
    exact .inr (hx ▸ hnew)

theorem startPermissionCheck (h : Inv s) (hc : s.clients[i]? = some c)
    (hident : c.hasIdentity = true) : Changes p s (startPermissionCheck env s i).1 := by
  have hquiet : Changes p s (s.modifyClient i fun c =>
      { c with pendingPermissionGeneration := s.permissionGeneration }) :=
    modifyClient s i _ fun c => { Quiet.refl s.leases c with }
  have hc' : (s.modifyClient i fun c => { c with
      pendingPermissionGeneration := s.permissionGeneration }).clients[i]? =
      some { c with pendingPermissionGeneration := s.permissionGeneration } := by
    simp [State.modifyClient, hc]
  unfold Session.startPermissionCheck
  rw [hc]
  refine hquiet.trans (submitPermissionTask env _ hc' ?_)
  have hmem := (hquiet.inv h).registry
  refine ⟨rfl, rfl, rfl, rfl, le_refl _, fun _ => ⟨?_, fun d hd hdc => ?_⟩⟩
  · exact (h.registry.bounds _ (Inv.mem_core hc)).2
  · obtain rfl := eq_of_key_eq hmem.nodup hd (Inv.mem_core hc') hdc
    exact hident

theorem failOpen (h : EarlySharer s → p.silentClear) :
    Changes p s (permissionMonitorFailOpen env s) :=
  one (.failOpen s env h)

theorem refreshExternalPermissions (s : State) :
    Changes p s (refreshExternalPermissions env s).1 := by
  unfold Session.refreshExternalPermissions
  split
  · exact refl s
  split
  · exact refl s
  rename_i hinflight
  split
  · exact refl s
  split
  · exact one (.pauseOnly s (by simpa using hinflight))
  refine (one (.pause s)).trans
    (quiet { QuietStep.refl p.subscribes _ with tasks := fun x hx => ?_ })
  rcases List.mem_append.mp hx with hx | hx
  · exact .inl ⟨x, hx, .refl _ x⟩
  · rw [List.mem_singleton] at hx
    rw [hx]
    exact .inr ⟨rfl, rfl, rfl, rfl, le_refl _, by simp⟩

theorem beginAuthorization (opcode : Opcode) (mode : AuthorizationMode)
    (requested : Scopes) (requestId : Nat) (h : Inv s) (hc : s.clients[i]? = some c)
    (hrole : c.connectionRole = .authorizationLease) (hhello : c.helloComplete = true) :
    Changes p s (beginAuthorization env s i opcode mode requested requestId) := by
  have hremember : Changes p s
      (s.modifyClient i (rememberAuthorization opcode mode requested requestId)) :=
    modifyClient s i _ fun c => { Quiet.refl s.leases c with }
  have hc' : (s.modifyClient i
      (rememberAuthorization opcode mode requested requestId)).clients[i]? =
      some (c.rememberAuthorization opcode mode requested requestId) := by
    simp [State.modifyClient, hc]
  unfold Session.beginAuthorization
  rw [hc]
  dsimp only
  split
  · exact sendAuthorizationStatus ..
  split
  · exact one (.finish env opcode requestId ∅ ∅ s.clock hc hrole (by simp) (by simp) (by simp))
  split
  · exact sendAuthorizationStatus ..
  split
  · rename_i hattempted
    have hfresh : (c.rememberAuthorization opcode mode requested requestId).identityAttempted =
        false := by simpa [rememberAuthorization] using hattempted
    split
    · exact hremember.trans (one (.attempt .identifying _ hc' hrole hhello hfresh
        (by simp [rememberAuthorization])))
    · have hattempt : Changes p _ _ := one (.attempt .ready [] hc' hrole hhello hfresh (by simp))
      rw [append_nil] at hattempt
      exact (hremember.trans hattempt).trans (endAuthorization ..)
  split
  · exact hremember
  split
  · exact hremember.trans (endAuthorization ..)
  rename_i hident
  split
  · exact hremember.trans (endAuthorization ..)
  have hstart := startPermissionCheck (p := p) env (hremember.inv h) hc'
    (by simpa [rememberAuthorization] using hident)
  split
  · exact hremember.trans hstart
  · exact (hremember.trans hstart).trans (endAuthorization ..)

theorem answerAttachment (s : State) (i : Nat) (requested : Scopes) (leaseId requestId : Nat) :
    Changes p s (answerAttachment s i requested leaseId requestId) := by
  unfold Session.answerAttachment
  split
  · exact refl s
  · split <;> exact sendAuthorizationStatus ..

theorem leaseOwner_greet (h : Inv s) (hc : s.clients[i]? = some c)
    (hfresh : c.helloComplete = false) {role : ConnectionRole}
    (hrole : role ≠ .authorizationLease) (operations leaseId : Nat) :
    leaseOwner (s.modifyClient i (greet role operations)) (c.greet role operations) leaseId =
      leaseOwner s c leaseId := by
  have hrpc := (h.fresh_core hc hfresh).1
  refine find?_modify_of_neg hc ?_ ?_
  · simp [hrpc]
  · simp [greet, hrole]

theorem acceptHello (role : ConnectionRole) (mode : AuthorizationMode)
    (requested : Scopes) (leaseId requestId : Nat) (h : Inv s) (hc : s.clients[i]? = some c)
    (hfresh : c.helloComplete = false)
    (hnull : role = .authorizationLease → leaseId ≠ 0 ∨ env.allocOk = false → p.nullLease)
    (hlate : role ≠ .authorizationLease → p.lateAttach ∨ s.permissionRefreshInflight = false ∨
      ∀ o, leaseOwner s c leaseId = some o → clientGrants s.leases o = ∅) :
    Changes p s (acceptHello env s i role mode requested leaseId requestId) := by
  have hc' : (s.modifyClient i (greet role s.availableOperations)).clients[i]? =
      some (c.greet role s.availableOperations) := by
    simp [State.modifyClient, hc]
  unfold Session.acceptHello
  split
  · rename_i hrole
    subst hrole
    split
    · rename_i hid
      exact (one (.hello .authorizationLease _ hc hfresh fun hr => hnull hr (.inl hid))).trans
        (sendStatus ..)
    split
    · rename_i halloc
      exact (one (.hello .authorizationLease _ hc hfresh fun hr =>
        hnull hr (.inr (by simpa using halloc)))).trans (sendStatus ..)
    have hlease : Changes p s _ := one (.helloLease s.availableOperations hc hfresh)
    refine hlease.trans (beginAuthorization (c := { c.greet .authorizationLease
      s.availableOperations with authorizationLease := some c.connectionId })
      env _ _ _ _ (hlease.inv h) ?_ rfl rfl)
    simp [newLease, State.modifyClient, hc, greet]
  · rename_i hrole
    have hgreet : Changes p s (s.modifyClient i (greet role s.availableOperations)) :=
      one (.hello role _ hc hfresh fun hr => absurd hr hrole)
    refine hgreet.trans (.trans ?_ (answerAttachment ..))
    split
    · refine one (.attach leaseId hc' rfl hrole (h.fresh_core hc hfresh).2.1 ?_)
      rw [leaseOwner_greet h hc hfresh hrole]
      exact hlate hrole
    · exact refl _

theorem handleClientHello (requestId : Nat) (payload : Option HelloPayload)
    (h : Inv s) (hc : s.clients[i]? = some c)
    (hnull : ∀ x, payload = some x → decodeRole x.role = some .authorizationLease →
      x.reserved ≠ 0 ∨ env.allocOk = false → p.nullLease)
    (hlate : ∀ x, payload = some x → decodeRole x.role ≠ some .authorizationLease →
      p.lateAttach ∨ s.permissionRefreshInflight = false ∨
        ∀ o, leaseOwner s c x.reserved = some o → clientGrants s.leases o = ∅) :
    Changes p s (handleClientHello env s i requestId payload) := by
  unfold Session.handleClientHello
  rw [hc]
  dsimp only
  split
  · exact sendStatus ..
  rename_i hfresh
  split
  · exact sendStatus ..
  rename_i x
  split
  · exact sendStatus ..
  · exact sendStatus ..
  · exact sendStatus ..
  rename_i role mode requested hrole _ _
  refine acceptHello env role mode requested _ requestId h hc (by simpa using hfresh) ?_ ?_
  · exact fun hr => hnull x rfl (hr ▸ hrole)
  · exact fun hr => hlate x rfl (by simpa [hrole] using hr)

theorem handleAuthorize (requestId : Nat) (payload : Option AuthorizePayload)
    (h : Inv s) (hc : s.clients[i]? = some c) (hhello : c.helloComplete = true) :
    Changes p s (handleAuthorize env s i requestId payload) := by
  unfold Session.handleAuthorize
  rw [hc]
  dsimp only
  split
  · exact sendStatus ..
  rename_i hrole
  split
  · exact sendStatus ..
  split
  · exact sendStatus ..
  split
  · exact sendStatus ..
  · exact sendStatus ..
  split
  · exact sendStatus ..
  · exact beginAuthorization env _ _ _ _ h hc (by simpa using hrole) hhello

theorem handleDevicesAuthorize (requestId : Nat) (payloadEmpty : Bool)
    (h : Inv s) (hc : s.clients[i]? = some c) (hhello : c.helloComplete = true) :
    Changes p s (handleDevicesAuthorize env s i requestId payloadEmpty) := by
  unfold Session.handleDevicesAuthorize
  rw [hc]
  dsimp only
  split
  · exact sendStatus ..
  rename_i hrole
  split
  · exact sendStatus ..
  · exact beginAuthorization env _ _ _ _ h hc (by simpa using hrole) hhello

theorem newTask_of_not_check (s : State) (task : PermissionTask) (hkind : task.kind ≠ .check)
    (hcreated : task.createdAt = s.clock) (hcommitted : task.committedAt = 0)
    (hqueued : task.phase = .queued) (hallowed : task.allowed = ∅)
    (hgen : task.permissionGeneration = s.permissionGeneration) : NewTask s task :=
  ⟨hcreated, hcommitted, hqueued, hallowed, le_of_eq hgen, fun hk => absurd hk hkind⟩

theorem submitOrBusy (opcode : Opcode) (requestId : Nat) (task : PermissionTask)
    (hc : s.clients[i]? = some c) (hnew : NewTask s task) :
    Changes p s (if (Session.submitPermissionTask env s i task).2 then
        (Session.submitPermissionTask env s i task).1
      else Session.sendStatus (Session.submitPermissionTask env s i task).1 i opcode requestId .busy
        .none) := by
  have hsubmit := submitPermissionTask (p := p) env task hc hnew
  split
  · exact hsubmit
  · exact hsubmit.trans (sendStatus ..)

theorem handleListPermissions (requestId : Nat) (payloadEmpty : Bool)
    (hc : s.clients[i]? = some c) :
    Changes p s (handleListPermissions env s i requestId payloadEmpty) := by
  unfold Session.handleListPermissions
  rw [hc]
  dsimp only
  split
  · exact sendStatus ..
  split
  · exact sendStatus ..
  split
  · exact sendStatus ..
  · exact submitOrBusy env _ _ _ hc
      (newTask_of_not_check s _ (by simp [newPermissionTask]) rfl rfl rfl rfl rfl)

theorem handleRevokePermissions (requestId : Nat) (payload : Option RevokePayload)
    (hc : s.clients[i]? = some c) :
    Changes p s (handleRevokePermissions env s i requestId payload) := by
  unfold Session.handleRevokePermissions
  rw [hc]
  dsimp only
  split
  · exact sendStatus ..
  split
  · exact sendStatus ..
  split
  · exact sendStatus ..
  split
  · exact sendStatus ..
  split
  · exact sendStatus ..
  split
  · exact sendStatus ..
  · exact submitOrBusy env _ _ _ hc
      (newTask_of_not_check s _ (by simp [newPermissionTask]) rfl rfl rfl rfl rfl)

theorem mem_clientGrants {leases : Leases} {scope : Scope}
    (h : clientHasScope leases c {scope} = true) : scope ∈ clientGrants leases c := by
  unfold clientHasScope at h
  split at h
  · simp at h
  · simpa using h

theorem handleObserverSubscription (opcode : Opcode) (requestId : Nat) (t : HookType)
    (hc : s.clients[i]? = some c) :
    Changes p s (handleObserverSubscription env s i c opcode requestId t) := by
  have hanswer : ∀ u : State, Changes p u (u.modifyClient i fun c =>
      c.reply (.observedResult opcode requestId (c.observerSubscriptions.erase .devices))) :=
    fun u => modifyClient u i _ fun _ => .reply fun _ => rfl
  unfold Session.handleObserverSubscription
  split
  · split
    · exact sendStatus ..
    rename_i hscope
    simp only [Bool.or_eq_true, Bool.not_eq_true', not_or, Bool.not_eq_false] at hscope
    split
    · exact sendStatus ..
    · exact .trans (modifyClientAt hc { Quiet.refl s.leases c with
        observed := .inr (mem_clientGrants hscope.2) }) (hanswer _)
  · refine .trans (modifyClient s i _ fun c => ?_) (hanswer _)
    exact { Quiet.refl s.leases c with observed := .inl (erase_subset _ _) }

theorem raiseOrdinal (s : State) (t : HookType) : Changes p s { s with
    nextHookSubscriptionOrdinal := update s.nextHookSubscriptionOrdinal t
      (s.nextHookSubscriptionOrdinal t + 1) } := by
  refine quiet { QuietStep.refl p.subscribes s with ordinals := fun k => ?_ }
  dsimp only
  rw [update_apply]
  split
  · rename_i hk
    rw [hk]
    exact le_succ _
  · exact le_refl _

theorem changeHookSubscription (opcode : Opcode) (t : HookType) (hc : s.clients[i]? = some c)
    (hscope : opcode = .subscribeHook → .inputMonitoring ∈ clientGrants s.leases c)
    (hfresh : opcode = .subscribeHook → p.subscribes) :
    Changes p s (changeHookSubscription s i c opcode t) := by
  unfold Session.changeHookSubscription
  split
  · rename_i hsub
    split
    · exact refl s
    · exact (raiseOrdinal s t).trans (modifyClientAt hc { (Quiet.refl s.leases c :
        Quiet p.subscribes s.leases c c) with
        hooks := .inr (hscope hsub), ordinals := .inl (hfresh hsub) })
  · exact modifyClient s i _ fun c => { (Quiet.refl s.leases c :
      Quiet p.subscribes s.leases c c) with
      hooks := .inl (erase_subset _ _), ordinals := .inr (.erase c t) }

theorem rollbackHookSubscription (opcode : Opcode) (t : HookType) (hc : s.clients[i]? = some c) :
    Changes p s ((Session.changeHookSubscription s i c opcode t).modifyClient i fun o =>
      { o with
        hookSubscriptions := c.hookSubscriptions
        hookSubscriptionOrdinal :=
          update o.hookSubscriptionOrdinal t (c.hookSubscriptionOrdinal t) }) := by
  have hback : ∀ ordinals : HookType → Nat,
      (∀ k, k ≠ t → ordinals k = c.hookSubscriptionOrdinal k) →
      Quiet p.subscribes s.leases c { c with
        hookSubscriptionOrdinal := update ordinals t (c.hookSubscriptionOrdinal t) } := by
    intro ordinals hothers
    refine { (Quiet.refl s.leases c : Quiet p.subscribes s.leases c c) with
      ordinals := .inr fun k hk => ⟨hk, ?_⟩ }
    dsimp only
    rw [update_apply]
    split
    · rename_i hkt
      rw [hkt]
    · rename_i hne
      exact hothers k hne
  unfold Session.changeHookSubscription
  split
  · split
    · exact modifyClientAt hc (hback _ fun _ _ => rfl)
    · exact (raiseOrdinal s t).trans (modifyClientTwiceAt hc
        (hback _ fun k hne => update_of_ne hne _ _))
  · exact modifyClientTwiceAt hc (hback _ fun k hne => update_of_ne hne _ _)

theorem handleCallbackSubscription (opcode : Opcode) (requestId : Nat) (t : HookType)
    (hc : s.clients[i]? = some c) (hfresh : opcode = .subscribeHook → p.subscribes) :
    Changes p s (handleCallbackSubscription env s i c opcode requestId t) := by
  unfold Session.handleCallbackSubscription
  split
  · exact sendStatus ..
  rename_i hdenied
  split
  · exact sendStatus ..
  split
  · refine .trans (changeHookSubscription opcode t hc (fun hsub => ?_) hfresh)
      (modifyClient _ i _ fun _ => .reply fun _ => rfl)
    simp only [hsub, decide_true, Bool.true_and, Bool.or_eq_true, Bool.not_eq_true', not_or,
      Bool.not_eq_false] at hdenied
    exact mem_clientGrants hdenied.2
  · exact (rollbackHookSubscription opcode t hc).trans (sendStatus ..)

theorem handleHookSubscription (opcode : Opcode) (requestId : Nat) (payload : Option HookPayload)
    (hc : s.clients[i]? = some c) (hfresh : opcode = .subscribeHook → p.subscribes) :
    Changes p s (handleHookSubscription env s i opcode requestId payload) := by
  unfold Session.handleHookSubscription
  rw [hc]
  dsimp only
  split
  · exact sendStatus ..
  split
  · exact sendStatus ..
  split
  · exact sendStatus ..
  split
  · exact sendStatus ..
  split
  · exact handleObserverSubscription env opcode requestId _ hc
  · exact handleCallbackSubscription env opcode requestId _ hc hfresh

theorem handleDevicesSubscribe (requestId : Nat) (payloadEmpty : Bool)
    (hc : s.clients[i]? = some c) :
    Changes p s (handleDevicesSubscribe env s i requestId payloadEmpty) := by
  unfold Session.handleDevicesSubscribe
  rw [hc]
  dsimp only
  split
  · exact sendStatus ..
  split
  · exact sendStatus ..
  split
  · exact sendStatus ..
  rename_i hscope
  simp only [Bool.or_eq_true, Bool.not_eq_true', not_or, Bool.not_eq_false] at hscope
  split
  · exact sendStatus ..
  · exact .trans (modifyClientAt hc { Quiet.refl s.leases c with
      observed := .inr (mem_clientGrants hscope.2) }) (sendStatus ..)

theorem handleSetBlockInput (requestId : Nat) (payload : Option BlockPayload)
    (hc : s.clients[i]? = some c) :
    Changes p s (handleSetBlockInput env s i requestId payload) := by
  unfold Session.handleSetBlockInput
  rw [hc]
  dsimp only
  split
  · exact sendStatus ..
  split
  · exact sendStatus ..
  split
  · exact sendStatus ..
  rename_i mask _
  split
  · exact sendStatus ..
  rename_i hscope
  split
  · exact sendStatus ..
  split
  · exact sendStatus ..
  split
  · refine modifyClientAt hc { (Quiet.reply fun _ => rfl :
      Quiet p.subscribes s.leases c (c.reply (.blockResult requestId mask))) with block := ?_ }
    by_cases hmask : mask = ∅
    · left
      rw [hmask]
      exact empty_subset _
    · right
      have : clientHasScope s.leases c {.inputControl} = true := by simpa [hmask] using hscope
      exact mem_clientGrants this
  · exact sendStatus ..

theorem handleRequest (requestId : Nat) (r : Request) (h : Inv s)
    (hc : s.clients[i]? = some c) (hhello : r.isHello = true ∨ c.helloComplete = true)
    (hnull : ∀ x, r = .hello (some x) → decodeRole x.role = some .authorizationLease →
      x.reserved ≠ 0 ∨ env.allocOk = false → p.nullLease)
    (hlate : ∀ x, r = .hello (some x) → decodeRole x.role ≠ some .authorizationLease →
      p.lateAttach ∨ s.permissionRefreshInflight = false ∨
        ∀ o, leaseOwner s c x.reserved = some o → clientGrants s.leases o = ∅)
    (hfresh : ∀ payload, r = .subscribeHook payload → p.subscribes) :
    Changes p s (handleRequest env s i requestId r) := by
  cases r with
  | hello payload =>
    exact handleClientHello env requestId payload h hc (fun x hx => hnull x (hx ▸ rfl))
      fun x hx => hlate x (hx ▸ rfl)
  | authorize payload =>
    exact handleAuthorize env requestId payload h hc (by simpa [Request.isHello] using hhello)
  | devicesAuthorize payloadEmpty =>
    exact handleDevicesAuthorize env requestId payloadEmpty h hc
      (by simpa [Request.isHello] using hhello)
  | permissionsList payloadEmpty => exact handleListPermissions env requestId payloadEmpty hc
  | permissionsRevoke payload => exact handleRevokePermissions env requestId payload hc
  | subscribeHook payload =>
    exact handleHookSubscription env _ requestId payload hc fun _ => hfresh payload rfl
  | unsubscribeHook payload => exact handleHookSubscription env _ requestId payload hc nofun
  | devicesSubscribe payloadEmpty => exact handleDevicesSubscribe env requestId payloadEmpty hc
  | setBlockInput payload => exact handleSetBlockInput env requestId payload hc

end Changes

end KeysharpInput.Session
