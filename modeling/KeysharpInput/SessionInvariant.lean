import KeysharpInput.Changes

/-!
The invariant of the control plane, kept by every change.
Besides the registry it says for whom work is in flight: an identification belongs to a
lease connection that is not identified yet, and a store check or a prompt to one that
is. The rest is history: a task of the current permission generation was made after
every revoke that has been processed took effect in the store.
-/
namespace KeysharpInput.Session

open Function Tables List State Nat Session.Core

variable {p : Permits} {s t : State}

def Core.Identifying (c : Core) : Prop :=
  c.role = .authorizationLease ∧ c.hello = true ∧ c.attempted = true ∧ c.hasIdentity = false

structure Work (cs : List Core) (next : Nat) (identifies : List IdentifyTask)
    (tasks : List PermissionTask) (prompts : List PromptTask) : Prop where
  identifies : ∀ x ∈ identifies, x.connectionId < next ∧
    ∀ c ∈ cs, c.connectionId = x.connectionId → c.Identifying
  checks : ∀ x ∈ tasks, x.kind = .check → x.connectionId < next ∧
    ∀ c ∈ cs, c.connectionId = x.connectionId → c.hasIdentity = true
  prompts : ∀ x ∈ prompts, x.connectionId < next ∧
    ∀ c ∈ cs, c.connectionId = x.connectionId → c.hasIdentity = true

structure Timely (s : State) (generation createdAt : Nat) : Prop where
  past : generation ≤ s.permissionGeneration
  revokes : generation = s.permissionGeneration →
    ∀ r ∈ s.processedRevokes, r.committedAt < createdAt

structure Inv (s : State) : Prop where
  registry : Registry s.cores s.leases s.nextConnectionId
  work : Work s.cores s.nextConnectionId s.identifies s.tasks s.prompts
  taskTimes : ∀ x ∈ s.tasks, TaskTimes s.clock x
  promptTimes : ∀ x ∈ s.prompts, PromptTimes s.clock x
  tasks : ∀ x ∈ s.tasks, Timely s x.permissionGeneration x.createdAt
  prompts : ∀ x ∈ s.prompts, Timely s x.permissionGeneration x.createdAt
  revokes : ∀ r ∈ s.processedRevokes, r.committedAt < s.clock

namespace Work

variable {cs cs' : List Core} {next next' : Nat} {identifies : List IdentifyTask}
  {tasks : List PermissionTask} {prompts : List PromptTask}

theorem mono (h : Work cs next identifies tasks prompts) (hnext : next ≤ next')
    (hold : ∀ c' ∈ cs', next ≤ c'.connectionId ∨ ∃ c ∈ cs, c.connectionId = c'.connectionId ∧
      (c.Identifying → c'.Identifying) ∧ (c.hasIdentity = true → c'.hasIdentity = true)) :
    Work cs' next' identifies tasks prompts := by
  have hmove : ∀ (id : Nat) (P : Core → Prop), id < next →
      (∀ c ∈ cs, ∀ c' ∈ cs', c.connectionId = c'.connectionId →
        (c.Identifying → c'.Identifying) → (c.hasIdentity = true → c'.hasIdentity = true) →
        P c → P c') →
      (∀ c ∈ cs, c.connectionId = id → P c) →
      id < next' ∧ ∀ c' ∈ cs', c'.connectionId = id → P c' := by
    intro _ _ hid hP hall
    refine ⟨lt_of_lt_of_le hid hnext, fun c' hc' heq => ?_⟩
    rcases hold c' hc' with hnew | ⟨c, hc, hsame, hi, hh⟩
    · omega
    · exact hP c hc c' hc' hsame hi hh (hall c hc (hsame.trans heq))
  refine ⟨fun x hx => ?_, fun x hx hk => ?_, fun x hx => ?_⟩
  · obtain ⟨hid, hall⟩ := h.identifies x hx
    exact hmove _ _ hid (fun _ _ _ _ _ hi _ => hi) hall
  · obtain ⟨hid, hall⟩ := h.checks x hx hk
    exact hmove _ _ hid (fun _ _ _ _ _ _ hh => hh) hall
  · obtain ⟨hid, hall⟩ := h.prompts x hx
    exact hmove _ _ hid (fun _ _ _ _ _ _ hh => hh) hall

/-- A change of the one client `c` that keeps its id, its identity and its identification. -/
theorem modify {i : Nat} {c : Core} {f : Core → Core} (h : Work cs next identifies tasks prompts)
    (hc : cs[i]? = some c) (hid : (f c).connectionId = c.connectionId)
    (hi : c.Identifying → (f c).Identifying)
    (hh : c.hasIdentity = true → (f c).hasIdentity = true) :
    Work (cs.modify i f) next identifies tasks prompts := by
  refine h.mono (le_refl _) fun c' hc' => .inr ?_
  rcases mem_of_mem_modify hc' with hmem | ⟨a, ha, hai, rfl⟩
  · exact ⟨c', hmem, rfl, id, id⟩
  · obtain rfl : a = c := Option.some.inj (hai.symm.trans hc)
    exact ⟨a, ha, hid.symm, hi, hh⟩

end Work

namespace Inv

variable {s t : State} {i : Nat} {c : Client}

theorem mem_core (hc : s.clients[i]? = some c) : c.core ∈ s.cores :=
  mem_of_getElem? (cores_getElem? hc)

section

variable (h : Inv s)

include h

theorem clients_nodup : (s.clients.map Client.connectionId).Nodup := by
  have := h.registry.nodup
  rwa [cores, map_map] at this

theorem of_registry {cs : List Core} (hcores : t.cores = cs)
    (hreg : Registry cs t.leases t.nextConnectionId)
    (hwork : Work cs t.nextConnectionId t.identifies s.tasks s.prompts)
    (hgen : s.permissionGeneration ≤ t.permissionGeneration) (htasks : t.tasks = s.tasks)
    (hprompts : t.prompts = s.prompts) (hclock : t.clock = s.clock)
    (hrevokes : t.processedRevokes = s.processedRevokes) : Inv t := by
  have htimely : ∀ g a, Timely s g a → Timely t g a := by
    intro g a hg
    refine ⟨le_trans hg.past hgen, fun heq => ?_⟩
    rw [hrevokes]
    have := hg.past
    exact hg.revokes (by omega)
  subst hcores
  refine ⟨hreg, ?_, ?_, ?_, ?_, ?_, ?_⟩
  · rwa [htasks, hprompts]
  · rw [htasks, hclock]
    exact h.taskTimes
  · rw [hprompts, hclock]
    exact h.promptTimes
  · rw [htasks]
    exact fun x hx => htimely _ _ (h.tasks x hx)
  · rw [hprompts]
    exact fun x hx => htimely _ _ (h.prompts x hx)
  · rw [hrevokes, hclock]
    exact h.revokes

theorem withdraws (hw : Withdraws s t) : Inv t := by
  refine h.of_registry hw.cores ?_ ?_ hw.generation hw.tasks hw.prompts hw.clock hw.revokes
  · rw [hw.next]
    exact h.registry.shrink hw.leases
  · rw [hw.next, hw.identifies]
    exact h.work

theorem of_cores (hcores : t.cores = s.cores) (hleases : t.leases = s.leases)
    (hnext : t.nextConnectionId = s.nextConnectionId)
    (hgen : s.permissionGeneration ≤ t.permissionGeneration)
    (hidentifies : t.identifies = s.identifies) (htasks : t.tasks = s.tasks)
    (hprompts : t.prompts = s.prompts) (hclock : t.clock = s.clock)
    (hrevokes : t.processedRevokes = s.processedRevokes) : Inv t := by
  refine h.of_registry hcores ?_ ?_ hgen htasks hprompts hclock hrevokes
  · rw [hleases, hnext]
    exact h.registry
  · rw [hnext, hidentifies]
    exact h.work

theorem quiet {fresh : Prop} (hq : QuietStep fresh s t) : Inv t := by
  have hcores : t.cores = s.cores :=
    map_eq_of_forall₂ Client.core (fun _ _ hc => hc.core) hq.clients
  have htimely : ∀ g a, Timely s g a → Timely t g a := by
    intro g a hg
    refine ⟨le_trans hg.past hq.generation, fun heq => ?_⟩
    rw [hq.revokes]
    have := hg.past
    have := hq.generation
    exact hg.revokes (by omega)
  have hnew : ∀ g, g ≤ s.permissionGeneration → Timely t g s.clock := by
    intro g hg
    refine ⟨le_trans hg hq.generation, fun _ => ?_⟩
    rw [hq.revokes]
    exact h.revokes
  refine ⟨?_, ⟨?_, ?_, ?_⟩, ?_, ?_, ?_, ?_, ?_⟩
  · rw [hcores, hq.leases, hq.next]
    exact h.registry
  · rw [hcores, hq.next]
    exact fun x hx => h.work.identifies x (hq.identifies x hx)
  · rw [hcores, hq.next]
    intro x hx hk
    rcases hq.tasks x hx with ⟨y, hy, hxy⟩ | hx
    · rw [hxy.connectionId]
      exact h.work.checks y hy (hxy.kind ▸ hk)
    · exact hx.client hk
  · rw [hcores, hq.next]
    intro x hx
    rcases hq.prompts x hx with ⟨y, hy, hxy⟩ | hx
    · rw [hxy.connectionId]
      exact h.work.prompts y hy
    · exact hx.client
  · rw [hq.clock]
    intro x hx
    rcases hq.tasks x hx with ⟨y, hy, hxy⟩ | hx
    · exact hxy.times (h.taskTimes y hy)
    refine ⟨le_of_eq hx.created, ?_, ?_⟩
    · rw [hx.committed]
      exact zero_le _
    · simp [hx.queued, hx.allowed]
  · rw [hq.clock]
    intro x hx
    rcases hq.prompts x hx with ⟨y, hy, hxy⟩ | hx
    · exact hxy.times (h.promptTimes y hy)
    · exact ⟨le_of_eq hx.created, fun _ => hx.allowed, by simp [hx.queued]⟩
  · intro x hx
    rcases hq.tasks x hx with ⟨y, hy, hxy⟩ | hx
    · rw [hxy.generation, hxy.created]
      exact htimely _ _ (h.tasks y hy)
    · rw [hx.created]
      exact hnew _ hx.generation
  · intro x hx
    rcases hq.prompts x hx with ⟨y, hy, hxy⟩ | hx
    · rw [hxy.generation, hxy.created]
      exact htimely _ _ (h.prompts y hy)
    · rw [hx.created]
      exact hnew _ hx.generation
  · rw [hq.revokes, hq.clock]
    exact h.revokes

theorem accept (pid uid startTime : Nat) : Inv { s with
    clients := s.clients ++ [{ connectionId := s.nextConnectionId, pid, uid, startTime }]
    nextConnectionId := s.nextConnectionId + 1 } := by
  refine h.of_registry map_append (h.registry.append rfl rfl rfl rfl rfl) ?_ (le_refl _) rfl rfl
    rfl rfl
  exact h.work.mono (le_succ _)
    (forall_mem_concat (fun c hc => .inr ⟨c, hc, rfl, id, id⟩) (.inl (le_refl _)))

theorem remove (i : Nat) : Inv (removeClient s i) := by
  cases hc : s.clients[i]? with
  | none =>
    unfold removeClient
    rw [hc]
    exact h
  | some c =>
    have hcores := removeClient_cores hc
    have hunlinks := removeClient_unlinks h.registry hc
    obtain ⟨_, _, -, heq⟩ := removeClient_frame s i
    rw [heq] at hcores hunlinks ⊢
    refine h.of_registry hcores (h.registry.erase (cores_getElem? hc) hunlinks) ?_ (le_refl _)
      rfl rfl rfl rfl
    exact h.work.mono (le_refl _) fun c hc => .inr ⟨c, mem_of_mem_eraseIdx hc, rfl, id, id⟩

section

variable (hc : s.clients[i]? = some c)

include hc

theorem fresh_core (hfresh : c.helloComplete = false) :
    c.connectionRole = .rpc ∧ c.authorizationLease = none ∧ c.identityAttempted = false ∧
      c.hasIdentity = false :=
  h.registry.fresh c.core (mem_core hc) hfresh

theorem hello (hfresh : c.helloComplete = false) (role : ConnectionRole) (operations : Nat) :
    Inv (s.modifyClient i (Client.greet role operations)) := by
  obtain ⟨-, hlease, -, hident⟩ := h.fresh_core hc hfresh
  have hl : c.core.lease = none := hlease
  have hi : c.core.hasIdentity = false := hident
  have hh : c.core.hello = false := hfresh
  have hcores : (s.modifyClient i (Client.greet role operations)).cores =
      s.cores.modify i fun k => { k with role := role, hello := true } :=
    cores_modifyClient _ fun _ => rfl
  refine h.of_registry hcores ?_ ?_ (le_refl _) rfl rfl rfl rfl
  · refine h.registry.modify_core (cores_getElem? hc) (fun _ => rfl) rfl rfl ?_ ?_ ?_ ?_ ?_
    · simp
    · simp [hl]
    · simp [Owns, hl]
    · simp [hi]
    · simp [hi]
  · exact h.work.modify (cores_getElem? hc) rfl (by simp [Identifying, hh]) (by simp [hi])

theorem newLease (hrole : c.connectionRole = .authorizationLease)
    (hhello : c.helloComplete = true) (hnone : c.authorizationLease = none)
    (hident : c.hasIdentity = false) : Inv (newLease s i) := by
  have hmem : c.core ∈ s.cores := mem_core hc
  have heq : Session.newLease s i = { s.modifyClient i fun c =>
        { c with authorizationLease := some c.connectionId } with
      leases := update s.leases c.connectionId
        (some { references := 1, active := true, id := c.connectionId }) } := by
    simp [Session.newLease, hc]
  have hcores : (s.modifyClient i fun c =>
      { c with authorizationLease := some c.connectionId }).cores =
      s.cores.modify i fun k => { k with lease := some k.connectionId } :=
    cores_modifyClient _ fun _ => rfl
  -- Nobody points at the new lease yet: a pointer would make this client its owner.
  have hzero : attached s.cores c.connectionId = 0 := by
    by_contra hne
    obtain ⟨d, hd, hp⟩ := countP_pos_iff.mp (Nat.pos_of_ne_zero hne)
    have how := (h.registry.pointers d hd c.connectionId (by simpa using hp)).2 c.core hmem rfl
    have : c.authorizationLease = some c.connectionId := how.2.2
    simp [hnone] at this
  rw [heq]
  refine h.of_registry hcores ?_ ?_ (Nat.le_refl _) rfl rfl rfl rfl
  · refine h.registry.link (cores_getElem? hc) (fun _ => rfl) ⟨hnone, rfl, rfl, hhello, hident,
      update_self .., rfl, fun q hq => update_of_ne hq _ _, ?_, .inl ⟨rfl, hrole, rfl⟩⟩
    exact congrArg (· + 1) hzero.symm
  · exact h.work.modify (cores_getElem? hc) rfl (fun hid => hid) (fun hid => hid)

theorem grants_subset_newLease
    (hfresh : c.helloComplete = false) {d : Client} (hd : d ∈ s.clients) {l : Lease} :
    d.core.grants s.leases ⊆
      d.core.grants (update s.leases c.connectionId (some l)) := by
  have hnone := (h.fresh_core hc hfresh).2.1
  refine grants_subset fun q m hq hm => .inr ⟨m, ?_, rfl, Finset.Subset.refl _⟩
  have hqc : q ≠ c.connectionId := by
    rintro rfl
    have how := (h.registry.pointers _ (mem_cores hd) _ hq).2 c.core (mem_core hc) rfl
    exact Option.some_ne_none _ (how.2.2.symm.trans hnone)
  exact (update_of_ne hqc _ _).trans hm

theorem helloLease (hfresh : c.helloComplete = false) (operations : Nat) :
    Inv (Session.newLease (s.modifyClient i (Client.greet .authorizationLease operations)) i) := by
  obtain ⟨-, hlease, -, hident⟩ := h.fresh_core hc hfresh
  have hc' : (s.modifyClient i (Client.greet .authorizationLease operations)).clients[i]? =
      some (c.greet .authorizationLease operations) := by
    simp [modifyClient, hc]
  exact (h.hello hc hfresh .authorizationLease operations).newLease hc' rfl rfl hlease hident

end

/-- What `leaseOwner` finds is the owner of an active lease, of the same user. -/
theorem leaseOwner_owns {leaseId p : Nat} {o : Client}
    (ho : leaseOwner s c leaseId = some o) (hp : o.authorizationLease = some p) :
    o.core ∈ s.cores ∧ o.core.Owns p ∧ o.core.peer = c.core.peer ∧
      ∃ l, s.leases p = some l ∧ l.active = true ∧ l.id = leaseId := by
  have hmem : o.core ∈ s.cores := mem_cores (mem_of_find?_eq_some ho)
  have hall := find?_some ho
  simp only [Bool.and_eq_true, beq_iff_eq, hp, Option.any_eq_true] at hall
  obtain ⟨⟨⟨⟨⟨hrole, -⟩, l, hl, hactive, hid⟩, huid⟩, hpid⟩, hstart⟩ := hall
  have hpeer : o.core.peer = c.core.peer := by simp [Core.peer, Client.core, huid, hpid, hstart]
  exact ⟨hmem, ⟨(h.registry.own _ hmem hrole p hp).1.symm, hrole, hp⟩, hpeer, l, hl, hactive, hid⟩

theorem attach (leaseId : Nat) (hc : s.clients[i]? = some c)
    (hhello : c.helloComplete = true) (hrole : c.connectionRole ≠ .authorizationLease)
    (hnone : c.authorizationLease = none) : Inv (attachLease s i leaseId) := by
  unfold attachLease
  rw [hc, Option.bind_some]
  cases hp : (leaseOwner s c leaseId).bind (·.authorizationLease) with
  | none => exact h
  | some p =>
    obtain ⟨o, ho, hop⟩ := Option.bind_eq_some_iff.mp hp
    obtain ⟨homem, how, hpeer, l, hl, hactive, -⟩ := h.leaseOwner_owns ho hop
    have hident : c.hasIdentity = false := by
      rw [← Bool.not_eq_true]
      exact fun htrue => hrole (h.registry.identified _ (mem_core hc) htrue).1
    have hcores : (s.modifyClient i fun c => { c with authorizationLease := some p }).cores =
        s.cores.modify i fun k => { k with lease := some p } := cores_modifyClient _ fun _ => rfl
    refine h.of_registry hcores ?_ ?_ (le_refl _) rfl rfl rfl rfl
    · refine h.registry.link (l := { l with references := l.references + 1 }) (cores_getElem? hc)
        (fun _ => rfl) ⟨hnone, rfl, rfl, hhello, hident, ?_, hactive, fun q hq => ?_, ?_,
          .inr ⟨hrole, o.core, homem, how, hpeer, l, hl, rfl, rfl⟩⟩
      · simp [modifyLease, modifyClient, Leases.modify, hl]
      · simp [modifyLease, modifyClient, Leases.modify, hq]
      · rw [← h.registry.counted p l hl]
    · exact h.work.modify (cores_getElem? hc) rfl (fun hid => hid) (fun hid => hid)

theorem attempt (state : ClientState) (started : List IdentifyTask)
    (hc : s.clients[i]? = some c) (hrole : c.connectionRole = .authorizationLease)
    (hhello : c.helloComplete = true) (hattempted : c.identityAttempted = false)
    (hstarted : ∀ t ∈ started, t.connectionId = c.connectionId) :
    Inv { s.modifyClient i fun c => { c with identityAttempted := true, state := state }
      with identifies := s.identifies ++ started } := by
  have hmem : c.core ∈ s.cores := mem_core hc
  have hident : c.core.hasIdentity = false := by
    rw [← Bool.not_eq_true]
    intro htrue
    have : c.identityAttempted = true := (h.registry.identified _ hmem htrue).2.2
    simp [hattempted] at this
  have hcores : (s.modifyClient i fun c =>
      { c with identityAttempted := true, state := state }).cores =
      s.cores.modify i fun k => { k with attempted := true } := cores_modifyClient _ fun _ => rfl
  have hwork : Work (s.cores.modify i fun k => { k with attempted := true }) s.nextConnectionId
      s.identifies s.tasks s.prompts :=
    h.work.modify (cores_getElem? hc) rfl (fun hid => ⟨hid.1, hid.2.1, rfl, hid.2.2.2⟩)
      fun hid => hid
  refine h.of_registry hcores ?_ ⟨?_, hwork.checks, hwork.prompts⟩ (le_refl _) rfl rfl rfl rfl
  · refine h.registry.modify_core (cores_getElem? hc) (fun _ => rfl) rfl rfl ?_ (fun hr _ _ => hr)
      (fun _ how => how.2.1) (fun hid => ⟨hid, rfl⟩) ?_
    · intro hh
      have : c.helloComplete = false := hh
      simp [hhello] at this
    · simp [hident]
  intro x hx
  rcases mem_append.mp hx with hx | hx
  · exact hwork.identifies x hx
  rw [hstarted x hx]
  refine ⟨(h.registry.bounds _ hmem).2, fun d hd hdc => ?_⟩
  rcases (mem_modify h.registry.nodup (cores_getElem? hc)).mp hd with rfl | ⟨-, hne⟩
  · exact ⟨hrole, hhello, rfl, hident⟩
  · exact absurd hdc hne

theorem identified (hasIdentity : Bool) (hash : Option Hash)
    (hc : s.clients[i]? = some c) (ht : ∃ t ∈ s.identifies, t.connectionId = c.connectionId) :
    Inv ({ s with identifies := s.identifies.filter fun t =>
        t.connectionId != c.connectionId }.modifyClient i fun c =>
      { c with
        hasIdentity := hasIdentity
        identityHash := hash.getD c.identityHash
        state := .ready }) := by
  let f : Core → Core := fun k =>
    { k with hasIdentity := hasIdentity, identityHash := hash.getD k.identityHash }
  have hmem : c.core ∈ s.cores := mem_core hc
  obtain ⟨t, ht, htc⟩ := ht
  obtain ⟨hrole, hhello, hattempted, hident⟩ := (h.work.identifies t ht).2 _ hmem htc.symm
  have hcores : (s.modifyClient i fun c =>
      { c with
        hasIdentity := hasIdentity
        identityHash := hash.getD c.identityHash
        state := .ready }).cores = s.cores.modify i f := cores_modifyClient _ fun _ => rfl
  have hcases : ∀ d ∈ s.cores.modify i f, d.connectionId = c.connectionId ∨ d ∈ s.cores := by
    intro d hd
    rcases (mem_modify h.registry.nodup (cores_getElem? hc)).mp hd with rfl | ⟨hd, -⟩
    · exact .inl rfl
    · exact .inr hd
  -- A check or a prompt for this client would make it identified already.
  have hkeep : ∀ id, (∀ d ∈ s.cores, d.connectionId = id → d.hasIdentity = true) →
      ∀ d ∈ s.cores.modify i f, d.connectionId = id → d.hasIdentity = true := by
    intro _ hall d hd hdid
    rcases hcases d hd with hdc | hd
    · have := hall c.core hmem (hdc.symm.trans hdid)
      simp [hident] at this
    · exact hall d hd hdid
  refine h.of_registry hcores ?_ ⟨?_, ?_, ?_⟩ (le_refl _) rfl rfl rfl rfl
  · refine h.registry.modify_core (cores_getElem? hc) (fun _ => rfl) rfl rfl ?_ (fun _ _ _ => hrole)
      (fun _ _ => hrole) ?_ (fun _ => ⟨hrole, hhello, hattempted⟩)
    · simp [f, hhello]
    · simp [hident]
  · intro x hx
    obtain ⟨hx, hxc⟩ := mem_filter.mp hx
    obtain ⟨hlt, hall⟩ := h.work.identifies x hx
    refine ⟨hlt, fun d hd hdx => ?_⟩
    rcases hcases d hd with hdc | hd
    · simp [← hdx, hdc] at hxc
    · exact hall d hd hdx
  · intro x hx hk
    obtain ⟨hlt, hall⟩ := h.work.checks x hx hk
    exact ⟨hlt, hkeep _ hall⟩
  · intro x hx
    obtain ⟨hlt, hall⟩ := h.work.prompts x hx
    exact ⟨hlt, hkeep _ hall⟩

theorem finish (env : Env) (opcode : Opcode) (requestId : Nat)
    (requested granted : Scopes) (began : Nat) (hc : s.clients[i]? = some c)
    (hrole : c.connectionRole = .authorizationLease) (hident : granted ≠ ∅ → c.hasIdentity = true) :
    Inv (finishClientAuthorization env s i opcode requestId requested granted began) := by
  have hmem : c.core ∈ s.cores := mem_core hc
  unfold finishClientAuthorization
  rw [hc]
  dsimp only
  refine h.of_registry (map_modify_of_eq Client.core fun c =>
    (Withdrawn.announce env opcode _ _ c).core) ?_ h.work (le_refl _) rfl rfl rfl rfl
  cases hp : c.authorizationLease with
  | none => exact h.registry
  | some p =>
    have howns : c.core.Owns p := ⟨(h.registry.own _ hmem hrole p hp).1.symm, hrole, hp⟩
    refine h.registry.grant hmem howns granted began hident ?_ ?_
    · exact update_self ..
    · exact fun q hq => update_of_ne hq _ _

theorem revoked (env : Env) (task : PermissionTask) (hcommitted : task.committedAt < s.clock) :
    Inv (recordRevoke (invalidateConnectedPermissions env s task.uid task.hash
      (task.revokeTarget == .all) task.revokeScopes) task) := by
  have hinv := h.withdraws (.invalidate env s task.uid task.hash (task.revokeTarget == .all)
    task.revokeScopes)
  have hold : ∀ {g a}, Timely s g a → g ≠ s.permissionGeneration + 1 := by
    intro g a hg
    have := hg.past
    omega
  refine ⟨hinv.registry, hinv.work, hinv.taskTimes, hinv.promptTimes, ?_, ?_, ?_⟩
  · exact fun x hx => ⟨(hinv.tasks x hx).past, fun heq => absurd heq (hold (h.tasks x hx))⟩
  · exact fun x hx => ⟨(hinv.prompts x hx).past, fun heq => absurd heq (hold (h.prompts x hx))⟩
  intro r hr
  rcases mem_append.mp hr with hr | hr
  · exact hinv.revokes r hr
  · rw [mem_singleton] at hr
    rw [hr]
    exact hcommitted

theorem mapClients (f : Client → Client) (hf : ∀ c, (f c).core = c.core) (inflight : Bool) :
    Inv { s with clients := s.clients.map f, permissionRefreshInflight := inflight } := by
  refine h.of_cores ?_ rfl rfl (le_refl _) rfl rfl rfl rfl rfl
  simp [cores, hf]

end

end Inv

theorem Change.inv (hc : Change p s t) (h : Inv s) : Inv t := by
  cases hc with
  | quiet hq => exact h.quiet hq
  | accept pid uid startTime => exact h.accept pid uid startTime
  | remove i => exact h.remove i
  | hello role operations hc hfresh => exact h.hello hc hfresh role operations
  | helloLease operations hc hfresh => exact h.helloLease hc hfresh operations
  | attach leaseId hc hhello hrole hnone => exact h.attach leaseId hc hhello hrole hnone
  | attempt state started hc hrole hhello hattempted hstarted =>
    exact h.attempt state started hc hrole hhello hattempted hstarted
  | identified hasIdentity hash hc ht => exact h.identified hasIdentity hash hc ht
  | finish env opcode requestId requested granted began hc hrole hident =>
    exact h.finish env opcode requestId requested granted began hc hrole hident
  | invalidate env uid hash all scopes => exact h.withdraws (.invalidate env s uid hash all scopes)
  | revoked env task hcommitted => exact h.revoked env task hcommitted
  | failOpen env => exact h.withdraws (.failOpen env s)
  | pause => exact h.mapClients Client.pause (fun _ => rfl) true
  | pauseOnly => exact h.mapClients Client.pause (fun _ => rfl) s.permissionRefreshInflight
  | resume => exact h.mapClients Client.resume (fun _ => rfl) s.permissionRefreshInflight

theorem Changes.inv (hc : Changes p s t) (h : Inv s) : Inv t := by
  induction hc with
  | refl => exact h
  | tail _ hlast ih => exact hlast.inv ih

theorem Changes.keeps {P : State → Prop} (hc : Changes p s t) (h : Inv s) (hP : P s)
    (hchange : ∀ u v, Inv u → P u → Change p u v → P v) : P t := by
  have hboth : Inv t ∧ P t := by
    induction hc with
    | refl => exact ⟨h, hP⟩
    | tail _ hlast ih => exact ⟨hlast.inv ih.1, hchange _ _ ih.1 ih.2 hlast⟩
  exact hboth.2

end KeysharpInput.Session
