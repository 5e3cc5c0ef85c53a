import KeysharpInput.Privilege

/-!
How long a lease lives.
A lease counts the clients that point at it and is freed with the last of them. It is active for
as long as the connection that allocated it stays. When that one leaves, the others keep their
pointer, but nothing is granted to them, they use nothing, and the output queue no longer admits
what they send: the queue's table of owners is rebuilt from the clients whenever one comes or
goes, and leaves out those whose lease has ended.
-/
namespace KeysharpInput.Session

open Function Tables Transition List State Nat Session.Core

/-- An entry of `owners` in the output queue. -/
structure OutputOwner where
  connectionId : Nat
  hooks : Finset HookType
  deriving DecidableEq

def leaseEnded (leases : Leases) (c : Client) : Bool :=
  (c.authorizationLease.bind leases).any fun l => !l.active

def outputQueueSyncOwners (s : State) : List OutputOwner :=
  s.clients.filterMap fun c =>
    if leaseEnded s.leases c then none
    else some ⟨c.connectionId, c.hookSubscriptions \ c.quarantinedHooks⟩

structure OwnerTable where
  control : State
  owners : List OutputOwner := []

def clientsChanged (s t : State) : Bool :=
  t.nextConnectionId != s.nextConnectionId ||
    s.clients.any fun c => !t.clients.any fun d => d.connectionId == c.connectionId

/-- A step of the control plane. `add_client` and `remove_client` rebuild the table; whether
anything else does is given with the input. -/
def OwnerTable.step (table : OwnerTable) (input : Input × Bool) : Option OwnerTable :=
  (Session.step table.control input.1).map fun s =>
    { control := s
      owners := if clientsChanged table.control s || input.2 then outputQueueSyncOwners s
        else table.owners }

def Held (leases : Leases) : Prop := ∀ p l, leases p = some l → 0 < l.references

variable {leases : Leases} {p q : Nat}

theorem Held.modify (h : Held leases) {f : Lease → Lease}
    (hf : ∀ l, l.references ≤ (f l).references) : Held (leases.modify q f) := by
  intro p l hl
  by_cases hpq : p = q
  · subst hpq
    rw [Leases.modify, update_self] at hl
    obtain ⟨l', hl', rfl⟩ := Option.map_eq_some_iff.mp hl
    exact lt_of_lt_of_le (h p l' hl') (hf l')
  · rw [Leases.modify, update_of_ne hpq] at hl
    exact h p l hl

theorem Held.update (h : Held leases) {l : Lease} (hl : 0 < l.references) :
    Held (update leases q (some l)) := by
  intro p l' hl'
  by_cases hpq : p = q
  · subst hpq
    rw [update_self] at hl'
    rwa [← Option.some.inj hl']
  · rw [update_of_ne hpq] at hl'
    exact h p l' hl'

theorem Held.release (h : Held leases) (q : Nat) : Held (leases.release q) := by
  intro p l hl
  by_cases hpq : p = q
  · subst hpq
    rw [Leases.release, update_self] at hl
    obtain ⟨_, -, hl'⟩ := Option.bind_eq_some_iff.mp hl
    split at hl'
    · cases hl'
    · rw [← Option.some.inj hl']
      dsimp only
      omega
  · rw [Leases.release, update_of_ne hpq] at hl
    exact h p l hl

theorem Held.shrinks {leases' : Leases} (h : Held leases) (hs : leases.Shrinks leases') :
    Held leases' := by
  intro p l hl
  obtain ⟨_, hp⟩ := hs p
  rw [hl] at hp
  obtain ⟨l', hl', rfl⟩ := Option.map_eq_some_iff.mp hp.symm
  exact h p l' hl'

theorem Held.remove {s : State} (h : Held s.leases) (i : Nat) : Held (removeClient s i).leases := by
  unfold removeClient
  split
  · exact h
  split
  · exact h
  split
  · refine Held.release ?_ _
    exact h.modify fun _ => le_refl _
  · exact h.release _

def Core.link (k : Core) : Nat × Option Nat := (k.connectionId, k.lease)

def State.links (s : State) : List (Nat × Option Nat) := s.cores.map link

/-- What one change can do to leases and pointers: a new pointer is at the lease of a connection
that is in the table. -/
structure Relinks (s t : State) : Prop where
  held : Held s.leases → Held t.leases
  next : s.nextConnectionId ≤ t.nextConnectionId
  links : ∀ x ∈ t.links, x ∈ s.links ∨ x = (s.nextConnectionId, none) ∨
    x.1 ∈ s.links.map Prod.fst ∧ ∃ q ∈ s.links.map Prod.fst, x.2 = some q

variable {s t : State} {i : Nat}

theorem relinks_of_cores (hcores : t.cores = s.cores)
    (hnext : t.nextConnectionId = s.nextConnectionId) (hheld : Held s.leases → Held t.leases) :
    Relinks s t where
  held := hheld
  next := le_of_eq hnext.symm
  links := fun x hx => by
    rw [links, hcores] at hx
    exact .inl hx

theorem mem_fst_of_mem {k : Core} (hk : k ∈ s.cores) : k.connectionId ∈ s.links.map Prod.fst :=
  mem_map.mpr ⟨k.link, mem_map_of_mem hk, rfl⟩

theorem relinks_of_modify {f : Core → Core} (hcores : t.cores = s.cores.modify i f)
    (hnext : t.nextConnectionId = s.nextConnectionId) (hheld : Held s.leases → Held t.leases)
    (hf : ∀ k ∈ s.cores, (f k).connectionId = k.connectionId ∧
      ((f k).lease = k.lease ∨ ∃ o ∈ s.cores, (f k).lease = some o.connectionId)) :
    Relinks s t where
  held := hheld
  next := le_of_eq hnext.symm
  links := fun x hx => by
    obtain ⟨k, hk, rfl⟩ := mem_map.mp hx
    rw [hcores] at hk
    obtain hk | ⟨a, -, ha, rfl⟩ := mem_of_mem_modify hk
    · exact .inl (mem_map_of_mem hk)
    have hmem := mem_of_getElem? ha
    obtain ⟨hid, hsame | ⟨o, ho, hlease⟩⟩ := hf a hmem
    · refine .inl (mem_map.mpr ⟨a, hmem, ?_⟩)
      rw [link, link, hid, hsame]
    · refine .inr (.inr ⟨?_, o.connectionId, mem_fst_of_mem ho, hlease⟩)
      rw [link, hid]
      exact mem_fst_of_mem hmem

theorem Withdraws.relinks (h : Withdraws s t) : Relinks s t :=
  relinks_of_cores h.cores h.next fun hheld => hheld.shrinks h.leases

theorem Change.relinks {p : Permits} (hinv : Inv s) (hc : Change p s t) : Relinks s t := by
  cases hc with
  | quiet hq =>
    refine relinks_of_cores ?_ hq.next fun h => by rwa [hq.leases]
    exact map_eq_of_forall₂ Client.core (fun _ _ hc => hc.core) hq.clients
  | accept =>
    refine ⟨id, le_succ _, fun x hx => ?_⟩
    obtain ⟨k, hk, rfl⟩ := mem_map.mp hx
    obtain ⟨c, hc, rfl⟩ := exists_of_mem_cores hk
    obtain hc | hc := mem_append.mp hc
    · exact .inl (mem_map_of_mem (mem_cores hc))
    · rw [mem_singleton.mp hc]
      exact .inr (.inl rfl)
  | remove i =>
    obtain ⟨_, leases, -, heq⟩ := removeClient_frame s i
    refine ⟨fun h => h.remove i, le_of_eq (by rw [heq]), fun x hx => .inl ?_⟩
    cases hc : s.clients[i]? with
    | none =>
      unfold removeClient at hx
      rwa [hc] at hx
    | some =>
      obtain ⟨k, hk, rfl⟩ := mem_map.mp hx
      rw [removeClient_cores hc] at hk
      exact mem_map_of_mem (mem_of_mem_eraseIdx hk)
  | hello role =>
    exact relinks_of_modify (cores_modifyClient (fun k => { k with role := role, hello := true })
      fun _ => rfl) rfl id fun _ _ => ⟨rfl, .inl rfl⟩
  | helloLease operations hc =>
    rw [newLease_greet operations hc]
    exact relinks_of_modify (cores_modifyClient (fun k => { k with
      role := .authorizationLease, hello := true, lease := some k.connectionId })
      fun _ => rfl) rfl (fun h => h.update Nat.one_pos) fun k hk => ⟨rfl, .inr ⟨k, hk, rfl⟩⟩
  | attach leaseId hc =>
    obtain heq | ⟨o, q, ho, hoq, heq⟩ := attachLease_cases leaseId hc
    · rw [heq]
      exact relinks_of_cores rfl rfl id
    rw [heq]
    obtain ⟨hmem, howns⟩ := hinv.leaseOwner_owns ho hoq
    refine relinks_of_modify (cores_modifyClient (fun k => { k with lease := some q })
      fun _ => rfl) rfl (fun h => h.modify fun _ => le_succ _) fun k _ => ⟨rfl, .inr ?_⟩
    exact ⟨o.core, hmem, congrArg some howns.1.1.symm⟩
  | attempt =>
    exact relinks_of_modify (cores_modifyClient (fun k => { k with attempted := true })
      fun _ => rfl) rfl id fun _ _ => ⟨rfl, .inl rfl⟩
  | identified hasIdentity hash =>
    exact relinks_of_modify (cores_modifyClient (fun k => { k with
      hasIdentity := hasIdentity, identityHash := hash.getD k.identityHash }) fun _ => rfl)
      rfl id fun _ _ => ⟨rfl, .inl rfl⟩
  | finish env opcode requestId requested granted began hc =>
    obtain ⟨reply, leases, -, hleases, heq⟩ :=
      finish_cases env opcode requestId requested granted began hc
    rw [heq]
    refine relinks_of_cores (cores_modifyClient_of_eq fun c =>
      (Withdrawn.announce env opcode reply _ c).core) rfl fun h => ?_
    rw [hleases]
    split
    · exact h.modify fun _ => le_refl _
    · exact h
  | invalidate => exact (Withdraws.invalidate ..).relinks
  | revoked env task =>
    have hw := (Withdraws.invalidate env s task.uid task.hash (task.revokeTarget == .all)
      task.revokeScopes).relinks
    exact ⟨hw.held, hw.next, hw.links⟩
  | failOpen env => exact (Withdraws.failOpen env s).relinks
  | pause | resume hrefresh => exact relinks_of_cores (by simp only [cores, map_map]; rfl) rfl id
  | pauseOnly =>
    exact relinks_of_cores (by simp only [cores, map_map]; rfl) rfl id

/-- Pointers that a sequence of changes makes are at leases of connections that were there at its
beginning or have come since. -/
structure Traces (s t : State) : Prop where
  next : s.nextConnectionId ≤ t.nextConnectionId
  ids : ∀ x ∈ t.links, x.1 ∈ s.links.map Prod.fst ∨ s.nextConnectionId ≤ x.1
  links : ∀ x ∈ t.links, ∀ q, x.2 = some q →
    x ∈ s.links ∨ q ∈ s.links.map Prod.fst ∨ s.nextConnectionId ≤ q

theorem Traces.refl (s : State) : Traces s s :=
  ⟨le_refl _, fun _ hx => .inl (mem_map_of_mem hx), fun _ hx _ _ => .inl hx⟩

theorem Traces.relinks {u : State} (h : Traces s t) (hr : Relinks t u) : Traces s u where
  next := le_trans h.next hr.next
  ids := fun x hx => by
    obtain hold | rfl | ⟨hfst, -⟩ := hr.links x hx
    · exact h.ids x hold
    · exact .inr h.next
    · obtain ⟨y, hy, heq⟩ := mem_map.mp hfst
      rw [← heq]
      exact h.ids y hy
  links := fun x hx q hq => by
    obtain hold | rfl | ⟨-, r, hr, heq⟩ := hr.links x hx
    · exact h.links x hold q hq
    · cases hq
    · obtain rfl : r = q := Option.some.inj (heq.symm.trans hq)
      obtain ⟨y, hy, rfl⟩ := mem_map.mp hr
      exact .inr (h.ids y hy)

theorem Changes.traces {p : Permits} (hinv : Inv s) (hc : Changes p s t) : Traces s t :=
  hc.keeps hinv (.refl s) fun _ _ hu htraces hchange =>
    htraces.relinks (hchange.relinks hu)

theorem Inv.active_iff (h : Inv s) (hheld : Held s.leases) {l : Lease} (hl : s.leases p = some l) :
    l.active = true ↔ ∃ c ∈ s.clients, c.connectionId = p := by
  constructor
  · intro hactive
    obtain ⟨o, ho, howns, -⟩ := h.registry.owned p l hl hactive
    obtain ⟨c, hc, rfl⟩ := exists_of_mem_cores ho
    exact ⟨c, hc, howns.1⟩
  rintro ⟨c, hc, hid⟩
  have hpos : 0 < attached s.cores p := by
    rw [← h.registry.counted p l hl]
    exact hheld p l hl
  obtain ⟨k, hk, hlease⟩ := countP_pos_iff.mp hpos
  have howns := (h.registry.pointers k hk p (beq_iff_eq.mp hlease)).2 _ (mem_cores hc) hid
  obtain ⟨-, l', hl', hactive⟩ := h.registry.own _ (mem_cores hc) howns.2.1 p howns.2.2
  rwa [Option.some.inj (hl.symm.trans hl')]

theorem leaseEnded_iff (hinv : Inv s) (hheld : Held s.leases) {c : Client} (hc : c ∈ s.clients) :
    leaseEnded s.leases c = true ↔
      ∃ p, c.authorizationLease = some p ∧ ∀ d ∈ s.clients, d.connectionId ≠ p := by
  have hactive := fun p l => hinv.active_iff (p := p) (l := l) hheld
  constructor
  · intro hended
    obtain ⟨l, hl, hfalse⟩ := (Option.any_eq_true _ _).mp hended
    obtain ⟨p, hp, hl⟩ := Option.bind_eq_some_iff.mp hl
    refine ⟨p, hp, fun d hd hid => ?_⟩
    rw [(hactive p l hl).mpr ⟨d, hd, hid⟩] at hfalse
    cases hfalse
  rintro ⟨p, hp, hgone⟩
  obtain ⟨l, hl⟩ := hinv.registry.lease_exists (mem_cores hc) hp
  have hinactive : l.active = false := by
    rw [Bool.eq_false_iff]
    intro htrue
    obtain ⟨d, hd, hid⟩ := (hactive p l hl).mp htrue
    exact hgone d hd hid
  simp [leaseEnded, hp, hl, hinactive]

def OwnersLive (owners : List OutputOwner) (s : State) : Prop :=
  ∀ c ∈ s.clients, leaseEnded s.leases c = true → ∀ o ∈ owners, o.connectionId ≠ c.connectionId

theorem ownersLive_sync (h : Inv s) : OwnersLive (outputQueueSyncOwners s) s := by
  intro c hc hended o ho heq
  obtain ⟨d, hd, hsome⟩ := mem_filterMap.mp ho
  split at hsome
  · cases hsome
  rename_i hlive
  rw [← Option.some.inj hsome] at heq
  obtain rfl := eq_of_key_eq h.clients_nodup hd hc heq
  exact hlive hended

theorem OwnersLive.steady {owners : List OutputOwner} (h : OwnersLive owners s) (hs : Inv s)
    (ht : Inv t) (hsheld : Held s.leases) (htheld : Held t.leases) (htraces : Traces s t)
    (hchanged : clientsChanged s t = false) : OwnersLive owners t := by
  simp only [clientsChanged, Bool.or_eq_false_iff, bne_eq_false_iff_eq, any_eq_false,
    Bool.not_eq_true', beq_iff_eq] at hchanged
  obtain ⟨hnext, hstay⟩ := hchanged
  intro c hc hended
  obtain ⟨p, hp, hgone⟩ := (leaseEnded_iff ht htheld hc).mp hended
  have hgone' : ∀ d ∈ s.clients, d.connectionId ≠ p := by
    intro d hd hid
    refine hstay d hd fun d' hd' hid' => ?_
    exact hgone d' hd' (hid'.trans hid)
  have hlink : c.core.link ∈ t.links := mem_map_of_mem (mem_cores hc)
  obtain hold | hfst | hnew := htraces.links _ hlink p hp
  · obtain ⟨k, hk, hsame⟩ := mem_map.mp hold
    obtain ⟨c₀, hc₀, rfl⟩ := exists_of_mem_cores hk
    obtain ⟨hid, hlease⟩ := Prod.mk.inj hsame
    have hended₀ := (leaseEnded_iff hs hsheld hc₀).mpr ⟨p, hlease.trans hp, hgone'⟩
    intro o ho heq
    exact h c₀ hc₀ hended₀ o ho (heq.trans hid.symm)
  · obtain ⟨x, hx, hxp⟩ := mem_map.mp hfst
    obtain ⟨k, hk, rfl⟩ := mem_map.mp hx
    obtain ⟨d, hd, rfl⟩ := exists_of_mem_cores hk
    exact absurd hxp (hgone' d hd)
  · have hlt := (ht.registry.pointers _ (mem_cores hc) p hp).1
    omega

structure OwnerTable.Sound (table : OwnerTable) : Prop where
  settled : Settled table.control
  held : Held table.control.leases
  privileged : Privileged table.control
  live : OwnersLive table.owners table.control

theorem OwnerTable.Sound.step {table table' : OwnerTable} {input : Input × Bool}
    (h : table.Sound) (hstep : table.step input = some table') : table'.Sound := by
  obtain ⟨s, hs, rfl⟩ := Option.map_eq_some_iff.mp hstep
  have hsettled := h.settled.step hs
  obtain ⟨u, hu, rfl⟩ := step_changes h.settled hs
  have hinv := h.settled.toInv
  have hheld : Held u.leases := hu.keeps hinv h.held
    fun _ _ hinv' hheld hchange => (hchange.relinks hinv').held hheld
  have hprivileged : Privileged u := hu.keeps hinv h.privileged
    fun _ _ hinv' hpriv hchange => privileged_change hinv' hpriv hchange
  refine ⟨hsettled, hheld, hprivileged, ?_⟩
  split
  · exact ownersLive_sync hsettled.toInv
  rename_i hsync
  rw [Bool.or_eq_true, not_or, Bool.not_eq_true] at hsync
  have htraces := hu.traces hinv
  exact h.live.steady hinv hsettled.toInv h.held hheld
    ⟨htraces.next, htraces.ids, htraces.links⟩ hsync.1

/-- In every state of every run a lease counts the clients that point at it and is active as long
as the connection that allocated it stays. Once that one has left, those that still point at it
are granted nothing, use nothing and own no output. -/
theorem lease_lifetime {init : State} {table : OwnerTable} (hinit : init.Initial)
    (h : Reaches OwnerTable.step always ⟨init, []⟩ table) (p : Nat) (l : Lease)
    (hl : table.control.leases p = some l) :
    l.references = table.control.clients.countP (fun c => c.authorizationLease == some p) ∧
    (l.active = true ↔ ∃ c ∈ table.control.clients, c.connectionId = p) ∧
    ((∀ c ∈ table.control.clients, c.connectionId ≠ p) →
      ∀ c ∈ table.control.clients, c.authorizationLease = some p →
        clientGrants table.control.leases c = ∅ ∧ c.hookSubscriptions = ∅ ∧
        c.observerSubscriptions = ∅ ∧ c.blockInputMask = ∅ ∧
        ∀ o ∈ table.owners, o.connectionId ≠ c.connectionId) := by
  have hsound : table.Sound := by
    refine h.invariant ⟨hinit.settled, ?_, ?_, ?_⟩
      fun _ _ _ hs _ hstep => hs.step hstep
    · intro q m hm
      cases (hinit.leases q).symm.trans hm
    · simp [Privileged, hinit.clients]
    · exact fun _ _ _ _ ho => absurd ho not_mem_nil
  have hinv := hsound.settled.toInv
  refine ⟨?_, hinv.active_iff hsound.held hl, fun hgone c hc hp => ?_⟩
  · rw [hinv.registry.counted p l hl, attached, cores, countP_map]
    rfl
  have hended := (leaseEnded_iff hinv hsound.held hc).mpr ⟨p, hp, hgone⟩
  have hgrants : clientGrants table.control.leases c = ∅ := by
    have hinactive : l.active = false := by simpa [leaseEnded, hp, hl] using hended
    simp [clientGrants, hp, hl, hinactive]
  have hentitled := hsound.privileged c hc
  have hunused : ∀ {α : Type} {used : Finset α} {scope : Scope},
      (used ≠ ∅ → scope ∈ clientGrants table.control.leases c) → used = ∅ := by
    intro _ _ _ huse
    by_contra hne
    have hmem := huse hne
    simp [hgrants] at hmem
  exact ⟨hgrants, hunused hentitled.hooks, hunused hentitled.observed, hunused hentitled.block,
    hsound.live c hc hended⟩

def orphanedRun : List (Input × Bool) :=
  (subscribedRun ++ [({ event := .remove 0 } : Input)]).map fun input => (input, true)

theorem lease_lifetime_orphaned :
    ∃ table, Reaches OwnerTable.step always ⟨{}, []⟩ table ∧ ∃ c ∈ table.control.clients,
      c.authorizationLease = some 1 ∧ clientGrants table.control.leases c = ∅ ∧
        ∀ o ∈ table.owners, o.connectionId ≠ c.connectionId := by
  obtain ⟨table, htable, hsome, hgone, c, hc, hp⟩ := exists_reaches OwnerTable.step ⟨{}, []⟩
    orphanedRun (q := fun table => (table.control.leases 1).isSome ∧
      (∀ c ∈ table.control.clients, c.connectionId ≠ 1) ∧
      ∃ c ∈ table.control.clients, c.authorizationLease = some 1) (by decide)
  obtain ⟨l, hl⟩ := Option.isSome_iff_exists.mp hsome
  obtain ⟨hgrants, -, -, -, hlive⟩ :=
    (lease_lifetime initial_default htable 1 l hl).2.2 hgone c hc hp
  exact ⟨table, htable, c, hc, hp, hgrants, hlive⟩

/-- A client has only grants of an identified lease connection of its own process. -/
theorem grants_need_identity {init s : State} (hinit : init.Initial)
    (h : Reaches step always init s) : ∀ c ∈ s.cores, ∀ p l, c.lease = some p →
      s.leases p = some l → l.grantedScopes ≠ ∅ →
      ∃ o ∈ s.cores, o.Owns p ∧ o.hasIdentity = true ∧ l.hash = o.identityHash ∧
        o.uid = c.uid ∧ o.pid = c.pid ∧ o.startTime = c.startTime := by
  intro c hc p l hp hl hg
  obtain ⟨o, ho, howns, hid, hhash, hpeer⟩ :=
    (settled_of_reaches hinit h).registry.granted_peer hc hp hl hg
  exact ⟨o, ho, howns, hid, hhash, congrArg (·.1) hpeer, congrArg (·.2.1) hpeer,
    congrArg (·.2.2) hpeer⟩

theorem grants_need_identity_run : ∃ s, Reaches step always {} s ∧ ∃ o ∈ s.cores, o.Owns 1 ∧
    o.hasIdentity = true := by
  obtain ⟨s, hs, c, hc, l, hl, hp, hg⟩ := exists_reaches step {} subscribedRun
    (q := fun s => ∃ c ∈ s.cores, ∃ l ∈ s.leases 1, c.lease = some 1 ∧ l.grantedScopes ≠ ∅)
    (by decide)
  obtain ⟨o, ho, howns, hid, -⟩ := grants_need_identity initial_default hs c hc 1 l hp hl hg
  exact ⟨s, hs, o, ho, howns, hid⟩

end KeysharpInput.Session
