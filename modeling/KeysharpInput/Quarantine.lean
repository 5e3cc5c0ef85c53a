import KeysharpInput.Stalls
import KeysharpInput.Privilege

/-!
A stalled stream is quarantined or its failure is on the way.
The control plane never leaves a stalled hook without its quarantine: what lifts the
quarantine clears the mark too. So the only way into that state is through a lane, and
the failure the lane posts ends it, provided the main thread acts on that failure. It
does not when the client has unsubscribed or lost the seat in the meantime.
-/
namespace KeysharpInput.Session

open Tables Transition List Finset State Session.Client

/-- A client before and after a step: nothing stalled or quarantined has been left
halfway, and without a fresh subscription the client's places in the hook chains stand. -/
structure KeepsHooks (fresh : Prop) (c c' : Client) : Prop where
  connectionId : c'.connectionId = c.connectionId
  covered : ∀ t, c.Covered t → c'.Covered t
  timed : ∀ t, c.Timed t → c'.Timed t
  ordinals : fresh ∨ c.KeepsOrdinals c'

section KeepsHooks

variable {fresh : Prop} {c c' c'' : Client}

theorem KeepsHooks.refl (c : Client) : KeepsHooks fresh c c :=
  ⟨rfl, fun _ => id, fun _ => id, .inr (.refl c)⟩

theorem KeepsHooks.trans (h : KeepsHooks fresh c c') (k : KeepsHooks fresh c' c'') :
    KeepsHooks fresh c c'' where
  connectionId := k.connectionId.trans h.connectionId
  covered := fun t hc => k.covered t (h.covered t hc)
  timed := fun t hc => k.timed t (h.timed t hc)
  ordinals := by
    rcases h.ordinals with hfresh | hfirst
    · exact .inl hfresh
    · exact k.ordinals.imp_right hfirst.trans

theorem Quiet.keepsHooks {leases : Leases} (h : Quiet fresh leases c c') : KeepsHooks fresh c c' :=
  ⟨congrArg Core.connectionId h.core, h.covered, h.timed, h.ordinals⟩

theorem Withdrawn.keepsHooks (h : Withdrawn c c') : KeepsHooks fresh c c' :=
  ⟨congrArg Core.connectionId h.core, h.covered, h.timed, .inr h.ordinals⟩

theorem KeepsHooks.orphan (c : Client) : KeepsHooks fresh c c.orphan :=
  ⟨rfl, fun _ _ hvalid => absurd hvalid Bool.false_ne_true, fun _ => id,
    .inr fun t ht => absurd ht (notMem_empty t)⟩

end KeepsHooks

theorem exists_of_mem_removeClient {s : State} {i : Nat} {d : Client}
    (hd : d ∈ (removeClient s i).clients) : ∃ o ∈ s.clients, d = o.orphan ∨ d = o := by
  cases hc : s.clients[i]? with
  | none =>
    unfold removeClient at hd
    rw [hc] at hd
    exact ⟨d, hd, .inr rfl⟩
  | some =>
    obtain ⟨o, ho, hcase⟩ := mem_removeClient hc hd
    exact ⟨o, mem_of_mem_eraseIdx ho, hcase.imp_right And.left⟩

def HooksKept (fresh : Prop) (s t : State) : Prop :=
  ∀ c' ∈ t.clients, ((fresh ∨ c'.hookSubscriptions = ∅) ∧ ∀ t, c'.Covered t ∧ c'.Timed t) ∨
    ∃ c ∈ s.clients, KeepsHooks fresh c c'

namespace HooksKept

variable {fresh : Prop} {s t u : State} {i : Nat} {c : Client} {f : Client → Client} {p : Permits}

theorem refl (s : State) : HooksKept fresh s s := fun c hc => .inr ⟨c, hc, .refl c⟩

theorem trans (h : HooksKept fresh s t) (k : HooksKept fresh t u) : HooksKept fresh s u := by
  intro c'' hc''
  rcases k c'' hc'' with hnew | ⟨c', hc', hkeeps⟩
  · exact .inl hnew
  rcases h c' hc' with hnew | ⟨c, hc, hkeeps'⟩
  · refine .inl ⟨?_, fun t => ⟨hkeeps.covered t (hnew.2 t).1, hkeeps.timed t (hnew.2 t).2⟩⟩
    rcases hkeeps.ordinals, hnew.1 with ⟨hfresh | hold, hfresh' | hnone⟩
    · exact .inl hfresh
    · exact .inl hfresh
    · exact .inl hfresh'
    · refine .inr (eq_empty_of_forall_notMem fun t ht => ?_)
      exact notMem_empty t (hnone ▸ (hold t ht).1)
  · exact .inr ⟨c, hc, hkeeps'.trans hkeeps⟩

theorem of_forall₂ (h : Forall₂ (KeepsHooks fresh) s.clients t.clients) : HooksKept fresh s t :=
  fun _ hc => .inr (exists_of_mem_right h hc)

theorem modify (hclients : t.clients = s.clients.modify i f) (hf : ∀ c, KeepsHooks fresh c (f c)) :
    HooksKept fresh s t :=
  of_forall₂ (hclients ▸ forall₂_modify (fun c _ => .refl c) fun c _ => hf c)

theorem map (hclients : t.clients = s.clients.map f) (hf : ∀ c, KeepsHooks fresh c (f c)) :
    HooksKept fresh s t :=
  of_forall₂ (hclients ▸ forall₂_map fun c _ => hf c)

theorem withdraws (h : Withdraws s t) : HooksKept fresh s t := by
  intro _ hc'
  obtain ⟨c, hc, hcc⟩ := exists_of_mem_right h.clients hc'
  exact .inr ⟨c, hc, hcc.keepsHooks⟩

theorem remove (s : State) (i : Nat) : HooksKept fresh s (removeClient s i) := by
  intro d hd
  obtain ⟨o, ho, rfl | rfl⟩ := exists_of_mem_removeClient hd
  · exact .inr ⟨o, ho, .orphan o⟩
  · exact .inr ⟨d, ho, .refl d⟩

theorem change (h : Change p s t) : HooksKept p.subscribes s t := by
  cases h with
  | quiet hq =>
    intro d hd
    obtain ⟨c, hc, hcd⟩ := exists_of_mem_right hq.clients hd
    exact .inr ⟨c, hc, hcd.keepsHooks⟩
  | accept =>
    intro d hd
    rcases mem_append.mp hd with hd | hd
    · exact .inr ⟨d, hd, .refl d⟩
    rw [List.mem_singleton] at hd
    subst hd
    exact .inl ⟨.inr rfl, fun t => ⟨fun _ hstalled => absurd hstalled (Finset.notMem_empty t),
      fun hquarantined => absurd hquarantined (Finset.notMem_empty t)⟩⟩
  | remove i => exact remove s i
  | hello role operations hc hfresh hrole
  | identified => exact modify rfl fun c => { KeepsHooks.refl c with }
  | helloLease operations hc =>
    rw [newLease_greet operations hc]
    exact modify rfl fun c => { KeepsHooks.refl c with }
  | attach leaseId hc =>
    rcases attachLease_cases leaseId hc with heq | ⟨o, q, -, -, heq⟩
    · rw [heq]
      exact refl s
    · rw [heq]
      exact modify rfl fun c => { KeepsHooks.refl c with }
  | attempt =>
    exact modify rfl fun c => { KeepsHooks.refl c with }
  | finish env opcode requestId requested granted began hc =>
    obtain ⟨reply, leases, -, -, heq⟩ :=
      finish_cases env opcode requestId requested granted began hc
    rw [heq]
    exact modify rfl fun c => (Withdrawn.announce env opcode reply _ c).keepsHooks
  | invalidate env uid hash all scopes => exact withdraws (.invalidate env s uid hash all scopes)
  | revoked env task =>
    exact withdraws (t := invalidateConnectedPermissions env s task.uid task.hash
      (task.revokeTarget == .all) task.revokeScopes) (.invalidate ..)
  | failOpen env => exact withdraws (.failOpen env s)
  | pause | pauseOnly hrefresh
  | resume => exact map rfl fun c => { KeepsHooks.refl c with }

theorem changes (h : Changes p s t) : HooksKept p.subscribes s t := by
  induction h with
  | refl => exact refl s
  | tail _ hlast ih => exact ih.trans (change hlast)

theorem step {input : Input} (h : Settled s) (ht : step s input = some t) :
    HooksKept (permits s input).subscribes s t := by
  obtain ⟨u, hu, rfl⟩ := step_changes h ht
  exact changes (t := u) hu

end HooksKept

theorem recordClientHookFailure_covered {env : Env} {s : State} {i : Nat} {t : HookType}
    {c : Client} (hn : (s.clients.map connectionId).Nodup) (hc : s.clients[i]? = some c)
    (hacts : c.streamValid = true → t ∈ c.quarantinedHooks ∨
      t ∈ c.hookSubscriptions ∧ s.inputOwnerMatchesUid c.uid = true) {d : Client}
    (hd : d ∈ (recordClientHookFailure env s i t).clients)
    (hid : d.connectionId = c.connectionId) : d.Covered t := by
  have hsame : ∀ d ∈ s.clients, d.connectionId = c.connectionId → d = c := fun d hd hid =>
    eq_of_key_eq hn hd (mem_of_getElem? hc) hid
  unfold recordClientHookFailure at hd
  rw [hc] at hd
  dsimp only at hd
  split at hd
  · rename_i howner
    obtain rfl := hsame d hd hid
    intro hvalid _
    rcases hacts hvalid with hquarantined | ⟨-, hmatch⟩
    · exact hquarantined
    · simp [hmatch] at howner
  split at hd
  · rename_i hskip
    obtain rfl := hsame d hd hid
    intro hvalid _
    rcases hacts hvalid with hquarantined | ⟨hhook, -⟩
    · exact hquarantined
    · exact hskip.resolve_left (not_not.mpr hhook)
  -- The quarantine is recorded; a fifth strike also removes the client.
  have hrecorded : ∀ {f : Client → Client}, (f c).Covered t → ∀ d ∈ s.clients.modify i f,
      d.connectionId = c.connectionId → d.Covered t := by
    intro f hf d hd hid
    rcases (mem_modify hn hc).mp hd with rfl | ⟨-, hne⟩
    · exact hf
    · exact absurd hid hne
  have hquarantine : ∀ stalled rearm failures last, Covered { c with
      consecutiveHookFailures := failures, lastHookQuarantineMs := last,
      quarantinedHooks := insert t c.quarantinedHooks, stalledLanes := stalled,
      quarantineRearmAfterMs := rearm } t :=
    fun _ _ _ _ _ _ => mem_insert_self _ _
  generalize (if c.lastHookQuarantineMs t ≠ 0 ∧ env.nowMs ≥ c.lastHookQuarantineMs t + 60000
    then 0 else c.consecutiveHookFailures t) + 1 = failures at hd
  split at hd
  · exact hrecorded (hquarantine _ _ _ _) d hd hid
  · obtain ⟨o, ho, rfl | rfl⟩ := exists_of_mem_removeClient hd
    · exact fun hvalid => absurd hvalid Bool.false_ne_true
    · exact hrecorded (hquarantine _ _ _ _) d ho hid

namespace HookSystem

variable {s t : HookSystem} {lane : HookType} {rest : List Activation} {e : HookEvent}

def Pending (s : HookSystem) (connectionId : Nat) (t : HookType) : Prop :=
  (connectionId, t) ∈ s.failures ∨
    ∃ lane, ∃ a ∈ (s.lanes lane).stack, a.call.hookType = t ∧ a.phase = .posting connectionId

structure StallsCovered (s : HookSystem) : Prop where
  settled : Settled s.daemon
  timed : ∀ c ∈ s.daemon.clients, ∀ t, c.Timed t
  covered : ∀ c ∈ s.daemon.clients, ∀ t, c.Covered t ∨ s.Pending c.connectionId t

/-- The ring takes every failure, and when the main thread comes to one, the client has
left, is quarantined already, or still has the seat and the hook. -/
def FailureActedOn (s : HookSystem) : HookEvent → Prop
  | .lane _ (.post room) => room = true
  | .processFailure _ => ∀ connectionId t, s.failures.head? = some (connectionId, t) →
      ∀ c ∈ s.daemon.clients, c.connectionId = connectionId → c.streamValid = true →
        t ∈ c.quarantinedHooks ∨
          t ∈ c.hookSubscriptions ∧ s.daemon.inputOwnerMatchesUid c.uid = true
  | _ => True

theorem StallsCovered.of_pending (h : StallsCovered s) (hdaemon : t.daemon = s.daemon)
    (hpending : ∀ id k, s.Pending id k → t.Pending id k) : StallsCovered t where
  settled := hdaemon ▸ h.settled
  timed := hdaemon ▸ h.timed
  covered := fun c hc k => (h.covered c (hdaemon ▸ hc) k).imp_right (hpending _ k)

theorem pending_setLane {stack : List Activation} {l : Lane}
    (hstack : (s.lanes lane).stack = stack) (hfailures : t.failures = s.failures)
    (hlanes : t.lanes = Function.update s.lanes lane l) (hrest : ∀ a ∈ rest, a ∈ l.stack)
    (htop : ∀ a ∈ stack, a ∈ rest ∨ ∀ id, a.phase ≠ .posting id) :
    ∀ id k, s.Pending id k → t.Pending id k := by
  rintro id k (hring | ⟨lane', a, ha, htype, hphase⟩)
  · exact .inl (hfailures ▸ hring)
  refine .inr ⟨lane', a, ?_, htype, hphase⟩
  by_cases hlane : lane' = lane
  · subst hlane
    rw [hlanes, Function.update_self]
    rcases htop a (hstack ▸ ha) with hin | hother
    · exact hrest a hin
    · exact absurd hphase (hother id)
  · rwa [hlanes, Function.update_of_ne hlane]

section

variable (h : StallsCovered s)

include h

theorem StallsCovered.modifyStalled {id : Nat}
    {f : Finset HookType → Finset HookType} (hdaemon : t.daemon = s.daemon.modifyStalled id f)
    (hpending : ∀ id k, s.Pending id k → t.Pending id k)
    (hf : ∀ stalled k, k ∈ f stalled → k ∈ stalled ∨ t.Pending id k) : StallsCovered t := by
  have hmem : ∀ d ∈ t.daemon.clients, ∃ c ∈ s.daemon.clients, d = if c.connectionId = id then
      { c with stalledLanes := f c.stalledLanes } else c := by
    intro d hd
    rw [hdaemon] at hd
    obtain ⟨c, hc, hcd⟩ := mem_map.mp hd
    exact ⟨c, hc, hcd.symm⟩
  have hcores : (s.daemon.modifyStalled id f).cores = s.daemon.cores := by
    simp only [State.cores, State.modifyStalled, List.map_map]
    refine map_congr_left fun c _ => ?_
    dsimp only [Function.comp]
    split <;> rfl
  refine ⟨?_, fun d hd k => ?_, fun d hd k => ?_⟩
  · rw [hdaemon]
    exact { h.settled with
      registry := hcores ▸ h.settled.registry
      work := hcores ▸ h.settled.work
      tasks := fun x hx => { h.settled.tasks x hx with }
      prompts := fun x hx => { h.settled.prompts x hx with } }
  · obtain ⟨c, hc, rfl⟩ := hmem d hd
    split <;> exact h.timed c hc k
  obtain ⟨c, hc, rfl⟩ := hmem d hd
  split
  · rename_i hid
    rcases h.covered c hc k with hcovered | hpend
    · by_cases hnew : k ∈ f c.stalledLanes
      · rcases hf _ k hnew with hold | hpend
        · exact .inl fun hvalid _ => hcovered hvalid hold
        · exact .inr (hid ▸ hpend)
      · exact .inl fun _ hstalled => absurd hstalled hnew
    · exact .inr (hpending _ k hpend)
  · exact (h.covered c hc k).imp_right (hpending _ k)

theorem StallsCovered.laneStep {a : Activation}
    (hstack : (s.lanes lane).stack = a :: rest) {move : LaneMove}
    (hguard : FailureActedOn s (.lane lane move)) (ht : s.laneStep lane a rest move = some t) :
    StallsCovered t := by
  -- Whatever the lane does next, what stands below and on the other lanes stays.
  have hkeep : ∀ {u : HookSystem} {l : Lane}, u.failures = s.failures →
      u.lanes = Function.update s.lanes lane l → (∀ b ∈ rest, b ∈ l.stack) →
      (∀ id, a.phase ≠ .posting id) → ∀ id k, s.Pending id k → u.Pending id k := by
    intro u l hfailures hlanes hrest hphase
    refine pending_setLane hstack hfailures hlanes hrest fun b hb => ?_
    rcases mem_cons.mp hb with rfl | hb
    · exact .inr hphase
    · exact .inl hb
  have hpush : ∀ b : Activation, ∀ c ∈ rest, c ∈ b :: rest := fun b c hc =>
    mem_cons_of_mem b hc
  cases move with
  | callSubscriber | skip =>
    simp only [HookSystem.laneStep] at ht
    split at ht
    · rename_i hphase _
      cases ht
      exact h.of_pending rfl (hkeep rfl rfl (hpush _) (by simp [hphase]))
    · simp at ht
  | decided ends =>
    simp only [HookSystem.laneStep] at ht
    split at ht
    · rename_i id hphase
      split at ht
      · cases ht
        exact h.modifyStalled rfl (hkeep rfl rfl (fun _ hb => hb) (by simp [hphase]))
          fun _ _ hin => .inl (mem_of_mem_erase hin)
      · cases ht
        exact h.modifyStalled rfl (hkeep rfl rfl (hpush _) (by simp [hphase]))
          fun _ _ hin => .inl (mem_of_mem_erase hin)
    · simp at ht
  | timedOut =>
    simp only [HookSystem.laneStep] at ht
    split at ht
    · rename_i id hphase
      cases ht
      refine h.modifyStalled rfl (hkeep rfl rfl (hpush _) (by simp [hphase])) fun _ k hin => ?_
      rcases mem_insert.mp hin with rfl | hin
      · exact .inr (.inr ⟨lane, { a with phase := .posting id },
          by simp [HookSystem.continueWith, HookSystem.setLane], rfl, rfl⟩)
      · exact .inl hin
    · simp at ht
  | sendFailed =>
    simp only [HookSystem.laneStep] at ht
    split at ht
    · rename_i id hphase
      cases ht
      exact h.of_pending rfl (hkeep rfl rfl (hpush _) (by simp [hphase]))
    · simp at ht
  | cancelled =>
    simp only [HookSystem.laneStep] at ht
    split at ht
    · rename_i id hphase
      cases ht
      exact h.of_pending rfl (hkeep rfl rfl (fun _ hb => hb) (by simp [hphase]))
    · simp at ht
  | post room =>
    obtain rfl : room = true := hguard
    simp only [HookSystem.laneStep] at ht
    split at ht
    · rename_i id hphase
      cases ht
      refine h.of_pending rfl ?_
      -- The failure about to be posted is the one that now stands on the ring.
      rintro id' k (hring | ⟨lane', b, hb, htype, hposting⟩)
      · exact .inl (mem_append_left _ hring)
      by_cases hlane : lane' = lane
      · subst hlane
        rw [hstack] at hb
        rcases mem_cons.mp hb with rfl | hb
        · obtain rfl : id = id' := by simpa [hphase] using hposting
          exact .inl (mem_append_right _ (by simp [htype]))
        · exact .inr ⟨lane', b, by simp [HookSystem.continueWith, HookSystem.setLane, hb],
            htype, hposting⟩
      · exact .inr ⟨lane', b, by
          simpa [HookSystem.continueWith, HookSystem.setLane, hlane] using hb, htype, hposting⟩
    · simp at ht
  | finish =>
    simp only [HookSystem.laneStep] at ht
    split at ht
    · rename_i hphase _
      cases ht
      exact h.of_pending rfl (hkeep rfl rfl (fun _ hb => hb) (by simp [hphase]))
    · simp at ht

theorem StallsCovered.daemonStep {input : Input} {daemon : State}
    (hstep : Session.step s.daemon input = some daemon)
    (hpending : ∀ c ∈ daemon.clients, ∀ k, s.Pending c.connectionId k →
      c.Covered k ∨ t.Pending c.connectionId k)
    (hdaemon : t.daemon = daemon) : StallsCovered t := by
  subst hdaemon
  have hkept := HooksKept.step h.settled hstep
  refine ⟨h.settled.step hstep, fun d hd k => ?_, fun d hd k => ?_⟩
  · rcases hkept d hd with hnew | ⟨c, hc, hkeeps⟩
    · exact (hnew.2 k).2
    · exact hkeeps.timed k (h.timed c hc k)
  rcases hkept d hd with hnew | ⟨c, hc, hkeeps⟩
  · exact .inl (hnew.2 k).1
  · rcases h.covered c hc k with hcovered | hpend
    · exact .inl (hkeeps.covered k hcovered)
    · exact hpending d hd k (hkeeps.connectionId ▸ hpend)

theorem StallsCovered.processFailure {env : Env} (hguard : FailureActedOn s (.processFailure env))
    (ht : s.step (.processFailure env) = some t) : StallsCovered t := by
  simp only [HookSystem.step] at ht
  split at ht
  · simp at ht
  rename_i id k _ hfailures
  obtain ⟨_, hstep, rfl⟩ := Option.map_eq_some_iff.mp ht
  refine h.daemonStep hstep (fun d hd k' hpend => ?_) rfl
  -- Any other failure is still there.
  by_cases hsame : (d.connectionId, k') = (id, k)
  · obtain ⟨rfl, rfl⟩ := Prod.mk.inj hsame
    left
    obtain ⟨u, hu, rfl⟩ := Option.map_eq_some_iff.mp hstep
    simp only [handle] at hu
    have hacts := hguard d.connectionId k' (by simp [hfailures])
    split at hu
    · rename_i hfind
      cases hu
      -- Every client has a nonzero id, so the search finds the one that is there.
      have hpos := (h.settled.registry.bounds d.core (mem_map_of_mem hd)).1
      have hne : d.connectionId ≠ 0 := Nat.ne_of_gt hpos
      simp only [findClientIndexByConnection, hne, if_false, findIdx?_eq_none_iff] at hfind
      exact absurd (hfind d hd) (by simp)
    rename_i i hfind
    cases hu
    unfold findClientIndexByConnection at hfind
    split at hfind
    · simp at hfind
    obtain ⟨hi, hid, -⟩ := findIdx?_eq_some_iff_getElem.mp hfind
    have hc : s.daemon.clients[i]? = some s.daemon.clients[i] := getElem?_eq_getElem hi
    have hid : s.daemon.clients[i].connectionId = d.connectionId := by simpa using hid
    exact recordClientHookFailure_covered h.settled.clients_nodup hc
      (hacts _ (getElem_mem hi) hid) hd hid.symm
  · right
    rcases hpend with hring | hposting
    · rw [hfailures] at hring
      exact .inl ((mem_cons.mp hring).resolve_left hsame)
    · exact .inr hposting

theorem StallsCovered.step (hguard : FailureActedOn s e)
    (ht : s.step e = some t) : StallsCovered t := by
  cases e with
  | daemon =>
    simp only [HookSystem.step] at ht
    split at ht
    · simp at ht
    · obtain ⟨_, hstep, rfl⟩ := Option.map_eq_some_iff.mp ht
      exact h.daemonStep hstep (fun _ _ _ hpend => .inr hpend) rfl
  | dispatch k | nest lane k =>
    cases ht
    exact h.of_pending rfl (pending_setLane rfl rfl rfl (fun _ hb => hb) fun _ hb => .inl hb)
  | processFailure => exact h.processFailure hguard ht
  | start lane =>
    simp only [HookSystem.step] at ht
    split at ht
    · rename_i call queue nested hlane
      cases ht
      have hstack : (s.lanes lane).stack = [] := by rw [hlane]
      refine h.of_pending rfl (pending_setLane hstack rfl rfl (fun _ hb => ?_) fun _ hb => .inl hb)
      exact absurd hb not_mem_nil
    · simp at ht
  | startNested lane =>
    simp only [HookSystem.step] at ht
    split at ht
    · rename_i parent id rest hlane
      cases ht
      have hstack : (s.lanes lane).stack = ⟨parent, .called id⟩ :: rest := by rw [hlane]
      exact h.of_pending rfl (pending_setLane hstack rfl rfl
        (fun _ hb => mem_cons_of_mem _ hb) fun _ hb => .inl hb)
    · simp at ht
  | lane lane move =>
    simp only [HookSystem.step] at ht
    split at ht
    · simp at ht
    · rename_i hstack
      exact h.laneStep hstack hguard ht

end

structure Initial (s : HookSystem) : Prop where
  daemon : s.daemon.Initial
  lanes : ∀ lane, (s.lanes lane).stack = []
  failures : s.failures = []

theorem stallsCovered_of_reaches {init : HookSystem} (hinit : init.Initial)
    (h : Reaches HookSystem.step FailureActedOn init s) : StallsCovered s :=
  h.invariant ⟨hinit.daemon.settled, by simp [hinit.daemon.clients],
    by simp [hinit.daemon.clients]⟩ fun _ _ _ hs hguard ht => hs.step hguard ht

theorem retryHook_clears {c : Client} {k : HookType} (hquarantined : k ∈ c.quarantinedHooks)
    (htimed : 0 < c.quarantineRearmAfterMs k) {now : Nat}
    (hnow : c.quarantineRearmAfterMs k ≤ now) :
    k ∉ ((c.retryHook now .keyboard).retryHook now .mouse).stalledLanes := by
  have hzero : c.quarantineRearmAfterMs k ≠ 0 := Nat.ne_of_gt htimed
  have hkeep : ∀ (d : Client) (j : HookType), k ∉ d.stalledLanes →
      k ∉ (d.retryHook now j).stalledLanes := by
    intro d j hd
    unfold retryHook
    split
    · exact hd
    · exact fun hin => hd (mem_of_mem_erase hin)
  have hself : ∀ d : Client, k ∈ d.quarantinedHooks →
      d.quarantineRearmAfterMs k = c.quarantineRearmAfterMs k →
      k ∉ (d.retryHook now k).stalledLanes := by
    intro d hd _
    have hdue : ¬ (k ∉ d.quarantinedHooks ∨ d.quarantineRearmAfterMs k = 0 ∨
        now < d.quarantineRearmAfterMs k) := by
      simp [hd]
      omega
    simp [retryHook, hdue]
  cases k with
  | keyboard => exact hkeep _ _ (hself c hquarantined rfl)
  | mouse =>
    refine hself _ ?_ ?_
    · unfold retryHook
      split
      · exact hquarantined
      · exact mem_erase.mpr ⟨nofun, hquarantined⟩
    · unfold retryHook
      split
      · rfl
      · simp

/-- With no failure on the way, a stalled hook of a live connection is quarantined until
a retry that clears it, and no hook that is not quarantined is skipped as stalled. -/
theorem stalled_is_quarantined {init : HookSystem} (hinit : init.Initial)
    (h : Reaches HookSystem.step FailureActedOn init s) (hnone : ∀ id k, ¬ s.Pending id k) :
    ∀ c ∈ s.daemon.clients, c.streamValid = true → ∀ k,
      (k ∈ c.stalledLanes → k ∈ c.quarantinedHooks ∧ 0 < c.quarantineRearmAfterMs k ∧
        ∀ env : Env, c.quarantineRearmAfterMs k ≤ env.nowMs →
          ∀ d ∈ (retryQuarantinedHooks env s.daemon).clients,
            d.connectionId = c.connectionId → k ∉ d.stalledLanes) ∧
      (k ∈ c.hookSubscriptions → k ∉ c.quarantinedHooks →
        s.daemon.isStalled c.connectionId k = false) := by
  have hs := stallsCovered_of_reaches hinit h
  have hsame : ∀ c ∈ s.daemon.clients, ∀ d ∈ s.daemon.clients,
      d.connectionId = c.connectionId → d = c := fun c hc d hd hid =>
    eq_of_key_eq hs.settled.clients_nodup hd hc hid
  intro c hc hvalid k
  have hcovered := (hs.covered c hc k).resolve_right (hnone _ k) hvalid
  refine ⟨fun hstalled => ?_, fun _ hfree => ?_⟩
  · have hquarantined := hcovered hstalled
    have htimed := hs.timed c hc k hquarantined
    refine ⟨hquarantined, htimed, fun env hdue d hd hid => ?_⟩
    obtain ⟨b, hb, rfl⟩ := mem_map.mp hd
    have hkeep : ∀ (b : Client) (j : HookType),
        (b.retryHook env.nowMs j).connectionId = b.connectionId := by
      intro b j
      unfold retryHook
      split <;> rfl
    rw [hkeep, hkeep] at hid
    obtain rfl := hsame c hc b hb hid
    exact retryHook_clears hquarantined htimed hdue
  · rw [isStalled, any_eq_false]
    intro d hd hany
    simp only [Bool.and_eq_true, beq_iff_eq, decide_eq_true_eq] at hany
    obtain rfl := hsame c hc d hd hany.1
    exact hfree (hcovered hany.2)

def timeoutRun : List HookEvent :=
  subscribedRun.map .daemon ++
    [.dispatch .keyboard, .start .keyboard, .lane .keyboard .callSubscriber,
     .lane .keyboard .timedOut, .lane .keyboard (.post true), .lane .keyboard .finish]

def settledLanes (s : HookSystem) : Bool :=
  s.failures.isEmpty && (s.lanes .keyboard).stack.isEmpty && (s.lanes .mouse).stack.isEmpty

theorem not_pending_of_settledLanes (h : s.settledLanes = true) (id : Nat) (k : HookType) :
    ¬ s.Pending id k := by
  simp only [settledLanes, Bool.and_eq_true, List.isEmpty_iff] at h
  rintro (hring | ⟨lane, a, ha, -⟩)
  · simp [h.1.1] at hring
  · cases lane with
    | keyboard => simp [h.1.2] at ha
    | mouse => simp [h.2] at ha

theorem initial_default : ({} : HookSystem).Initial := ⟨Session.initial_default, fun _ => rfl, rfl⟩

def failureActedOn (s : HookSystem) : HookEvent → Bool
  | .lane _ (.post room) => room
  | .processFailure _ => s.failures.head?.all fun (connectionId, t) =>
      s.daemon.clients.all fun c => c.connectionId != connectionId || !c.streamValid
        || decide (t ∈ c.quarantinedHooks)
        || (decide (t ∈ c.hookSubscriptions) && s.daemon.inputOwnerMatchesUid c.uid)
  | _ => true

theorem failureActedOn_iff (h : s.failureActedOn e = true) : FailureActedOn s e := by
  cases e with
  | processFailure =>
    intro _ _ hhead c hc hid hvalid
    simp only [failureActedOn, hhead, Option.all_some, all_eq_true] at h
    simpa [hid, hvalid] using h c hc
  | lane _ move =>
    cases move with
    | post => exact h
    | _ => trivial
  | _ => trivial

/-- The failure is acted on while the client still has its hook. -/
theorem stalled_is_quarantined_run : ∃ s : HookSystem, (∀ id k, ¬ s.Pending id k) ∧
    ∃ c ∈ s.daemon.clients, .keyboard ∈ c.stalledLanes ∧ .keyboard ∈ c.quarantinedHooks := by
  have hguard : GuardedRun HookSystem.step FailureActedOn ({} : HookSystem)
      (timeoutRun ++ [.processFailure {}]) :=
    guardedRun_of_check (fun _ _ => failureActedOn_iff) (by decide)
  obtain ⟨s, hs, hquiet, c, hc, hvalid, hstalled⟩ := Reaches.exists_of_run
    (q := fun s => s.settledLanes ∧ ∃ c ∈ s.daemon.clients,
      c.streamValid = true ∧ .keyboard ∈ c.stalledLanes) hguard (by decide)
  exact ⟨s, not_pending_of_settledLanes hquiet, c, hc, hstalled,
    ((stalled_is_quarantined initial_default hs (not_pending_of_settledLanes hquiet) c hc hvalid
      .keyboard).1 hstalled).1⟩

/-- The client unsubscribes before the main thread comes to its failure and subscribes
again: the hook is stalled and nothing will clear it. -/
theorem stalled_without_quarantine_reached : ∃ s : HookSystem,
    Reaches HookSystem.step always {} s ∧ (∀ id k, ¬ s.Pending id k) ∧
    ∃ c ∈ s.daemon.clients, c.streamValid = true ∧ .keyboard ∈ c.hookSubscriptions ∧
      s.daemon.inputOwnerMatchesUid c.uid = true ∧ .keyboard ∉ c.quarantinedHooks ∧
      s.daemon.isStalled c.connectionId .keyboard = true := by
  obtain ⟨s, hs, hquiet, hstalled⟩ := exists_reaches HookSystem.step {} (timeoutRun ++
      [.daemon ⟨{}, .request 1 3 (.unsubscribeHook (some ⟨13, 0⟩))⟩, .processFailure {},
       .daemon ⟨{}, .request 1 4 (.subscribeHook (some ⟨13, 0⟩))⟩])
    (q := fun s => s.settledLanes ∧ ∃ c ∈ s.daemon.clients, c.streamValid = true ∧
      .keyboard ∈ c.hookSubscriptions ∧ s.daemon.inputOwnerMatchesUid c.uid = true ∧
      .keyboard ∉ c.quarantinedHooks ∧ s.daemon.isStalled c.connectionId .keyboard = true)
    (by decide)
  exact ⟨s, hs, not_pending_of_settledLanes hquiet, hstalled⟩

end HookSystem

end KeysharpInput.Session
