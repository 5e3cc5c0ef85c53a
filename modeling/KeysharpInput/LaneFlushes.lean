import KeysharpInput.Notices
import KeysharpInput.Privilege

/-!
The flushes of the two lanes.
Everything that flushes a lane flushes both, except a revocation, which decides for each lane by
the hooks and grants of the clients it walks over. A client with a hook has Input Monitoring, and
the lease connection that takes it from a client further on had it in its own turn. So the lanes
are flushed together, and an event of one lane that runs on the other is cancelled by the flushes
after it was created.
-/

namespace KeysharpInput.Session

open Transition List

abbrev Flushes := HookType → Nat

variable {env : Env} {s t : State} {uid : Nat} {hash : Hash} {all : Bool} {scopes : Scopes}

/-- Whether the loop of `invalidate_connected_permissions` flushes the lane. -/
def flushesLane (env : Env) (uid : Nat) (hash : Hash) (all : Bool) (scopes : Scopes)
    (k : HookType) : Leases → List Client → Bool
  | _, [] => false
  | leases, c :: cs =>
    revokeMatches leases uid hash all c && decide (.inputMonitoring ∈ scopes) &&
        (decide (.inputMonitoring ∈ clientGrants leases c) || decide (k ∈ c.hookSubscriptions)) ||
      flushesLane env uid hash all scopes k (invalidateClient env uid hash all scopes leases c).2 cs

/-- `invalidate_connected_permissions`. -/
def revokeFlushes (env : Env) (s : State) (uid : Nat) (hash : Hash) (all : Bool)
    (scopes : Scopes) : Flushes :=
  fun k => (flushesLane env uid hash all scopes k s.leases s.clients).toNat

/-- The fence of `refresh_external_permissions`. -/
def refreshFlushes (env : Env) (s : State) : Flushes := fun _ =>
  if s.permissionsOpen && !s.permissionRefreshInflight && env.allocOk && env.submitOk then 1 else 0

def snapshotFlushes (env : Env) : State → List Snapshot → Flushes
  | _, [] => 0
  | s, snapshot :: snapshots =>
    match snapshotRevoked s.leases snapshot s.clients, applySnapshot env s snapshot with
    | some revoked, some t =>
      (if revoked = ∅ then 0
        else revokeFlushes env s snapshot.uid snapshot.hash false revoked) +
      snapshotFlushes env t snapshots
    | _, _ => 0

/-- `process_permission_done`. -/
def doneFlushes (env : Env) (s : State) (task : PermissionTask) : Flushes :=
  if task.kind = .refresh then
    if s.permissionMonitorFailed then 0
    else if task.permissionGeneration ≠ s.permissionGeneration then
      refreshFlushes env { s with permissionRefreshInflight := false }
    else if task.status ≠ .ok then 0
    else snapshotFlushes env { s with permissionRefreshInflight := false } task.snapshots
  else if task.kind = .revoke ∧ task.status = .ok then
    1 + revokeFlushes env s task.uid task.hash (task.revokeTarget == .all) task.revokeScopes
  else 0

def laneFlushes (env : Env) (s : State) : Event → Flushes
  | .permissionDone k =>
    match s.tasks[k]? with
    | none => 0
    | some task =>
      if task.phase = .done then doneFlushes env { s with tasks := s.tasks.eraseIdx k } task else 0
  | .notification .generationChanged =>
    if s.permissionMonitorFailed then 0 else refreshFlushes env s
  | .failOpen => 1
  | .setActiveInputOwner owner =>
    if !s.inputOwnerEnforced || s.activeInputUid == owner then 0 else 1
  | _ => 0

structure Lanes where
  state : State := {}
  flushGeneration : Flushes := 0

def Lanes.step (x : Lanes) (e : Input × Flushes) : Option Lanes :=
  (Session.step x.state e.1).map fun t => ⟨t, x.flushGeneration +
    if t.permissionMonitorFailed then e.2 else laneFlushes e.1.env x.state e.1.event⟩

/-- The generation that `create_hook_lane_event` gives an event. -/
def Lanes.eventGeneration (x : Lanes) (hookType : HookType) : Nat :=
  x.flushGeneration hookType % 2 ^ 32

/-- What `lane_event_cancelled` asks about flushes. -/
def Lanes.flushCancelled (x : Lanes) (lane : HookType) (generation : Nat) : Bool :=
  generation != x.flushGeneration lane % 2 ^ 32

def Flushes.Even (g : Flushes) : Prop := g .keyboard = g .mouse

theorem mem_grants_invalidateClient {leases : Leases} {c d : Client} {scope : Scope}
    (hd : scope ∈ clientGrants leases d) (hc : scope ∉ clientGrants leases c) :
    scope ∈ clientGrants (invalidateClient env uid hash all scopes leases c).2 d := by
  obtain ⟨q, l, hq, hl, hactive, hmem⟩ := Core.exists_of_mem_grants (k := d.core) hd
  unfold invalidateClient
  split
  · split
    · rename_i p hp
      split
      · have hne : q ≠ p := by
          rintro rfl
          exact hc (clientGrants_eq leases c ▸
            Core.grants_of_lease (k := c.core) hp hl hactive ▸ hmem)
        rw [clientGrants_eq,
          Core.grants_of_lease hq (by simpa [Leases.modify, hne] using hl) hactive]
        exact hmem
      · exact hd
    · exact hd
  · exact hd

theorem flushesLane_eq {leases : Leases} {cs : List Client}
    (h : ∀ c ∈ cs, c.hookSubscriptions ≠ ∅ → .inputMonitoring ∈ clientGrants leases c)
    (k k' : HookType) : flushesLane env uid hash all scopes k leases cs =
      flushesLane env uid hash all scopes k' leases cs := by
  by_cases hscope : .inputMonitoring ∈ scopes
  swap
  · have hnone : ∀ k leases, flushesLane env uid hash all scopes k leases cs = false := by
      induction cs with
      | nil => exact fun _ _ => rfl
      | cons _ _ ih => simp [flushesLane, hscope, ih (forall_mem_cons.mp h).2]
    rw [hnone, hnone]
  induction cs generalizing leases with
  | nil => rfl
  | cons c _ ih =>
    obtain ⟨hc, hcs⟩ := forall_mem_cons.mp h
    by_cases hmatch : revokeMatches leases uid hash all c = true
    · by_cases hgrant : .inputMonitoring ∈ clientGrants leases c
      · simp [flushesLane, hmatch, hscope, hgrant]
      have hempty : c.hookSubscriptions = ∅ := by
        by_contra hne
        exact hgrant (hc hne)
      simp only [flushesLane, hgrant, hempty, Finset.notMem_empty, decide_false, Bool.or_false,
        Bool.and_false]
      exact ih fun d hd hne => mem_grants_invalidateClient (hcs d hd hne) hgrant
    · simpa [flushesLane, invalidateClient, hmatch] using ih hcs

namespace Privileged

section

variable (hp : Privileged s)

include hp

theorem even_revokeFlushes : (revokeFlushes env s uid hash all scopes).Even :=
  congrArg Bool.toNat (flushesLane_eq (fun c hc => (hp c hc).hooks) _ _)

theorem changes {p : Permits} (hs : Inv s) (h : Changes p s t) : Privileged t :=
  h.keeps hs hp fun _ _ hinv hu hchange => privileged_change hinv hu hchange

theorem even_snapshotFlushes (hs : Inv s) (snapshots : List Snapshot) :
    (snapshotFlushes env s snapshots).Even := by
  induction snapshots generalizing s with
  | nil => rfl
  | cons snapshot snapshots ih =>
    unfold snapshotFlushes
    split
    · rename_i ht
      have hchanges := (Changes.applySnapshot (p := ⟨False, False, False, False⟩) ht).1
      refine congrArg₂ (· + ·) ?_ (ih (hp.changes hs hchanges) (hchanges.inv hs))
      split
      · rfl
      · exact hp.even_revokeFlushes
    · rfl

theorem even_doneFlushes (hs : Inv s) (task : PermissionTask) : (doneFlushes env s task).Even := by
  unfold doneFlushes
  split_ifs
  · rfl
  · rfl
  · rfl
  · have hend : Changes ⟨False, False, False, False⟩ s
        { s with permissionRefreshInflight := false } :=
      .quiet { QuietStep.refl False s with refresh := nofun }
    exact (hp.changes hs hend).even_snapshotFlushes (hend.inv hs) task.snapshots
  · exact congrArg (1 + ·) hp.even_revokeFlushes
  · rfl

theorem even_laneFlushes (hs : Inv s) (e : Event) : (laneFlushes env s e).Even := by
  unfold laneFlushes
  split
  · split
    · rfl
    rename_i k _ task _
    split
    · have hdrop := Changes.dropTask (p := ⟨False, False, False, False⟩) s k
      exact (hp.changes hs hdrop).even_doneFlushes (hdrop.inv hs) task
    · rfl
  · split <;> rfl
  · rfl
  · split <;> rfl
  · rfl

end

end Privileged

structure Lanes.Level (x : Lanes) : Prop where
  settled : Settled x.state
  privileged : Privileged x.state
  even : x.state.permissionMonitorFailed = false → x.flushGeneration.Even

namespace Lanes

variable {init : State} {x y : Lanes} {e : Input × Flushes}

theorem Level.failed (h : x.Level) (hstep : x.step e = some y)
    (hfailed : x.state.permissionMonitorFailed = true) :
    y.state.permissionMonitorFailed = true := by
  obtain ⟨t, ht, rfl⟩ := Option.map_eq_some_iff.mp hstep
  obtain ⟨u, hu, rfl⟩ := step_changes h.settled ht
  exact hu.keeps h.settled.toInv hfailed
    fun _ _ _ hs hchange => hchange.frame.failed hs

theorem Level.step (h : x.Level) (hstep : x.step e = some y) : y.Level := by
  have hfailed := h.failed hstep
  obtain ⟨t, ht, rfl⟩ := Option.map_eq_some_iff.mp hstep
  obtain ⟨u, hu, rfl⟩ := step_changes h.settled ht
  have hp : Privileged u := h.privileged.changes h.settled.toInv hu
  refine ⟨h.settled.step ht, hp, fun hmonitor => ?_⟩
  rw [hmonitor]
  refine congrArg₂ (· + ·) (h.even ?_) (h.privileged.even_laneFlushes h.settled.toInv _)
  exact Bool.eq_false_iff.mpr fun hbefore =>
    Bool.false_ne_true (hmonitor.symm.trans (hfailed hbefore))

theorem level_of_reaches (hinit : init.Initial) (h : Reaches Lanes.step always ⟨init, 0⟩ x) :
    x.Level :=
  h.invariant
    ⟨hinit.settled, by simp [Privileged, hinit.clients], fun _ => rfl⟩
    fun _ _ _ hx _ hstep => hx.step hstep

theorem Level.later (h : x.Level) (hreach : Reaches Lanes.step always x y) :
    (∀ k, x.flushGeneration k ≤ y.flushGeneration k) ∧
      (x.state.permissionMonitorFailed = true → y.state.permissionMonitorFailed = true) := by
  have hlater := hreach.invariant (P := fun y => y.Level ∧
    (∀ k, x.flushGeneration k ≤ y.flushGeneration k) ∧
      (x.state.permissionMonitorFailed = true → y.state.permissionMonitorFailed = true))
    ⟨h, fun _ => Nat.le_refl _, id⟩ ?_
  · exact hlater.2
  rintro y e z ⟨hy, hle, hfailed⟩ - hstep
  refine ⟨hy.step hstep, fun k => (hle k).trans ?_, fun hx => hy.failed hstep (hfailed hx)⟩
  obtain ⟨t, -, rfl⟩ := Option.map_eq_some_iff.mp hstep
  exact Nat.le_add_right _ _

theorem Level.same (h : x.Level) (hmonitor : x.state.permissionMonitorFailed = false)
    (k k' : HookType) : x.flushGeneration k = x.flushGeneration k' := by
  have heven : x.flushGeneration .keyboard = x.flushGeneration .mouse := h.even hmonitor
  cases k <;> cases k' <;> simp [heven]

end Lanes

/-- As long as the monitor has not failed, the lanes have been flushed equally often. So an event
that was created for one lane and runs on any of them is cancelled by a flush iff some lane has
been flushed since. The counters have 32 bits, so 2^32 flushes since then would not be seen. -/
theorem lane_flush_agreement {init : State} (hinit : init.Initial) {created x : Lanes}
    (hcreated : Reaches Lanes.step always ⟨init, 0⟩ created)
    (h : Reaches Lanes.step always created x)
    (hmonitor : x.state.permissionMonitorFailed = false) :
    x.flushGeneration .keyboard = x.flushGeneration .mouse ∧
    ∀ hookType lane, (x.flushCancelled lane (created.eventGeneration hookType) = true ↔
        ∃ k, x.flushGeneration k % 2 ^ 32 ≠ created.flushGeneration k % 2 ^ 32) ∧
      ((∀ k, x.flushGeneration k < created.flushGeneration k + 2 ^ 32) →
        (x.flushCancelled lane (created.eventGeneration hookType) = true ↔
          ∃ k, created.flushGeneration k < x.flushGeneration k)) := by
  have hlevel := Lanes.level_of_reaches hinit hcreated
  obtain ⟨hle, hfailed⟩ := hlevel.later h
  have hlater := h.invariant hlevel fun _ _ _ hx _ hstep => hx.step hstep
  have hx := hlater.same hmonitor
  have hbefore := hlevel.same <| Bool.eq_false_iff.mpr fun hfail =>
    Bool.false_ne_true (hmonitor.symm.trans (hfailed hfail))
  refine ⟨hx _ _, fun hookType lane => ?_⟩
  rw [Lanes.flushCancelled, Lanes.eventGeneration, bne_iff_ne]
  constructor
  · constructor
    · intro hne
      exact ⟨lane, fun heq => hne (hbefore lane hookType ▸ heq.symm)⟩
    · rintro ⟨k, hne⟩
      rw [hbefore hookType k, hx lane k]
      exact hne.symm
  intro hbound
  constructor
  · intro hne
    refine ⟨lane, lt_of_le_of_ne (hle lane) fun heq => hne ?_⟩
    rw [← heq, hbefore lane hookType]
  · rintro ⟨k, hlt⟩
    rw [hbefore hookType k, hx lane k]
    have hnear := hbound k
    omega

def lostMonitoringRun : List (Input × Flushes) :=
  (subscribedRun ++ ([
    { event := .storeChanged 0 [1] ∅ },
    { event := .notification .generationChanged },
    { event := .worker 0 (.start none) },
    { event := .worker 0 (.store true) },
    { event := .worker 0 (.store true) },
    { event := .worker 0 (.finish true) },
    { event := .permissionDone 0 }] : List Input)).map (·, 0)

theorem lane_flush_agreement_run :
    ∃ x, Reaches Lanes.step always ⟨{}, 0⟩ x ∧ x.state.permissionMonitorFailed = false ∧
      x.flushGeneration .keyboard = 2 ∧ x.flushGeneration .mouse = 2 ∧
      x.flushCancelled .mouse (Lanes.eventGeneration ⟨{}, 0⟩ .keyboard) = true := by
  obtain ⟨x, hx, hworks, htwo⟩ := exists_reaches Lanes.step ⟨{}, 0⟩ lostMonitoringRun (q := fun x =>
    x.state.permissionMonitorFailed = false ∧ x.flushGeneration .keyboard = 2) (by decide +kernel)
  obtain ⟨hequal, hcancelled⟩ := lane_flush_agreement initial_default .refl hx hworks
  refine ⟨x, hx, hworks, htwo, hequal ▸ htwo, ((hcancelled _ _).2 fun k => ?_).mpr
    ⟨.keyboard, htwo ▸ Nat.two_pos⟩⟩
  have hmouse : x.flushGeneration .mouse = 2 := hequal ▸ htwo
  cases k with
  | keyboard => omega
  | mouse => omega

end KeysharpInput.Session
