import KeysharpInput.Privilege

/-!
What a revocation touches.
The clients of the user whose lease has the hash lose the scopes and what they use them for; the
others keep everything. The devices are given new grab masks if a subscription or a block went away.
Which clients count for the masks depends on the seat and on refreshes, so the masks are always
computed again from the whole table.
-/
namespace KeysharpInput.Session

open List Transition Function Session.Client

structure GrabMasks where
  hookMask : Finset HookType := ∅
  blockMask : Finset HookType := ∅
  deriving DecidableEq

def State.counts (s : State) (c : Client) : Bool :=
  !c.permissionRefreshPending && s.inputOwnerMatchesUid c.uid

def activeHookSubscriptionMask (s : State) : Finset HookType :=
  s.clients.foldl (fun mask c =>
    if s.counts c then mask ∪ (c.hookSubscriptions \ c.quarantinedHooks) else mask) ∅

def activeBlockInputMask (s : State) : Finset HookType :=
  s.clients.foldl (fun mask c => if s.counts c then mask ∪ c.blockInputMask else mask) ∅

def Env.readyHooks (env : Env) : Finset HookType :=
  ({.keyboard, .mouse} : Finset HookType).filter fun t =>
    env.readyOperations &&& hookOperation t ≠ 0

/-- The masks that `update_grab_state` computes. A hook grab needs an output to replay to and
waits for the backend; a block does not. -/
def wantedMasks (env : Env) (s : State) : GrabMasks where
  hookMask := activeHookSubscriptionMask s ∩ env.readyHooks
  blockMask := activeBlockInputMask s

/-- `set_grab_masks`: equal masks are left alone, others stored. -/
def GrabMasks.set (masks wanted : GrabMasks) : GrabMasks :=
  if masks = wanted then masks else wanted

/-- `update_grab_state`: the hook mask is set first, with the block mask as it was. -/
def updateGrabState (env : Env) (s : State) (masks : GrabMasks) : GrabMasks :=
  let wanted := wantedMasks env s
  (masks.set { masks with hookMask := wanted.hookMask }).set wanted

/-- What the loop of `invalidate_connected_permissions` notes for its end. -/
structure RevokeFlags where
  flushed : Finset HookType := ∅
  grabsChanged : Bool := false

/-- The flags after one turn for a matching client with the grants `old`. -/
def RevokeFlags.turn (scopes old : Scopes) (c : Client) (flags : RevokeFlags) : RevokeFlags :=
  let hook := fun (flags : RevokeFlags) (t : HookType) =>
    if .inputMonitoring ∈ scopes then
      { flushed := if .inputMonitoring ∈ old ∨ t ∈ c.hookSubscriptions then insert t flags.flushed
          else flags.flushed
        grabsChanged := flags.grabsChanged || decide (t ∈ c.hookSubscriptions) }
    else flags
  let flags := hook (hook flags .keyboard) .mouse
  if .inputControl ∈ scopes ∧ c.blockInputMask ≠ ∅ then { flags with grabsChanged := true }
  else flags

def revokeFlags (env : Env) (uid : Nat) (hash : Hash) (allExecutables : Bool) (scopes : Scopes) :
    Leases → List Client → RevokeFlags → RevokeFlags
  | _, [], flags => flags
  | leases, c :: cs, flags =>
    let flags := if revokeMatches leases uid hash allExecutables c then
        flags.turn scopes (clientGrants leases c) c
      else flags
    revokeFlags env uid hash allExecutables scopes
      (invalidateClient env uid hash allExecutables scopes leases c).2 cs flags

/-- The masks after `invalidate_connected_permissions`. -/
def masksAfterRevoke (env : Env) (s : State) (masks : GrabMasks) (uid : Nat) (hash : Hash)
    (allExecutables : Bool) (scopes : Scopes) : GrabMasks :=
  if (revokeFlags env uid hash allExecutables scopes s.leases s.clients {}).grabsChanged then
    updateGrabState env (invalidateConnectedPermissions env s uid hash allExecutables scopes) masks
  else masks

variable {env : Env} {uid : Nat} {hash : Hash} {all : Bool} {scopes : Scopes} {leases : Leases}
  {c : Client}

theorem GrabMasks.set_eq (masks wanted : GrabMasks) : masks.set wanted = wanted := by
  unfold GrabMasks.set
  split
  · assumption
  · rfl

theorem updateGrabState_eq (env : Env) (s : State) (masks : GrabMasks) :
    updateGrabState env s masks = wantedMasks env s :=
  GrabMasks.set_eq _ _

structure Monitored where
  hookSubscriptions : Finset HookType := ∅
  observerSubscriptions : Finset Observed := ∅
  hookSubscriptionOrdinal : HookType → Nat := fun _ => 0
  consecutiveHookFailures : HookType → Nat := fun _ => 0
  quarantinedHooks : Finset HookType := ∅
  quarantineRearmAfterMs : HookType → Nat := fun _ => 0
  lastHookQuarantineMs : HookType → Nat := fun _ => 0
  stalledLanes : Finset HookType := ∅

def Client.monitored (c : Client) : Monitored where
  hookSubscriptions := c.hookSubscriptions
  observerSubscriptions := c.observerSubscriptions
  hookSubscriptionOrdinal := c.hookSubscriptionOrdinal
  consecutiveHookFailures := c.consecutiveHookFailures
  quarantinedHooks := c.quarantinedHooks
  quarantineRearmAfterMs := c.quarantineRearmAfterMs
  lastHookQuarantineMs := c.lastHookQuarantineMs
  stalledLanes := c.stalledLanes

theorem erase_both (hooks : Finset HookType) : (hooks.erase .keyboard).erase .mouse = ∅ := by
  ext t
  cases t <;> simp

theorem update_both (f : HookType → Nat) : update (update f .keyboard 0) .mouse 0 = fun _ => 0 := by
  funext t
  cases t <;> simp

theorem monitored_clearHooks (c : Client) :
    (({ c with observerSubscriptions := ∅ }.clearHook .keyboard).clearHook .mouse).monitored =
      {} := by
  simp only [monitored, clearHook, erase_both, update_both]

theorem monitored_dropScopes (scopes : Scopes) (c : Client) :
    (c.dropScopes scopes).monitored = (if .inputMonitoring ∈ scopes then {} else c.monitored) ∧
      (c.dropScopes scopes).blockInputMask =
        if .inputControl ∈ scopes then ∅ else c.blockInputMask := by
  have hretire : ∀ (p : Prop) [Decidable p] (c : Client),
      (if p then c.invalidate else c).monitored = c.monitored ∧
        (if p then c.invalidate else c).blockInputMask = c.blockInputMask := by
    intro p _ c
    split <;> exact ⟨rfl, rfl⟩
  unfold dropScopes
  rw [(hretire _ _).1, (hretire _ _).2]
  by_cases hmonitoring : .inputMonitoring ∈ scopes <;>
    by_cases hcontrol : .inputControl ∈ scopes <;>
    simp only [hmonitoring, hcontrol, if_true, if_false]
  · exact ⟨monitored_clearHooks c, trivial⟩
  · exact ⟨monitored_clearHooks c, rfl⟩
  · exact ⟨rfl, trivial⟩
  · exact ⟨trivial, trivial⟩

theorem invalidateClient_of_matches (env : Env) (scopes : Scopes)
    (h : revokeMatches leases uid hash all c = true) :
    (invalidateClient env uid hash all scopes leases c).1.monitored =
        (if .inputMonitoring ∈ scopes then {} else c.monitored) ∧
      (invalidateClient env uid hash all scopes leases c).1.blockInputMask =
        if .inputControl ∈ scopes then ∅ else c.blockInputMask := by
  have hnotice : ∀ (p : Prop) [Decidable p] (frame : Frame),
      (if p then c.notify env frame else c).monitored = c.monitored ∧
        (if p then c.notify env frame else c).blockInputMask = c.blockInputMask := by
    intro _ _ _
    unfold notify
    split
    · split <;> exact ⟨rfl, rfl⟩
    · exact ⟨rfl, rfl⟩
  unfold invalidateClient
  rw [if_pos h]
  rw [(monitored_dropScopes _ _).1, (monitored_dropScopes _ _).2, (hnotice _ _).1, (hnotice _ _).2]
  exact ⟨rfl, rfl⟩

theorem invalidateClient_of_not_matches (h : ¬ revokeMatches leases uid hash all c = true) :
    (invalidateClient env uid hash all scopes leases c).1 = c := by
  unfold invalidateClient
  rw [if_neg h]

theorem RevokeFlags.turn_grabsChanged (scopes old : Scopes) (c : Client) (flags : RevokeFlags) :
    (flags.turn scopes old c).grabsChanged = true ↔ flags.grabsChanged = true ∨
      (.inputMonitoring ∈ scopes ∧ c.hookSubscriptions ≠ ∅) ∨
      (.inputControl ∈ scopes ∧ c.blockInputMask ≠ ∅) := by
  have hhooks : c.hookSubscriptions ≠ ∅ ↔
      .keyboard ∈ c.hookSubscriptions ∨ .mouse ∈ c.hookSubscriptions := by
    rw [← Finset.nonempty_iff_ne_empty]
    constructor
    · rintro ⟨t, ht⟩
      cases t
      · exact .inl ht
      · exact .inr ht
    · rintro (ht | ht) <;> exact ⟨_, ht⟩
  unfold RevokeFlags.turn
  rw [hhooks]
  by_cases hmonitoring : .inputMonitoring ∈ scopes <;>
    by_cases hblock : .inputControl ∈ scopes ∧ c.blockInputMask ≠ ∅ <;>
    simp [hmonitoring, hblock, or_assoc]

theorem revokeFlags_grabsChanged (cs : List Client) (flags : RevokeFlags) :
    (revokeFlags env uid hash all scopes leases cs flags).grabsChanged = true ↔
      flags.grabsChanged = true ∨ ∃ c ∈ cs, revokeMatches leases uid hash all c = true ∧
        ((.inputMonitoring ∈ scopes ∧ c.hookSubscriptions ≠ ∅) ∨
          (.inputControl ∈ scopes ∧ c.blockInputMask ≠ ∅)) := by
  induction cs generalizing leases flags with
  | nil => simp [revokeFlags]
  | cons c _ ih =>
    have hshrinks := invalidateClient_shrinks env uid hash all scopes leases c
    simp only [revokeFlags, ih, revokeMatches_shrinks hshrinks]
    by_cases hmatch : revokeMatches leases uid hash all c = true
    · rw [if_pos hmatch, RevokeFlags.turn_grabsChanged, or_assoc]
      simp [hmatch]
    · simp [hmatch]

theorem grabsChanged_of_lost {s : State} {c' : Client} (hc : c ∈ s.clients)
    (hc' : c' = (invalidateClient env uid hash all scopes s.leases c).1)
    (hlost : c'.hookSubscriptions ≠ c.hookSubscriptions ∨ c'.blockInputMask ≠ c.blockInputMask) :
    (revokeFlags env uid hash all scopes s.leases s.clients {}).grabsChanged = true := by
  rw [revokeFlags_grabsChanged]
  refine .inr ⟨c, hc, ?_⟩
  by_cases hmatch : revokeMatches s.leases uid hash all c = true
  · obtain ⟨hmonitored, hblock⟩ := invalidateClient_of_matches env scopes hmatch
    rw [← hc'] at hmonitored hblock
    refine ⟨hmatch, hlost.imp (fun hhooks => ?_) fun hmask => ?_⟩
    · have hmonitoring : .inputMonitoring ∈ scopes := by
        by_contra hkept
        rw [if_neg hkept] at hmonitored
        exact hhooks (congrArg Monitored.hookSubscriptions hmonitored)
      rw [if_pos hmonitoring] at hmonitored
      have hempty : c'.hookSubscriptions = ∅ := congrArg Monitored.hookSubscriptions hmonitored
      exact ⟨hmonitoring, fun hnone => hhooks (hempty.trans hnone.symm)⟩
    · have hcontrol : .inputControl ∈ scopes := by
        by_contra hkept
        rw [if_neg hkept] at hblock
        exact hmask hblock
      rw [if_pos hcontrol] at hblock
      exact ⟨hcontrol, fun hnone => hmask (hblock.trans hnone.symm)⟩
  · rw [invalidateClient_of_not_matches hmatch] at hc'
    subst hc'
    simp at hlost

structure RevokedFrom (scopes : Scopes) (leases : Leases) (c : Client) (leases' : Leases)
    (c' : Client) : Prop where
  grants : clientGrants leases' c' = clientGrants leases c \ scopes
  monitored : c'.monitored = if .inputMonitoring ∈ scopes then {} else c.monitored
  block : c'.blockInputMask = if .inputControl ∈ scopes then ∅ else c.blockInputMask

/-- In every run, a revocation changes exactly the clients it concerns, and the masks follow the
new table if one of them lost a subscription or a block. -/
theorem revocation_frame {init s : State} (hinit : init.Initial)
    (h : Reaches step always init s) (env : Env) (masks : GrabMasks)
    (uid : Nat) (hash : Hash) (all : Bool) (scopes : Scopes) :
    let t := invalidateConnectedPermissions env s uid hash all scopes
    let masks' := masksAfterRevoke env s masks uid hash all scopes
    t.clients.length = s.clients.length ∧
    (∀ (i : Nat) (c c' : Client), s.clients[i]? = some c → t.clients[i]? = some c' →
      (c.core.Matches s.leases uid hash all → RevokedFrom scopes s.leases c t.leases c') ∧
      (¬ c.core.Matches s.leases uid hash all →
        c' = c ∧ clientGrants t.leases c' = clientGrants s.leases c) ∧
      (c'.hookSubscriptions ≠ c.hookSubscriptions ∨ c'.blockInputMask ≠ c.blockInputMask →
        masks'.hookMask = activeHookSubscriptionMask t ∩ env.readyHooks ∧
          masks'.blockMask = activeBlockInputMask t)) := by
  classical
  intro t masks'
  have hinv : Inv s := (settled_of_reaches hinit h).toInv
  have hclients : t.clients = s.clients.map _ := hinv.invalidate_clients
  refine ⟨by rw [hclients, length_map], fun i c c' hi hi' => ?_⟩
  have hc := mem_of_getElem? hi
  have hc' : c' = (invalidateClient env uid hash all scopes s.leases c).1 := by
    rw [hclients, getElem?_map, hi] at hi'
    exact (Option.some.inj hi').symm
  have hcore : c'.core = c.core := by
    rw [hc']
    exact (invalidateClient_withdrawn env uid hash all scopes s.leases c).core
  have hgrants := hinv.invalidate_grants env uid hash all scopes (mem_cores hc)
  have hafter : clientGrants t.leases c' = c.core.grants t.leases := by
    rw [← hcore]
    rfl
  refine ⟨fun hmatch => ?_, fun hmatch => ?_, fun hlost => ?_⟩
  · rw [if_pos hmatch] at hgrants
    obtain ⟨hmonitored, hblock⟩ := invalidateClient_of_matches env scopes
      ((hinv.revokeMatches_iff hc).mpr hmatch)
    rw [← hc'] at hmonitored hblock
    exact ⟨hafter.trans hgrants, hmonitored, hblock⟩
  · rw [if_neg hmatch] at hgrants
    refine ⟨hc'.trans (invalidateClient_of_not_matches ?_), hafter.trans hgrants⟩
    exact fun hmatches => hmatch ((hinv.revokeMatches_iff hc).mp hmatches)
  have hmasks : masks' = wantedMasks env t := by
    change masksAfterRevoke env s masks uid hash all scopes = _
    unfold masksAfterRevoke
    rw [if_pos (grabsChanged_of_lost hc hc' hlost), updateGrabState_eq]
  rw [hmasks]
  exact ⟨rfl, rfl⟩

/-- The subscription of a callback stream goes with Input Monitoring, and the mask with it. -/
theorem revocation_frame_of_run : ∃ s, Reaches step always {} s ∧ ∃ c, s.clients[1]? = some c ∧
      c.hookSubscriptions = {.keyboard} ∧ c.core.Matches s.leases 0 [1] false ∧
      ∀ c', (invalidateConnectedPermissions {} s 0 [1] false {.inputMonitoring}).clients[1]? =
          some c' →
        RevokedFrom {.inputMonitoring} s.leases c
          (invalidateConnectedPermissions {} s 0 [1] false {.inputMonitoring}).leases c' := by
  obtain ⟨s, hs, hq⟩ := exists_reaches step {} subscribedRun
    (q := fun s : State => s.clients[1]?.any fun c : Client =>
      decide (c.hookSubscriptions = {.keyboard}) && revokeMatches s.leases 0 [1] false c)
    (by decide)
  obtain ⟨c, hc, hq⟩ := (Option.any_eq_true _ _).mp hq
  simp only [Bool.and_eq_true, decide_eq_true_eq] at hq
  have hinv : Inv s := (settled_of_reaches initial_default hs).toInv
  have hmatch := (hinv.revokeMatches_iff (mem_of_getElem? hc)).mp hq.2
  refine ⟨s, hs, c, hc, hq.1, hmatch, fun c' hc' => ?_⟩
  exact ((revocation_frame initial_default hs {} {} 0 [1] false {.inputMonitoring}).2 1 c c' hc
    hc').1 hmatch

end KeysharpInput.Session
