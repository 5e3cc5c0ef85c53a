import KeysharpInput.Quarantine

/-!
The order in which hook subscribers are called.
A subscription takes the next ordinal of its hook type, and an event captures the clients by
descending ordinal, whatever the order of the client table. The ordinals follow the times at which
the subscriptions came into effect: a request that changes nothing or is rolled back leaves them,
and a client that leaves and subscribes again goes to the front.
-/

namespace KeysharpInput.Session

open Function Tables Transition List Finset State Nat Session.Client

variable {p : Permits} {s t init : State} {input : Input} {h : History}
  {since : Nat → HookType → Nat} {guard : History → Input → Prop}

/-- Whether the loop of `create_hook_lane_event` moves a candidate before another one. -/
def outranks (k : HookType) (c d : Client) : Bool :=
  decide (d.hookSubscriptionOrdinal k < c.hookSubscriptionOrdinal k) ||
    c.hookSubscriptionOrdinal k == d.hookSubscriptionOrdinal k &&
      decide (d.connectionId < c.connectionId)

def insertCandidate (k : HookType) (c : Client) : List Client → List Client
  | [] => [c]
  | d :: before => if outranks k c d then d :: insertCandidate k c before else c :: d :: before

/-- The outer loop goes through the table from its end; the candidates are listed from the last
to the first. A raw report fragment has no event and collects none. -/
def State.collectCandidates (s : State) (k : HookType) (eventSize : Nat) : List Client :=
  s.clients.reverse.foldl (fun candidates c =>
    if eventSize ≠ 0 ∧ candidates.length < maxClients then
      if s.hooked k c then insertCandidate k c candidates else candidates
    else candidates) []

/-- The connections that `create_hook_lane_event` captures, in calling order. -/
def State.captureSubscribers (s : State) (k : HookType) (eventSize : Nat) : List Nat :=
  ((s.collectCandidates k eventSize).reverse.filter (·.streamValid)).map (·.connectionId)

section Sorting

variable {k : HookType} {s : State} {eventSize : Nat}

theorem outranks_eq_true_iff (c d : Client) : outranks k c d = true ↔ ¬calledBefore k d c := by
  simp only [outranks, calledBefore, Bool.or_eq_true, Bool.and_eq_true, decide_eq_true_eq,
    beq_iff_eq]
  omega

instance (k : HookType) : Std.Total fun c d : Client => calledBefore k d c where
  total c d := by
    unfold calledBefore
    omega

instance (k : HookType) : IsTrans Client fun c d => calledBefore k d c where
  trans c d e := by
    unfold calledBefore
    omega

instance (k : HookType) : Std.Total (calledBefore k) where
  total c d := by
    unfold calledBefore
    omega

instance (k : HookType) : IsTrans Client (calledBefore k) where
  trans c d e := by
    unfold calledBefore
    omega

theorem insertCandidate_eq (c : Client) (candidates : List Client) :
    insertCandidate k c candidates =
      candidates.orderedInsert (fun c d => calledBefore k d c) c := by
  induction candidates with
  | nil => rfl
  | cons d _ ih =>
    unfold insertCandidate
    rw [orderedInsert_cons, ih]
    by_cases hbefore : calledBefore k d c
    · rw [if_pos hbefore, if_neg (by simpa [outranks_eq_true_iff] using hbefore)]
    · rw [if_neg hbefore, if_pos ((outranks_eq_true_iff c d).mpr hbefore)]

theorem collectCandidates_eq (hsize : eventSize ≠ 0) (hroom : s.clients.length ≤ maxClients) :
    s.collectCandidates k eventSize =
      (s.clients.filter (s.hooked k)).insertionSort fun c d => calledBefore k d c := by
  unfold collectCandidates
  rw [foldl_reverse]
  generalize s.clients = clients at hroom ⊢
  induction clients with
  | nil => rfl
  | cons c clients ih =>
    rw [length_cons] at hroom
    have hfilter := length_filter_le (s.hooked k) clients
    rw [foldr_cons, ih (by omega), if_pos ⟨hsize, by rw [length_insertionSort]; omega⟩]
    by_cases hhooked : s.hooked k c = true
    · rw [if_pos hhooked, filter_cons_of_pos hhooked, insertionSort_cons, insertCandidate_eq]
    · rw [if_neg hhooked, filter_cons_of_neg hhooked]

theorem captureSubscribers_eq (hsize : eventSize ≠ 0) (hroom : s.clients.length ≤ maxClients)
    (hn : (s.clients.map connectionId).Nodup) :
    s.captureSubscribers k eventSize = (s.createHookLaneEvent k).subscribers := by
  have hsort : (s.collectCandidates k eventSize).reverse =
      (s.clients.filter (s.hooked k)).insertionSort (calledBefore k) := by
    rw [collectCandidates_eq hsize hroom]
    have hsorted : ((s.clients.filter (s.hooked k)).insertionSort
        fun c d => calledBefore k d c).reverse.Pairwise (calledBefore k) := by
      rw [pairwise_reverse]
      exact pairwise_insertionSort _ _
    refine List.Perm.eq_of_pairwise ?_ hsorted (pairwise_insertionSort _ _)
      ((reverse_perm _).trans ((perm_insertionSort _ _).trans
        (perm_insertionSort _ _).symm))
    intro c d hc hd hcd hdc
    rw [mem_reverse, mem_insertionSort] at hc
    rw [mem_insertionSort] at hd
    refine eq_of_key_eq hn (mem_of_mem_filter hc) (mem_of_mem_filter hd) ?_
    unfold calledBefore at hcd hdc
    omega
  unfold captureSubscribers createHookLaneEvent
  rw [hsort]

end Sorting

theorem Changes.ordinals (h : Changes p s t) (k : HookType) :
    s.nextHookSubscriptionOrdinal k ≤ t.nextHookSubscriptionOrdinal k := by
  induction h with
  | refl => exact le_refl _
  | tail _ hlast ih => exact ih.trans (hlast.frame.ordinals k)

theorem length_le_of_reaches {guard : State → Input → Prop} (hinit : init.Initial)
    (h : Reaches step guard init s) : s.clients.length ≤ maxClients :=
  invariant_of_changes hinit (by simp [hinit.clients]) (fun _ _ hs => hs)
    (fun _ _ _ _ _ _ hs hchange => hchange.frame.length hs) h

def State.Placed (s : State) (connectionId : Nat) (k : HookType) (ordinal : Nat) : Prop :=
  ∃ c ∈ s.clients, c.connectionId = connectionId ∧ k ∈ c.hookSubscriptions ∧
    c.hookSubscriptionOrdinal k = ordinal

def ChainKept (s t : State) : Prop :=
  (∀ connectionId k ordinal, t.Placed connectionId k ordinal → s.Placed connectionId k ordinal) ∧
    ∀ k, s.nextHookSubscriptionOrdinal k ≤ t.nextHookSubscriptionOrdinal k

theorem Changes.chainKept (h : Changes p s t) (hp : ¬p.subscribes) : ChainKept s t := by
  refine ⟨?_, h.ordinals⟩
  rintro _ k _ ⟨c', hc', hid, hmem, hordinal⟩
  rcases HooksKept.changes h c' hc' with ⟨hnone, -⟩ | ⟨c, hc, hkeeps⟩
  · exact absurd hmem (hnone.resolve_left hp ▸ notMem_empty k)
  · obtain ⟨hold, hsame⟩ := hkeeps.ordinals.resolve_left hp k hmem
    exact ⟨c, hc, hkeeps.connectionId.symm.trans hid, hold, hsame.symm.trans hordinal⟩

structure Enters (s t : State) (connectionId : Nat) (k : HookType) : Prop where
  out : ∀ ordinal, ¬s.Placed connectionId k ordinal
  front : t.Placed connectionId k (s.nextHookSubscriptionOrdinal k + 1)
  next : t.nextHookSubscriptionOrdinal = update s.nextHookSubscriptionOrdinal k
    (s.nextHookSubscriptionOrdinal k + 1)
  placed : ∀ id k' ordinal, t.Placed id k' ordinal → s.Placed id k' ordinal ∨
    id = connectionId ∧ k' = k ∧ ordinal = s.nextHookSubscriptionOrdinal k + 1

theorem enters_of_fresh {i : Nat} {c : Client} (k : HookType) (frame : Client → Frame)
    (hn : (s.clients.map connectionId).Nodup) (hc : s.clients[i]? = some c)
    (hout : k ∉ c.hookSubscriptions) :
    Enters s (({ s.modifyClient i fun c =>
        { c with
          hookSubscriptions := insert k c.hookSubscriptions
          hookSubscriptionOrdinal := update c.hookSubscriptionOrdinal k
            (s.nextHookSubscriptionOrdinal k + 1) } with
      nextHookSubscriptionOrdinal := update s.nextHookSubscriptionOrdinal k
        (s.nextHookSubscriptionOrdinal k + 1) }).modifyClient i fun c => c.reply (frame c))
      c.connectionId k := by
  have hself : ∀ d ∈ s.clients, d.connectionId = c.connectionId → d = c := fun d hd hid =>
    eq_of_key_eq hn hd (mem_of_getElem? hc) hid
  refine ⟨?_, ?_, rfl, ?_⟩
  · rintro ordinal ⟨d, hd, hid, hmem, -⟩
    exact hout (hself d hd hid ▸ hmem)
  · have hin : ∀ f : Client → Client, f c ∈ s.clients.modify i f := fun f =>
      (mem_modify hn hc).mpr (.inl rfl)
    simp only [modifyClient, modify_modify_eq]
    exact ⟨_, hin _, rfl, mem_insert_self k _, update_self ..⟩
  rintro _ k' _ ⟨d, hd, hid, hmem, hordinal⟩
  simp only [modifyClient, modify_modify_eq] at hd
  rcases (mem_modify hn hc).mp hd with rfl | ⟨hd, -⟩
  · by_cases hk : k' = k
    · subst hk
      refine .inr ⟨hid.symm, rfl, hordinal.symm.trans ?_⟩
      exact update_self ..
    · refine .inl ⟨c, mem_of_getElem? hc, hid, mem_of_mem_insert_of_ne hmem hk, ?_⟩
      refine Eq.trans ?_ hordinal
      exact (update_of_ne hk _ _).symm
  · exact .inl ⟨d, hd, hid, hmem, hordinal⟩

theorem subscribe_cases (env : Env) (i requestId : Nat) (payload : Option HookPayload)
    (hn : (s.clients.map connectionId).Nodup) :
    ChainKept s (handleBinaryMessage env s i requestId (.subscribeHook payload)) ∨ ∃ connectionId k,
        Enters s (handleBinaryMessage env s i requestId (.subscribeHook payload))
          connectionId k := by
  have hkept : ∀ {t}, Changes ⟨True, True, True, False⟩ s t → ChainKept s t := fun h =>
    h.chainKept id
  unfold handleBinaryMessage
  split
  · exact .inl (hkept (.refl s))
  rename_i c hc
  split
  · exact .inl (hkept (.removeClient s i))
  unfold handleRequest handleHookSubscription
  rw [hc]
  dsimp only
  split
  · exact .inl (hkept (.sendStatus ..))
  split
  · exact .inl (hkept (.sendStatus ..))
  split
  · exact .inl (hkept (.sendStatus ..))
  split
  · exact .inl (hkept (.sendStatus ..))
  rename_i k _
  split
  · exact .inl (hkept (.handleObserverSubscription env _ requestId k hc))
  unfold handleCallbackSubscription
  split
  · exact .inl (hkept (.sendStatus ..))
  split
  · exact .inl (hkept (.sendStatus ..))
  split
  · unfold changeHookSubscription
    rw [if_pos rfl]
    split
    · exact .inl (hkept (.modifyClient s i _ fun _ => .reply fun _ => rfl))
    · rename_i hout
      exact .inr ⟨c.connectionId, k, enters_of_fresh k _ hn hc hout⟩
  · exact .inl (hkept ((Changes.rollbackHookSubscription .subscribeHook k hc).trans
      (.sendStatus ..)))

theorem step_chain (h : Settled s) (ht : step s input = some t) :
    t.clock = s.clock + 1 ∧ (ChainKept s t ∨ ∃ connectionId k, Enters s t connectionId k) := by
  obtain ⟨u, hu, rfl⟩ := Option.map_eq_some_iff.mp ht
  refine ⟨rfl, ?_⟩
  by_cases hp : (permits s input).subscribes
  · obtain ⟨i, requestId, payload, hevent⟩ := hp
    obtain rfl : handleBinaryMessage input.env s i requestId (.subscribeHook payload) = u := by
      simpa [handle, hevent] using hu
    rcases subscribe_cases input.env i requestId payload h.clients_nodup with
      hkept | ⟨id, k, henters⟩
    · exact .inl hkept
    · exact .inr ⟨id, k, ⟨henters.out, henters.front, henters.next, henters.placed⟩⟩
  · exact .inl ((handle_changes h hu).chainKept hp)

structure History where
  daemon : State
  since : Nat → HookType → Nat := fun _ _ => 0

def State.subscribed (s : State) (connectionId : Nat) (k : HookType) : Bool :=
  s.clients.any fun c => c.connectionId == connectionId && decide (k ∈ c.hookSubscriptions)

theorem State.subscribed_eq_true_iff {connectionId : Nat} {k : HookType} :
    s.subscribed connectionId k = true ↔ ∃ ordinal, s.Placed connectionId k ordinal := by
  simp only [subscribed, any_eq_true, Bool.and_eq_true, beq_iff_eq, decide_eq_true_eq]
  constructor
  · rintro ⟨c, hc, hid, hmem⟩
    exact ⟨_, c, hc, hid, hmem, rfl⟩
  · rintro ⟨_, c, hc, hid, hmem, -⟩
    exact ⟨c, hc, hid, hmem⟩

def History.step (h : History) (input : Input) : Option History :=
  (Session.step h.daemon input).map fun t =>
    { daemon := t
      since := fun connectionId k =>
        if t.subscribed connectionId k && !h.daemon.subscribed connectionId k then t.clock
        else h.since connectionId k }

structure Chained (h : History) : Prop where
  settled : Settled h.daemon
  bounded : ∀ id k ordinal, h.daemon.Placed id k ordinal →
    ordinal ≤ h.daemon.nextHookSubscriptionOrdinal k ∧ h.since id k ≤ h.daemon.clock
  ordered : ∀ id id' k ordinal ordinal', h.daemon.Placed id k ordinal →
    h.daemon.Placed id' k ordinal' → id ≠ id' → ordinal < ordinal' ∧ h.since id k < h.since id' k ∨
        ordinal' < ordinal ∧ h.since id' k < h.since id k

theorem Chained.kept (hh : Chained h) (ht : Settled t) (hkept : ChainKept h.daemon t)
    (hclock : t.clock = h.daemon.clock + 1)
    (hsince : ∀ id k ordinal, h.daemon.Placed id k ordinal → since id k = h.since id k) :
    Chained ⟨t, since⟩ := by
  refine ⟨ht, fun id k ordinal hp => ?_, fun id id' k ordinal ordinal' hp hp' hne => ?_⟩
  · have hold := hkept.1 _ _ _ hp
    obtain ⟨hnext, htime⟩ := hh.bounded _ _ _ hold
    dsimp only
    rw [hsince _ _ _ hold, hclock]
    exact ⟨hnext.trans (hkept.2 k), htime.trans (le_succ _)⟩
  · have hold := hkept.1 _ _ _ hp
    have hold' := hkept.1 _ _ _ hp'
    dsimp only
    rw [hsince _ _ _ hold, hsince _ _ _ hold']
    exact hh.ordered _ _ _ _ _ hold hold' hne

theorem Chained.enters {front : Nat} {k₀ : HookType} (hh : Chained h) (ht : Settled t)
    (henters : Enters h.daemon t front k₀) (hclock : t.clock = h.daemon.clock + 1)
    (hfront : since front k₀ = t.clock)
    (hsince : ∀ id k ordinal, h.daemon.Placed id k ordinal → since id k = h.since id k) :
    Chained ⟨t, since⟩ := by
  have hnext : ∀ k, h.daemon.nextHookSubscriptionOrdinal k ≤ t.nextHookSubscriptionOrdinal k := by
    intro k
    rw [henters.next, update_apply]
    split
    · rename_i hk
      rw [hk]
      exact le_succ _
    · exact le_refl _
  -- Everyone else in the chain has a smaller ordinal and an earlier time.
  have hbehind : ∀ id ordinal, h.daemon.Placed id k₀ ordinal →
      ordinal < h.daemon.nextHookSubscriptionOrdinal k₀ + 1 ∧ since id k₀ < since front k₀ := by
    intro id ordinal hold
    obtain ⟨hle, htime⟩ := hh.bounded _ _ _ hold
    rw [hsince _ _ _ hold, hfront, hclock]
    exact ⟨lt_succ_of_le hle, lt_succ_of_le htime⟩
  refine ⟨ht, fun id k ordinal hp => ?_, fun id id' k ordinal ordinal' hp hp' hne => ?_⟩
  · dsimp only
    rcases henters.placed _ _ _ hp with hold | ⟨rfl, rfl, rfl⟩
    · obtain ⟨hle, htime⟩ := hh.bounded _ _ _ hold
      rw [hsince _ _ _ hold, hclock]
      exact ⟨hle.trans (hnext k), htime.trans (le_succ _)⟩
    · rw [hfront, henters.next, update_self]
      exact ⟨le_refl _, le_refl _⟩
  dsimp only
  rcases henters.placed _ _ _ hp with hold | ⟨rfl, rfl, rfl⟩
  · rcases henters.placed _ _ _ hp' with hold' | ⟨rfl, rfl, rfl⟩
    · rw [hsince _ _ _ hold, hsince _ _ _ hold']
      exact hh.ordered _ _ _ _ _ hold hold' hne
    · exact .inl (hbehind _ _ hold)
  · rcases henters.placed _ _ _ hp' with hold' | ⟨rfl, -, -⟩
    · exact .inr (hbehind _ _ hold')
    · exact absurd rfl hne

theorem Chained.step {h' : History} (hh : Chained h) (hstep : h.step input = some h') :
    Chained h' := by
  obtain ⟨t, ht, rfl⟩ := Option.map_eq_some_iff.mp hstep
  have hsettled := hh.settled.step ht
  obtain ⟨hclock, hcases⟩ := step_chain hh.settled ht
  have hsince : ∀ id k ordinal, h.daemon.Placed id k ordinal →
      (if t.subscribed id k && !h.daemon.subscribed id k then t.clock else h.since id k) =
        h.since id k := by
    intro _ k ordinal hold
    rw [subscribed_eq_true_iff.mpr ⟨ordinal, hold⟩]
    simp
  rcases hcases with hkept | ⟨front, k, henters⟩
  · exact hh.kept hsettled hkept hclock hsince
  refine hh.enters hsettled henters hclock ?_ hsince
  have hin : t.subscribed front k = true := subscribed_eq_true_iff.mpr ⟨_, henters.front⟩
  have hout : h.daemon.subscribed front k = false := by
    refine Bool.eq_false_iff.mpr fun hsub => ?_
    obtain ⟨ordinal, hold⟩ := subscribed_eq_true_iff.mp hsub
    exact henters.out ordinal hold
  rw [hin, hout]
  rfl

theorem chained_of_reaches (hinit : init.Initial)
    (hr : Reaches History.step guard { daemon := init } h) : Chained h := by
  refine hr.invariant ⟨hinit.settled, ?_, ?_⟩ fun _ _ _ hh _ hstep => hh.step hstep
  · rintro id k ordinal ⟨c, hc, -⟩
    simp [hinit.clients] at hc
  · rintro _ _ _ _ _ ⟨_, hc, -⟩
    simp [hinit.clients] at hc

theorem reaches_daemon {init : History} (hr : Reaches History.step guard init h) :
    Reaches step always init.daemon h.daemon := by
  induction hr with
  | refl => exact .refl
  | tail input _ _ hstep ih =>
    obtain ⟨t, ht, rfl⟩ := Option.map_eq_some_iff.mp hstep
    exact ih.tail input trivial ht

/-- The connections that an event captures are those of the clients that have the hook, are
neither quarantined for it nor paused, belong to the active owner and can still be sent to. Each
is captured once, and one whose subscription came into effect later is called earlier. -/
theorem hook_chain_order {guard : History → Input → Prop} {init : State} {h : History}
    (hinit : init.Initial) (hr : Reaches History.step guard { daemon := init } h) (k : HookType)
    {eventSize : Nat} (hsize : eventSize ≠ 0) :
    (∀ id, id ∈ h.daemon.captureSubscribers k eventSize ↔ ∃ c ∈ h.daemon.clients,
      c.connectionId = id ∧ k ∈ c.hookSubscriptions ∧ k ∉ c.quarantinedHooks ∧
      c.permissionRefreshPending = false ∧ h.daemon.inputOwnerMatchesUid c.uid = true ∧
      c.streamValid = true) ∧
    (h.daemon.captureSubscribers k eventSize).Nodup ∧
    (h.daemon.captureSubscribers k eventSize).Pairwise fun id id' =>
      h.since id' k < h.since id k := by
  have hchained := chained_of_reaches hinit hr
  have hn := hchained.settled.clients_nodup
  rw [captureSubscribers_eq hsize (length_le_of_reaches hinit (reaches_daemon hr)) hn]
  have hsorted := pairwise_insertionSort (calledBefore k)
    (h.daemon.clients.filter (h.daemon.hooked k))
  have hperm := perm_insertionSort (calledBefore k)
    (h.daemon.clients.filter (h.daemon.hooked k))
  unfold createHookLaneEvent
  generalize List.insertionSort (calledBefore k) _ = l
    at hsorted hperm ⊢
  have hnodup : ((l.filter (·.streamValid)).map (·.connectionId)).Nodup :=
    ((hperm.map _).nodup_iff.mpr (hn.sublist (filter_sublist.map _))).sublist
      (filter_sublist.map _)
  refine ⟨fun id => ?_, hnodup, ?_⟩
  · simp only [List.mem_map, List.mem_filter, hperm.mem_iff, hooked, Bool.and_eq_true,
      Bool.not_eq_true', decide_eq_true_eq]
    constructor
    · rintro ⟨c, ⟨⟨hc, ⟨⟨hpaused, hhook⟩, hquarantine⟩, howner⟩, hvalid⟩, hid⟩
      exact ⟨c, hc, hid, hhook, hquarantine, hpaused, howner, hvalid⟩
    · rintro ⟨c, hc, hid, hhook, hquarantine, hpaused, howner, hvalid⟩
      exact ⟨c, ⟨⟨hc, ⟨⟨hpaused, hhook⟩, hquarantine⟩, howner⟩, hvalid⟩, hid⟩
  rw [pairwise_map]
  have hplaced : ∀ c ∈ l.filter (·.streamValid),
      h.daemon.Placed c.connectionId k (c.hookSubscriptionOrdinal k) := by
    intro c hc
    have hmem := mem_filter.mp (hperm.mem_iff.mp (mem_of_mem_filter hc))
    simp only [hooked, Bool.and_eq_true, decide_eq_true_eq] at hmem
    exact ⟨c, hmem.1, rfl, hmem.2.1.1.2, rfl⟩
  refine ((hsorted.filter _).and (pairwise_map.mp hnodup)).imp_of_mem ?_
  rintro c d hc hd ⟨hbefore, hne⟩
  rcases hchained.ordered _ _ _ _ _ (hplaced c hc) (hplaced d hd) hne with ⟨hlt, -⟩ | ⟨-, hlt⟩
  · unfold calledBefore at hbefore
    omega
  · exact hlt

def resubscribedRun : List Input :=
  subscribedRun ++ [{ event := .accept 10 0 5 },
     { event := .request 2 1 (.hello (some ⟨2, 0, 0, 1⟩)) },
     { event := .request 2 2 (.subscribeHook (some ⟨13, 0⟩)) },
     { event := .request 1 3 (.unsubscribeHook (some ⟨13, 0⟩)) },
     { event := .request 1 4 (.subscribeHook (some ⟨13, 0⟩)) }]

theorem hook_chain_order_of_run : ∃ h, Reaches History.step always { daemon := {} } h ∧
      h.daemon.captureSubscribers .keyboard 1 = [2, 3] ∧
      h.since 3 .keyboard < h.since 2 .keyboard := by
  obtain ⟨h, hr, hcaptured⟩ := exists_reaches History.step { daemon := {} } resubscribedRun
    (q := fun h => h.daemon.captureSubscribers .keyboard 1 = [2, 3]) (by decide +kernel)
  obtain ⟨-, -, horder⟩ := hook_chain_order initial_default hr .keyboard Nat.one_ne_zero
  rw [hcaptured] at horder
  exact ⟨h, hr, hcaptured, rel_of_pairwise_cons horder mem_cons_self⟩

/-- A client whose stream has failed has its hook until it is removed, but is not captured. -/
theorem failed_stream_not_captured : ∃ h, Reaches History.step always { daemon := {} } h ∧
      (∃ c ∈ h.daemon.clients, c.connectionId = 2 ∧ .keyboard ∈ c.hookSubscriptions ∧
        .keyboard ∉ c.quarantinedHooks ∧ c.permissionRefreshPending = false ∧
        h.daemon.inputOwnerMatchesUid c.uid = true) ∧
      h.daemon.captureSubscribers .keyboard 1 = [3] :=
  exists_reaches _ _ (resubscribedRun ++ [{ event := .streamFailed 2 }]) (by decide +kernel)

end KeysharpInput.Session
