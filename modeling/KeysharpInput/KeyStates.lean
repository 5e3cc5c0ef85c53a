import KeysharpInput.Keys

/-!
Key-state events for subscribed leases.
A publish samples the whole key state of the seat and compares it with the last sample. After a
change every subscriber is sent a delta under a new sequence number; otherwise only one that has
an outdated view is sent a snapshot. Without Input Monitoring the key bitmaps of a record are
empty, but that a key changed is still seen from the record itself.
-/

namespace KeysharpInput.KeyStates

open Output List

/-- `ksi_key_state_payload`. -/
structure KeyState where
  modifiersLr : Nat := 0
  capsLock : Bool := false
  numLock : Bool := false
  scrollLock : Bool := false
  logicalKeys : KeyBits := ∅
  physicalKeys : KeyBits := ∅
  deriving DecidableEq

def modifierCodes : List Code := [29, 97, 56, 100, 42, 54, 125, 126]

def keyboardPhysicalModifiers (keys : KeyBits) : Nat :=
  modifierCodes.zipIdx.foldl (fun mask p => if p.1 ∈ keys then mask ||| 1 <<< p.2 else mask) 0

structure Record where
  snapshot : Bool
  physicalModifiers : Nat
  sequence : Nat
  state : KeyState
  deriving DecidableEq

/-- The part of a client that key-state events read. `monitors` is its Input Monitoring scope and
`ownsSeat` says that its user owns the seat. The records received are history. -/
structure Subscriber where
  leaseRole : Bool := true
  ownsSeat : Bool := true
  monitors : Bool := false
  subscribed : Bool := false
  keyboardSnapshot : KeyState := {}
  streamValid : Bool := true
  received : List Record := []
  deriving DecidableEq

structure State where
  clients : List Subscriber := []
  keyboardSnapshot : KeyState := {}
  snapshotValid : Bool := false
  sequence : Nat := 0

def Subscriber.visible (c : Subscriber) (keys : KeyState) : KeyState :=
  if c.monitors then keys else { keys with logicalKeys := ∅, physicalKeys := ∅ }

section Publishing

-- Whether a record can be put on a client's stream, by the client's place and the number of
-- records before it.
variable (sendOk : Nat → Nat → Bool)

def sendKeyboardState (i : Nat) (keys : KeyState) (snapshot : Bool) (sequence : Nat)
    (c : Subscriber) : Subscriber :=
  let record : Record :=
    { snapshot := snapshot, physicalModifiers := keyboardPhysicalModifiers keys.physicalKeys
      sequence := sequence, state := c.visible keys }
  let c := { c with keyboardSnapshot := c.visible keys }
  if c.streamValid && sendOk i c.received.length then
    { c with received := c.received ++ [record] }
  else { c with streamValid := false }

/-- The turn of `publish_keyboard_states` for one client. -/
def publishTo (keys : KeyState) (changed : Bool) (sequence : Nat) (i : Nat) (c : Subscriber) :
    Subscriber :=
  if !c.subscribed || !c.ownsSeat then c
  else
    let replacement := !changed && decide (c.visible keys ≠ c.keyboardSnapshot)
    if changed || replacement then sendKeyboardState sendOk i keys replacement sequence c else c

def State.changed (s : State) (keys : KeyState) : Bool :=
  s.snapshotValid && decide (keys ≠ s.keyboardSnapshot)

/-- `publish_keyboard_states`; the sample is none when the devices cannot be read. -/
def publishKeyboardStates (s : State) (sample : Option KeyState) : State :=
  let sequence := if s.sequence = 0 then 1 else s.sequence
  match sample with
  | none => { s with sequence := sequence }
  | some keys =>
    let sequence := if s.changed keys then sequence + 1 else sequence
    { clients := s.clients.mapIdx (publishTo sendOk keys (s.changed keys) sequence)
      keyboardSnapshot := keys
      snapshotValid := true
      sequence := sequence }

def sendSnapshot (s : State) (i : Nat) : State :=
  let send := sendKeyboardState sendOk i s.keyboardSnapshot true s.sequence
  { s with clients := s.clients.modify i send }

def handleKeyboardStateSubscribe (s : State) (i : Nat) (payloadEmpty : Bool)
    (sample : Option KeyState) : State :=
  match s.clients[i]? with
  | none => s
  | some c =>
    if !payloadEmpty || !c.leaseRole then s
    else if !c.ownsSeat then s
    else
      let s := publishKeyboardStates sendOk s sample
      if sample.isNone then s
      else sendSnapshot sendOk
        { s with clients := s.clients.modify i fun c => { c with subscribed := true } } i

def publishSubscribedKeyboardStates (s : State) (sample : Option KeyState) : State :=
  if s.clients.any fun c => c.subscribed && c.ownsSeat then publishKeyboardStates sendOk s sample
  else s

/-- The key-state part of `finish_client_authorization`, for AUTHORIZE. -/
def finishAuthorize (s : State) (i : Nat) (sample : Option KeyState) : State :=
  match s.clients[i]? with
  | none => s
  | some c =>
    if c.subscribed then sendSnapshot sendOk (publishKeyboardStates sendOk s sample) i else s

/-- What the daemon does that concerns key states, with the sample taken, and what changes the
clients' rights around it. -/
inductive Event
  | accept (leaseRole ownsSeat : Bool)
  /-- After a synthesis. -/
  | publish (sample : Option KeyState)
  | publishSubscribed (sample : Option KeyState)
  | subscribe (i : Nat) (payloadEmpty : Bool) (sample : Option KeyState)
  | authorize (i : Nat) (sample : Option KeyState)
  | setMonitors (i : Nat) (monitors : Bool)
  | setOwnsSeat (i : Nat) (ownsSeat : Bool)
  | streamFailed (i : Nat)

def State.step (s : State) : Event → State
  | .accept leaseRole ownsSeat =>
    { s with clients := s.clients ++ [{ leaseRole := leaseRole, ownsSeat := ownsSeat }] }
  | .publish sample => publishKeyboardStates sendOk s sample
  | .publishSubscribed sample => publishSubscribedKeyboardStates sendOk s sample
  | .subscribe i payloadEmpty sample => handleKeyboardStateSubscribe sendOk s i payloadEmpty sample
  | .authorize i sample => finishAuthorize sendOk s i sample
  | .setMonitors i monitors =>
    { s with clients := s.clients.modify i fun c => { c with monitors := monitors } }
  | .setOwnsSeat i ownsSeat =>
    { s with clients := s.clients.modify i fun c => { c with ownsSeat := ownsSeat } }
  | .streamFailed i =>
    { s with clients := s.clients.modify i fun c => { c with streamValid := false } }

def State.run (s : State) (es : List Event) : State := es.foldl (State.step sendOk) s

end Publishing

def State.stream (s : State) (i : Nat) : List Record :=
  (s.clients[i]?.map (·.received)).getD []

def KeyState.shown (keys : KeyState) : Nat × Bool × Bool × Bool × Nat :=
  (keys.modifiersLr, keys.capsLock, keys.numLock, keys.scrollLock,
    keyboardPhysicalModifiers keys.physicalKeys)

inductive Event.Agrees : Event → Event → Prop
  | refl (e : Event) : Agrees e e
  | publish {a b : Option KeyState} (h : a.map (·.shown) = b.map (·.shown)) :
      Agrees (.publish a) (.publish b)
  | publishSubscribed {a b : Option KeyState} (h : a.map (·.shown) = b.map (·.shown)) :
      Agrees (.publishSubscribed a) (.publishSubscribed b)
  | subscribe (i : Nat) (payloadEmpty : Bool) {a b : Option KeyState}
      (h : a.map (·.shown) = b.map (·.shown)) :
      Agrees (.subscribe i payloadEmpty a) (.subscribe i payloadEmpty b)
  | authorize (i : Nat) {a b : Option KeyState} (h : a.map (·.shown) = b.map (·.shown)) :
      Agrees (.authorize i a) (.authorize i b)

/-- A key is pressed in one of two runs and in the other not, and a subscriber without Input
Monitoring is sent a record in one of them only. -/
theorem keypress_is_seen : ∃ es fs : List Event, List.Forall₂ Event.Agrees es fs ∧
    (∀ e ∈ es ++ fs, ∀ i, e ≠ .setMonitors i true) ∧
    (State.run (fun _ _ => true) {} es).stream 0 ≠
      (State.run (fun _ _ => true) {} fs).stream 0 := by
  refine ⟨[.accept true true, .subscribe 0 true (some {}), .publish (some {})],
    [.accept true true, .subscribe 0 true (some {}),
      .publish (some { logicalKeys := {30}, physicalKeys := {30} })], ?_, ?_, ?_⟩
  · exact .cons (.refl _) (.cons (.refl _) (.cons (.publish (by decide)) .nil))
  · simp
  · decide +kernel

def State.published (s : State) : Event → Option KeyState
  | .publish sample => sample
  | .publishSubscribed sample =>
    if s.clients.any fun c => c.subscribed && c.ownsSeat then sample else none
  | .subscribe i payloadEmpty sample =>
    if s.clients[i]?.any fun c => payloadEmpty && c.leaseRole && c.ownsSeat then sample else none
  | .authorize i sample => if s.clients[i]?.any (·.subscribed) then sample else none
  | _ => none

def State.announces (s : State) (e : Event) : Bool := (s.published e).any s.changed

def AgreeingRuns (sendOk : Nat → Nat → Bool) : State → State → List Event → List Event → Prop
  | _, _, [], [] => True
  | s, t, e :: es, f :: fs => e.Agrees f ∧ s.announces e = t.announces f ∧
      AgreeingRuns sendOk (s.step sendOk e) (t.step sendOk f) es fs
  | _, _, _, _ => False

def Subscriber.flags (c : Subscriber) : Bool × Bool × Bool :=
  (c.leaseRole, c.ownsSeat, c.subscribed)

structure Subscriber.Masked (c : Subscriber) : Prop where
  monitors : c.monitors = false
  received : ∀ r ∈ c.received, r.state.logicalKeys = ∅ ∧ r.state.physicalKeys = ∅

structure Low (i : Nat) (s t : State) : Prop where
  sequence : s.sequence = t.sequence
  snapshot : s.keyboardSnapshot.shown = t.keyboardSnapshot.shown
  flags : s.clients.map (·.flags) = t.clients.map (·.flags)
  client : s.clients[i]? = t.clients[i]?
  masked : ∀ c, s.clients[i]? = some c → c.Masked

variable {sendOk : Nat → Nat → Bool} {i : Nat} {s t : State} {a b : KeyState} {c : Subscriber}

theorem Subscriber.Masked.visible (h : c.Masked) (hopen : a.shown = b.shown) :
    c.visible a = c.visible b := by
  simp only [KeyState.shown, Prod.mk.injEq] at hopen
  obtain ⟨hmods, hcaps, hnum, hscroll, -⟩ := hopen
  simp [Subscriber.visible, h.monitors, hmods, hcaps, hnum, hscroll]

/-- A client without Input Monitoring is sent the same for two states that agree on what is
public. -/
theorem sendKeyboardState_masked (h : c.Masked) (hopen : a.shown = b.shown) (snapshot : Bool)
    (sequence : Nat) :
    sendKeyboardState sendOk i a snapshot sequence c =
      sendKeyboardState sendOk i b snapshot sequence c ∧
    (sendKeyboardState sendOk i a snapshot sequence c).Masked := by
  have hmods : keyboardPhysicalModifiers a.physicalKeys =
      keyboardPhysicalModifiers b.physicalKeys := congrArg (·.2.2.2.2) hopen
  refine ⟨?_, ?_⟩
  · unfold sendKeyboardState
    rw [h.visible hopen, hmods]
  unfold sendKeyboardState
  dsimp only
  split
  · refine ⟨h.monitors, fun r hr => ?_⟩
    obtain hold | hnew := mem_append.mp hr
    · exact h.received r hold
    · rw [mem_singleton.mp hnew]
      simp [Subscriber.visible, h.monitors]
  · exact ⟨h.monitors, h.received⟩

theorem flags_sendKeyboardState (i : Nat) (keys : KeyState) (snapshot : Bool) (sequence : Nat)
    (c : Subscriber) : (sendKeyboardState sendOk i keys snapshot sequence c).flags = c.flags := by
  unfold sendKeyboardState
  dsimp only
  split <;> rfl

theorem publishTo_masked (h : c.Masked) (hopen : a.shown = b.shown) (changed : Bool)
    (sequence : Nat) :
    publishTo sendOk a changed sequence i c = publishTo sendOk b changed sequence i c ∧
      (publishTo sendOk a changed sequence i c).Masked := by
  unfold publishTo
  rw [h.visible hopen]
  dsimp only
  split
  · exact ⟨rfl, h⟩
  split
  · exact sendKeyboardState_masked h hopen _ _
  · exact ⟨rfl, h⟩

theorem flags_publishTo (keys : KeyState) (changed : Bool) (sequence i : Nat) (c : Subscriber) :
    (publishTo sendOk keys changed sequence i c).flags = c.flags := by
  unfold publishTo
  dsimp only
  split
  · rfl
  split
  · exact flags_sendKeyboardState _ _ _ _ _
  · rfl

namespace Low

section

variable (h : Low i s t)

include h

theorem change {s' t' : State} (F G : Nat → Subscriber → Subscriber)
    (hs : ∀ k, s'.clients[k]? = s.clients[k]?.map (F k))
    (ht : ∀ k, t'.clients[k]? = t.clients[k]?.map (G k))
    (hflags : ∀ k c d, c.flags = d.flags → (F k c).flags = (G k d).flags)
    (hclient : ∀ c, c.Masked → F i c = G i c ∧ (F i c).Masked)
    (hsequence : s'.sequence = t'.sequence)
    (hsnapshot : s'.keyboardSnapshot.shown = t'.keyboardSnapshot.shown) : Low i s' t' where
  sequence := hsequence
  snapshot := hsnapshot
  flags := by
    refine ext_getElem? fun k => ?_
    have hk := congrArg (·[k]?) h.flags
    simp only [getElem?_map] at hk
    rw [getElem?_map, getElem?_map, hs, ht]
    cases hc : s.clients[k]? with
    | none =>
      rw [hc, Option.map_none, eq_comm, Option.map_eq_none_iff] at hk
      rw [hk]
      rfl
    | some c =>
      rw [hc, Option.map_some, eq_comm, Option.map_eq_some_iff] at hk
      obtain ⟨d, hd, hcd⟩ := hk
      rw [hd]
      exact congrArg some (hflags k c d hcd.symm)
  client := by
    rw [hs, ht, ← h.client]
    cases hc : s.clients[i]? with
    | none => rfl
    | some c => exact congrArg some (hclient c (h.masked c hc)).1
  masked := by
    intro c hc
    rw [hs, Option.map_eq_some_iff] at hc
    obtain ⟨d, hd, rfl⟩ := hc
    exact (hclient d (h.masked d hd)).2

theorem modify (j : Nat) (f g : Subscriber → Subscriber)
    (hflags : ∀ c d, c.flags = d.flags → (f c).flags = (g d).flags)
    (hclient : j = i → ∀ c, c.Masked → f c = g c ∧ (f c).Masked) :
    Low i { s with clients := s.clients.modify j f }
      { t with clients := t.clients.modify j g } := by
  refine h.change (fun k c => if j = k then f c else c) (fun k c => if j = k then g c else c)
    (fun k => getElem?_modify f j _ k) (fun k => getElem?_modify g j _ k)
    (fun k c d hcd => ?_) (fun c hc => ?_) h.sequence h.snapshot
  · split
    · exact hflags c d hcd
    · exact hcd
  split
  · rename_i hji
    exact hclient hji c hc
  · exact ⟨rfl, hc⟩

theorem accept (new : Subscriber) (hmonitors : new.monitors = false)
    (hreceived : new.received = []) :
    Low i { s with clients := s.clients ++ [new] } { t with clients := t.clients ++ [new] } where
  sequence := h.sequence
  snapshot := h.snapshot
  flags := by simp [h.flags]
  client := by
    have hlength : s.clients.length = t.clients.length := by
      simpa using congrArg length h.flags
    rw [getElem?_append, getElem?_append, hlength, h.client]
  masked := by
    intro c hc
    rw [getElem?_append] at hc
    split at hc
    · exact h.masked c hc
    · obtain rfl := mem_singleton.mp (mem_of_getElem? hc)
      exact ⟨hmonitors, by simp [hreceived]⟩

theorem publish {a b : Option KeyState} (hopen : a.map (·.shown) = b.map (·.shown))
    (hchanged : a.any s.changed = b.any t.changed) :
    Low i (publishKeyboardStates sendOk s a) (publishKeyboardStates sendOk t b) := by
  have hsequence := h.sequence
  cases a with
  | none =>
    obtain rfl : b = none := by simpa [eq_comm] using hopen
    exact ⟨by simp [publishKeyboardStates, hsequence], h.snapshot, h.flags, h.client, h.masked⟩
  | some a =>
    obtain ⟨b, rfl, hab⟩ : ∃ b', b = some b' ∧ b'.shown = a.shown := by
      simpa [eq_comm] using hopen
    rw [Option.any_some, Option.any_some] at hchanged
    unfold publishKeyboardStates
    dsimp only
    rw [← hchanged, ← hsequence]
    refine h.change _ _ (fun k => getElem?_mapIdx) (fun k => getElem?_mapIdx)
      (fun k c d hcd => ?_) (fun c hc => publishTo_masked hc hab.symm _ _) rfl hab.symm
    rw [flags_publishTo, flags_publishTo, hcd]

theorem sendSnapshot (j : Nat) :
    Low i (sendSnapshot sendOk s j) (KeyStates.sendSnapshot sendOk t j) := by
  refine h.modify j _ _ (fun c d hcd => ?_) fun _ c hc => ?_
  · rw [flags_sendKeyboardState, flags_sendKeyboardState, hcd]
  · rw [← h.sequence]
    exact sendKeyboardState_masked hc h.snapshot _ _

theorem any_flags (p : Bool × Bool × Bool → Bool) :
    (s.clients.any fun c => p c.flags) = t.clients.any fun c => p c.flags := by
  have hany := congrArg (any · p) h.flags
  simpa [Function.comp_def] using hany

theorem getElem?_any_flags (j : Nat) (p : Bool × Bool × Bool → Bool) :
    (s.clients[j]?.any fun c => p c.flags) = t.clients[j]?.any fun c => p c.flags := by
  have hany := congrArg (fun flags => flags[j]?.any p) h.flags
  simpa [Option.any_map] using hany

end

variable {a b : Option KeyState}

section

variable (h : Low i s t)

include h

theorem gated {p q : Bool} {s' t' : State} (hpq : p = q)
    (hann : (if p then a else none).any s.changed = (if q then b else none).any t.changed)
    (hyes : a.any s.changed = b.any t.changed → Low i s' t') :
    Low i (if p then s' else s) (if q then t' else t) := by
  subst hpq
  cases p with
  | false => exact h
  | true => exact hyes hann

theorem publishSubscribed (hopen : a.map (·.shown) = b.map (·.shown))
    (hann : s.announces (.publishSubscribed a) = t.announces (.publishSubscribed b)) :
    Low i (publishSubscribedKeyboardStates sendOk s a)
      (publishSubscribedKeyboardStates sendOk t b) :=
  h.gated (h.any_flags fun flags => flags.2.2 && flags.2.1) hann (h.publish hopen)

theorem authorize (j : Nat) (hopen : a.map (·.shown) = b.map (·.shown))
    (hann : s.announces (.authorize j a) = t.announces (.authorize j b)) :
    Low i (finishAuthorize sendOk s j a) (finishAuthorize sendOk t j b) := by
  have hdef : ∀ (s : State) (a : Option KeyState), finishAuthorize sendOk s j a =
      if s.clients[j]?.any fun c => c.flags.2.2 then
        KeyStates.sendSnapshot sendOk (publishKeyboardStates sendOk s a) j
      else s := by
    intro s a
    unfold finishAuthorize
    cases s.clients[j]? <;> rfl
  rw [hdef, hdef]
  exact h.gated (h.getElem?_any_flags j fun flags => flags.2.2) hann fun hsame =>
    (h.publish hopen hsame).sendSnapshot j

theorem subscribe (j : Nat) (payloadEmpty : Bool) (hopen : a.map (·.shown) = b.map (·.shown))
    (hann : s.announces (.subscribe j payloadEmpty a) = t.announces (.subscribe j payloadEmpty b)) :
    Low i (handleKeyboardStateSubscribe sendOk s j payloadEmpty a)
      (handleKeyboardStateSubscribe sendOk t j payloadEmpty b) := by
  have hany := h.getElem?_any_flags j fun flags => payloadEmpty && flags.1 && flags.2.1
  have hnone : a.isNone = b.isNone := by
    simpa using congrArg Option.isNone hopen
  have hdef : ∀ (s : State) (a : Option KeyState),
      handleKeyboardStateSubscribe sendOk s j payloadEmpty a =
        if s.clients[j]?.any fun c => payloadEmpty && c.flags.1 && c.flags.2.1 then
          let s := publishKeyboardStates sendOk s a
          if a.isNone then s
          else KeyStates.sendSnapshot sendOk
            { s with clients := s.clients.modify j fun c => { c with subscribed := true } } j
        else s := by
    intro s a
    unfold handleKeyboardStateSubscribe
    cases s.clients[j]? with
    | none => rfl
    | some c =>
      cases payloadEmpty <;> cases hrole : c.leaseRole <;> cases hseat : c.ownsSeat <;>
        simp [Subscriber.flags, hrole, hseat]
  rw [hdef, hdef]
  refine h.gated hany hann fun hsame => ?_
  have hpublish : Low i (publishKeyboardStates sendOk s a) (publishKeyboardStates sendOk t b) :=
    h.publish hopen hsame
  rw [← hnone]
  dsimp only
  split
  · exact hpublish
  refine (hpublish.modify j _ _ (fun c d hcd => ?_) fun _ c hc => ⟨rfl, ?_⟩).sendSnapshot j
  · simp only [Subscriber.flags, Prod.mk.injEq] at hcd ⊢
    exact ⟨hcd.1, hcd.2.1, trivial⟩
  · exact ⟨hc.monitors, hc.received⟩

theorem step {e f : Event} (hagrees : e.Agrees f)
    (hann : s.announces e = t.announces f) (hnever : e ≠ .setMonitors i true) :
    Low i (s.step sendOk e) (t.step sendOk f) := by
  cases hagrees with
  | publish hopen => exact h.publish hopen hann
  | publishSubscribed hopen => exact h.publishSubscribed hopen hann
  | subscribe j payloadEmpty hopen => exact h.subscribe j payloadEmpty hopen hann
  | authorize j hopen => exact h.authorize j hopen hann
  | refl =>
    cases e with
    | accept => exact h.accept _ rfl rfl
    | publish => exact h.publish rfl hann
    | publishSubscribed => exact h.publishSubscribed rfl hann
    | subscribe j payloadEmpty => exact h.subscribe j payloadEmpty rfl hann
    | authorize j => exact h.authorize j rfl hann
    | setMonitors j monitors =>
      refine h.modify j _ _ (fun c d hcd => hcd) fun hj c hc => ⟨rfl, ?_, hc.received⟩
      cases monitors with
      | false => rfl
      | true => exact absurd (hj ▸ rfl) hnever
    | setOwnsSeat j =>
      refine h.modify j _ _ (fun c d hcd => ?_) fun _ c hc => ⟨rfl, hc.monitors, hc.received⟩
      simp only [Subscriber.flags, Prod.mk.injEq] at hcd ⊢
      exact ⟨hcd.1, trivial, hcd.2.2⟩
    | streamFailed j =>
      exact h.modify j _ _ (fun c d hcd => hcd) fun _ c hc => ⟨rfl, hc.monitors, hc.received⟩

end

end Low

theorem Low.run {es fs : List Event} (h : Low i s t) (hagrees : AgreeingRuns sendOk s t es fs)
    (hnever : ∀ e ∈ es, e ≠ .setMonitors i true) :
    Low i (State.run sendOk s es) (State.run sendOk t fs) := by
  induction es generalizing fs s t with
  | nil =>
    cases fs with
    | nil => exact h
    | cons => exact hagrees.elim
  | cons _ _ ih =>
    cases fs with
    | nil => exact hagrees.elim
    | cons =>
      obtain ⟨hfirst, hann, hrest⟩ := hagrees
      obtain ⟨hnot, hnever⟩ := forall_mem_cons.mp hnever
      have hlast := ih (h.step hfirst hann hnot) hrest hnever
      exact hlast

/-- Two runs from the start that agree on what is public and on when the key state changes show
the same records to a client that never has Input Monitoring, and no record shows a key. -/
theorem masked_streams_agree {es fs : List Event} (h : AgreeingRuns sendOk {} {} es fs)
    (hnever : ∀ e ∈ es, e ≠ .setMonitors i true) :
    (State.run sendOk {} es).stream i = (State.run sendOk {} fs).stream i ∧
      ∀ r ∈ (State.run sendOk {} es).stream i,
        r.state.logicalKeys = ∅ ∧ r.state.physicalKeys = ∅ := by
  have hstart : Low i {} {} := ⟨rfl, rfl, rfl, rfl, fun c hc => by simp at hc⟩
  have hlow := hstart.run h hnever
  refine ⟨by rw [State.stream, State.stream, hlow.client], fun r hr => ?_⟩
  cases hc : (State.run sendOk {} es).clients[i]? with
  | none => simp [State.stream, hc] at hr
  | some c =>
    rw [State.stream, hc] at hr
    exact (hlow.masked c hc).received r hr

/-- Both runs press a key between two publishes, each its own. -/
theorem masked_streams_agree_of_runs :
    let run := fun key => State.run (fun _ _ => true) {}
      [.accept true true, .subscribe 0 true (some {}), .publish (some { logicalKeys := {key} })]
    ((run 30).stream 0).length = 2 ∧ (run 30).stream 0 = (run 48).stream 0 := by
  intro _
  refine ⟨by decide +kernel, (masked_streams_agree ?_ ?_).1⟩
  · exact ⟨.refl _, rfl, .refl _, rfl, .publish (by decide), by decide +kernel, trivial⟩
  · simp

end KeysharpInput.KeyStates
