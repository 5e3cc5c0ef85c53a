import KeysharpInput.Synthesis

/-!
The order of device events in a lane.
Device events of one class go through one bounded ring, and the lane's thread ends each before it
takes the next. An event that finds no room is passed around the lane, which is harmless for motion
but not for keys: a release would come before its press. So a key or button transition, or the end
of a report, is not passed at all when its lane cannot take it, and the grab is given up.
-/

namespace KeysharpInput.LaneOrder

open Session (HookType)
open Function Output List Nat Bool
open Synthesis (maxLaneActions laneTransitionReserve)
open Transition

inductive Egress
  | none
  | replay
  | synth (inputs : List Input) (flags : SynthFlags) (connectionId : Nat)
  deriving DecidableEq

/-- `ksi_lane_event`, with the number of its arrival. A synthetic event has an empty packet. -/
structure LaneEvent where
  arrival : Nat
  hookType : HookType
  egress : Egress
  packet : ForwardPacket := { target := 0, events := [] }
  physicalInput : Bool
  inputGeneration : Nat
  deriving DecidableEq

def loneReport (packet : ForwardPacket) : Bool :=
  match packet.events with
  | [e] => e.isSynReport
  | _ => false

def LaneEvent.keepsLaneOrder (event : LaneEvent) : Bool :=
  event.physicalInput && (event.packet.transition || loneReport event.packet)

def LaneEvent.reserve (event : LaneEvent) : Nat :=
  if event.keepsLaneOrder then 0 else laneTransitionReserve

inductive Decision
  | pass
  | block
  | modify (inputs : List Input) (responder : Nat) (flushed : Bool)
  deriving DecidableEq

structure Admitted where
  arrival : Nat
  lane : HookType
  ordered : Bool
  ungrabbed : Bool
  deriving DecidableEq

def LaneEvent.admitted (event : LaneEvent) : Admitted :=
  ⟨event.arrival, event.hookType, event.keepsLaneOrder, event.packet.ungrabbed⟩

structure State where
  ring : HookType → List LaneEvent := fun _ => []
  running : HookType → Option LaneEvent := fun _ => none
  output : OutputState := {}
  failOpen : Bool := false
  inputOwnerEnforced : Bool := false
  activeInputUidValid : Bool := false
  arrivals : Nat := 0
  log : List Admitted := []

inductive Event
  /-- A fragment of a report without hook form. `room` is whether a lane event could be made, or
  for an ungrabbed source that the queue did not fill up meanwhile. -/
  | forward (hookType : HookType) (packet : ForwardPacket) (room : Bool)
  | hook (hookType : HookType) (packet : ForwardPacket) (injected blockActive created : Bool)
  | synthetic (hookType : HookType) (input : Input) (batchStart : Bool) (connectionId : Nat)
      (created : Bool)
  | take (lane : HookType)
  /-- The lane ends its event. A flush or a shutdown decides without the hooks. -/
  | finish (lane : HookType) (decision : Decision)
  | closeLane (lane : HookType)
  | setInputOwner (enforced valid : Bool)
  | failedOpen
  | output (e : OutputEvent)

def pushesPacket : OutputEvent → Bool
  | .pushPacket .. => true
  | _ => false

namespace State

variable (s : State)

def record (event : LaneEvent) (result : Bool × OutputState) : Bool × State :=
  (result.1, { s with
      output := result.2
      log := if s.output.queue.length < result.2.queue.length then
          s.log ++ [event.admitted]
        else s.log })

def enqueueEgress (event : LaneEvent) : Bool × State :=
  match event.egress with
  | .none => (true, s)
  | .replay => s.record event (s.output.pushPacket false event.packet event.inputGeneration)
  | .synth inputs flags connectionId =>
    s.record event (s.output.pushSynth inputs flags event.inputGeneration connectionId)

/-- `request_fail_open` after an output that a device event needed was refused. -/
def failUnless (ok : Bool) (event : LaneEvent) : State :=
  if !ok && event.physicalInput then { s with failOpen := true } else s

def replacementOwner (event : LaneEvent) (responder : Nat) : SynthOwner :=
  let key := if event.physicalInput then event.packet.events.getLast?.filter (·.type == .key)
    else none
  { target := if event.physicalInput then event.packet.target else 0
    connectionId := responder
    hookType := Synthesis.System.hookTypeValue event.hookType
    sourceType := if key.isSome then 1 else 0
    sourceCode := (key.map (·.code)).getD 0 }

/-- The part of `lane_emit_output` for a decision: whether the event still passes. -/
def emitDecision (event : LaneEvent) : Decision → Bool × State
  | .pass => (true, s)
  | .block => (false, s)
  | .modify inputs responder flushed =>
    if inputs = [] then (false, s)
    else
      let (ok, s) := s.record event (s.output.pushOwnedSynth inputs { fragment := true }
        event.inputGeneration (replacementOwner event responder) flushed)
      (!ok, s)

def emitEgress (event : LaneEvent) (passed : Bool) : Bool × State :=
  if passed then s.enqueueEgress event else (true, s)

def emitRelease (event : LaneEvent) (replayed : Bool) : Bool × State :=
  let suppressed := { event.packet with suppressed := true }
  if event.physicalInput && !replayed && suppressed.keyUp then
    s.record event (s.output.pushPacket false suppressed event.inputGeneration)
  else (true, s)

def laneEmitOutput (event : LaneEvent) (decision : Decision) : State :=
  let decided := s.emitDecision event decision
  let emitted := decided.2.emitEgress event decided.1
  let released := emitted.2.emitRelease event
    (decided.1 && emitted.1 && event.egress == .replay)
  released.2.failUnless (emitted.1 && released.1) event

/-- `complete_hook_dispatch_fallback`, without the completion of a synthetic event. -/
def completeHookDispatchFallback (event : LaneEvent) : State :=
  let (ok, s) := if event.keepsLaneOrder then (false, s) else s.enqueueEgress event
  s.failUnless ok event

def enqueueHookLaneEvent (event : LaneEvent) : State :=
  if (s.ring event.hookType).length + event.reserve < maxLaneActions then
    { s with ring := update s.ring event.hookType (s.ring event.hookType ++ [event]) }
  else s.completeHookDispatchFallback event

def dispatchHookEventToLane (event : LaneEvent) (created : Bool) : State :=
  if created then s.enqueueHookLaneEvent event else s.completeHookDispatchFallback event

def pushSourceState (packet : ForwardPacket) : State :=
  let (ok, output) := s.output.pushPacket true packet s.output.inputGeneration
  { s with output := output, failOpen := s.failOpen || !ok }

def inputReachesNobody : Bool := s.inputOwnerEnforced && !s.activeInputUidValid

def arrive : State := { s with arrivals := s.arrivals + 1 }

/-- A release from an ungrabbed source: its source state and the release itself. Without `room`
the queue filled up between the two. -/
def forwardUngrabbed (event : LaneEvent) (room : Bool) : Bool × State :=
  let noted := s.output.pushPacket true event.packet event.inputGeneration
  let s := { s with output := noted.2 }
  if noted.1 && room then
    s.record event (s.output.pushPacket false event.packet event.inputGeneration)
  else (false, s)

/-- `daemon_forward_physical_event`. A release from an ungrabbed source is queued directly. -/
def forwardPhysicalEvent (hookType : HookType) (packet : ForwardPacket) (room : Bool) :
    Bool × State :=
  let event : LaneEvent := ⟨s.arrivals, hookType, .replay, packet, true, s.output.inputGeneration⟩
  let s := s.arrive
  if packet.ungrabbed then s.forwardUngrabbed event room
  else if s.inputReachesNobody then (true, s)
  else (true, (s.pushSourceState packet).dispatchHookEventToLane event room)

def handleHookEvent (hookType : HookType) (packet : ForwardPacket)
    (injected blockActive created : Bool) : State :=
  let egress := if injected || blockActive then Egress.none else .replay
  let event : LaneEvent := ⟨s.arrivals, hookType, egress, packet, true, s.output.inputGeneration⟩
  let s := s.arrive
  if s.inputReachesNobody then s
  else (s.pushSourceState packet).dispatchHookEventToLane event created

/-- `process_synthetic_hook_input` for an input that hooks see. -/
def handleSyntheticInput (hookType : HookType) (input : Input) (batchStart : Bool)
    (connectionId : Nat) (created : Bool) : State :=
  let event : LaneEvent :=
    { arrival := s.arrivals
      hookType := hookType
      egress := .synth [input] { fragment := true, batchStart := batchStart } connectionId
      physicalInput := false
      inputGeneration := s.output.inputGeneration }
  if created then s.arrive.enqueueHookLaneEvent event else s.arrive

def step : Event → Option State
  | .forward hookType packet room => some (s.forwardPhysicalEvent hookType packet room).2
  | .hook hookType packet injected blockActive created =>
    some (s.handleHookEvent hookType packet injected blockActive created)
  | .synthetic hookType input batchStart connectionId created =>
    some (s.handleSyntheticInput hookType input batchStart connectionId created)
  | .take lane =>
    match s.running lane, s.ring lane with
    | none, event :: rest =>
      some { s with
        running := update s.running lane (some event)
        ring := update s.ring lane rest }
    | _, _ => none
  | .finish lane decision =>
    (s.running lane).map fun event =>
      { s with running := update s.running lane none }.laneEmitOutput event decision
  | .closeLane lane => some { s with ring := update s.ring lane [] }
  | .setInputOwner enforced valid =>
    some { s with inputOwnerEnforced := enforced, activeInputUidValid := valid }
  | .failedOpen => some { s with failOpen := false }
  -- Packets reach the queue only from a lane or, for an ungrabbed source, as above.
  | .output e =>
    if pushesPacket e then none
    else (s.output.step e).map fun output => { s with output := output }

end State

def start (outcome : Nat → Option Nat) (absOpens : Bool) : State :=
  { output := OutputState.start outcome absOpens }

def State.pending (s : State) (k : HookType) : List LaneEvent := (s.running k).toList ++ s.ring k

def Admitted.keeps (a : Admitted) : Bool := a.ordered && !a.ungrabbed

def Admitted.Follows (a b : Admitted) : Prop :=
  a.lane = b.lane → a.keeps = true → a.arrival ≤ b.arrival

structure Ordered (s : State) : Prop where
  sorted : ∀ k, (s.pending k).Pairwise fun a b => a.arrival < b.arrival
  place : ∀ k, ∀ e ∈ s.pending k, e.hookType = k ∧ e.arrival < s.arrivals
  reserve : ∀ k i e, (s.ring k)[i]? = some e → maxLaneActions - laneTransitionReserve ≤ i →
    e.keepsLaneOrder = true
  arrived : ∀ a ∈ s.log, a.arrival < s.arrivals
  ended : ∀ a ∈ s.log, a.keeps = true → ∀ e ∈ s.pending a.lane, a.arrival < e.arrival
  follows : s.log.Pairwise Admitted.Follows

structure Emits (event : LaneEvent) (s t : State) : Prop where
  ring : t.ring = s.ring
  running : t.running = s.running
  arrivals : t.arrivals = s.arrivals
  log : ∃ extra, t.log = s.log ++ extra ∧ ∀ a ∈ extra, a = event.admitted

variable {s t u : State} {event : LaneEvent} {k : HookType} {created : Bool}

theorem Emits.of_eq (hring : t.ring = s.ring) (hrunning : t.running = s.running)
    (harrivals : t.arrivals = s.arrivals) (hlog : t.log = s.log) : Emits event s t :=
  ⟨hring, hrunning, harrivals, [], by simp [hlog], by simp⟩

theorem Emits.refl (event : LaneEvent) (s : State) : Emits event s s := .of_eq rfl rfl rfl rfl

theorem Emits.trans (h : Emits event s t) (g : Emits event t u) : Emits event s u := by
  obtain ⟨xs, hxs, hx⟩ := h.log
  obtain ⟨ys, hys, hy⟩ := g.log
  refine ⟨g.ring.trans h.ring, g.running.trans h.running, g.arrivals.trans h.arrivals,
    xs ++ ys, by rw [hys, hxs, append_assoc], fun a ha => ?_⟩
  exact (mem_append.mp ha).elim (hx a) (hy a)

theorem emits_record (event : LaneEvent) (s : State) (result : Bool × OutputState) :
    Emits event s (s.record event result).2 := by
  by_cases hgrew : s.output.queue.length < result.2.queue.length
  · exact ⟨rfl, rfl, rfl, [event.admitted], by simp [State.record, hgrew], by simp⟩
  · exact .of_eq rfl rfl rfl (by simp [State.record, hgrew])

theorem emits_enqueueEgress (event : LaneEvent) (s : State) :
    Emits event s (s.enqueueEgress event).2 := by
  unfold State.enqueueEgress
  split
  · exact .refl event s
  · exact emits_record ..
  · exact emits_record ..

theorem emits_failUnless (event : LaneEvent) (s : State) (ok : Bool) :
    Emits event s (s.failUnless ok event) := by
  unfold State.failUnless
  split
  · exact .of_eq rfl rfl rfl rfl
  · exact .refl event s

theorem emits_emitDecision (event : LaneEvent) (s : State) (decision : Decision) :
    Emits event s (s.emitDecision event decision).2 := by
  unfold State.emitDecision
  split
  · exact .refl event s
  · exact .refl event s
  · split
    · exact .refl event s
    · exact emits_record ..

theorem emits_emitEgress (event : LaneEvent) (s : State) (passed : Bool) :
    Emits event s (s.emitEgress event passed).2 := by
  unfold State.emitEgress
  split
  · exact emits_enqueueEgress event s
  · exact .refl event s

theorem emits_emitRelease (event : LaneEvent) (s : State) (replayed : Bool) :
    Emits event s (s.emitRelease event replayed).2 := by
  unfold State.emitRelease
  dsimp only
  split
  · exact emits_record ..
  · exact .refl event s

theorem emits_laneEmitOutput (event : LaneEvent) (s : State) (decision : Decision) :
    Emits event s (s.laneEmitOutput event decision) :=
  (((emits_emitDecision event s decision).trans (emits_emitEgress ..)).trans
    (emits_emitRelease ..)).trans (emits_failUnless ..)

theorem Emits.pending (h : Emits event s t) (k : HookType) : t.pending k = s.pending k := by
  rw [State.pending, State.pending, h.ring, h.running]

/-- Output for an event keeps the order if the event is not behind one that still waits, unless
it keeps no place, and nothing later that keeps its place came before. -/
theorem Ordered.emits (hs : Ordered s) (h : Emits event s t) (harrived : event.arrival < s.arrivals)
    (hfirst : event.admitted.keeps = true →
      ∀ e ∈ s.pending event.hookType, event.arrival < e.arrival)
    (hlast : ∀ a ∈ s.log, a.lane = event.hookType → a.keeps = true → a.arrival ≤ event.arrival) :
    Ordered t := by
  obtain ⟨_, hlog, hextra⟩ := h.log
  refine ⟨fun k => ?_, fun k e he => ?_, fun k i e he hi => ?_, fun a ha => ?_,
    fun a ha hkeeps e he => ?_, ?_⟩
  · rw [h.pending]
    exact hs.sorted k
  · rw [h.pending] at he
    rw [h.arrivals]
    exact hs.place k e he
  · rw [h.ring] at he
    exact hs.reserve k i e he hi
  · rw [hlog, mem_append] at ha
    rw [h.arrivals]
    rcases ha with ha | ha
    · exact hs.arrived a ha
    · rw [hextra a ha]
      exact harrived
  · rw [hlog, mem_append] at ha
    rw [h.pending] at he
    rcases ha with ha | ha
    · exact hs.ended a ha hkeeps e he
    · obtain rfl := hextra a ha
      exact hfirst hkeeps e he
  · rw [hlog, pairwise_append]
    refine ⟨hs.follows, pairwise_of_forall_mem_list ?_, fun a ha b hb hlane hkeeps => ?_⟩
    · intro a ha b hb _ _
      rw [hextra a ha, hextra b hb]
    · obtain rfl := hextra b hb
      exact hlast a ha hlane hkeeps

structure Fresh (event : LaneEvent) (s : State) : Prop where
  arrived : event.arrival < s.arrivals
  pending : ∀ k, ∀ e ∈ s.pending k, e.arrival < event.arrival
  log : ∀ a ∈ s.log, a.arrival < event.arrival

theorem Ordered.arrive (hs : Ordered s) : Ordered s.arrive :=
  { hs with
    place := fun k e he => ⟨(hs.place k e he).1, lt_succ_of_lt (hs.place k e he).2⟩
    arrived := fun a ha => lt_succ_of_lt (hs.arrived a ha) }

theorem Ordered.fresh (hs : Ordered s) (hevent : event.arrival = s.arrivals) :
    Fresh event s.arrive := by
  refine ⟨?_, fun k e he => ?_, fun a ha => ?_⟩
  · rw [hevent]
    exact lt_succ_self _
  · rw [hevent]
    exact (hs.place k e he).2
  · rw [hevent]
    exact hs.arrived a ha

theorem Ordered.bypass (hs : Ordered s) (hfresh : Fresh event s) (h : Emits event s t)
    (hloose : event.admitted.keeps = false) : Ordered t :=
  hs.emits h hfresh.arrived (by simp [hloose]) fun a ha _ _ => (hfresh.log a ha).le

theorem Ordered.withOutput (hs : Ordered s) (output : OutputState) (failOpen : Bool) :
    Ordered { s with output := output, failOpen := failOpen } :=
  ⟨hs.sorted, hs.place, hs.reserve, hs.arrived, hs.ended, hs.follows⟩

/-- What keeps its place and was refused by its lane is not put out, and the grab is given up. -/
theorem fallback_of_keepsLaneOrder (s : State) (hkeeps : event.keepsLaneOrder = true) :
    s.completeHookDispatchFallback event = { s with failOpen := true } := by
  have hphysical : event.physicalInput = true := (and_eq_true_iff.mp hkeeps).1
  simp [State.completeHookDispatchFallback, State.failUnless, hkeeps, hphysical]

theorem Ordered.fallback (hs : Ordered s) (hfresh : Fresh event s) :
    Ordered (s.completeHookDispatchFallback event) := by
  cases hkeeps : event.keepsLaneOrder with
  | true =>
    rw [fallback_of_keepsLaneOrder s hkeeps]
    exact hs.withOutput s.output true
  | false =>
    refine hs.bypass hfresh ?_ (by simp [Admitted.keeps, LaneEvent.admitted, hkeeps])
    simp only [State.completeHookDispatchFallback, hkeeps]
    exact (emits_enqueueEgress event s).trans (emits_failUnless ..)

theorem pending_push (s : State) (event : LaneEvent) (k : HookType) : State.pending { s with
      ring := update s.ring event.hookType (s.ring event.hookType ++ [event]) } k =
      s.pending k ++ if k = event.hookType then [event] else [] := by
  by_cases hk : k = event.hookType
  · subst hk
    simp [State.pending]
  · simp [State.pending, hk]

theorem Ordered.push (hs : Ordered s) (hfresh : Fresh event s)
    (hroom : event.keepsLaneOrder = false →
      (s.ring event.hookType).length + laneTransitionReserve < maxLaneActions) :
    Ordered { s with
      ring := update s.ring event.hookType (s.ring event.hookType ++ [event]) } := by
  refine ⟨fun k => ?_, fun k e he => ?_, fun k i e he hi => ?_, hs.arrived,
    fun a ha hkeeps e he => ?_, hs.follows⟩
  · rw [pending_push, pairwise_append]
    refine ⟨hs.sorted k, ?_, fun a ha b hb => ?_⟩
    · split <;> simp
    · obtain ⟨-, rfl⟩ : k = event.hookType ∧ b = event := by simpa using hb
      exact hfresh.pending k a ha
  · rw [pending_push, mem_append] at he
    rcases he with he | he
    · exact hs.place k e he
    · obtain ⟨rfl, rfl⟩ : k = event.hookType ∧ e = event := by simpa using he
      exact ⟨rfl, hfresh.arrived⟩
  · dsimp only at he
    by_cases hk : k = event.hookType
    · subst hk
      rw [update_self] at he
      rcases lt_or_ge i (s.ring event.hookType).length with hlt | hge
      · rw [getElem?_append_left hlt] at he
        exact hs.reserve _ i e he hi
      obtain rfl : e = event := by
        rw [getElem?_append_right hge] at he
        simpa using (mem_of_getElem? he)
      by_contra hloose
      have hlen := hroom (eq_false_iff.mpr hloose)
      have hlast := (List.getElem?_eq_some_iff.mp he).1
      rw [length_append, length_singleton] at hlast
      omega
    · rw [update_of_ne hk] at he
      exact hs.reserve k i e he hi
  · rw [pending_push, mem_append] at he
    rcases he with he | he
    · exact hs.ended a ha hkeeps e he
    · obtain ⟨-, rfl⟩ : a.lane = event.hookType ∧ e = event := by simpa using he
      exact hfresh.log a ha

theorem Ordered.enqueue (hs : Ordered s) (hfresh : Fresh event s) :
    Ordered (s.enqueueHookLaneEvent event) := by
  unfold State.enqueueHookLaneEvent
  split_ifs with hroom
  · refine hs.push hfresh fun hloose => ?_
    simpa [LaneEvent.reserve, hloose] using hroom
  · exact hs.fallback hfresh

theorem Ordered.dispatch (hs : Ordered s) (hfresh : Fresh event s) (created : Bool) :
    Ordered (s.dispatchHookEventToLane event created) := by
  unfold State.dispatchHookEventToLane
  split
  · exact hs.enqueue hfresh
  · exact hs.fallback hfresh

theorem Fresh.pushSourceState (hfresh : Fresh event s) (packet : ForwardPacket) :
    Fresh event (s.pushSourceState packet) := ⟨hfresh.arrived, hfresh.pending, hfresh.log⟩

section

variable (hs : Ordered s)

include hs

theorem Ordered.read (hevent : event.arrival = s.arrivals)
    (packet : ForwardPacket) (created : Bool) :
    Ordered ((s.arrive.pushSourceState packet).dispatchHookEventToLane event created) :=
  (hs.arrive.withOutput _ _).dispatch ((hs.fresh hevent).pushSourceState packet) created

theorem Ordered.ungrabbed (hfresh : Fresh event s) (hungrabbed : event.packet.ungrabbed = true)
    (room : Bool) : Ordered (s.forwardUngrabbed event room).2 := by
  have hloose : event.admitted.keeps = false := by
    simp [Admitted.keeps, LaneEvent.admitted, hungrabbed]
  have hnoted := hs.withOutput (s.output.pushPacket true event.packet event.inputGeneration).2
    s.failOpen
  unfold State.forwardUngrabbed
  dsimp only
  split
  · exact hnoted.bypass ⟨hfresh.arrived, hfresh.pending, hfresh.log⟩ (emits_record event ..) hloose
  · exact hnoted

theorem Ordered.forward (k : HookType) (packet : ForwardPacket) (room : Bool) :
    Ordered (s.forwardPhysicalEvent k packet room).2 := by
  unfold State.forwardPhysicalEvent
  dsimp only
  split
  · exact hs.arrive.ungrabbed (hs.fresh rfl) ‹_› room
  · split
    · exact hs.arrive
    · exact hs.read rfl packet room

theorem Ordered.hook (k : HookType) (packet : ForwardPacket) (injected blockActive created : Bool) :
    Ordered (s.handleHookEvent k packet injected blockActive created) := by
  unfold State.handleHookEvent
  dsimp only
  split_ifs
  all_goals first
    | exact hs.arrive
    | exact hs.read rfl packet created

theorem Ordered.take {rest : List LaneEvent} (hrunning : s.running k = none)
    (hring : s.ring k = event :: rest) :
    Ordered { s with
      running := update s.running k (some event)
      ring := update s.ring k rest } := by
  have hpending : ∀ j, State.pending { s with
      running := update s.running k (some event)
      ring := update s.ring k rest } j = s.pending j := by
    intro j
    by_cases hj : j = k
    · subst hj
      simp [State.pending, hrunning, hring]
    · simp [State.pending, hj]
  refine ⟨fun j => hpending j ▸ hs.sorted j, fun j e he => ?_, fun j i e he hi => ?_,
    hs.arrived, fun a ha hkeeps e he => ?_, hs.follows⟩
  · rw [hpending] at he
    exact hs.place j e he
  · dsimp only at he
    by_cases hj : j = k
    · subst hj
      rw [update_self] at he
      refine hs.reserve j (i + 1) e ?_ (by omega)
      rwa [hring, getElem?_cons_succ]
    · rw [update_of_ne hj] at he
      exact hs.reserve j i e he hi
  · rw [hpending] at he
    exact hs.ended a ha hkeeps e he

theorem Ordered.drop {running : HookType → Option LaneEvent} {ring : HookType → List LaneEvent}
    (hsub : ∀ k, ((running k).toList ++ ring k).Sublist (s.pending k))
    (hring : ∀ k, ring k = s.ring k ∨ ring k = []) :
    Ordered { s with running := running, ring := ring } := by
  refine ⟨fun k => (hs.sorted k).sublist (hsub k), fun k e he => hs.place k e ((hsub k).subset he),
    fun k i e he hi => ?_, hs.arrived,
    fun a ha hkeeps e he => hs.ended a ha hkeeps e ((hsub a.lane).subset he), hs.follows⟩
  dsimp only at he
  rcases hring k with hk | hk
  · rw [hk] at he
    exact hs.reserve k i e he hi
  · simp [hk] at he

theorem Ordered.closeLane (k : HookType) : Ordered { s with ring := update s.ring k [] } := by
  refine hs.drop (fun j => ?_) fun j => ?_
  · by_cases hj : j = k
    · subst hj
      simp [State.pending]
    · simp [State.pending, hj]
  · by_cases hj : j = k
    · subst hj
      simp
    · simp [hj]

theorem Ordered.finish (hrunning : s.running k = some event) (decision : Decision) :
    Ordered (State.laneEmitOutput { s with running := update s.running k none }
      event decision) := by
  have hpending : s.pending k = event :: s.ring k := by simp [State.pending, hrunning]
  have hmem : event ∈ s.pending k := by simp [hpending]
  obtain ⟨rfl, harrived⟩ := hs.place k event hmem
  have hdrop : Ordered { s with running := update s.running event.hookType none } := by
    refine hs.drop (fun j => ?_) fun j => Or.inl rfl
    by_cases hj : j = event.hookType
    · subst hj
      simp [hpending]
    · simp [State.pending, hj]
  refine hdrop.emits (emits_laneEmitOutput ..) harrived (fun _ e he => ?_)
    fun a ha hlane hkeeps => ?_
  · have hsorted := hs.sorted event.hookType
    rw [hpending] at hsorted
    exact rel_of_pairwise_cons hsorted (by simpa [State.pending] using he)
  · exact (hs.ended a ha hkeeps event (hlane ▸ hmem)).le

theorem Ordered.step {e : Event} (h : s.step e = some t) : Ordered t := by
  cases e with
  | forward k packet created =>
    cases h
    exact hs.forward k packet created
  | hook k packet injected blockActive created =>
    cases h
    exact hs.hook k packet injected blockActive created
  | synthetic =>
    cases h
    unfold State.handleSyntheticInput
    split
    · refine hs.arrive.enqueue (hs.fresh ?_)
      rfl
    · exact hs.arrive
  | take k =>
    simp only [State.step] at h
    split at h
    · cases h
      exact hs.take ‹_› ‹_›
    · cases h
  | finish k decision =>
    obtain ⟨_, hrunning, rfl⟩ := Option.map_eq_some_iff.mp h
    exact hs.finish hrunning decision
  | closeLane k =>
    cases h
    exact hs.closeLane k
  | setInputOwner =>
    cases h
    exact ⟨hs.sorted, hs.place, hs.reserve, hs.arrived, hs.ended, hs.follows⟩
  | failedOpen =>
    cases h
    exact hs.withOutput s.output false
  | output =>
    simp only [State.step] at h
    split_ifs at h
    obtain ⟨output, -, rfl⟩ := Option.map_eq_some_iff.mp h
    exact hs.withOutput output s.failOpen

end

theorem ordered_start (outcome : Nat → Option Nat) (absOpens : Bool) :
    Ordered (start outcome absOpens) := by
  refine ⟨fun _ => Pairwise.nil, ?_, ?_, ?_, ?_, Pairwise.nil⟩ <;>
    simp [start, State.pending]

def Event.grabbed : Event → Option (HookType × ForwardPacket × Bool)
  | .forward k packet created => if packet.ungrabbed then none else some (k, packet, created)
  | .hook k packet _ _ created => some (k, packet, created)
  | _ => none

def State.refuses (s : State) (k : HookType) (created : Bool) : Bool :=
  !created || decide (maxLaneActions ≤ (s.ring k).length)

structure State.GivesUp (s t : State) : Prop where
  ring : t.ring = s.ring
  running : t.running = s.running
  log : t.log = s.log
  failOpen : t.failOpen = true

theorem givesUp_dispatch (s : State) (hkeeps : event.keepsLaneOrder = true)
    (hrefuses : s.refuses event.hookType created = true) :
    s.GivesUp (s.dispatchHookEventToLane event created) := by
  have hfallback := fallback_of_keepsLaneOrder s hkeeps
  unfold State.dispatchHookEventToLane State.enqueueHookLaneEvent
  split_ifs with hcreated hroom
  · have hfull : maxLaneActions ≤ (s.ring event.hookType).length := by
      simpa [State.refuses, hcreated] using hrefuses
    omega
  · rw [hfallback]
    exact ⟨rfl, rfl, rfl, rfl⟩
  · rw [hfallback]
    exact ⟨rfl, rfl, rfl, rfl⟩

theorem givesUp_of_refuses {e : Event} {packet : ForwardPacket}
    (he : e.grabbed = some (k, packet, created))
    (hkeeps : (packet.transition || loneReport packet) = true)
    (hseat : s.inputReachesNobody = false) (hrefuses : s.refuses k created = true)
    (h : s.step e = some t) : s.GivesUp t := by
  have hseat : s.arrive.inputReachesNobody = false := hseat
  have hread : ∀ egress generation,
      s.GivesUp ((s.arrive.pushSourceState packet).dispatchHookEventToLane
        ⟨s.arrivals, k, egress, packet, true, generation⟩ created) := by
    intro egress generation
    let event : LaneEvent := ⟨s.arrivals, k, egress, packet, true, generation⟩
    have hevent : event.keepsLaneOrder = true := hkeeps
    have hgives := givesUp_dispatch (s.arrive.pushSourceState packet) hevent hrefuses
    exact ⟨hgives.ring, hgives.running, hgives.log, hgives.failOpen⟩
  cases e <;> simp only [Event.grabbed, reduceCtorEq] at he
  case forward =>
    split_ifs at he with hungrabbed
    obtain ⟨rfl, rfl, rfl⟩ : _ ∧ _ ∧ _ := by simpa using he
    cases h
    simp only [State.forwardPhysicalEvent, hungrabbed, hseat]
    exact hread ..
  case hook =>
    obtain ⟨rfl, rfl, rfl⟩ : _ ∧ _ ∧ _ := by simpa using he
    cases h
    rw [State.handleHookEvent, if_neg (by simpa using hseat)]
    exact hread ..

/-- In every run, what keeps its place is not put out before an earlier event of its lane,
whether that was put out or still waits. What needs no order is never among the last places of a
ring. A packet that keeps its place and that its lane cannot take is not put out, and the grab is
given up. A release from an ungrabbed source is queued directly and keeps no place. -/
theorem lane_order {outcome : Nat → Option Nat} {absOpens : Bool} {s : State}
    (h : Reaches State.step always (start outcome absOpens) s) :
    s.log.Pairwise Admitted.Follows ∧
      (∀ a ∈ s.log, a.keeps = true → ∀ e ∈ s.pending a.lane, a.arrival < e.arrival) ∧
      (∀ k i e, (s.ring k)[i]? = some e → maxLaneActions - laneTransitionReserve ≤ i →
        e.keepsLaneOrder = true) ∧
      ∀ e k packet created t, e.grabbed = some (k, packet, created) →
        (packet.transition || loneReport packet) = true → s.inputReachesNobody = false →
        s.refuses k created = true → s.step e = some t → s.GivesUp t := by
  have hs : Ordered s :=
    h.invariant (ordered_start outcome absOpens) fun _ _ _ hs _ => hs.step
  exact ⟨hs.follows, hs.ended, hs.reserve, fun _ _ _ _ _ he hkeeps hseat hrefuses hstep =>
      givesUp_of_refuses he hkeeps hseat hrefuses hstep⟩

def openKeyboard : Event := .output (.openSource { keyboard := true, hasCodes := true })

def keyPacket (value : Int) : ForwardPacket := { target := 257, events := [keyEvent 30 value] }

def pressRun : List Event :=
  [openKeyboard, .forward .keyboard (keyPacket 1) true, .take .keyboard,
    .finish .keyboard .pass, .forward .keyboard (keyPacket 0) true]

/-- What waits came later than what was put out; the end of the report is not put out before
it although the lane cannot take it. -/
theorem lane_order_refused : ∃ s, Reaches State.step always (start (fun _ => none) true) s ∧
    s.log = [⟨0, .keyboard, true, false⟩] ∧ (s.pending .keyboard).map (·.arrival) = [1] ∧
    (∀ e ∈ s.pending .keyboard, 0 < e.arrival) ∧
    ∀ t, s.step (.forward .keyboard { target := 257, events := [synReport] } false) = some t →
      s.GivesUp t := by
  obtain ⟨s, hs, hlog, hpending, hseat⟩ := exists_reaches State.step (start (fun _ => none) true)
    pressRun (q := fun s => s.log = [⟨0, .keyboard, true, false⟩] ∧
      (s.pending .keyboard).map (·.arrival) = [1] ∧ s.inputReachesNobody = false)
    (by decide +kernel)
  obtain ⟨-, hended, -, hrefused⟩ := lane_order hs
  refine ⟨s, hs, hlog, hpending, hended _ (by rw [hlog]; exact mem_singleton_self _) rfl,
    fun t ht => hrefused _ _ _ _ t rfl (by decide) hseat (by simp [State.refuses]) ht⟩

/-- A press of one keyboard waits in the lane while another keyboard, which is not grabbed any
more, lets go of a key. -/
def ungrabbedRun : List Event :=
  [openKeyboard, openKeyboard, .forward .keyboard (keyPacket 1) true,
    .forward .keyboard { target := 514, events := [keyEvent 30 0], ungrabbed := true } true]

/-- The release of an ungrabbed source is put out before an earlier event of the lane. -/
theorem ungrabbed_release_overtakes :
    ∃ s, Reaches State.step always (start (fun _ => none) true) s ∧
      s.log = [⟨1, .keyboard, true, true⟩] ∧ (s.pending .keyboard).map (·.arrival) = [0] :=
  exists_reaches _ _ ungrabbedRun (by decide +kernel)

end KeysharpInput.LaneOrder
