import KeysharpInput.Grabs
import KeysharpInput.SourceChanges

/-!
What the lanes do to the sources.
The output of a lane names the target under which its event was read, so a step of the lanes
changes keys only under targets that are still pending there. Nothing else of a lane reaches a
source.
-/

namespace KeysharpInput.LaneOrder

open Output OutputState Forward List Function State
open Session (HookType)

variable {s t u : State} {event : LaneEvent} {P Q : Nat → Prop}

def State.forward (s : State) : Forward := s.output.backend.forward

/-- A step of the lanes: sources last but for keys under the targets in `P`, which are also
the only ones that come to be pending. -/
structure Moves (P : Nat → Prop) (s t : State) : Prop where
  carries : Carries P s.output t.output
  pending : ∀ k, ∀ e ∈ t.pending k, (∃ k', e ∈ s.pending k') ∨ P e.packet.target

theorem Moves.trans (h : Moves P s t) (g : Moves P t u) : Moves P s u := by
  refine ⟨h.carries.trans g.carries, fun k e he => ?_⟩
  rcases g.pending k e he with ⟨k', he'⟩ | hP
  · exact h.pending k' e he'
  · exact .inr hP

theorem Moves.mono (h : Moves P s t) (hP : ∀ target, P target → Q target) : Moves Q s t :=
  ⟨h.carries.mono hP, fun k e he => (h.pending k e he).imp_right (hP _)⟩

theorem Moves.of_pending (h : Carries P s.output t.output)
    (hpending : ∀ k, ∀ e ∈ t.pending k, ∃ k', e ∈ s.pending k') : Moves P s t :=
  ⟨h, fun k e he => .inl (hpending k e he)⟩

theorem Moves.of_emits (hemits : Emits event s t) (h : Carries P s.output t.output) : Moves P s t :=
  .of_pending h fun k _ he => ⟨k, hemits.pending k ▸ he⟩

theorem Moves.wellFormed (h : Moves P s t) : WellFormed t.forward := h.carries.lasts.wellFormed

section

variable (hs : WellFormed s.forward)

include hs

theorem carries_enqueueEgress (event : LaneEvent) :
    Carries (· = event.packet.target) s.output (s.enqueueEgress event).2.output := by
  unfold enqueueEgress
  split
  · exact .refl _ hs
  · exact carries_pushPacket hs false event.packet event.inputGeneration
  · exact carries_pushOwnedSynth hs _ _ _ _ _

theorem carries_failUnless (ok : Bool) (event : LaneEvent) :
    Carries P s.output (s.failUnless ok event).output := by
  unfold failUnless
  split <;> exact .refl _ hs

theorem carries_emitDecision (event : LaneEvent)
    (decision : Decision) : Carries P s.output (s.emitDecision event decision).2.output := by
  unfold emitDecision
  split
  · exact .refl _ hs
  · exact .refl _ hs
  · split
    · exact .refl _ hs
    · exact carries_pushOwnedSynth hs _ _ _ _ _

theorem carries_emitEgress (event : LaneEvent) (passed : Bool) :
    Carries (· = event.packet.target) s.output (s.emitEgress event passed).2.output := by
  unfold emitEgress
  split
  · exact carries_enqueueEgress hs event
  · exact .refl _ hs

theorem carries_emitRelease (event : LaneEvent) (replayed : Bool) :
    Carries (· = event.packet.target) s.output (s.emitRelease event replayed).2.output := by
  unfold emitRelease
  dsimp only
  split
  · exact carries_pushPacket hs false { event.packet with suppressed := true }
      event.inputGeneration
  · exact .refl _ hs

theorem moves_laneEmitOutput (event : LaneEvent) (decision : Decision) :
    Moves (· = event.packet.target) s (s.laneEmitOutput event decision) := by
  refine .of_emits (emits_laneEmitOutput event s decision) ?_
  have hdecision : Carries (· = event.packet.target) s.output
      (s.emitDecision event decision).2.output := carries_emitDecision hs event decision
  have hegress := carries_emitEgress hdecision.lasts.wellFormed event
    (s.emitDecision event decision).1
  have hrelease := carries_emitRelease hegress.lasts.wellFormed event
  exact ((hdecision.trans hegress).trans (hrelease _)).trans
    (carries_failUnless (hrelease _).lasts.wellFormed _ event)

theorem moves_completeHookDispatchFallback (event : LaneEvent) :
    Moves (· = event.packet.target) s (s.completeHookDispatchFallback event) := by
  unfold completeHookDispatchFallback
  by_cases horder : event.keepsLaneOrder = true
  · rw [if_pos horder]
    exact .of_emits (emits_failUnless event s false) (carries_failUnless hs false event)
  rw [if_neg horder]
  have hegress := carries_enqueueEgress hs event
  exact .of_emits ((emits_enqueueEgress event s).trans (emits_failUnless event _ _))
    (hegress.trans (carries_failUnless hegress.lasts.wellFormed _ event))

theorem moves_enqueueHookLaneEvent (event : LaneEvent) :
    Moves (· = event.packet.target) s (s.enqueueHookLaneEvent event) := by
  unfold enqueueHookLaneEvent
  split
  · refine ⟨.refl _ hs, fun k e he => ?_⟩
    by_cases hk : k = event.hookType
    · subst hk
      simp only [pending, update_self] at he
      rw [← append_assoc, mem_append, mem_singleton] at he
      exact he.imp (fun h => ⟨event.hookType, h⟩) fun h => by rw [h]
    · simp only [pending, update_of_ne hk] at he
      exact .inl ⟨k, he⟩
  · exact moves_completeHookDispatchFallback hs event

theorem moves_dispatchHookEventToLane (event : LaneEvent) (created : Bool) :
    Moves (· = event.packet.target) s (s.dispatchHookEventToLane event created) := by
  unfold dispatchHookEventToLane
  split
  · exact moves_enqueueHookLaneEvent hs event
  · exact moves_completeHookDispatchFallback hs event

theorem moves_arrive : Moves P s s.arrive :=
  .of_pending (.refl _ hs) fun k _ he => ⟨k, he⟩

theorem moves_pushSourceState (packet : ForwardPacket) :
    Moves (· = packet.target) s (s.pushSourceState packet) :=
  .of_pending (carries_pushPacket hs true packet _) fun k _ he => ⟨k, he⟩

theorem moves_arrival {packet : ForwardPacket} (hpacket : event.packet = packet) (created : Bool) :
    Moves (· = packet.target) s
      ((s.arrive.pushSourceState packet).dispatchHookEventToLane event created) := by
  subst hpacket
  have hstate := moves_pushSourceState (s := s.arrive) hs event.packet
  exact (moves_arrive hs).trans
    (hstate.trans (moves_dispatchHookEventToLane hstate.wellFormed event created))

theorem moves_forwardUngrabbed (event : LaneEvent) (room : Bool) :
    Moves (· = event.packet.target) s (s.forwardUngrabbed event room).2 := by
  have hnoted := carries_pushPacket hs true event.packet event.inputGeneration
  have hreplayed := carries_pushPacket hnoted.lasts.wellFormed false event.packet
    event.inputGeneration
  unfold forwardUngrabbed
  dsimp only
  split
  · exact .of_pending (hnoted.trans hreplayed) fun k _ he => ⟨k, he⟩
  · exact .of_pending hnoted fun k _ he => ⟨k, he⟩

theorem moves_forwardPhysicalEvent (k : HookType) (packet : ForwardPacket) (room : Bool) :
    Moves (· = packet.target) s (s.forwardPhysicalEvent k packet room).2 := by
  unfold forwardPhysicalEvent
  dsimp only
  split
  · exact (moves_arrive hs).trans
      ((moves_forwardUngrabbed (s := s.arrive) hs _ room).mono fun _ h => h)
  split
  · exact moves_arrive hs
  · refine moves_arrival hs ?_ room
    rfl

theorem moves_handleHookEvent (k : HookType) (packet : ForwardPacket)
    (injected blockActive created : Bool) :
    Moves (· = packet.target) s (s.handleHookEvent k packet injected blockActive created) := by
  unfold handleHookEvent
  dsimp only
  split
  · exact moves_arrive hs
  · refine moves_arrival hs ?_ created
    rfl

theorem moves_handleSyntheticInput (k : HookType) (input : Input)
    (batchStart : Bool) (connectionId : Nat) (created : Bool) :
    Moves (· = 0) s (s.handleSyntheticInput k input batchStart connectionId created) := by
  unfold handleSyntheticInput
  split
  · exact (moves_arrive hs).trans
      ((moves_enqueueHookLaneEvent (s := s.arrive) hs _).mono fun _ h => h)
  · exact moves_arrive hs

end

def State.Holds (s : State) (target : Nat) : Prop :=
  target = 0 ∨ ∃ k, ∃ e ∈ s.pending k, e.packet.target = target

theorem moves_output (hs : Lined s.output) {e : OutputEvent} (hpush : pushesPacket e = false)
    (he : isSourceEvent e = false) {output : OutputState} (hstep : s.output.step e = some output) :
    Moves P s { s with output := output } := by
  refine .of_pending ((carries_step hs he hstep).mono fun target h => ?_) fun k _ h => ⟨k, h⟩
  cases e with
  | pushPacket => exact absurd hpush Bool.noConfusion
  | _ => exact h.elim

theorem moves_step (hs : Lined s.output) {e : Event} (he : Grabs.ofReader e = false)
    (hstep : s.step e = some t) : Moves s.Holds s t := by
  have hf : WellFormed s.forward := hs.wellFormed
  cases e with
  | forward k packet room
  | hook => exact absurd he Bool.noConfusion
  | synthetic k input batchStart connectionId created =>
    cases hstep
    exact (moves_handleSyntheticInput hf k input batchStart connectionId created).mono
      fun _ h => .inl h
  | take lane =>
    rw [State.step] at hstep
    split at hstep
    · rename_i event _ hrunning hring
      cases hstep
      refine .of_pending (.refl _ hf) fun k e he => ⟨k, ?_⟩
      by_cases hk : k = lane
      · subst hk
        simpa [State.pending, hrunning, hring] using he
      · simpa [State.pending, hk] using he
    · exact absurd hstep (by simp)
  | finish lane decision =>
    obtain ⟨event, hrunning, rfl⟩ := Option.map_eq_some_iff.mp hstep
    have hmem : event ∈ s.pending lane := by simp [State.pending, hrunning]
    have hrest : Moves s.Holds s { s with running := update s.running lane none } := by
      refine .of_pending (.refl _ hf) fun k e he => ⟨k, ?_⟩
      by_cases hk : k = lane
      · subst hk
        simp only [State.pending, update_self] at he
        exact mem_append_right _ he
      · simpa [State.pending, hk] using he
    refine hrest.trans ((moves_laneEmitOutput hrest.wellFormed event decision).mono ?_)
    rintro _ rfl
    exact .inr ⟨lane, event, hmem, rfl⟩
  | closeLane lane =>
    cases hstep
    refine .of_pending (.refl _ hf) fun k e he => ⟨k, ?_⟩
    by_cases hk : k = lane
    · subst hk
      simp only [State.pending, update_self, append_nil] at he
      exact mem_append_left _ he
    · simpa [State.pending, hk] using he
  | setInputOwner enforced valid | failedOpen =>
    cases hstep
    exact .of_pending (.refl _ hf) fun k _ h => ⟨k, h⟩
  | output e =>
    rw [State.step] at hstep
    split at hstep
    · exact absurd hstep (by simp)
    rename_i hpush
    obtain ⟨_, hout, rfl⟩ := Option.map_eq_some_iff.mp hstep
    refine moves_output hs (by simpa using hpush) ?_ hout
    cases e with
    | openSource | pushEndGrab | pushClose => exact absurd he Bool.noConfusion
    | _ => rfl

end KeysharpInput.LaneOrder
