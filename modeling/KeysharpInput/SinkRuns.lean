import KeysharpInput.SinkBalance

/-!
The sink along whole runs.
What synthesis does to the sink is made of the steps of the forwarding table: it takes and drops
keys, taps them, displaces and restores the holds of sources. Each keeps the sink in line with its
holders, so the sink stays in line from the moment it is attached, whatever the daemon asks of the
output side.
-/

namespace KeysharpInput.Output.Backend

open Forward Transition

variable {f₀ : Forward} {b : Backend}

theorem balanced_applyKey (h : Balanced f₀ ∅ b.forward) (view : View) (code : Code)
    (down restore : Bool) (owner : SynthOwner) :
    Balanced f₀ ∅ (b.applyKey view code down restore owner).2.forward := by
  have hrestored : Balanced f₀ ∅ (if restore then b.forward.restoreKey code view
      else (false, b.forward)).2 := by
    split
    · exact (Balanced.rule _ _).shiftKey h code view true
    · exact h
  unfold applyKey
  split
  · dsimp only
    generalize (if restore then _ else _) = r at *
    split <;> exact hrestored
  split
  · split <;> exact h
  · exact (Balanced.rule _ _).shiftKey h code view false

theorem balanced_emitEventTo (h : Balanced f₀ ∅ b.forward) {device : OutputDevice}
    {event : InputEvent} (hevent : device = .sink → event.key = none) :
    Balanced f₀ ∅ (b.emitEventTo device event).2.forward := by
  unfold emitEventTo
  split
  · exact h
  · exact h.outputWrite fun hdevice => by simpa using hevent hdevice

theorem balanced_keyRule (f₀ : Forward) (owner : SynthOwner) :
    KeyRule (fun b => Balanced f₀ ∅ b.forward) owner true where
  emit := fun h _ _ hkey => balanced_emitEventTo h hkey
  sinkKey := fun h code held => h.sinkKey code held
  tapSinkKey := fun h code => h.tap code
  flags := fun h _ => h
  applyKey := fun h code _ restore _ => balanced_applyKey h .applied code _ restore owner
  sinkRepress := fun h code => h.sinkRepress code

theorem balanced_noteRule (f₀ : Forward) (owner : SynthOwner) :
    NoteRule (fun b => Balanced f₀ ∅ b.forward) owner true where
  applyKey := fun h code _ restore _ => balanced_applyKey h .enqueued code _ restore owner

section

variable (h : Balanced f₀ ∅ b.forward)

include h

theorem balanced_releaseFor (view : View) (released : KeyBits) :
    Balanced f₀ ∅ (b.releaseFor view released).forward := by
  unfold releaseFor
  split
  · exact (balanced_keyRule f₀ {}).foldl_updateGenericKey h _
  · exact h

theorem balanced_maintainOutput (now : Nat) : Balanced f₀ ∅ (b.maintainOutput now).forward := by
  have hcollect := (Balanced.rule _ _).forwardCollect h now
  unfold maintainOutput
  dsimp only
  split
  · exact hcollect
  · refine (balanced_keyRule f₀ {}).foldl_updateGenericKey ?_ _
    exact hcollect

theorem balanced_physicalRelease (packet : ForwardPacket)
    (view : View) : Balanced f₀ ∅ (b.physicalRelease packet view).forward := by
  unfold physicalRelease
  split
  · exact h
  · refine balanced_releaseFor ?_ view _
    exact h

theorem balanced_releaseAll : Balanced f₀ ∅ b.releaseAll.forward := by
  have hclear : Balanced f₀ ∅ (b.setHolds .applied (b.holds .applied).clear).forward := h
  unfold releaseAll
  dsimp only
  have hbuttons := (balanced_keyRule f₀ {}).foldl_updateGenericKey hclear
    (setBits (b.setHolds .applied (b.holds .applied).clear).buttonHeldOnAbs)
  exact hbuttons.sinkClearSynth

end

/-- What the sequencer is given: packets as the reader builds them, none of which has a keyboard
source's keyboard key for its clone. -/
def Sequenced (b : Backend) : Operation → Prop
  | .forwardWrite packet => packet.Built ∧ (packet.clone = true → ∀ i,
      b.forward.findDevice packet.target .applied = some i →
        ∀ pair ∈ packet.key, (b.forward.device i).onSink pair.1 = false)
  | _ => True

theorem balanced_operate {b' : Backend} {op : Operation} (h : Balanced f₀ ∅ b.forward)
    (hop : Sequenced b op) (hstep : b.operate op = some b') : Balanced f₀ ∅ b'.forward := by
  cases op <;> obtain rfl := Option.some.inj hstep
  case sendInput inputs flags owner =>
    have hplay := (balanced_keyRule f₀ owner).play (fun h _ _ => h) fun h _ => h
    exact hplay.sendInput nofun h inputs flags
  case noteEnqueuedSynth inputs owner =>
    exact (balanced_noteRule f₀ owner).noteEnqueuedSynth nofun h inputs
  case resetEnqueuedSynth => exact h
  case releaseOwner filter view =>
    refine balanced_releaseFor ?_ view _
    exact h
  case physicalRelease packet view => exact balanced_physicalRelease h packet view
  case releaseAll => exact balanced_releaseAll h
  case maintainOutput now => exact balanced_maintainOutput h now
  case forwardWrite packet => exact h.forwardWrite hop.1 hop.2
  case noteOutput packet => exact (Balanced.rule _ _).noteOutput h packet
  case noteSource packet view => exact (Balanced.rule _ _).noteSource h packet view
  case forwardReleaseAll view => exact (Balanced.rule _ _).forwardReleaseAll h view
  case forwardOpen info => exact (Balanced.rule _ _).forwardOpen h info
  case forwardEndGrab target => exact (Balanced.rule _ _).forwardEndGrab h target
  case forwardApplyEndGrab next held => exact (Balanced.rule _ _).forwardApplyEndGrab h next held
  case forwardClose target => exact (Balanced.rule _ _).forwardClose h target
  case forwardApplyClose target now => exact (Balanced.rule _ _).forwardApplyClose h target now

structure Attached (b : Backend) : Prop where
  outcome : ∀ n, b.forward.uinput.outcome n = none
  sink : b.forward.sink = { attached := true }
  output : ∀ i, ((b.forward.device i).views .applied).output = ∅

theorem Attached.balanced (h : Attached b) : Balanced b.forward ∅ b.forward where
  live := ⟨h.outcome, by rw [h.sink], by rw [h.sink]⟩
  played := .of_eq rfl rfl
  agrees := fun c _ => by
    rw [sinkWants_iff, h.sink]
    simp [h.output]

/-- From a freshly attached sink on, a key is down there exactly if synthesis or a live keyboard
holds it there. The presses and releases written for a key take turns, beginning with a press, and
a repeat is written only after a press. -/
theorem sink_agrees {b₀ : Backend} (hattached : Attached b₀)
    (h : Reaches operate Sequenced b₀ b) (c : Code) :
    (c ∈ b.forward.sink.down ↔ c ∈ b.forward.sink.synth ∨
      ∃ i, (b.forward.device i).live = true ∧ (b.forward.device i).onSink c = true ∧
        c ∈ ((b.forward.device i).views .applied).output) ∧
    ∃ ws, b.forward.uinput.written = b₀.forward.uinput.written ++ ws ∧
      ((0 :: (keyValues c ws).filter (· ≠ 2)).IsChain fun v w => w = 1 - v) ∧
      ∀ before after, keyValues c ws = before ++ 2 :: after →
        (0 :: before.filter (· ≠ 2)).getLast? = some 1 := by
  have hb : Balanced b₀.forward ∅ b.forward :=
    h.invariant hattached.balanced
      fun _ _ _ hb hop hstep => balanced_operate hb hop hstep
  obtain ⟨ws, hwritten, hplays⟩ := hb.played
  have hplays := hplays c
  rw [hattached.sink] at hplays
  refine ⟨(hb.agrees c (Finset.notMem_empty c)).trans (sinkWants_iff _ c), ws, hwritten,
    isChain_of_plays hplays, fun before after hsplit => ?_⟩
  rw [hsplit] at hplays
  exact getLast_of_plays_repeat hplays

theorem attached_opened (absOpens : Bool) : Attached (opened absOpens) where
  outcome := fun _ => rfl
  sink := rfl
  output := fun _ => rfl

def sharedKeyRun : List Operation :=
  [.forwardOpen { keyboard := true, hasCodes := true },
    .forwardWrite { target := 257, events := [keyEvent 30 1], reportEnd := true },
    .forwardWrite { target := 257, events := [keyEvent 30 2], reportEnd := true }, pressA 1]

theorem sink_agrees_of_run : ∃ b, Attached (opened true) ∧
    Reaches operate Sequenced (opened true) b ∧
    keyValues 30 b.forward.uinput.written = [1, 2, 0, 1] ∧ (30 : Code) ∈ b.forward.sink.down ∧
    ((30 : Code) ∈ b.forward.sink.synth ∨
      ∃ i, (b.forward.device i).live = true ∧ (b.forward.device i).onSink 30 = true ∧
        (30 : Code) ∈ ((b.forward.device i).views .applied).output) := by
  have hguard : GuardedRun operate Sequenced (opened true) sharedKeyRun := by
    refine guardedRun_of_forall _ ?_ _
    simp only [sharedKeyRun, List.forall_mem_cons]
    exact ⟨fun _ => trivial, fun _ => ⟨by decide, nofun⟩, fun _ => ⟨by decide, nofun⟩,
      fun _ => trivial, nofun⟩
  obtain ⟨b, hb, hvalues, hdown⟩ := Reaches.exists_of_run
    (q := fun b : Backend => keyValues 30 b.forward.uinput.written = [1, 2, 0, 1] ∧
      (30 : Code) ∈ b.forward.sink.down) hguard (by decide +kernel)
  exact ⟨b, attached_opened true, hb, hvalues, hdown,
    (sink_agrees (attached_opened true) hb 30).1.mp hdown⟩

end KeysharpInput.Output.Backend
