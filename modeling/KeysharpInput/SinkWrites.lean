import KeysharpInput.ForwardRule

/-!
What is written to the devices that all sources and synthesis share.
The keys that a device has down follow from the writes it was given. While no write fails, the
sources write only keyboard keys to the sink and nothing to the absolute pointer, so they move no
button of either. Nor do they let go of a key that synthesis holds: whatever a source does, the
sink is brought in line with all its holders.
-/

namespace KeysharpInput.Output

open List ForwardKeys

variable {keys : KeyBits} {c : Code} {ws : List Write} {value : Int}

def keysDown (device : OutputDevice) (keys : KeyBits) (writes : List Write) : KeyBits :=
  writes.foldl (fun keys w =>
    if w.device = device then noteWrittenKeys keys w.events true else keys) keys

theorem keysDown_append (device : OutputDevice) (keys : KeyBits) (ws ws' : List Write) :
    keysDown device keys (ws ++ ws') = keysDown device (keysDown device keys ws) ws' :=
  foldl_append

def Write.SparesButtons (w : Write) : Prop :=
  ∀ e ∈ w.events, ∀ c, e.key = some c →
    (∃ i, w.device = .clone i) ∨ w.device = .sink ∧ isKeyboard c = true

theorem mem_noteWrittenKeys {events : List InputEvent} {ok : Bool}
    (h : ∀ e ∈ events, e.key ≠ some c) : c ∈ noteWrittenKeys keys events ok ↔ c ∈ keys := by
  induction events generalizing keys with
  | nil => rfl
  | cons e _ ih =>
    rw [forall_mem_cons] at h
    rw [Forward.noteWrittenKeys_cons, ih h.2]
    unfold noteWrittenKeys
    simp only [foldl_cons, foldl_nil]
    cases hkey : e.key with
    | none => rfl
    | some code =>
      have hne : c ≠ code := fun heq => h.1 (heq ▸ hkey)
      dsimp only
      split
      · rw [mem_setKeyBit, if_neg hne]
      · rfl

theorem mem_keysDown {device : OutputDevice}
    (h : ∀ w ∈ ws, w.device = device → ∀ e ∈ w.events, e.key ≠ some c) :
    c ∈ keysDown device keys ws ↔ c ∈ keys := by
  induction ws generalizing keys with
  | nil => rfl
  | cons w ws ih =>
    rw [forall_mem_cons] at h
    refine (ih h.2).trans ?_
    dsimp only
    split
    · rename_i hdevice
      exact mem_noteWrittenKeys (h.1 hdevice)
    · rfl

theorem keysDown_absolute (h : ∀ w ∈ ws, w.SparesButtons) : keysDown .absolute keys ws = keys := by
  ext c
  refine mem_keysDown fun w hw hdevice e he hkey => ?_
  obtain ⟨i, hclone⟩ | ⟨hsink, -⟩ := h w hw e he c hkey
  · exact absurd (hclone.symm.trans hdevice) nofun
  · exact absurd (hsink.symm.trans hdevice) nofun

theorem mem_keysDown_sink (h : ∀ w ∈ ws, w.SparesButtons) (hc : isKeyboard c = false) :
    c ∈ keysDown .sink keys ws ↔ c ∈ keys := by
  refine mem_keysDown fun w hw hdevice e he hkey => ?_
  obtain ⟨i, hclone⟩ | ⟨-, hkeyboard⟩ := h w hw e he c hkey
  · exact absurd (hclone.symm.trans hdevice) nofun
  · exact absurd (hkeyboard.symm.trans hc) nofun

theorem noteWrittenKeys_nil (keys : KeyBits) (ok : Bool) : noteWrittenKeys keys [] ok = keys := rfl

theorem noteWrittenKeys_keyEvent (keys : KeyBits) (code : Code) (hvalue : value ≠ 2) :
    noteWrittenKeys keys [keyEvent code value] true = setKeyBit keys code (value != 0) := by
  unfold noteWrittenKeys
  rw [foldl_cons, keyEvent_key]
  exact if_pos ⟨hvalue, .inl rfl⟩

theorem noteWrittenKeys_key (keys : KeyBits) (code : Code) (hvalue : value ≠ 2)
    (rest : List InputEvent) :
    noteWrittenKeys keys (keyEvent code value :: synReport :: rest) true =
      noteWrittenKeys (setKeyBit keys code (value != 0)) rest true := by
  rw [Forward.noteWrittenKeys_cons, noteWrittenKeys_keyEvent keys code hvalue]
  rfl

namespace Forward

variable {f f' f'' : Forward} {code : Code} {i : Nat} {view : View} {packet : ForwardPacket}
  {events : List InputEvent} {e : InputEvent} {c : Code} {d : ForwardingDevice}

structure Live (f : Forward) : Prop where
  outcome : ∀ n, f.uinput.outcome n = none
  attached : f.sink.attached = true
  sinkFailed : f.sink.failed = false

structure Writes (f f' : Forward) : Prop where
  outcome : f'.uinput.outcome = f.uinput.outcome
  attached : f'.sink.attached = f.sink.attached
  sinkFailed : f'.sink.failed = f.sink.failed
  synth : f'.sink.synth = f.sink.synth
  written : ∃ ws, f'.uinput.written = f.uinput.written ++ ws ∧
    f'.sink.down = keysDown .sink f.sink.down ws ∧ ∀ w ∈ ws, w.SparesButtons

structure Steady (f f' : Forward) : Prop extends Writes f f' where
  keeps : ∀ c ∈ f.sink.synth, c ∈ f.sink.down → c ∈ f'.sink.down

theorem Writes.trans (h : Writes f f') (h' : Writes f' f'') : Writes f f'' := by
  obtain ⟨ws, hwritten, hdown, hspares⟩ := h.written
  obtain ⟨ws', hwritten', hdown', hspares'⟩ := h'.written
  refine ⟨h'.outcome.trans h.outcome, h'.attached.trans h.attached,
    h'.sinkFailed.trans h.sinkFailed, h'.synth.trans h.synth, ws ++ ws', ?_, ?_, ?_⟩
  · rw [hwritten', hwritten, append_assoc]
  · rw [hdown', hdown, keysDown_append]
  · intro w hw
    exact (mem_append.mp hw).elim (hspares w) (hspares' w)

theorem Writes.live (h : Writes f f') (hf : Live f) : Live f' :=
  ⟨fun n => by rw [h.outcome]; exact hf.outcome n, h.attached.trans hf.attached,
    h.sinkFailed.trans hf.sinkFailed⟩

namespace Steady

theorem of_eq (huinput : f'.uinput = f.uinput) (hsink : f'.sink = f.sink) : Steady f f' := by
  refine ⟨⟨by rw [huinput], by rw [hsink], by rw [hsink], by rw [hsink], [], ?_, ?_, ?_⟩, ?_⟩
  · rw [huinput, append_nil]
  · rw [hsink]
    rfl
  · exact fun w hw => absurd hw not_mem_nil
  · rw [hsink]
    exact fun c _ hc => hc

theorem refl (f : Forward) : Steady f f := .of_eq rfl rfl

theorem trans (h : Steady f f') (h' : Steady f' f'') : Steady f f'' :=
  ⟨h.toWrites.trans h'.toWrites, fun c hsynth hdown =>
    h'.keeps c (h.synth ▸ hsynth) (h.keeps c hsynth hdown)⟩

theorem modifyDevice (f : Forward) (i : Nat) (g : ForwardingDevice → ForwardingDevice) :
    Steady f (f.modifyDevice i g) := .of_eq rfl rfl

end Steady

theorem Live.outputWrite_eq (hf : Live f) (device : OutputDevice) (events : List InputEvent) :
    f.outputWrite device events = (true, { f with uinput := { f.uinput with
      attempts := f.uinput.attempts + 1
      written := f.uinput.written ++ [⟨device, events⟩] } }) := by
  simp [outputWrite, hf.outcome]

theorem Live.writeSink_eq (hf : Live f) (events : List InputEvent) :
    f.writeSink events = (true, { f with
      uinput := { f.uinput with
        attempts := f.uinput.attempts + 1
        written := f.uinput.written ++ [⟨.sink, events⟩] }
      sink := { f.sink with down := noteWrittenKeys f.sink.down events true } }) := by
  simp [writeSink, hf.attached, hf.sinkFailed, hf.outputWrite_eq]

theorem Live.steady_outputWrite (hf : Live f) {device : OutputDevice}
    (h : ∀ e ∈ events, e.key = none) : Steady f (f.outputWrite device events).2 := by
  have hnone : ∀ c, ∀ e ∈ events, e.key ≠ some c := fun c e he hkey =>
    absurd ((h e he).symm.trans hkey) nofun
  rw [hf.outputWrite_eq]
  refine ⟨⟨rfl, rfl, rfl, rfl, [⟨device, events⟩], rfl, ?_, ?_⟩, fun c _ hc => hc⟩
  · ext c
    refine (mem_keysDown fun w hw _ => ?_).symm
    rw [mem_singleton.mp hw]
    exact hnone c
  · intro w hw e he c hkey
    rw [mem_singleton.mp hw] at he
    exact absurd hkey (hnone c e he)

theorem Live.steady_writeClone (hf : Live f) (i : Nat) (events : List InputEvent) :
    Steady f (f.writeClone i events).2 := by
  unfold writeClone
  split
  · exact .refl f
  rw [hf.outputWrite_eq]
  refine ⟨⟨rfl, rfl, rfl, rfl, [⟨.clone i, events⟩], rfl, rfl, ?_⟩, fun c _ hc => hc⟩
  intro _ hw _ _ _ _
  rw [mem_singleton.mp hw]
  exact .inl ⟨i, rfl⟩

theorem Live.writes_writeSink (hf : Live f)
    (h : ∀ e ∈ events, ∀ c, e.key = some c → isKeyboard c = true) :
    Writes f (f.writeSink events).2 := by
  rw [hf.writeSink_eq]
  refine ⟨rfl, rfl, rfl, rfl, [⟨.sink, events⟩], rfl, rfl, fun w hw e he c hkey => ?_⟩
  rw [mem_singleton.mp hw] at he ⊢
  exact .inr ⟨rfl, h e he c hkey⟩

theorem key_of_mem_keyEvents {value : Int} (he : e ∈ [keyEvent code value, synReport])
    (hkey : e.key = some c) : c = code := by
  rcases mem_cons.mp he with rfl | he
  · exact (Option.some.inj ((keyEvent_key code value).symm.trans hkey)).symm
  · rw [mem_singleton.mp he] at hkey
    cases hkey

section

variable (hf : Live f)

include hf

theorem Live.steady_synReport : Steady f (f.writeSink [synReport]).2 := by
  refine ⟨hf.writes_writeSink fun e he c hkey => ?_, fun c _ hc => ?_⟩
  · rw [mem_singleton.mp he] at hkey
    cases hkey
  · rw [hf.writeSink_eq]
    exact hc

theorem Live.steady_reconcile (hcode : isKeyboard code = true) :
    Steady f (f.reconcile code).2 := by
  unfold reconcile
  dsimp only
  split
  · exact .refl f
  refine ⟨hf.writes_writeSink fun e he c hkey => key_of_mem_keyEvents he hkey ▸ hcode,
    fun c hsynth hc => ?_⟩
  rw [writeSinkKey, hf.writeSink_eq]
  rw [noteWrittenKeys_key _ _ (by split <;> decide), noteWrittenKeys_nil, mem_setKeyBit]
  split
  · rename_i heq
    subst heq
    have hwants : f.sinkWants c = true := by simp [sinkWants, hsynth]
    simp [hwants]
  · exact hc

theorem Live.down_tap (code : Code) : (f.tap code).2.sink.down = f.sink.down := by
  unfold tap
  dsimp only
  rw [hf.writeSink_eq]
  rw [noteWrittenKeys_key _ _ (by split <;> decide), noteWrittenKeys_key _ _ (by split <;> decide),
    noteWrittenKeys_nil]
  ext c
  by_cases hdown : code ∈ f.sink.down <;> by_cases hc : c = code <;>
    simp [mem_setKeyBit, hc]

theorem Live.steady_tap (hcode : isKeyboard code = true) :
    Steady f (f.tap code).2 := by
  refine ⟨hf.writes_writeSink fun e he c hkey => ?_, fun c _ hc => ?_⟩
  · have hpair : e ∈ [keyEvent code (if code ∈ f.sink.down then 0 else 1), synReport] ∨
        e ∈ [keyEvent code (if code ∈ f.sink.down then 1 else 0), synReport] := by
      simpa [or_assoc] using he
    rcases hpair with hpair | hpair <;> exact key_of_mem_keyEvents hpair hkey ▸ hcode
  · rw [hf.down_tap]
    exact hc

theorem Live.steady_sinkRepress (code : Code) : Steady f (f.sinkRepress code).2 := by
  unfold sinkRepress
  split
  · rename_i hneeds
    have hcode : isKeyboard code = true := by
      simp only [needsRepress, Bool.and_eq_true] at hneeds
      exact hneeds.1.2
    exact hf.steady_tap hcode
  · exact .refl f

theorem Live.steady_setOutput (i : Nat) (view : View) (code : Code)
    (held : Bool) : Steady f (f.setOutput i view code held) := by
  have hset := Steady.modifyDevice f i fun d => d.mapKeys view fun keys =>
    { keys with output := setKeyBit keys.output code held }
  unfold setOutput
  dsimp only
  split
  · exact hset
  split
  · rename_i hsink
    have hcode : isKeyboard code = true := by
      simp only [ForwardingDevice.onSink, Bool.and_eq_true] at hsink
      exact hsink.2
    exact hset.trans ((hset.live hf).steady_reconcile hcode)
  split
  · exact hset.trans ((hset.live hf).steady_writeClone i _)
  · exact hset

theorem Live.rule : ForwardRule (Steady f) where
  inert := fun h huinput hsink _ => h.trans (.of_eq huinput hsink)
  setOutput := fun h i view code held => h.trans ((h.live hf).steady_setOutput i view code held)
  writeClone := fun h i events => h.trans ((h.live hf).steady_writeClone i events)
  endReport := fun h => h.trans (h.live hf).steady_synReport

end

theorem mem_expandWheel (he : e ∈ (expandWheel d events).2) : e ∈ events ∨ e.key = none := by
  induction events generalizing d with
  | nil => cases he
  | cons e' _ ih =>
    unfold expandWheel at he
    rcases mem_append.mp he with he | he
    · rcases mem_cons.mp he with rfl | he
      · exact .inl mem_cons_self
      -- A legacy wheel step.
      refine .inr (key_eq_none_of_type_ne ?_)
      split at he
      · split at he
        simp at he
        simp [he]
      split at he
      · split at he
        simp at he
        simp [he]
      · cases he
    · exact (ih he).imp_left (mem_cons_of_mem e')

theorem key_of_mem_events (h : packet.Built) (he : e ∈ packet.events) (hkey : e.key = some c) :
    packet.key = some (c, e.value) := by
  have hothers := h.others
  rcases eq_nil_or_concat packet.events with hnil | ⟨_, _, hevents⟩
  · rw [hnil] at he
    cases he
  rw [concat_eq_append] at hevents
  rw [hevents, dropLast_concat] at hothers
  rw [hevents] at he
  rcases mem_append.mp he with he | he
  · rw [key_eq_none_of_type_ne (hothers e he)] at hkey
    cases hkey
  · rw [mem_singleton.mp he] at hkey ⊢
    simp [ForwardPacket.key, hevents, hkey]

def packetKeys (packet : ForwardPacket) (keys : KeyBits) : KeyBits :=
  match packet.key with
  | none => keys
  | some (code, value) => if value = 2 then keys else setKeyBit keys code (value != 0)

theorem noteWrittenKeys_events (h : packet.Built) (keys : KeyBits) :
    noteWrittenKeys keys packet.events true = packetKeys packet keys := by
  have hnote := (foldl_note_false packet.events { output := keys }).symm.trans
    (h.foldl_note false { output := keys })
  unfold packetKeys
  cases hkey : packet.key with
  | none =>
    rw [hkey] at hnote
    exact congrArg output hnote
  | some pair =>
    obtain ⟨_, value⟩ := pair
    rw [hkey] at hnote
    simp only [note_keyEvent] at hnote
    dsimp only
    by_cases hvalue : value = 2
    · rw [if_pos hvalue] at hnote ⊢
      exact congrArg output hnote
    · rw [if_neg hvalue] at hnote ⊢
      exact congrArg output hnote

/-- The events that `forwardWrite` makes of a packet. -/
def packetEventsOf (d : ForwardingDevice) (packet : ForwardPacket) : List InputEvent :=
  if packet.reportEnd then (expandWheel d packet.events).2 ++ [synReport]
  else (expandWheel d packet.events).2

theorem mem_packetEventsOf (he : e ∈ packetEventsOf d packet) :
    e ∈ packet.events ∨ e.key = none := by
  unfold packetEventsOf at he
  split at he
  · rcases mem_append.mp he with he | he
    · exact mem_expandWheel he
    · rw [mem_singleton.mp he]
      exact .inr rfl
  · exact mem_expandWheel he

theorem noteWrittenKeys_packetEventsOf (h : packet.Built) (d : ForwardingDevice) (keys : KeyBits) :
    noteWrittenKeys keys (packetEventsOf d packet) true = packetKeys packet keys := by
  rw [← noteWrittenKeys_events h, ← noteWrittenKeys_expandWheel keys d packet.events]
  unfold packetEventsOf
  split
  · rw [noteWrittenKeys_append]
    rfl
  · rfl

def routed (packet : ForwardPacket) : Bool :=
  packet.clone || packet.key.all fun pair => isKeyboard pair.1

theorem isKeyboard_of_routed (h : packet.Built) (hrouted : routed packet = true)
    (hclone : packet.clone = false) (he : e ∈ packetEventsOf d packet) (hkey : e.key = some c) :
    isKeyboard c = true := by
  rcases mem_packetEventsOf he with hmem | hnone
  · rw [routed, hclone, key_of_mem_events h hmem hkey] at hrouted
    exact hrouted
  · exact absurd (hnone.symm.trans hkey) nofun

theorem Live.steady_writeCloneReport (hf : Live f) (i : Nat) (packet : ForwardPacket)
    (events : List InputEvent) : Steady f (f.writeCloneReport i packet events).2 :=
  (hf.steady_writeClone i events).trans (.modifyDevice _ i _)

/-- A press of a key that is down is a release and a press; any other report is written only if
it brings the sink in line. -/
theorem Live.steady_writeSinkReport (hf : Live f) (h : packet.Built)
    (hrouted : routed packet = true) (hclone : packet.clone = false) (i : Nat)
    (d : ForwardingDevice) : Steady f (f.writeSinkReport i packet (packetEventsOf d packet)).2 := by
  have hset := Steady.modifyDevice f i fun d => d.mapKeys .applied (packetOutput packet)
  have hnote := noteWrittenKeys_packetEventsOf h d
  have hkeys : ∀ e ∈ packetEventsOf d packet, ∀ c, e.key = some c → isKeyboard c = true :=
    fun e he c hkey => isKeyboard_of_routed h hrouted hclone he hkey
  unfold writeSinkReport
  dsimp only
  generalize f.modifyDevice i _ = f₁ at hset ⊢
  have hf₁ := hset.live hf
  cases hrepress : packet.key.any fun pair => pair.2 == 1 && f.needsRepress pair.1 with
  | true =>
    obtain ⟨⟨code, value⟩, hkey, hpress⟩ := (Option.any_eq_true _ _).mp hrepress
    obtain ⟨hvalue, -⟩ := Bool.and_eq_true_iff.mp hpress
    obtain rfl : value = 1 := beq_iff_eq.mp hvalue
    have hcode : isKeyboard code = true := by
      rw [routed, hclone, hkey] at hrouted
      exact hrouted
    have hrelease : Writes f₁ (f₁.writeSinkKey code 0).2 :=
      hf₁.writes_writeSink fun e he c hkey => key_of_mem_keyEvents he hkey ▸ hcode
    have hf₂ := hrelease.live hf₁
    have hevents := hf₂.writes_writeSink hkeys
    simp only [if_true, writeRepress, hkey]
    have hok : (f₁.writeSinkKey code 0).1 = true := by rw [writeSinkKey, hf₁.writeSink_eq]
    rw [if_pos hok]
    have hwrites := hrelease.trans hevents
    refine hset.trans (Steady.trans ⟨hwrites, fun c _ hc => ?_⟩ (.modifyDevice _ i _))
    rw [hf₂.writeSink_eq]
    rw [hnote, packetKeys, hkey, writeSinkKey, hf₁.writeSink_eq]
    dsimp only
    rw [if_neg (by decide), mem_setKeyBit]
    split
    · rfl
    · rename_i hne
      rw [noteWrittenKeys_key _ _ (by decide), noteWrittenKeys_nil, mem_setKeyBit, if_neg hne]
      exact hc
  | false =>
    split
    · exact hset
    rename_i hchanged
    refine hset.trans (Steady.trans ⟨hf₁.writes_writeSink hkeys, fun c hsynth hc => ?_⟩
      (.modifyDevice _ i _))
    rw [hf₁.writeSink_eq]
    rw [hnote, packetKeys]
    split
    · exact hc
    rename_i hkey
    split
    · exact hc
    rename_i hvalue
    rw [mem_setKeyBit]
    split
    · rename_i heq
      subst heq
      have hwants : f₁.sinkWants c = true := by simp [sinkWants, hsynth]
      simp [sinkUnchanged, hkey, hvalue, hwants, hc] at hchanged
    · exact hc

theorem Live.steady_forwardWrite (hf : Live f) (h : packet.Built)
    (hrouted : routed packet = true) : Steady f (f.forwardWrite packet).2 := by
  unfold forwardWrite
  split
  · exact .refl f
  split
  · exact .refl f
  rename_i i _
  dsimp only
  split
  · exact .refl f
  split
  · split
    · rename_i hkey
      cases hclone : packet.clone with
      | true => exact .refl f
      | false =>
        rw [routed, hclone, hkey] at hrouted
        exact hf.steady_reconcile hrouted
    · exact .refl f
  · have hwheel := Steady.modifyDevice f i fun _ => (expandWheel (f.device i) packet.events).1
    have hf' := hwheel.live hf
    cases hclone : packet.clone with
    | true => exact hwheel.trans (hf'.steady_writeCloneReport i packet _)
    | false => exact hwheel.trans (hf'.steady_writeSinkReport h hrouted hclone i (f.device i))

end Forward

end KeysharpInput.Output
