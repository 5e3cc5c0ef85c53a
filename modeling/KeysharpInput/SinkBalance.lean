import KeysharpInput.Presses

/-!
The sink agrees with its holders.
Forwarding, synthesis, taps, presses written again, displacement, Unicode entry and the end of a
grab all write to one device, and each skips or doubles writes by its own rule. While no write
fails, the sink has a key down exactly if synthesis or a live keyboard holds it there, and what is
written for a key is a proper sequence of presses, repeats and releases.
-/

namespace KeysharpInput.Output

open Forward ForwardingDevice List Finset Backend ForwardKeys Option

variable {c : Code} {down down' : Bool} {vs : List Int} {packet : ForwardPacket}

def lastValue (down : Bool) : Int := if down then 1 else 0

/-- Presses and releases take turns, and a repeat comes only while the key is down. The result
says whether the key is down at the end. -/
def plays : Bool → List Int → Option Bool
  | down, [] => some down
  | down, value :: values =>
    if value = lastValue (!down) then plays (!down) values
    else if down ∧ value = 2 then plays down values
    else none

theorem plays_append (down : Bool) (vs ws : List Int) :
    plays down (vs ++ ws) = (plays down vs).bind fun down => plays down ws := by
  induction vs generalizing down with
  | nil => rfl
  | cons _ _ ih =>
    rw [cons_append, plays, plays]
    split_ifs
    · exact ih _
    · exact ih _
    · rfl

theorem isChain_of_plays (h : plays down vs = some down') :
    (lastValue down :: vs.filter (· ≠ 2)).IsChain fun v w => w = 1 - v := by
  induction vs generalizing down with
  | nil => simp
  | cons v _ ih =>
    rw [plays] at h
    split_ifs at h with hturn hrepeat
    · have hne : v ≠ 2 := by cases down <;> simp [hturn, lastValue]
      rw [List.filter_cons_of_pos (by simpa using hne), isChain_cons_cons, hturn]
      exact ⟨by cases down <;> rfl, ih h⟩
    · rw [filter_cons_of_neg (by simp [hrepeat.2])]
      exact ih h

theorem getLast_of_plays (h : plays down vs = some down') :
    (lastValue down :: vs.filter (· ≠ 2)).getLast? = some (lastValue down') := by
  induction vs generalizing down with
  | nil =>
    obtain rfl : down = down' := some.inj h
    rfl
  | cons v _ ih =>
    rw [plays] at h
    split_ifs at h with hturn hrepeat
    · have hne : v ≠ 2 := by cases down <;> simp [hturn, lastValue]
      rw [List.filter_cons_of_pos (by simpa using hne), hturn]
      exact ih h
    · rw [List.filter_cons_of_neg (by simp [hrepeat.2])]
      exact ih h

theorem getLast_of_plays_repeat {ws : List Int} (h : plays down (vs ++ 2 :: ws) = some down') :
    (lastValue down :: vs.filter (· ≠ 2)).getLast? = some 1 := by
  rw [plays_append] at h
  obtain ⟨mid, hmid, hrest⟩ := bind_eq_some_iff.mp h
  have hdown : mid = true := by
    cases mid with
    | true => rfl
    | false => simp [plays, lastValue] at hrest
  rw [getLast_of_plays hmid, hdown]
  rfl

theorem filterMap_keyEvent_ne {code : Code} (hne : c ≠ code) (value : Int)
    (rest : List InputEvent) :
    (keyEvent code value :: synReport :: rest).filterMap (keyValue c) =
      rest.filterMap (keyValue c) := by
  have hother : keyValue c (keyEvent code value) = none :=
    if_neg (by simpa [keyEvent_key] using Ne.symm hne)
  rw [filterMap_cons, hother]
  rfl

theorem filterMap_packetEventsOf_ne (h : packet.Built)
    (hkey : ∀ value, packet.key ≠ some (c, value)) (d : ForwardingDevice) :
    (packetEventsOf d packet).filterMap (keyValue c) = [] := by
  refine filterMap_eq_nil_iff.mpr fun e he => if_neg fun hc => ?_
  rcases mem_packetEventsOf he with hmem | hnone
  · exact hkey e.value (key_of_mem_events h hmem hc)
  · exact absurd (hnone.symm.trans hc) nofun

theorem ForwardPacket.Built.value_mem (h : packet.Built) {value : Int}
    (hkey : packet.key = some (c, value)) : value = 0 ∨ value = 1 ∨ value = 2 := by
  obtain ⟨e, hlast, hmap⟩ := bind_eq_some_iff.mp hkey
  obtain ⟨_, hcode, heq⟩ := map_eq_some_iff.mp hmap
  obtain ⟨rfl, rfl⟩ := Prod.mk.inj heq
  have htype : e.type = .key := by
    by_contra hne
    exact absurd (hcode.symm.trans (key_eq_none_of_type_ne hne)) nofun
  simpa using (h.last e hlast htype).2

namespace Forward

variable {f f' f'' f₀ : Forward} {code : Code} {i : Nat} {view : View} {packet : ForwardPacket}
  {pending pending' : KeyBits} {events : List InputEvent}

theorem sinkWants_mono (hsynth : f'.sink.synth = f.sink.synth)
    (hdevices : ∀ i, (f.device i).holdsOnSink c = true → (f'.device i).holdsOnSink c = true)
    (h : f.sinkWants c = true) : f'.sinkWants c = true := by
  have hholds : ∀ g : Forward, g.sinkWants c = true ↔
      c ∈ g.sink.synth ∨ ∃ i, (g.device i).holdsOnSink c = true := fun g => by
    simp [sinkWants_iff, holdsOnSink, and_assoc]
  rw [hholds] at h ⊢
  rw [hsynth]
  exact h.imp_right (Exists.imp hdevices)

theorem sinkWants_congr_devices (hsynth : f'.sink.synth = f.sink.synth)
    (hdevices : ∀ i, (f'.device i).holdsOnSink c = (f.device i).holdsOnSink c) :
    f'.sinkWants c = f.sinkWants c :=
  Bool.eq_iff_iff.mpr ⟨sinkWants_mono hsynth.symm fun i hi => hdevices i ▸ hi,
    sinkWants_mono hsynth fun i hi => (hdevices i).symm ▸ hi⟩

theorem Still.sinkWants (h : Still f f') (hsynth : f'.sink.synth = f.sink.synth) (c : Code) :
    f'.sinkWants c = f.sinkWants c :=
  sinkWants_congr_devices hsynth fun i => by
    change (f'.device i).core.holdsOnSink c = _
    rw [h.core i]
    rfl

theorem sinkWants_modifyDevice {g : ForwardingDevice → ForwardingDevice}
    (h : (g (f.device i)).holdsOnSink c = (f.device i).holdsOnSink c) :
    (f.modifyDevice i g).sinkWants c = f.sinkWants c := by
  refine sinkWants_congr_devices rfl fun j => ?_
  rw [device_modifyDevice]
  split
  · rename_i hj
    rw [hj.1, h]
  · rfl

def Played (f f' : Forward) : Prop :=
  ∃ ws, f'.uinput.written = f.uinput.written ++ ws ∧ ∀ c,
    plays (decide (c ∈ f.sink.down)) (keyValues c ws) = some (decide (c ∈ f'.sink.down))

theorem Played.of_eq (huinput : f'.uinput = f.uinput) (hdown : f'.sink.down = f.sink.down) :
    Played f f' :=
  ⟨[], by rw [huinput, append_nil], fun c => by rw [hdown]; rfl⟩

theorem Played.trans (h : Played f f') (h' : Played f' f'') : Played f f'' := by
  obtain ⟨ws, hwritten, hplays⟩ := h
  obtain ⟨ws', hwritten', hplays'⟩ := h'
  refine ⟨ws ++ ws', by rw [hwritten', hwritten, append_assoc], fun c => ?_⟩
  rw [keyValues_append, plays_append, hplays c]
  exact hplays' c

theorem Live.played_writeSink (hf : Live f)
    (h : ∀ c, plays (decide (c ∈ f.sink.down)) (events.filterMap (keyValue c)) =
      some (decide (c ∈ noteWrittenKeys f.sink.down events true))) :
    Played f (f.writeSink events).2 := by
  rw [hf.writeSink_eq]
  exact ⟨[⟨.sink, events⟩], rfl, fun c => by rw [keyValues_sink, h c]⟩

theorem Live.played_writeSinkKey (hf : Live f) {value : Int}
    (hvalue : value = if code ∈ f.sink.down then 0 else 1) :
    Played f (f.writeSinkKey code value).2 := by
  have hne : value ≠ 2 := by
    rw [hvalue]
    split <;> decide
  refine hf.played_writeSink fun c => ?_
  rw [noteWrittenKeys_key _ _ hne, noteWrittenKeys_nil]
  by_cases hc : c = code
  · subst hc
    rw [filterMap_keyEvent]
    by_cases hdown : c ∈ f.sink.down <;> simp [plays, lastValue, mem_setKeyBit, hvalue]
  · rw [filterMap_keyEvent_ne hc]
    simp [plays, mem_setKeyBit, hc]

theorem Live.played_tap (hf : Live f) (code : Code) : Played f (f.tap code).2 := by
  refine hf.played_writeSink fun c => ?_
  rw [noteWrittenKeys_key _ _ (by split <;> decide), noteWrittenKeys_key _ _ (by split <;> decide),
    noteWrittenKeys_nil]
  by_cases hc : c = code
  · subst hc
    rw [filterMap_keyEvent, filterMap_keyEvent]
    by_cases hdown : c ∈ f.sink.down <;> simp [plays, lastValue, mem_setKeyBit]
  · rw [filterMap_keyEvent_ne hc, filterMap_keyEvent_ne hc]
    simp [plays, mem_setKeyBit, hc]

theorem played_outputWrite (hf : Live f) {device : OutputDevice}
    (h : device = .sink → ∀ e ∈ events, e.key = none) :
    Played f (f.outputWrite device events).2 := by
  rw [hf.outputWrite_eq]
  refine ⟨[⟨device, events⟩], rfl, fun c => ?_⟩
  have hnone : keyValues c [⟨device, events⟩] = [] := by
    by_cases hdevice : device = .sink
    · rw [hdevice, keyValues_sink, filterMap_of_key_eq_none (h hdevice)]
    · simp [keyValues, hdevice]
  rw [hnone]
  rfl

/-- The sink agrees with its holders but for the pending keys, and every key was played properly
since `f₀`. -/
structure Balanced (f₀ : Forward) (pending : KeyBits) (f : Forward) : Prop where
  live : Live f
  played : Played f₀ f
  agrees : ∀ c ∉ pending, (c ∈ f.sink.down ↔ f.sinkWants c = true)

namespace Balanced

variable {events : List InputEvent} {value : Int}

section

variable (h : Balanced f₀ pending f)

include h

theorem mono (hsub : pending ⊆ pending') : Balanced f₀ pending' f :=
  ⟨h.live, h.played, fun c hc => h.agrees c fun hmem => hc (hsub hmem)⟩

theorem of_sink (huinput : f'.uinput = f.uinput)
    (hsink : f'.sink = f.sink) (hsub : pending ⊆ pending')
    (hwants : ∀ c ∉ pending', f'.sinkWants c = f.sinkWants c) : Balanced f₀ pending' f' where
  live := ⟨fun n => by rw [huinput]; exact h.live.outcome n, by rw [hsink]; exact h.live.attached,
    by rw [hsink]; exact h.live.sinkFailed⟩
  played := h.played.trans (.of_eq huinput (by rw [hsink]))
  agrees := fun c hc => by
    rw [hsink, hwants c hc]
    exact h.agrees c fun hmem => hc (hsub hmem)

theorem modifyDevice {g : ForwardingDevice → ForwardingDevice}
    (hg : ∀ c ∉ pending, (g (f.device i)).holdsOnSink c = (f.device i).holdsOnSink c) :
    Balanced f₀ pending (f.modifyDevice i g) :=
  h.of_sink rfl rfl subset_rfl fun c hc => sinkWants_modifyDevice (hg c hc)

theorem outputWrite {device : OutputDevice}
    (hevents : device = .sink → ∀ e ∈ events, e.key = none) :
    Balanced f₀ pending (f.outputWrite device events).2 where
  live := by
    exact ⟨h.live.outcome, h.live.attached, h.live.sinkFailed⟩
  played := h.played.trans (played_outputWrite h.live hevents)
  agrees := h.agrees

theorem writeClone (i : Nat) (events : List InputEvent) :
    Balanced f₀ pending (f.writeClone i events).2 := by
  have hwrite : Balanced f₀ pending (f.outputWrite (.clone i) events).2 := h.outputWrite nofun
  unfold Forward.writeClone
  split
  · exact h
  · rw [h.live.outputWrite_eq] at hwrite ⊢
    exact hwrite

theorem writeSink (hevents : ∀ e ∈ events, e.key = none) :
    Balanced f₀ pending (f.writeSink events).2 := by
  have hkeep : noteWrittenKeys f.sink.down events true = f.sink.down := by
    ext c
    exact mem_noteWrittenKeys fun e he hc => absurd ((hevents e he).symm.trans hc) nofun
  refine ⟨h.live.writeSink _, h.played.trans (h.live.played_writeSink fun c => ?_), ?_⟩
  · rw [hkeep, filterMap_of_key_eq_none hevents]
    rfl
  · rw [h.live.writeSink_eq, hkeep]
    exact h.agrees

theorem tap (code : Code) : Balanced f₀ pending (f.tap code).2 where
  live := h.live.writeSink _
  played := h.played.trans (h.live.played_tap code)
  agrees := fun c hc => by
    have hsynth : (f.tap code).2.sink.synth = f.sink.synth := by
      unfold Forward.tap
      dsimp only
      rw [h.live.writeSink_eq]
    rw [h.live.down_tap, (still_tap f code).sinkWants hsynth]
    exact h.agrees c hc

end

theorem reconcile (h : Balanced f₀ (insert code pending) f) :
    Balanced f₀ pending (f.reconcile code).2 := by
  obtain ⟨ws, -, hwritten, hsink, -, hws⟩ := reconcile_spec h.live code
  refine ⟨live_reconcile h.live code, h.played.trans ⟨ws, hwritten, fun c => ?_⟩, fun c hc => ?_⟩
  · rw [hsink]
    by_cases hcode : c = code
    · subst hcode
      obtain ⟨rfl, hsame⟩ | ⟨rfl, hdiffers⟩ := hws
      · simp [keyValues, plays, mem_setKeyBit, hsame]
      · rw [keyValues_sink, filterMap_keyEvent]
        by_cases hdown : c ∈ f.sink.down <;> simp [hdown] at hdiffers <;>
          simp [plays, lastValue, mem_setKeyBit, hdown, hdiffers]
    · obtain ⟨rfl, -⟩ | ⟨rfl, -⟩ := hws
      · simp [keyValues, plays, mem_setKeyBit, hcode]
      · rw [keyValues_sink, filterMap_keyEvent_ne hcode]
        simp [plays, mem_setKeyBit, hcode]
  · rw [(still_reconcile f code).sinkWants (by rw [hsink]), hsink]
    rw [mem_setKeyBit]
    split
    · rename_i hcode
      rw [hcode]
    · rename_i hcode
      exact h.agrees c (by simp [hcode, hc])

section

variable (h : Balanced f₀ pending f)

include h

theorem synth (hsub : pending ⊆ pending') {synth : KeyBits}
    (hsynth : ∀ c ∉ pending', (c ∈ synth ↔ c ∈ f.sink.synth)) :
    Balanced f₀ pending' { f with sink := { f.sink with synth := synth } } where
  live := ⟨h.live.outcome, h.live.attached, h.live.sinkFailed⟩
  played := h.played.trans (.of_eq rfl rfl)
  agrees := fun c hc => by
    have hwants : ({ f with sink := { f.sink with synth := synth } } : Forward).sinkWants c =
        f.sinkWants c := sinkWants_congr rfl (hsynth c hc)
    rw [hwants]
    exact h.agrees c fun hmem => hc (hsub hmem)

theorem sinkKey (code : Code) (held : Bool) : Balanced f₀ pending (f.sinkKey code held).2 := by
  refine reconcile (h.synth (subset_insert code pending) fun c hc => ?_)
  rw [mem_setKeyBit, if_neg fun heq : c = code => hc (heq ▸ mem_insert_self c pending)]

theorem sinkRepress (code : Code) : Balanced f₀ pending (f.sinkRepress code).2 := by
  unfold Forward.sinkRepress
  split
  · exact h.tap code
  · exact h

theorem foldl_clearByte (bytes : List Nat) : Balanced f₀ pending (bytes.foldl clearByte f) := by
  refine foldlRecOn (motive := Balanced f₀ pending) bytes _ h fun f hf byte _ => ?_
  rw [clearByte_eq]
  generalize setBits _ = codes
  exact foldlRecOn (motive := Balanced f₀ pending) codes _ hf fun f hf code _ =>
    hf.sinkKey code false

theorem sinkClearSynth : Balanced f₀ pending f.sinkClearSynth :=
  h.foldl_clearByte (range 96)

theorem setOutput (i : Nat) (view : View) (code : Code)
    (held : Bool) : Balanced f₀ pending (f.setOutput i view code held) := by
  unfold Forward.setOutput
  dsimp only
  split
  · exact h.modifyDevice fun c _ => rfl
  have hset : Balanced f₀ (insert code pending) (f.modifyDevice i fun d =>
      d.mapKeys .applied fun keys => { keys with output := setKeyBit keys.output code held }) :=
    (h.mono (subset_insert code pending)).modifyDevice fun c hc => by
      have hne : c ≠ code := fun heq => hc (heq ▸ mem_insert_self c pending)
      simp [holdsOnSink, mapKeys, ForwardingDevice.live, onSink, mem_setKeyBit, hne]
  split
  · exact hset.reconcile
  rename_i hoff
  have hdevice : (f.device i).onSink code = false := by
    rw [device_modifyDevice] at hoff
    split at hoff <;> exact Bool.eq_false_iff.mpr hoff
  have hkept : Balanced f₀ pending (f.modifyDevice i fun d => d.mapKeys .applied fun keys =>
      { keys with output := setKeyBit keys.output code held }) :=
    h.modifyDevice fun c hc => by
      by_cases hcode : c = code
      · subst hcode
        have hmapped : ((f.device i).mapKeys .applied fun keys =>
            { keys with output := setKeyBit keys.output c held }).onSink c = false := hdevice
        rw [holdsOnSink, holdsOnSink, hdevice, hmapped]
        simp
      · simp [holdsOnSink, mapKeys, ForwardingDevice.live, onSink, mem_setKeyBit, hcode]
  split
  · exact hkept.writeClone i _
  · exact hkept

end

theorem rule (f₀ : Forward) (pending : KeyBits) : ForwardRule (Balanced f₀ pending) where
  inert := fun h huinput hsink hholds =>
    h.of_sink huinput hsink subset_rfl fun c _ =>
      sinkWants_congr_devices (by rw [hsink]) fun i => hholds i c
  setOutput := setOutput
  writeClone := writeClone
  endReport := fun h => h.writeSink (by simp [InputEvent.key, synReport])

theorem writeSinkKey (h : Balanced f₀ (insert code pending) f)
    (hvalue : value = if code ∈ f.sink.down then 0 else 1) :
    Balanced f₀ (insert code pending) (f.writeSinkKey code value).2 where
  live := h.live.writeSink _
  played := h.played.trans (h.live.played_writeSinkKey hvalue)
  agrees := fun c hc => by
    have hne : c ≠ code := fun heq => hc (heq ▸ mem_insert_self c pending)
    have hvalue' : value ≠ 2 := by
      rw [hvalue]
      split <;> decide
    rw [Forward.writeSinkKey, h.live.writeSink_eq]
    rw [noteWrittenKeys_key _ _ hvalue', noteWrittenKeys_nil, mem_setKeyBit, if_neg hne]
    exact h.agrees c hc

theorem writeEvents (h : Balanced f₀ (insert code pending) f) (hbuilt : packet.Built)
    (hkey : packet.key = some (code, value))
    (hplays : plays (decide (code ∈ f.sink.down)) [value] = some (f.sinkWants code))
    (d : ForwardingDevice) : Balanced f₀ pending (f.writeSink (packetEventsOf d packet)).2 := by
  have hnote := noteWrittenKeys_packetEventsOf hbuilt d f.sink.down
  have hcode : f.sinkWants code = decide (code ∈ packetKeys packet f.sink.down) := by
    by_cases hdown : code ∈ f.sink.down
    · by_cases hzero : value = 0
      · simp [plays, hdown, hzero] at hplays
        simp [packetKeys, hkey, hzero, mem_setKeyBit, ← hplays]
      by_cases htwo : value = 2
      · simp [plays, lastValue, hdown, htwo] at hplays
        simp [packetKeys, hkey, htwo, hdown, ← hplays]
      · simp [plays, lastValue, hdown, hzero, htwo] at hplays
    · by_cases hone : value = 1
      · simp [plays, hdown, hone] at hplays
        simp [packetKeys, hkey, hone, mem_setKeyBit, ← hplays]
      · simp [plays, lastValue, hdown, hone] at hplays
  have hother : ∀ c, c ≠ code → (c ∈ packetKeys packet f.sink.down ↔ c ∈ f.sink.down) := by
    intro c hne
    rw [packetKeys, hkey]
    dsimp only
    split
    · rfl
    · rw [mem_setKeyBit, if_neg hne]
  refine ⟨h.live.writeSink _, h.played.trans (h.live.played_writeSink fun c => ?_), fun c hc => ?_⟩
  · rw [hnote]
    by_cases hne : c = code
    · subst hne
      rw [filterMap_packetEventsOf hbuilt hkey, hplays, hcode]
    · rw [filterMap_packetEventsOf_ne hbuilt fun v heq => hne (by simp_all)]
      simp [plays, hother c hne]
  · rw [(still_writeSink f _).sinkWants (by rw [h.live.writeSink_eq]), h.live.writeSink_eq]
    rw [hnote]
    by_cases hne : c = code
    · rw [hne, hcode, decide_eq_true_iff]
    · rw [hother c hne]
      exact h.agrees c (by simp [hne, hc])

theorem holdsOnSink_packetOutput (hkey : packet.key = some (code, value)) (d : ForwardingDevice)
    (c : Code) :
    (d.mapKeys .applied (packetOutput packet)).holdsOnSink c =
      if c = code ∧ value ≠ 2 then d.live && d.onSink c && decide (value ≠ 0)
      else d.holdsOnSink c := by
  by_cases htwo : value = 2
  · simp [mapKeys, packetOutput, hkey, htwo]
  · by_cases hc : c = code <;>
      simp [holdsOnSink, mapKeys, packetOutput, hkey, htwo, hc,
        ForwardingDevice.live, onSink, mem_setKeyBit]

structure Transits (code : Code) (value : Int) (f f' : Forward) : Prop where
  sink : f'.sink = f.sink
  press : value = 1 → f.sinkWants code = true → f'.sinkWants code = true
  release : value = 0 → f'.sinkWants code = true → f.sinkWants code = true
  held : value = 2 → f'.sinkWants code = f.sinkWants code

theorem transits_packetOutput (hkey : packet.key = some (code, value)) : Transits code value f
      (f.modifyDevice i fun d => d.mapKeys .applied (packetOutput packet)) where
  sink := rfl
  press := fun hone h => by
    refine sinkWants_mono ?_ (fun j hj => ?_) h
    · rfl
    rw [device_modifyDevice]
    split
    · rw [holdsOnSink_packetOutput hkey, hone]
      simp only [holdsOnSink, Bool.and_eq_true] at hj
      simp [hj.1.1, hj.1.2]
    · exact hj
  release := fun hzero h => by
    refine sinkWants_mono ?_ (fun j hj => ?_) h
    · rfl
    rw [device_modifyDevice] at hj
    split at hj
    · rw [holdsOnSink_packetOutput hkey, hzero] at hj
      simp at hj
    · exact hj
  held := fun htwo =>
    sinkWants_modifyDevice (by rw [holdsOnSink_packetOutput hkey, if_neg (by simp [htwo])])

theorem writePressAgain (h : Balanced f₀ (insert code pending) f) (hbuilt : packet.Built)
    (hkey : packet.key = some (code, 1)) (hdown : code ∈ f.sink.down)
    (hwants : f.sinkWants code = true) (d : ForwardingDevice) :
    Balanced f₀ pending ((f.writeSinkKey code 0).2.writeSink (packetEventsOf d packet)).2 := by
  have hfirst : Balanced f₀ (insert code pending) (f.writeSinkKey code 0).2 :=
    h.writeSinkKey (if_pos hdown).symm
  have hup : code ∉ (f.writeSinkKey code 0).2.sink.down := by
    rw [Forward.writeSinkKey, h.live.writeSink_eq]
    rw [noteWrittenKeys_key _ _ (by decide), noteWrittenKeys_nil, mem_setKeyBit, if_pos rfl]
    decide
  have hstill : (f.writeSinkKey code 0).2.sinkWants code = true := by
    rw [Forward.writeSinkKey, (still_writeSink f _).sinkWants (by rw [h.live.writeSink_eq])]
    exact hwants
  refine hfirst.writeEvents hbuilt hkey ?_ d
  rw [hstill, decide_eq_false hup]
  rfl

theorem writeSinkReport_of_none (h : Balanced f₀ pending f) (hbuilt : packet.Built)
    (hkey : packet.key = none) (i : Nat) (d : ForwardingDevice) :
    Balanced f₀ pending (f.writeSinkReport i packet (packetEventsOf d packet)).2 := by
  have hset : Balanced f₀ pending (f.modifyDevice i fun d =>
      d.mapKeys .applied (packetOutput packet)) := h.modifyDevice fun c _ => by
    simp [mapKeys, packetOutput, hkey]
  have hevents : ∀ e ∈ packetEventsOf d packet, e.key = none := fun e he => by
    rcases mem_packetEventsOf he with hmem | hnone
    · by_contra hsome
      obtain ⟨c, hc⟩ := ne_none_iff_exists'.mp hsome
      cases (key_of_mem_events hbuilt hmem hc).symm.trans hkey
    · exact hnone
  unfold Forward.writeSinkReport
  simp only [hkey, sinkUnchanged]
  exact (hset.writeSink hevents).modifyDevice fun c _ => rfl

theorem writeSinkReport (h : Balanced f₀ ∅ f) (hbuilt : packet.Built) (i : Nat)
    (d : ForwardingDevice) :
    Balanced f₀ ∅ (f.writeSinkReport i packet (packetEventsOf d packet)).2 := by
  cases hkey : packet.key with
  | none => exact h.writeSinkReport_of_none hbuilt hkey i d
  | some pair =>
    obtain ⟨code, value⟩ := pair
    have hvalue := hbuilt.value_mem hkey
    have hdown := h.agrees code (notMem_empty code)
    have hmoved := transits_packetOutput (f := f) (i := i) hkey
    have hset : Balanced f₀ (insert code ∅) (f.modifyDevice i fun d =>
        d.mapKeys .applied (packetOutput packet)) :=
      (h.mono (empty_subset _)).modifyDevice fun c hc => by
        have hne : c ≠ code := fun heq => hc (heq ▸ mem_insert_self c ∅)
        rw [holdsOnSink_packetOutput hkey, if_neg fun hmoved => hne hmoved.1]
    unfold Forward.writeSinkReport
    dsimp only
    rw [hkey, any_some]
    generalize f.modifyDevice i _ = f₁
      at hset hmoved ⊢
    obtain ⟨hsink, hpress, hrelease, hheld⟩ := hmoved
    cases hneeds : value == 1 && f.needsRepress code with
    | true =>
      obtain ⟨hone, hagain⟩ := Bool.and_eq_true_iff.mp hneeds
      obtain rfl : value = 1 := beq_iff_eq.mp hone
      have hcode : code ∈ f.sink.down := by
        simp only [needsRepress, Bool.and_eq_true, decide_eq_true_eq] at hagain
        exact hagain.2
      have hok : (f₁.writeSinkKey code 0).1 = true := by
        rw [Forward.writeSinkKey, hset.live.writeSink_eq]
      simp only [if_true, writeRepress, hkey, hok]
      exact (hset.writePressAgain hbuilt hkey (hsink ▸ hcode) (hpress rfl (hdown.mp hcode))
        d).modifyDevice fun c _ => rfl
    | false =>
      simp only [Bool.not_false, Bool.true_and, Bool.false_eq_true]
      split
      · rename_i hsame
        refine ⟨hset.live, hset.played, fun c _ => ?_⟩
        by_cases hc : c = code
        · subst hc
          by_cases htwo : value = 2
          · rw [hheld htwo, hsink]
            exact hdown
          · simp only [sinkUnchanged, hkey, any_some, if_neg htwo, beq_iff_eq] at hsame
            rw [hsame, decide_eq_true_iff]
        · exact hset.agrees c (by simp [hc])
      · -- The sink differs from its holders, so the transition is the one it lacks.
        rename_i hchanged
        refine (hset.writeEvents hbuilt hkey ?_ d).modifyDevice fun c _ => rfl
        simp only [sinkUnchanged] at hchanged
        rcases hvalue with rfl | rfl | rfl <;> cases hwants : f₁.sinkWants code <;>
          by_cases hcode : code ∈ f.sink.down <;> simp_all [plays, lastValue]

theorem writeCloneReport (h : Balanced f₀ ∅ f)
    (hkeys : ∀ e ∈ events, ∀ c, e.key = some c → (f.device i).onSink c = false) :
    Balanced f₀ ∅ (f.writeCloneReport i packet events).2 := by
  have hwrite := h.writeClone i events
  have hcore := (still_writeClone f i events).core i
  unfold Forward.writeCloneReport
  generalize f.writeClone i events = r at hwrite hcore ⊢
  refine hwrite.modifyDevice fun c _ => ?_
  have honSink : (r.2.device i).onSink c = (f.device i).onSink c := by
    change (r.2.device i).core.onSink c = _
    rw [hcore]
    rfl
  cases hon : (f.device i).onSink c with
  | false =>
    have hsame : ∀ d : ForwardingDevice, d.onSink c = false → d.holdsOnSink c = false :=
      fun d hd => by simp [holdsOnSink, hd]
    rw [hsame _ (honSink.trans hon)]
    exact hsame _ (honSink.trans hon)
  | true =>
    have hnote : c ∈ noteWrittenKeys ((r.2.device i).views .applied).output events r.1 ↔
        c ∈ ((r.2.device i).views .applied).output :=
      mem_noteWrittenKeys fun e he hc => by cases (hkeys e he c hc).symm.trans hon
    simp [holdsOnSink, mapKeys, ForwardingDevice.live, onSink, hnote]

theorem forwardWrite (h : Balanced f₀ ∅ f) (hbuilt : packet.Built)
    (hclone : packet.clone = true → ∀ i, f.findDevice packet.target .applied = some i →
      ∀ pair ∈ packet.key, (f.device i).onSink pair.1 = false) :
    Balanced f₀ ∅ (f.forwardWrite packet).2 := by
  unfold Forward.forwardWrite
  split
  · exact h
  split
  · exact h
  rename_i i hfind
  dsimp only
  split
  · exact h
  split
  · split
    · split
      · exact h
      · exact (h.mono (empty_subset _)).reconcile
    · exact h
  have hwheel : Balanced f₀ ∅ (f.modifyDevice i fun _ =>
      (expandWheel (f.device i) packet.events).1) := h.modifyDevice fun c _ => by
    change (expandWheel (f.device i) packet.events).1.core.holdsOnSink c = _
    rw [core_expandWheel]
    rfl
  split
  · rename_i hpacket
    refine hwheel.writeCloneReport fun e he c hc => ?_
    rcases mem_packetEventsOf he with hmem | hnone
    · have hoff := hclone hpacket i hfind _ (key_of_mem_events hbuilt hmem hc)
      rw [device_modifyDevice]
      split
      · change (expandWheel (f.device i) packet.events).1.core.onSink c = false
        rw [core_expandWheel]
        exact hoff
      · exact hoff
    · cases hnone.symm.trans hc
  · exact hwheel.writeSinkReport hbuilt i (f.device i)

end Balanced

end Forward

end KeysharpInput.Output
