import KeysharpInput.SinkWrites
import KeysharpInput.SynthWrites

/-!
The writes of synthesis to the generic devices.
The rest brings a device in line with the hold table for one key: the sink is told whether synthesis
holds the key, and a button that was pressed on the absolute pointer is released there. While a
function changes the table, the devices lag behind for some keys; these are the pending keys of the
invariant, and each write for a key takes it off.
-/

namespace KeysharpInput.Output

open Forward List

variable {ws : List Write} {w : Write}

def Write.Fits (w : Write) (before : List Write) : Prop :=
  (∀ i, w.device ≠ .clone i) → ∀ e ∈ w.events, ∀ c, e.key = some c → e.value = 0 →
    isKeyboard c = false → c ∈ keysDown w.device ∅ before

def Orderly (written : List Write) : Prop :=
  ∀ (i : Nat) (w : Write), written[i]? = some w → w.Fits (written.take i)

theorem Write.SparesButtons.fits (h : w.SparesButtons) (before : List Write) : w.Fits before := by
  intro hshared e he c hkey _ hc
  obtain ⟨i, hclone⟩ | ⟨-, hkeyboard⟩ := h e he c hkey
  · exact absurd hclone (hshared i)
  · exact absurd (hkeyboard.symm.trans hc) nofun

theorem Orderly.snoc (h : Orderly ws) (hw : w.Fits ws) : Orderly (ws ++ [w]) := by
  intro i w' hi
  by_cases hlt : i < ws.length
  · rw [getElem?_append_left hlt] at hi
    rw [take_append_of_le_length (Nat.le_of_lt hlt)]
    exact h i w' hi
  rw [getElem?_append_right (Nat.le_of_not_lt hlt)] at hi
  obtain ⟨hindex, rfl⟩ : i - ws.length = 0 ∧ w = w' := by
    simpa [getElem?_singleton] using hi
  have hlength : i = ws.length := by omega
  rw [hlength, take_left]
  exact hw

theorem Orderly.append {ws' : List Write} (h : Orderly ws) (hws : ∀ w ∈ ws', w.SparesButtons) :
    Orderly (ws ++ ws') := by
  induction ws' generalizing ws with
  | nil => rwa [append_nil]
  | cons _ _ ih =>
    rw [forall_mem_cons] at hws
    rw [append_cons]
    exact ih (h.snoc (hws.1.fits ws)) hws.2

namespace Backend

variable {b b' b'' : Backend} {pending pending' : KeyBits} {code : Code} {owner : SynthOwner}

structure Idle (b b' : Backend) : Prop where
  forward : Steady b.forward b'.forward
  flags : b'.buttonHeldOnAbs = b.buttonHeldOnAbs
  absFd : b'.uinputAbsFd = b.uinputAbsFd
  failed : b'.synthWriteFailed = b.synthWriteFailed
  holds : b'.holds .applied = b.holds .applied

structure Fit (b : Backend) : Prop where
  live : b.forward.Live
  failed : b.synthWriteFailed = false

namespace Idle

theorem refl (b : Backend) : Idle b b := ⟨.refl _, rfl, rfl, rfl, rfl⟩

theorem trans (h : Idle b b') (h' : Idle b' b'') : Idle b b'' :=
  ⟨h.forward.trans h'.forward, h'.flags.trans h.flags, h'.absFd.trans h.absFd,
    h'.failed.trans h.failed, h'.holds.trans h.holds⟩

theorem fit (h : Idle b b') (hb : Fit b) : Fit b' :=
  ⟨h.forward.live hb.live, h.failed.trans hb.failed⟩

theorem of_forward {f : Forward} (b : Backend) (h : Steady b.forward f) :
    Idle b { b with forward := f } := ⟨h, rfl, rfl, rfl, rfl⟩

theorem setHolds (b : Backend) (h : SynthHolds) : Idle b (b.setHolds .enqueued h) :=
  ⟨.refl _, rfl, rfl, rfl, rfl⟩

end Idle

section

variable (hb : Fit b)

include hb

theorem Fit.emitEventTo_spec (device : OutputDevice) (event : InputEvent) :
    (b.emitEventTo device event).1 = true ∧ Fit (b.emitEventTo device event).2 ∧
      (b.emitEventTo device event).2.forward.uinput.written =
        b.forward.uinput.written ++ [⟨device, [event]⟩] := by
  unfold emitEventTo
  rw [hb.failed, hb.live.outputWrite_eq]
  exact ⟨rfl, ⟨⟨hb.live.outcome, hb.live.attached, hb.live.sinkFailed⟩, rfl⟩, rfl⟩

theorem Fit.emitEvents_spec (device : OutputDevice) (events : List InputEvent) :
    (b.emitEvents device events).1 = true ∧ Fit (b.emitEvents device events).2 ∧
      (b.emitEvents device events).2.forward.uinput.written =
        b.forward.uinput.written ++ events.map fun e => ⟨device, [e]⟩ := by
  induction events generalizing b with
  | nil => exact ⟨rfl, hb, (append_nil _).symm⟩
  | cons event _ ih =>
    obtain ⟨hok, hfit, hwritten⟩ := hb.emitEventTo_spec device event
    obtain ⟨hok', hfit', hwritten'⟩ := ih hfit
    unfold emitEvents
    dsimp only
    rw [hok, if_pos rfl, hwritten', hwritten, append_assoc]
    exact ⟨hok', hfit', rfl⟩

theorem Fit.idle_emitEventTo (device : OutputDevice) {event : InputEvent}
    (h : event.key = none) : Idle b (b.emitEventTo device event).2 := by
  unfold emitEventTo
  rw [hb.failed]
  have hsteady : Steady b.forward (b.forward.outputWrite device [event]).2 :=
    hb.live.steady_outputWrite (by simpa using h)
  rw [hb.live.outputWrite_eq] at hsteady ⊢
  exact ⟨hsteady, rfl, rfl, hb.failed.symm, rfl⟩

theorem Fit.idle_tapSinkKey (hcode : isKeyboard code = true) :
    Idle b (b.tapSinkKey code).2 := .of_forward b (hb.live.steady_tap hcode)

theorem Fit.idle_tapKeys {codes : List Code}
    (h : ∀ code ∈ codes, isKeyboard code = true) : Idle b (b.tapKeys codes).2 := by
  induction codes generalizing b with
  | nil => exact .refl b
  | cons _ _ ih =>
    rw [forall_mem_cons] at h
    have hfirst := hb.idle_tapSinkKey h.1
    unfold tapKeys
    dsimp only
    split
    · exact hfirst.trans (ih (hfirst.fit hb) h.2)
    · exact hfirst

theorem Fit.idle_applyKey (code : Code) (down restore : Bool)
    (owner : SynthOwner) : Idle b (b.applyKey .enqueued code down restore owner).2 := by
  have hrestored : Idle b { b with forward := (if restore then b.forward.restoreKey code .enqueued
      else (false, b.forward)).2 } := by
    split
    · exact .of_forward b (hb.live.rule.shiftKey (.refl _) code .enqueued true)
    · exact .refl b
  unfold applyKey
  split
  · dsimp only
    generalize (if restore then _ else _) = r
      at *
    split
    · exact hrestored
    · exact hrestored.trans (.setHolds _ _)
  split
  · split
    · exact .setHolds b _
    · exact .refl b
  · have hshift := hb.live.rule.shiftKey (.refl _) code .enqueued false
    exact (Idle.of_forward b hshift).trans (.setHolds _ _)

end

theorem idle_noteRule (b₀ : Backend) (owner : SynthOwner) :
    NoteRule (fun b => Fit b ∧ Idle b₀ b) owner true where
  applyKey := fun hb code _ restore _ =>
    have hkey := hb.1.idle_applyKey code _ restore owner
    ⟨hkey.fit hb.1, hb.2.trans hkey⟩

/-- The devices agree with the holds of synthesis, except that the writes for some keys are still
to come. -/
structure Settled (pending : KeyBits) (b : Backend) : Prop extends Fit b where
  counted : (b.holds .applied).Counted
  synth : ∀ c ∉ pending,
    (c ∈ b.forward.sink.synth ↔ c ∈ (b.holds .applied).held ∧ c ∉ b.buttonHeldOnAbs)
  tracked : ∀ c ∈ b.buttonHeldOnAbs, isTrackedButton c = true ∧ b.uinputAbsFd = true
  apart : ∀ c ∈ b.buttonHeldOnAbs, c ∉ b.forward.sink.synth
  held : ∀ c ∈ b.buttonHeldOnAbs, c ∉ pending → c ∈ (b.holds .applied).held
  down : b.forward.sink.synth ⊆ b.forward.sink.down
  button : ∀ c ∈ b.forward.sink.down, isKeyboard c = false → c ∈ b.forward.sink.synth
  absDown : keysDown .absolute ∅ b.forward.uinput.written = b.buttonHeldOnAbs
  sinkDown : keysDown .sink ∅ b.forward.uinput.written = b.forward.sink.down
  orderly : Orderly b.forward.uinput.written

namespace Settled

theorem idle (hb : Settled pending b) (h : Idle b b') : Settled pending b' := by
  obtain ⟨_, hwritten, hdown, hspares⟩ := h.forward.written
  refine ⟨h.fit hb.toFit, ?_, ?_, ?_, ?_, ?_, ?_, ?_, ?_, ?_, ?_⟩
  · rw [h.holds]
    exact hb.counted
  · rw [h.holds, h.flags, h.forward.synth]
    exact hb.synth
  · rw [h.flags, h.absFd]
    exact hb.tracked
  · rw [h.flags, h.forward.synth]
    exact hb.apart
  · rw [h.flags, h.holds]
    exact hb.held
  · rw [h.forward.synth]
    exact fun c hc => h.forward.keeps c hc (hb.down hc)
  · intro c hc hbutton
    rw [hdown, mem_keysDown_sink hspares hbutton] at hc
    rw [h.forward.synth]
    exact hb.button c hc hbutton
  · rw [hwritten, keysDown_append, keysDown_absolute hspares, hb.absDown, h.flags]
  · rw [hwritten, keysDown_append, hb.sinkDown, hdown]
  · rw [hwritten]
    exact hb.orderly.append hspares

theorem forward {f : Forward} (hb : Settled pending b) (h : Steady b.forward f) :
    Settled pending { b with forward := f } := hb.idle (.of_forward b h)

theorem setHolds (hb : Settled pending b) {h : SynthHolds} (hc : h.Counted)
    (hpending : pending ⊆ pending')
    (hsame : ∀ c ∉ pending', c ∈ h.held ↔ c ∈ (b.holds .applied).held) :
    Settled pending' (b.setHolds .applied h) := by
  have hholds : (b.setHolds .applied h).holds .applied = h := rfl
  have hnot : ∀ c ∉ pending', c ∉ pending := fun c hc hmem => hc (hpending hmem)
  refine { hb with counted := ?_, synth := ?_, held := ?_ }
  · exact hc
  · intro c hc
    rw [hholds, hsame c hc]
    exact hb.synth c (hnot c hc)
  · intro c hflag hc
    rw [hholds, hsame c hc]
    exact hb.held c hflag (hnot c hc)

end Settled

theorem not_onSink {c : Code} (hc : isKeyboard c = false) (f : Forward) :
    f.sinkWants c = decide (c ∈ f.sink.synth) := by
  have hnone : (f.devices.any fun d => d.live && d.onSink c && c ∈ (d.views .applied).output) =
      false := by
    rw [any_eq_false]
    intro d _
    simp [ForwardingDevice.onSink, hc]
  rw [sinkWants, hnone, Bool.or_false]

theorem reconcile_spec {f : Forward} (hf : f.Live) (code : Code) :
    ∃ ws, (f.reconcile code).2.uinput.outcome = f.uinput.outcome ∧
      (f.reconcile code).2.uinput.written = f.uinput.written ++ ws ∧
      (f.reconcile code).2.sink =
        { f.sink with down := setKeyBit f.sink.down code (f.sinkWants code) } ∧
      (f.reconcile code).1.isSome = true ∧
      (ws = [] ∧ f.sinkWants code = decide (code ∈ f.sink.down) ∨
        ws = [⟨.sink, [keyEvent code (if f.sinkWants code then 1 else 0), synReport]⟩] ∧
          f.sinkWants code ≠ decide (code ∈ f.sink.down)) := by
  unfold reconcile
  dsimp only
  split
  · rename_i hsame
    refine ⟨[], rfl, by rw [append_nil], ?_, rfl, .inl ⟨rfl, hsame⟩⟩
    have hdown : setKeyBit f.sink.down code (f.sinkWants code) = f.sink.down := by
      ext c
      rw [mem_setKeyBit, hsame]
      split
      · rename_i heq
        rw [heq, decide_eq_true_iff]
      · rfl
    rw [hdown]
  · rename_i hdiffers
    rw [writeSinkKey, hf.writeSink_eq]
    refine ⟨_, rfl, rfl, ?_, rfl, .inr ⟨rfl, hdiffers⟩⟩
    rw [noteWrittenKeys_key _ _ (by split <;> decide)]
    cases f.sinkWants code <;> rfl

section

variable {f : Forward} (hf : f.Live)

include hf

theorem live_reconcile (code : Code) : (f.reconcile code).2.Live := by
  obtain ⟨_, houtcome, -, hsink, -, -⟩ := reconcile_spec hf code
  refine ⟨fun n => (congrFun houtcome n).trans (hf.outcome n), ?_, ?_⟩
  · rw [hsink]
    exact hf.attached
  · rw [hsink]
    exact hf.sinkFailed

theorem absDown_reconcile (code : Code) :
    keysDown .absolute ∅ (f.reconcile code).2.uinput.written =
      keysDown .absolute ∅ f.uinput.written := by
  obtain ⟨ws, -, hwritten, -, -, hws⟩ := reconcile_spec hf code
  rw [hwritten, keysDown_append]
  ext c
  refine mem_keysDown fun w hw hdevice => ?_
  obtain ⟨rfl, -⟩ | ⟨rfl, -⟩ := hws
  · cases hw
  · rw [mem_singleton.mp hw] at hdevice
    cases hdevice

variable (hdown : keysDown .sink ∅ f.uinput.written = f.sink.down)

include hdown

theorem sinkDown_reconcile (code : Code) :
    keysDown .sink ∅ (f.reconcile code).2.uinput.written = (f.reconcile code).2.sink.down := by
  obtain ⟨ws, -, hwritten, hsink, -, hws⟩ := reconcile_spec hf code
  rw [hwritten, keysDown_append, hsink, hdown]
  obtain ⟨rfl, hsame⟩ | ⟨rfl, -⟩ := hws
  · ext c
    rw [mem_setKeyBit, hsame]
    split
    · rename_i heq
      rw [heq, decide_eq_true_iff]
      rfl
    · rfl
  · show noteWrittenKeys _ _ true = _
    rw [noteWrittenKeys_key _ _ (by split <;> decide)]
    cases f.sinkWants code <;> rfl

theorem orderly_reconcile (horderly : Orderly f.uinput.written) (code : Code) :
    Orderly (f.reconcile code).2.uinput.written := by
  obtain ⟨ws, -, hwritten, -, -, hws⟩ := reconcile_spec hf code
  rw [hwritten]
  obtain ⟨rfl, -⟩ | ⟨rfl, hdiffers⟩ := hws
  · rwa [append_nil]
  refine horderly.snoc fun _ e he c hkey hvalue _ => ?_
  have hsame := key_of_mem_keyEvents he hkey
  subst hsame
  -- A release is written only if the sink has the key down.
  have hwants : f.sinkWants c = false := by
    rcases mem_cons.mp he with rfl | he
    · cases hwants : f.sinkWants c with
      | false => rfl
      | true =>
        rw [hwants] at hvalue
        cases hvalue
    · rw [mem_singleton.mp he] at hkey
      cases hkey
  rw [hdown]
  by_contra hnot
  rw [hwants] at hdiffers
  exact hdiffers (decide_eq_false hnot).symm

end

theorem Settled.sinkKey (hb : Settled pending b) (hflag : code ∉ b.buttonHeldOnAbs)
    (held : Bool) (hpending : ∀ c ∉ pending', c ≠ code → c ∉ pending)
    (hcode : code ∉ pending' → (held = true ↔ code ∈ (b.holds .applied).held)) :
    Settled pending' (b.sinkKey code held).2 := by
  unfold Backend.sinkKey Forward.sinkKey
  dsimp only
  set f : Forward := { b.forward with sink := { b.forward.sink with
    synth := setKeyBit b.forward.sink.synth code held } } with hf
  have hlive : f.Live := ⟨hb.live.outcome, hb.live.attached, hb.live.sinkFailed⟩
  have hmem : ∀ c, c ∈ f.sink.synth ↔
      if c = code then held = true else c ∈ b.forward.sink.synth := fun c => mem_setKeyBit
  obtain ⟨-, -, -, hsink, -, -⟩ := reconcile_spec hlive code
  have hsynth : (f.reconcile code).2.sink.synth = f.sink.synth := by rw [hsink]
  have hdown : (f.reconcile code).2.sink.down =
      setKeyBit b.forward.sink.down code (f.sinkWants code) := by rw [hsink]
  refine ⟨⟨live_reconcile hlive code, hb.failed⟩, hb.counted, ?_, hb.tracked, ?_, ?_, ?_, ?_,
    (absDown_reconcile hlive code).trans hb.absDown, sinkDown_reconcile hlive hb.sinkDown code,
    orderly_reconcile hlive hb.sinkDown hb.orderly code⟩
  · intro c hc
    rw [hsynth, hmem]
    split
    · rename_i heq
      subst heq
      rw [hcode hc]
      exact ⟨fun hheld => ⟨hheld, hflag⟩, fun h => h.1⟩
    · rename_i hne
      exact hb.synth c (hpending c hc hne)
  · intro c hc
    rw [hsynth, hmem, if_neg fun heq : c = code => hflag (heq ▸ hc)]
    exact hb.apart c hc
  · intro c hc hnot
    exact hb.held c hc (hpending c hnot fun heq => hflag (heq ▸ hc))
  · intro c hc
    have hc' : c ∈ f.sink.synth := hsynth ▸ hc
    rw [hdown, mem_setKeyBit]
    split
    · rename_i heq
      simp [sinkWants, ← heq, hc']
    · rename_i hne
      rw [hmem, if_neg hne] at hc'
      exact hb.down hc'
  · intro c hc hbutton
    have hc' : c ∈ setKeyBit b.forward.sink.down code (f.sinkWants code) := hdown ▸ hc
    rw [hsynth]
    rw [mem_setKeyBit] at hc'
    split at hc'
    · rename_i heq
      rw [← heq, not_onSink hbutton, decide_eq_true_iff] at hc'
      exact hc'
    · rename_i hne
      rw [hmem, if_neg hne]
      exact hb.button c hc' hbutton

theorem Settled.writeAbsolute (hb : Settled pending b) (down : Bool)
    (htracked : isTrackedButton code = true) (habs : b.uinputAbsFd = true)
    (hsynth : code ∉ b.forward.sink.synth) (hheld : down = true → code ∈ (b.holds .applied).held)
    (hrelease : down = false → code ∈ b.buttonHeldOnAbs ∧ code ∉ (b.holds .applied).held)
    (hpending : ∀ c ∉ pending', c ≠ code → c ∉ pending) :
    Settled pending' { b with
      forward := (b.forward.outputWrite .absolute [keyEvent code (if down then 1 else 0)]).2
      buttonHeldOnAbs := setKeyBit b.buttonHeldOnAbs code down } := by
  have hmem : ∀ c, c ∈ setKeyBit b.buttonHeldOnAbs code down ↔
      if c = code then down = true else c ∈ b.buttonHeldOnAbs := fun c => mem_setKeyBit
  rw [hb.live.outputWrite_eq]
  refine ⟨⟨⟨hb.live.outcome, hb.live.attached, hb.live.sinkFailed⟩, hb.failed⟩, hb.counted,
    ?_, ?_, ?_, ?_, hb.down, hb.button, ?_, ?_, ?_⟩
  · intro c hc
    rw [hmem]
    by_cases heq : c = code
    · subst heq
      rw [if_pos rfl]
      refine iff_of_false hsynth fun hboth => ?_
      exact (hrelease (Bool.eq_false_iff.mpr hboth.2)).2 hboth.1
    · rw [if_neg heq]
      exact hb.synth c (hpending c hc heq)
  · intro c hc
    have hc' := (hmem c).mp hc
    split at hc'
    · rename_i heq
      exact ⟨heq ▸ htracked, habs⟩
    · exact hb.tracked c hc'
  · intro c hc
    have hc' := (hmem c).mp hc
    split at hc'
    · rename_i heq
      exact heq ▸ hsynth
    · exact hb.apart c hc'
  · intro c hc hnot
    have hc' := (hmem c).mp hc
    split at hc'
    · rename_i heq
      exact heq ▸ hheld hc'
    · rename_i hne
      exact hb.held c hc' (hpending c hnot hne)
  · rw [keysDown_append, hb.absDown]
    show noteWrittenKeys b.buttonHeldOnAbs [keyEvent code (if down then 1 else 0)] true = _
    rw [noteWrittenKeys_keyEvent _ _ (by split <;> decide)]
    cases down <;> rfl
  · rw [keysDown_append, hb.sinkDown]
    rfl
  refine hb.orderly.snoc fun _ e he c hkey hvalue _ => ?_
  rw [mem_singleton.mp he] at hkey hvalue
  rw [ForwardKeys.keyEvent_key] at hkey
  cases hkey
  rw [hb.absDown]
  cases down with
  | true => cases hvalue
  | false => exact (hrelease rfl).1

theorem Settled.updateGenericKey (hb : Settled pending b) (code : Code) :
    Settled (pending.erase code) (b.updateGenericKey code).2 := by
  have hpending : ∀ c ∉ pending.erase code, c ≠ code → c ∉ pending := fun c hc hne hmem =>
    hc (Finset.mem_erase.mpr ⟨hne, hmem⟩)
  have hholders : ((b.holds .applied).holders code != 0) = true ↔
      code ∈ (b.holds .applied).held := by
    rw [bne_iff_ne]
    exact (hb.counted.held code).symm
  unfold Backend.updateGenericKey
  dsimp only
  split
  · rename_i hflag
    exact hb.sinkKey hflag _ hpending fun _ => hholders
  rename_i hflag
  rw [not_not] at hflag
  split
  · rename_i hheld
    have hcode := hholders.mp hheld
    refine { hb with synth := fun c hc => ?_, held := fun c hc hnot => ?_ }
    · by_cases hne : c = code
      · subst hne
        exact iff_of_false (hb.apart c hflag) fun hboth => hboth.2 hflag
      · exact hb.synth c (hpending c hc hne)
    · by_cases hne : c = code
      · exact hne ▸ hcode
      · exact hb.held c hc (hpending c hnot hne)
  -- The absolute device keeps the button down for another holder.
  rename_i hheld
  have hcode : code ∉ (b.holds .applied).held := fun h => hheld (hholders.mpr h)
  obtain ⟨htracked, habs⟩ := hb.tracked code hflag
  have hreleased := hb.writeAbsolute false htracked habs
    (hb.apart code hflag) nofun (fun _ => ⟨hflag, hcode⟩) hpending
  have hsync := hreleased.idle
    (hreleased.toFit.idle_emitEventTo .absolute (show synReport.key = none from rfl))
  simp only [habs, Bool.not_true, Bool.false_eq_true, if_false, emitEvents, emitEventTo,
    hb.failed, hb.live.outputWrite_eq, if_true] at hsync ⊢
  split <;> exact hsync

end Backend

end KeysharpInput.Output
