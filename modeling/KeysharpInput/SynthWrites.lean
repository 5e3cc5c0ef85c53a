import KeysharpInput.PacketEffects

/-!
What synthesis is made of.
Motion, wheels and the ends of reports are events written one after the other, and each write may
be the last. A batch adds keys, button transitions and Unicode entries to that, and an admitted
batch makes single transitions only. A property of the backend that those parts keep is kept by
whole batches, so it has to be looked at for the parts alone.
-/

namespace KeysharpInput.Output.Backend

open List

structure EntryRule (P : Backend → Prop) : Prop where
  sinkKey : ∀ {b : Backend}, P b → ∀ code held, P (b.sinkKey code held).2
  tapSinkKey : ∀ {b : Backend}, P b → ∀ code, P (b.tapSinkKey code).2
  updateGenericKey : ∀ {b : Backend}, P b → ∀ code, P (b.updateGenericKey code).2

namespace EntryRule

variable {P : Backend → Prop} {b : Backend}

theorem tapKeys (h : EntryRule P) (hb : P b) (codes : List Code) : P (b.tapKeys codes).2 := by
  induction codes generalizing b with
  | nil => exact hb
  | cons code _ ih =>
    have hfirst := h.tapSinkKey hb code
    unfold tapKeys
    dsimp only
    split
    · exact ih hfirst
    · exact hfirst

theorem sendUnicodeInput (h : EntryRule P) (hb : P b) (codepoint : Nat) :
    P (b.sendUnicodeInput codepoint).2 := by
  have hctrl := h.sinkKey hb Keys.leftCtrl true
  have hshift := h.sinkKey hctrl Keys.leftShift true
  have hstart : P b.startUnicodeEntry.2 := by
    unfold startUnicodeEntry
    dsimp only
    split
    · exact hctrl
    split
    · exact hshift
    · exact h.tapSinkKey hshift Keys.u
  have hentry := h.updateGenericKey (h.updateGenericKey hstart Keys.leftShift) Keys.leftCtrl
  unfold Backend.sendUnicodeInput
  dsimp only
  split
  · exact hb
  split
  · exact h.tapKeys hentry _
  · exact hentry

end EntryRule

structure OutputRule (P : Backend → Prop) : Prop where
  emit : ∀ {b : Backend}, P b → ∀ (device : OutputDevice) {event : InputEvent},
    (device = .sink → event.key = none) → P (b.emitEventTo device event).2
  sinkKey : ∀ {b : Backend}, P b → ∀ code held, P (b.sinkKey code held).2
  tapSinkKey : ∀ {b : Backend}, P b → ∀ code, P (b.tapSinkKey code).2
  flags : ∀ {b : Backend}, P b → ∀ flags, P { b with buttonHeldOnAbs := flags }

namespace OutputRule

variable {P : Backend → Prop} {b : Backend}

theorem emitEvents (h : OutputRule P) (hb : P b) (events : List InputEvent) :
    P (b.emitEvents .absolute events).2 := by
  induction events generalizing b with
  | nil => exact hb
  | cons event _ ih =>
    have hfirst : P (b.emitEventTo .absolute event).2 := h.emit hb .absolute nofun
    unfold emitEvents
    dsimp only
    split
    · exact ih hfirst
    · exact hfirst

theorem updateGenericKey (h : OutputRule P) (hb : P b) (code : Code) :
    P (b.updateGenericKey code).2 := by
  unfold Backend.updateGenericKey
  dsimp only
  split
  · exact h.sinkKey hb code _
  split
  · exact hb
  split
  · exact h.flags hb _
  · exact h.emitEvents (h.flags hb _) _

theorem foldl_updateGenericKey (h : OutputRule P) (hb : P b) (codes : List Code) :
    P (codes.foldl (fun b code => (b.updateGenericKey code).2) b) :=
  foldlRecOn (motive := P) codes _ hb fun _ hb code _ => h.updateGenericKey hb code

theorem entries (h : OutputRule P) : EntryRule P := ⟨h.sinkKey, h.tapSinkKey, h.updateGenericKey⟩

end OutputRule

/-- So do key transitions, only releases if `presses` does not hold. -/
structure KeyRule (P : Backend → Prop) (owner : SynthOwner) (presses : Bool) : Prop
    extends OutputRule P where
  applyKey : ∀ {b : Backend}, P b → ∀ (code : Code) {down : Bool} (restore : Bool),
    (presses = false → down = false) → P (b.applyKey .applied code down restore owner).2
  sinkRepress : ∀ {b : Backend}, P b → ∀ code,
    P { b with forward := (b.forward.sinkRepress code).2 }

namespace KeyRule

variable {P : Backend → Prop} {owner : SynthOwner} {presses : Bool} {b : Backend}

theorem sendKeyCode (h : KeyRule P owner presses) (hb : P b) (keyCode : Code) {down : Bool}
    (hup : presses = false → down = false) : P (b.sendKeyCode keyCode down owner).2 := by
  unfold Backend.sendKeyCode
  generalize canonicalButton keyCode = code
  have hrepress : P (if down && !(b.holds .applied).ownerHolds owner code then
      ((b.forward.sinkRepress code).1.isSome, { b with forward := (b.forward.sinkRepress code).2 })
      else (true, b)).2 := by
    split
    · exact h.sinkRepress hb code
    · exact hb
  dsimp only
  generalize (if down && _ then _ else _) = r at hrepress ⊢
  have happly := h.applyKey hrepress code true hup
  split
  · exact h.updateGenericKey happly code
  · exact happly

theorem routeMouseButton (h : KeyRule P owner presses) (hb : P b) (button : Code) {down : Bool}
    (moved active : Bool) (reports : OpenReports) (hup : presses = false → down = false) :
    P (b.routeMouseButton button down moved active reports owner).2.2 := by
  have happly := h.applyKey hb button (!moved) hup
  unfold Backend.routeMouseButton
  dsimp only
  split
  · exact happly
  split
  · exact h.emit (h.flags happly _) _ nofun
  · exact h.updateGenericKey happly button

end KeyRule

def fixed (b : Backend) : Nat × Bool := (b.pendingHighSurrogate, b.uinputAbsFd)

theorem fixed_applyKey (b : Backend) (view : View) (code : Code) (down restore : Bool)
    (owner : SynthOwner) : (b.applyKey view code down restore owner).2.fixed = b.fixed := by
  unfold applyKey
  split
  · split
    split <;> rfl
  split
  · split <;> rfl
  · rfl

theorem fixed_emitEventTo (b : Backend) (device : OutputDevice) (event : InputEvent) :
    (b.emitEventTo device event).2.fixed = b.fixed := by
  unfold emitEventTo
  split <;> rfl

theorem fixed_keyRule (b₀ : Backend) (owner : SynthOwner) :
    KeyRule (·.fixed = b₀.fixed) owner true where
  emit := fun h _ _ _ => (fixed_emitEventTo ..).trans h
  sinkKey := fun h _ _ => h
  tapSinkKey := fun h _ => h
  flags := fun h _ => h
  applyKey := fun h _ _ _ _ => (fixed_applyKey ..).trans h
  sinkRepress := fun h _ => h

structure WriteRule (P : Backend → Prop) : Prop where
  emit : ∀ {b : Backend}, P b → ∀ (device : OutputDevice) {event : InputEvent},
    event.key = none → P (b.emitEventTo device event).2
  wheels : ∀ {b : Backend}, P b → ∀ vertical horizontal : Int, P { b with
    wheelRemainder := vertical, horizontalWheelRemainder := horizontal }

theorem key_wheelEvents (hiRes legacy : Nat) (delta steps : Int) :
    ∀ e ∈ wheelEvents hiRes legacy delta steps, e.key = none := by
  intro e he
  refine ForwardKeys.key_eq_none_of_type_ne ?_
  rcases mem_cons.mp he with rfl | he
  · simp
  · split at he <;> simp at he
    simp [he]

namespace WriteRule

variable {P : Backend → Prop} {b : Backend}

theorem emitEvents (h : WriteRule P) (hb : P b) {device : OutputDevice} {events : List InputEvent}
    (hevents : ∀ e ∈ events, e.key = none) : P (b.emitEvents device events).2 := by
  induction events generalizing b with
  | nil => exact hb
  | cons _ _ ih =>
    rw [forall_mem_cons] at hevents
    have hfirst := h.emit hb device hevents.1
    unfold emitEvents
    dsimp only
    split
    · exact ih hfirst hevents.2
    · exact hfirst

theorem emitMotion (h : WriteRule P) (hb : P b) (input : MouseInput) :
    P (b.emitMotion input).2.2 := by
  unfold Backend.emitMotion
  split
  · exact hb
  split
  · split
    · exact hb
    · exact h.emitEvents hb (by simp [InputEvent.key, synReport])
  refine h.emitEvents hb fun e he => ForwardKeys.key_eq_none_of_type_ne ?_
  rcases mem_append.mp he with he | he
  · split at he <;> simp at he
    simp [he]
  · split at he <;> simp at he
    simp [he]

theorem emitWheels (h : WriteRule P) (hb : P b) (input : MouseInput) :
    P (b.emitWheels input).2.2 := by
  have hwheel : P (if .wheel ∈ input.flags then b.emitWheel (toInt32 input.mouseData)
      else (true, b)).2 := by
    split
    · exact h.emitEvents (h.wheels hb _ _) (key_wheelEvents _ _ _ _)
    · exact hb
  unfold Backend.emitWheels
  dsimp only
  generalize (if .wheel ∈ input.flags then _ else _) = r at *
  split
  · exact hwheel
  split
  · exact h.emitEvents (h.wheels hwheel _ _) (key_wheelEvents _ _ _ _)
  · exact hwheel

theorem closeReports (h : WriteRule P) (hb : P b) (reports : OpenReports) :
    P (b.closeReports reports).2 := by
  have hrel : P (if reports.rel then b.emitEventTo .sink synReport else (true, b)).2 := by
    split
    · exact h.emit hb _ rfl
    · exact hb
  unfold Backend.closeReports
  dsimp only
  generalize (if reports.rel then _ else _) = r at *
  split
  · exact hrel
  split
  · exact h.emit hrel _ rfl
  · exact hrel

end WriteRule

/-- Button transitions keep it as well, only releases if `presses` does not hold. -/
structure MouseRule (P : Backend → Prop) (owner : SynthOwner) (presses : Bool) : Prop
    extends WriteRule P where
  routeMouseButton : ∀ {b : Backend}, P b → ∀ (button : Code) {down : Bool} (moved : Bool)
    {active : Bool} (reports : OpenReports), (active = true → b.uinputAbsFd = true) →
    (presses = false → down = false) →
    P (b.routeMouseButton button down moved active reports owner).2.2

namespace MouseRule

variable {P : Backend → Prop} {owner : SynthOwner} {presses : Bool} {b : Backend}

theorem routeMouseButtons (h : MouseRule P owner presses) (hb : P b) (moved active : Bool)
    (habs : active = true → b.uinputAbsFd = true) (transitions : List (Option Code × Bool))
    (reports : OpenReports) (hup : presses = false → ∀ t ∈ transitions, t.2 = false) :
    P (b.routeMouseButtons moved active owner transitions reports).2.2 := by
  induction transitions generalizing b reports with
  | nil => exact hb
  | cons transition _ ih =>
    obtain ⟨_ | button, down⟩ := transition
    · exact hb
    have hfirst := h.routeMouseButton hb button moved reports habs fun hreleases =>
      hup hreleases _ mem_cons_self
    have hfixed : (b.routeMouseButton button down moved active reports owner).2.2.fixed = b.fixed :=
      (fixed_keyRule b owner).routeMouseButton rfl button moved active reports nofun
    unfold routeMouseButtons
    dsimp only
    split
    · exact ih hfirst (fun hactive => (congrArg Prod.snd hfixed).trans (habs hactive)) _
        fun hreleases t ht => hup hreleases t (mem_cons_of_mem _ ht)
    · exact hfirst

theorem sendMouseInput (h : MouseRule P owner presses) (hb : P b) (input : MouseInput)
    (moved : Bool) (hup : presses = false → ∀ t ∈ buttonTransitions input, t.2 = false) :
    P (b.sendMouseInput input moved owner).2 := by
  have hmotion := h.emitMotion hb input
  unfold Backend.sendMouseInput
  dsimp only
  generalize b.emitMotion input = r at hmotion ⊢
  split
  · exact hmotion
  have hwheels := h.emitWheels hmotion input
  generalize r.2.2.emitWheels input = r' at hwheels ⊢
  split
  · exact hwheels
  have hbuttons := h.routeMouseButtons hwheels moved (moved && r'.2.2.uinputAbsFd)
    (fun hactive => (Bool.and_eq_true_iff.mp hactive).2) (buttonTransitions input)
    { rel := r.2.1 || r'.2.1 } hup
  split
  · exact hbuttons
  · exact h.closeReports hbuttons _

end MouseRule

theorem keyboard_of_playable {input : Input} {played : KeyboardInput}
    (h : playable true input = some (.keyboard played)) : played.down = false := by
  cases input with
  | keyboard =>
    simp only [playable, if_true, keepRelease, Option.ite_none_right_eq_some, Option.some.injEq,
      Input.keyboard.injEq] at h
    obtain ⟨⟨hup, -⟩, rfl⟩ := h
    simp [KeyboardInput.down, hup]
  | mouse =>
    simp only [playable, keepRelease] at h
    split at h <;> simp at h

theorem mouse_of_playable {input : Input} {played : MouseInput}
    (h : playable true input = some (.mouse played)) :
    ∀ t ∈ buttonTransitions played, t.2 = false := by
  cases input with
  | keyboard =>
    simp only [playable, keepRelease] at h
    split at h <;> simp at h
  | mouse =>
    simp only [playable, if_true, keepRelease] at h
    split at h
    · simp only [Option.some.injEq, Input.mouse.injEq] at h
      subst h
      intro t ht
      simp only [buttonTransitions, mem_map, mem_filter] at ht
      obtain ⟨row, ⟨hrow, hflag⟩, rfl⟩ := ht
      have hreleases : ∀ row ∈ buttonTable,
          row.1 ∈ ({.leftUp, .rightUp, .middleUp, .xUp} : Finset MouseFlag) → row.2.2 = false := by
        decide
      exact hreleases row hrow (Finset.mem_inter.mp (of_decide_eq_true hflag)).2
    · simp at h

structure TypeRule (P : Backend → Prop) (owner : SynthOwner) (presses : Bool) : Prop where
  surrogate : ∀ {b : Backend}, P b → ∀ high, P { b with pendingHighSurrogate := high }
  sendUnicodeInput : ∀ {b : Backend}, P b → ∀ codepoint, P (b.sendUnicodeInput codepoint).2
  sendKeyCode : ∀ {b : Backend}, P b → ∀ (keyCode : Code) {down : Bool},
    (presses = false → down = false) → P (b.sendKeyCode keyCode down owner).2

structure PlayRule (P : Backend → Prop) (owner : SynthOwner) (presses : Bool) : Prop
    extends MouseRule P owner presses, TypeRule P owner presses

theorem KeyRule.play {P : Backend → Prop} {owner : SynthOwner} {presses : Bool}
    (h : KeyRule P owner presses)
    (wheels : ∀ {b : Backend}, P b → ∀ vertical horizontal : Int, P { b with
      wheelRemainder := vertical, horizontalWheelRemainder := horizontal })
    (surrogate : ∀ {b : Backend}, P b → ∀ high, P { b with pendingHighSurrogate := high }) :
    PlayRule P owner presses where
  emit := fun hb device _ hkey => h.emit hb device fun _ => hkey
  wheels := wheels
  routeMouseButton := fun hb button _ moved active reports _ hup =>
    h.routeMouseButton hb button moved active reports hup
  surrogate := surrogate
  sendUnicodeInput := h.entries.sendUnicodeInput
  sendKeyCode := h.sendKeyCode

theorem TypeRule.sendKeyboardInput {P : Backend → Prop} {owner : SynthOwner} {presses : Bool}
    {b : Backend} (h : TypeRule P owner presses) (hb : P b) (input : KeyboardInput)
    (hup : presses = false → input.down = false) : P (b.sendKeyboardInput input owner).2 := by
  unfold Backend.sendKeyboardInput
  split
  · split
    · exact hb
    unfold sendUnicodeUtf16Unit
    dsimp only
    split_ifs
    · exact h.surrogate hb _
    · exact h.surrogate hb 0
    · exact h.sendUnicodeInput (h.surrogate hb 0) _
    · exact h.sendUnicodeInput (h.surrogate hb 0) _
  · split
    · exact hb
    · exact h.sendKeyCode hb _ hup

namespace PlayRule

variable {P : Backend → Prop} {owner : SynthOwner} {presses : Bool} {b : Backend}

theorem sendOne (h : PlayRule P owner presses) {dead : Bool} (hdead : presses = false → dead = true)
    {acc : Bool × Bool × Backend} (hb : P acc.2.2) (input : Input) :
    P (sendOne dead owner acc input).2.2 := by
  unfold Backend.sendOne
  dsimp only
  split
  · exact hb
  · rename_i hplayed
    refine h.sendKeyboardInput hb _ fun hreleases => ?_
    rw [hdead hreleases] at hplayed
    exact keyboard_of_playable hplayed
  · rename_i hplayed
    refine h.sendMouseInput hb _ _ fun hreleases => ?_
    rw [hdead hreleases] at hplayed
    exact mouse_of_playable hplayed

theorem sendInput (h : PlayRule P owner presses)
    (hdead : presses = false → b.ownerIsDead owner .applied = true) (hb : P b)
    (inputs : List Input) (flags : SynthFlags) : P (b.sendInput inputs flags owner).2 := by
  have hstart : ∀ b', b' = (if !flags.fragment || flags.batchStart then
      { b with pendingHighSurrogate := 0 } else b) →
      P b' ∧ b'.ownerIsDead owner .applied = b.ownerIsDead owner .applied := by
    rintro b' rfl
    split
    · exact ⟨h.surrogate hb 0, rfl⟩
    · exact ⟨hb, rfl⟩
  unfold Backend.sendInput
  split
  · exact hb
  generalize hb' : (if !flags.fragment || flags.batchStart then
    { b with pendingHighSurrogate := 0 } else b) = b'
  obtain ⟨hP, hsame⟩ := hstart b' hb'.symm
  exact foldlRecOn (motive := fun acc : Bool × Bool × Backend => P acc.2.2) inputs _ hP
    fun _ hacc input _ => h.sendOne (fun hreleases => hsame.trans (hdead hreleases)) hacc input

end PlayRule

structure NoteRule (P : Backend → Prop) (owner : SynthOwner) (presses : Bool) : Prop where
  applyKey : ∀ {b : Backend}, P b → ∀ (code : Code) {down : Bool} (restore : Bool),
    (presses = false → down = false) → P (b.applyKey .enqueued code down restore owner).2

namespace NoteRule

variable {P : Backend → Prop} {owner : SynthOwner} {presses : Bool} {b : Backend}

theorem noteOne (h : NoteRule P owner presses) {dead : Bool} (hdead : presses = false → dead = true)
    {acc : Bool × Backend} (hb : P acc.2) (input : Input) :
    P (noteOne dead owner acc input).2 := by
  unfold Backend.noteOne
  dsimp only
  split
  · exact hb
  · rename_i hplayed
    refine foldlRecOn (motive := P) _ _ hb fun b hb transition ht => ?_
    split
    · refine h.applyKey hb _ _ fun hreleases => ?_
      rw [hdead hreleases] at hplayed
      exact mouse_of_playable hplayed transition ht
    · exact hb
  · rename_i hplayed
    split
    · refine h.applyKey hb _ _ fun hreleases => ?_
      rw [hdead hreleases] at hplayed
      exact keyboard_of_playable hplayed
    · exact hb

theorem noteEnqueuedSynth (h : NoteRule P owner presses)
    (hdead : presses = false → b.ownerIsDead owner .enqueued = true)
    (hb : P (b.sweepDeadTargets .enqueued ∅).1) (inputs : List Input) :
    P (b.noteEnqueuedSynth inputs owner) := by
  have hsame : (b.sweepDeadTargets .enqueued ∅).1.ownerIsDead owner .enqueued =
      b.ownerIsDead owner .enqueued := rfl
  exact foldlRecOn (motive := fun acc : Bool × Backend => P acc.2) inputs _ hb
    fun _ hacc input _ => h.noteOne (fun hreleases => hsame.trans (hdead hreleases)) hacc input

end NoteRule

end KeysharpInput.Output.Backend
