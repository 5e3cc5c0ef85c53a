import KeysharpInput.Forward

/-!
Synthesis on the generic devices.
The backend's state is the forwarding table together with the hold tables and the state of the
generic devices: the keyboard sink, which also carries relative motion, and the absolute pointer.
Admitted batches change the enqueued table, written ones the applied table and the devices.
-/

namespace KeysharpInput.Output

open Keys

structure Backend where
  forward : Forward := {}
  uinputFd : Bool := false
  uinputAbsFd : Bool := false
  synthWriteFailed : Bool := false
  wheelRemainder : Int := 0
  horizontalWheelRemainder : Int := 0
  holds : View → SynthHolds := fun _ => {}
  pendingHighSurrogate : Nat := 0
  /-- The tracked buttons that the absolute device holds. -/
  buttonHeldOnAbs : KeyBits := ∅

structure SynthFlags where
  fragment : Bool := false
  batchStart : Bool := false
  deriving DecidableEq

namespace Backend

variable (b : Backend)

def setHolds (view : View) (holds : SynthHolds) : Backend :=
  { b with holds := Function.update b.holds view holds }

def ownerIsDead (owner : SynthOwner) (view : View) : Bool :=
  owner.target != 0 && b.forward.forwardFailed owner.target view

/-- `apply_key`: one key transition in queue order, for either view. -/
def applyKey (view : View) (code : Code) (down restore : Bool) (owner : SynthOwner) :
    Bool × Backend :=
  if down then
    let (restored, forward) :=
      if restore then b.forward.restoreKey code view else (false, b.forward)
    let b := { b with forward := forward }
    if restored then (true, b)
    else
      let (ok, holds) := (b.holds view).holdKey owner code
      (ok, b.setHolds view holds)
  else if (b.holds view).ownerHolds owner code then
    match (b.holds view).findClaim owner with
    | some i => (true, b.setHolds view ((b.holds view).dropKey i code))
    | none => (true, b)
  else
    let b := { b with forward := b.forward.releaseKey code view }
    (true, b.setHolds view ((b.holds view).releaseCode code))

def emitEventTo (device : OutputDevice) (event : InputEvent) : Bool × Backend :=
  if b.synthWriteFailed then (false, b)
  else
    let (ok, forward) := b.forward.outputWrite device [event]
    (ok, { b with forward := forward, synthWriteFailed := !ok })

def emitEvents (b : Backend) (device : OutputDevice) : List InputEvent → Bool × Backend
  | [] => (true, b)
  | event :: events =>
    let (ok, b) := b.emitEventTo device event
    if ok then emitEvents b device events else (false, b)

def sinkKey (code : Code) (held : Bool) : Option Nat × Backend :=
  let (written, forward) := b.forward.sinkKey code held
  (written, { b with forward := forward })

def tapSinkKey (code : Code) : Option Nat × Backend :=
  let (written, forward) := b.forward.sinkTap code
  (written, { b with forward := forward })

def isTrackedButton (code : Code) : Bool := decide (0x110 ≤ code.val ∧ code.val < 0x118)

/-- `update_generic_key`: a button pressed on the absolute device is released there, every other
hold is the sink's. -/
def updateGenericKey (code : Code) : Option Nat × Backend :=
  let held := (b.holds .applied).holders code != 0
  if code ∉ b.buttonHeldOnAbs then b.sinkKey code held
  else if held then (some 0, b)
  else
    let b := { b with buttonHeldOnAbs := b.buttonHeldOnAbs.erase code }
    if !b.uinputAbsFd then (some 0, b)
    else
      let (ok, b) := b.emitEvents .absolute [keyEvent code 0, synReport]
      (if ok then some 0 else none, b)

def sendKeyCode (keyCode : Code) (down : Bool) (owner : SynthOwner) : Bool × Backend :=
  let code := canonicalButton keyCode
  let (repressed, b) :=
    if down && !(b.holds .applied).ownerHolds owner code then
      let (written, forward) := b.forward.sinkRepress code
      (written.isSome, { b with forward := forward })
    else (true, b)
  let (ok, b) := b.applyKey .applied code down true owner
  if ok then
    let (written, b) := b.updateGenericKey code
    (written.isSome && repressed, b)
  else (false, b)

def hexDigitToKey (digit : Nat) : Code :=
  [11, 2, 3, 4, 5, 6, 7, 8, 9, 10, 30, 48, 46, 32, 18, 33].getD digit 11

/-- The digits of `"%04x"` up to four digits and of `"%x"` above. -/
def hexDigits (codepoint : Nat) : List Nat :=
  let count := if codepoint ≤ 0xffff then 4 else if codepoint < 0x100000 then 5 else 6
  (List.range count).reverse.map fun i => codepoint / 16 ^ i % 16

def tapKeys (b : Backend) : List Code → Bool × Backend
  | [] => (true, b)
  | code :: codes =>
    let (written, b) := b.tapSinkKey code
    if written.isSome then tapKeys b codes else (false, b)

def startUnicodeEntry : Bool × Backend :=
  let (written, b) := b.sinkKey leftCtrl true
  if written.isNone then (false, b)
  else
    let (written, b) := b.sinkKey leftShift true
    if written.isNone then (false, b)
    else
      let (written, b) := b.tapSinkKey u
      (written.isSome, b)

def sendUnicodeInput (codepoint : Nat) : Bool × Backend :=
  if codepoint = 0 ∨ 0x10ffff < codepoint then (false, b)
  else
    let (started, b) := b.startUnicodeEntry
    let (shift, b) := b.updateGenericKey leftShift
    let (ctrl, b) := b.updateGenericKey leftCtrl
    if started && shift.isSome && ctrl.isSome then
      b.tapKeys ((hexDigits codepoint).map hexDigitToKey ++ [space])
    else (false, b)

def sendUnicodeUtf16Unit (unit : Nat) : Bool × Backend :=
  if 0xd800 ≤ unit ∧ unit ≤ 0xdbff then (true, { b with pendingHighSurrogate := unit })
  else if 0xdc00 ≤ unit ∧ unit ≤ 0xdfff then
    let high := b.pendingHighSurrogate
    let b := { b with pendingHighSurrogate := 0 }
    if high < 0xd800 ∨ 0xdbff < high then (false, b)
    else b.sendUnicodeInput (0x10000 + ((high - 0xd800) * 2 ^ 10 + (unit - 0xdc00)))
  else { b with pendingHighSurrogate := 0 }.sendUnicodeInput unit

def sendKeyboardInput (input : KeyboardInput) (owner : SynthOwner) : Bool × Backend :=
  if .unicode ∈ input.flags then
    if .up ∈ input.flags then (true, b) else b.sendUnicodeUtf16Unit input.scan
  else
    match resolveSynthKeyCode input with
    | none => (false, b)
    | some code => b.sendKeyCode code input.down owner

structure OpenReports where
  rel : Bool := false
  abs : Bool := false

def routeMouseButton (button : Code) (down movedAbsolutely absActive : Bool)
    (reports : OpenReports) (owner : SynthOwner) : Bool × OpenReports × Backend :=
  let wasHeld := (b.holds .applied).holders button != 0
  let (ok, b) := b.applyKey .applied button down (!movedAbsolutely) owner
  if !ok then (false, reports, b)
  else if !wasHeld && (b.holds .applied).holders button != 0 && absActive
      && isTrackedButton button then
    let b := { b with buttonHeldOnAbs := insert button b.buttonHeldOnAbs }
    let (ok, b) := b.emitEventTo .absolute (keyEvent button 1)
    (ok, { reports with abs := true }, b)
  else
    let (written, b) := b.updateGenericKey button
    (written.isSome, if written.any (0 < ·) then { reports with rel := false } else reports, b)

def routeMouseButtons (b : Backend) (movedAbsolutely absActive : Bool) (owner : SynthOwner) :
    List (Option Code × Bool) → OpenReports → Bool × OpenReports × Backend
  | [], reports => (true, reports, b)
  | (none, _) :: _, reports => (false, reports, b)
  | (some button, down) :: rest, reports =>
    let (ok, reports, b) := b.routeMouseButton button down movedAbsolutely absActive reports owner
    if ok then routeMouseButtons b movedAbsolutely absActive owner rest reports
    else (false, reports, b)

def emitMotion (input : MouseInput) : Bool × Bool × Backend :=
  if .move ∉ input.flags then (true, false, b)
  else if .absolute ∈ input.flags then
    if !b.uinputAbsFd then (true, false, b)
    else
      let (ok, b) := b.emitEvents .absolute [⟨.abs, 0, input.dx⟩, ⟨.abs, 1, input.dy⟩, synReport]
      (ok, false, b)
  else
    let x := if input.dx ≠ 0 then [InputEvent.mk .rel 0 input.dx] else []
    let y := if input.dy ≠ 0 then [InputEvent.mk .rel 1 input.dy] else []
    let (ok, b) := b.emitEvents .sink (x ++ y)
    (ok, !(x ++ y).isEmpty, b)

def toInt32 (word : Nat) : Int := if word < 2 ^ 31 then word else word - 2 ^ 32

def wheelEvents (hiRes legacy : Nat) (delta steps : Int) : List InputEvent :=
  InputEvent.mk .rel hiRes delta :: if steps ≠ 0 then [InputEvent.mk .rel legacy steps] else []

def emitWheel (delta : Int) : Bool × Backend :=
  let (steps, remainder) := wheelSteps delta b.wheelRemainder
  { b with wheelRemainder := remainder }.emitEvents .sink (wheelEvents 11 8 delta steps)

def emitHorizontalWheel (delta : Int) : Bool × Backend :=
  let (steps, remainder) := wheelSteps delta b.horizontalWheelRemainder
  { b with horizontalWheelRemainder := remainder }.emitEvents .sink (wheelEvents 12 6 delta steps)

def emitWheels (input : MouseInput) : Bool × Bool × Backend :=
  let delta := toInt32 input.mouseData
  let turned := decide (.wheel ∈ input.flags ∨ .horizontalWheel ∈ input.flags)
  let (ok, b) := if .wheel ∈ input.flags then b.emitWheel delta else (true, b)
  if !ok then (false, turned, b)
  else
    let (ok, b) := if .horizontalWheel ∈ input.flags then b.emitHorizontalWheel delta else (true, b)
    (ok, turned, b)

def closeReports (reports : OpenReports) : Bool × Backend :=
  let (ok, b) := if reports.rel then b.emitEventTo .sink synReport else (true, b)
  if !ok then (false, b)
  else if reports.abs then b.emitEventTo .absolute synReport
  else (true, b)

/-- `send_mouse_input`, after the batch's absolute moves up to this input. -/
def sendMouseInput (input : MouseInput) (movedAbsolutely : Bool) (owner : SynthOwner) :
    Bool × Backend :=
  let (ok, moved, b) := b.emitMotion input
  if !ok then (false, b)
  else
    let (ok, turned, b) := b.emitWheels input
    if !ok then (false, b)
    else
      let (ok, reports, b) := b.routeMouseButtons movedAbsolutely (movedAbsolutely && b.uinputAbsFd)
        owner (buttonTransitions input) { rel := moved || turned }
      if !ok then (false, b) else b.closeReports reports

def sendOne (dead : Bool) (owner : SynthOwner) (acc : Bool × Bool × Backend) (input : Input) :
    Bool × Bool × Backend :=
  let (moved, failed, b) := acc
  match playable dead input with
  | none => acc
  | some (.keyboard input) =>
    let (ok, b) := b.sendKeyboardInput input owner
    (moved, failed || !ok, b)
  | some (.mouse input) =>
    let moved := moved || movesAbsolutely input
    let (ok, b) := b.sendMouseInput input moved owner
    (moved, failed || !ok, b)

/-- `ksi_linux_synth_send_input`. An invalid input skips only itself. -/
def sendInput (inputs : List Input) (flags : SynthFlags) (owner : SynthOwner) : Bool × Backend :=
  if !b.uinputFd then (false, b)
  else
    let b := if !flags.fragment || flags.batchStart then { b with pendingHighSurrogate := 0 } else b
    let dead := b.ownerIsDead owner .applied
    let (_, failed, b) := inputs.foldl (sendOne dead owner) (false, false, b)
    (!failed, b)

def noteOne (dead : Bool) (owner : SynthOwner) (acc : Bool × Backend) (input : Input) :
    Bool × Backend :=
  let (moved, b) := acc
  match playable dead input with
  | none => acc
  | some (.mouse input) =>
    let moved := moved || movesAbsolutely input
    (moved, (buttonTransitions input).foldl (fun b transition =>
      match transition.1 with
      | some button => (b.applyKey .enqueued button transition.2 (!moved) owner).2
      | none => b) b)
  | some (.keyboard input) =>
    match resolveSynthKeyCode input with
    | some code => (moved, (b.applyKey .enqueued (canonicalButton code) input.down true owner).2)
    | none => acc

/-- `sweep_dead_targets` of a view's table, with the keys left without holder. -/
def sweepDeadTargets (view : View) (released : KeyBits) : Backend × KeyBits :=
  let (holds, released) := (b.holds view).sweepDeadTargets b.forward.forwardEpoch
    (b.ownerIsDead · view) released
  (b.setHolds view holds, released)

def noteEnqueuedSynth (inputs : List Input) (owner : SynthOwner) : Backend :=
  let b := (b.sweepDeadTargets .enqueued ∅).1
  let dead := b.ownerIsDead owner .enqueued
  (inputs.foldl (noteOne dead owner) (false, b)).2

def resetEnqueuedSynth : Backend := b.setHolds .enqueued (b.holds .enqueued).clear

def releaseUnheld (released : KeyBits) : Backend :=
  (setBits (released \ (b.holds .applied).held)).foldl (fun b code => (b.updateGenericKey code).2) b

def maintainOutput (now : Nat) : Backend :=
  let b := { b with forward := b.forward.forwardCollect now }
  if (b.holds .applied).epoch = b.forward.forwardEpoch then b
  else
    let (b, released) := b.sweepDeadTargets .applied ∅
    b.releaseUnheld released

def releaseFor (view : View) (released : KeyBits) : Backend :=
  match view with
  | .applied => b.releaseUnheld released
  | .enqueued => b

def releaseOwner (filter : SynthOwner) (view : View) : Backend :=
  let (holds, released) := (b.holds view).dropClaims (·.matchesFilter filter) ∅
  (b.setHolds view holds).releaseFor view released

/-- One event of a packet in `ksi_linux_synth_physical_release`. -/
def releaseEvent (packet : ForwardPacket) (acc : SynthHolds × KeyBits) (e : InputEvent) :
    SynthHolds × KeyBits :=
  match e.key with
  | none => acc
  | some code =>
    if e.value ≠ 0 then acc
    else
      let derived : SynthOwner :=
        { target := packet.target, sourceType := 1, sourceCode := code.val }
      let (holds, released) :=
        if packet.target ≠ 0 then acc.1.dropClaims (·.matchesFilter derived) acc.2 else acc
      if packet.suppressed then (holds, released)
      else
        let code := canonicalButton code
        let released := if code ∈ holds.held then insert code released else released
        (holds.releaseCode code, released)

/-- A physical key-up ends the holds derived from it and, unless a hook suppressed it, every
hold of its key. -/
def physicalRelease (packet : ForwardPacket) (view : View) : Backend :=
  if !packet.keyUp then b
  else
    let (holds, released) :=
      (packet.events.take packetEvents).foldl (releaseEvent packet) (b.holds view, ∅)
    (b.setHolds view holds).releaseFor view released

def releaseAll : Backend :=
  let b := b.setHolds .applied (b.holds .applied).clear
  let b := (setBits b.buttonHeldOnAbs).foldl (fun b code => (b.updateGenericKey code).2) b
  { b with forward := b.forward.sinkClearSynth }

/-- `synth_failed`: the sink latches its own write failures, whoever wrote. -/
def synthFailed : Bool := b.synthWriteFailed || (b.uinputFd && !b.forward.sinkReady)

/-- `ksi_linux_synth_recreate`, with whether the two devices can be opened again. -/
def recreate (opens absOpens : Bool) : Backend :=
  let b := b.releaseAll
  let b := { b with
    forward := b.forward.attachSink false, wheelRemainder := 0, horizontalWheelRemainder := 0
    uinputFd := false, uinputAbsFd := false, synthWriteFailed := false }
  if opens then
    { b with forward := b.forward.attachSink true, uinputFd := true, uinputAbsFd := absOpens }
  else { b with synthWriteFailed := true }

end Backend

end KeysharpInput.Output
