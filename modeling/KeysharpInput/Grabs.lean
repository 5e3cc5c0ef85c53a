import KeysharpInput.LaneOrder

/-!
The reader's grabs.
A source that may be grabbed is registered for forwarding and named by a target, a new one for each
grab. While it is grabbed, what it reports goes to the lanes. When the grab ends, the keys it still
holds stay down at its outputs, and the reader owes their releases: it forwards each when it reads
it, or when a snapshot shows the key up. What the kernel answers is part of each event.
-/

namespace KeysharpInput.Grabs

open Session (HookType)
open Output Function

/-- `ksi_linux_tracked_device`, for a source that is not one of the outputs. -/
structure TrackedDevice where
  fd : Bool := false
  keyboardCandidate : Bool := false
  mouseBlockCandidate : Bool := false
  grabbed : Bool := false
  foreignGrab : Bool := false
  forwardingTarget : Nat := 0
  forwardingReady : Bool := false
  ungrabHeldKeys : KeyBits := ∅

/-- `is_contact_code`: codes that stay down under a resting pen or thumb. -/
def isContactCode (code : Code) : Bool :=
  decide (0x140 ≤ code.val ∧ code.val ≤ 0x148) || code.val == 0x14a ||
    decide (0x14d ≤ code.val ∧ code.val ≤ 0x14f)

def heldKeys (keys : KeyBits) : KeyBits := keys.filter fun code => !isContactCode code

/-- `raw_forward_hook_type` for a key. -/
def TrackedDevice.rawForwardHookType (d : TrackedDevice) (code : Code) : HookType :=
  if d.keyboardCandidate && isKeyboard code then .keyboard else .mouse

/-- `lane_packet` with its events. -/
def TrackedDevice.lanePacket (d : TrackedDevice) (k : HookType) (events : List InputEvent)
    (reportEnd : Bool) : ForwardPacket :=
  { target := d.forwardingTarget, events := events, reportEnd := reportEnd, clone := k == .mouse }

inductive Origin
  | stream
  | snapshot
  deriving DecidableEq

structure Release where
  target : Nat
  code : Code
  origin : Origin
  deriving DecidableEq

/-- The reader with the lanes it feeds. The last fields are history: the targets issued, each
with the number of its source, the source that was last opened in each slot, the keys kept at
each ungrab with the target they were kept under, the releases admitted, the targets closed and
the last snapshot of each device. -/
structure Reader where
  lanes : LaneOrder.State := {}
  devices : Nat → TrackedDevice := fun _ => {}
  blockKeyboard : Bool := false
  blockMouse : Bool := false
  sinkAdmittedGeneration : Option Nat := none
  issued : List (Nat × Nat) := []
  opened : Nat := 0
  sourceAt : Nat → Nat := fun _ => 0
  kept : List (Nat × KeyBits) := []
  released : List Release := []
  closed : List Nat := []
  lastSnapshot : Nat → Option KeyBits := fun _ => none

structure Fragment where
  hook : Bool
  hookType : HookType
  events : List InputEvent
  reportEnd : Bool := false
  blockActive : Bool := false
  created : Bool := true

inductive Read
  | key (code : Code) (value : Int) (room : Bool) (fragments : List Fragment)
  | other (fragments : List Fragment)
  | lost (now : Nat)

structure UngrabAnswers where
  drained : List Read := []
  ungrabs : Bool := true
  now : Nat := 0

inductive GrabResult
  | ok
  | busy
  | error
  deriving DecidableEq

structure GrabAnswers where
  ungrab : UngrabAnswers := {}
  first : Option KeyBits := some ∅
  feedsDownstream : Bool := false
  drained : List Read := []
  settled : Option KeyBits := some ∅
  room : Code → Bool := fun _ => true
  second : Option KeyBits := some ∅
  result : GrabResult := .ok

inductive Event
  /-- A step of the lanes or the output side that is not the reader's. -/
  | lanes (e : LaneOrder.Event)
  | track (i : Nat) (keyboardCandidate mouseBlockCandidate : Bool)
  | ensureForwarding (i : Nat) (info : Forward.SourceInfo) (now : Nat)
  | cloneAdmitted (i : Nat)
  | sinkAdmitted (generation : Option Nat)
  | setBlockInput (keyboard mouse : Bool)
  | read (i : Nat) (e : Read)
  | grab (i : Nat) (answers : GrabAnswers)
  | ungrab (i : Nat) (answers : UngrabAnswers)
  | settle (i : Nat) (keys : Option KeyBits) (room : Code → Bool)
  /-- A source whose output failed loses its forwarding. -/
  | retire (i now : Nat)
  | close (i now : Nat)

def ofReader : LaneOrder.Event → Bool
  | .forward .. => true
  | .hook .. => true
  | .output (.openSource _) => true
  | .output (.pushEndGrab _) => true
  | .output (.pushClose _ _) => true
  | _ => false

namespace Reader

variable (s : Reader)

def forward : Forward := s.lanes.output.backend.forward

def setDevice (i : Nat) (d : TrackedDevice) : Reader :=
  { s with devices := update s.devices i d }

def setOutput (output : OutputState) : Reader :=
  { s with lanes := { s.lanes with output := output } }

def needsForwarding (i : Nat) : Bool :=
  ((s.devices i).keyboardCandidate && !s.blockKeyboard) ||
    ((s.devices i).mouseBlockCandidate && !s.blockMouse)

def forwardingUsable (i : Nat) : Bool :=
  (s.devices i).forwardingReady &&
    !s.forward.forwardFailed (s.devices i).forwardingTarget .enqueued &&
    (!(s.devices i).keyboardCandidate ||
      (s.forward.sinkReady && s.sinkAdmittedGeneration == some s.forward.sinkGeneration))

def closeForwardingDevice (i now : Nat) : Reader :=
  let d := s.devices i
  let s :=
    if d.forwardingTarget = 0 then s
    else
      { s.setOutput (s.lanes.output.pushClose d.forwardingTarget now) with
        closed := s.closed ++ [d.forwardingTarget] }
  s.setDevice i { d with forwardingTarget := 0, forwardingReady := false, ungrabHeldKeys := ∅ }

def closeTrackedDevice (i now : Nat) : Reader :=
  let s := s.closeForwardingDevice i now
  s.setDevice i { s.devices i with fd := false, grabbed := false, foreignGrab := false }

/-- `ksi_linux_forward_open` for a source. -/
def openForwarding (i : Nat) (info : Forward.SourceInfo) : Reader :=
  let d := s.devices i
  let (target, forward) := s.forward.forwardOpen { info with keyboard := d.keyboardCandidate }
  let output := s.lanes.output
  let s := s.setOutput { output with backend := { output.backend with forward := forward } }
  let s := s.setDevice i { d with
    forwardingTarget := target, forwardingReady := decide (target ≠ 0) && !info.hasCodes }
  match Forward.slotOf target with
  | none => s
  | some slot =>
    { s with
      issued := s.issued ++ [(target, s.opened)]
      opened := s.opened + 1
      sourceAt := update s.sourceAt slot s.opened }

def ensureForwarding (i : Nat) (info : Forward.SourceInfo) (now : Nat) : Reader :=
  let d := s.devices i
  if !d.fd || !(d.keyboardCandidate || d.mouseBlockCandidate) ||
      !s.forward.forwardFailed d.forwardingTarget .enqueued then s
  else (s.closeForwardingDevice i now).openForwarding i info

/-- `forward_release_after_ungrab` for a release of the key. -/
def forwardReleaseAfterUngrab (i : Nat) (code : Code) (origin : Origin) (room : Bool) : Reader :=
  let d := s.devices i
  if code ∉ d.ungrabHeldKeys then s
  else
    let k := d.rawForwardHookType code
    let packet := { d.lanePacket k [keyEvent code 0] true with ungrabbed := true }
    let (ok, lanes) := s.lanes.forwardPhysicalEvent k packet room
    let s := { s with
      lanes := lanes
      released := if s.lanes.log.length < lanes.log.length then
          s.released ++ [⟨d.forwardingTarget, code, origin⟩]
        else s.released }
    if ok then s.setDevice i { d with ungrabHeldKeys := d.ungrabHeldKeys.erase code } else s

def deliver (i : Nat) (fragment : Fragment) : Reader :=
  let d := s.devices i
  let packet := d.lanePacket fragment.hookType fragment.events fragment.reportEnd
  if !d.grabbed then s
  else if fragment.hook then
    let lanes := s.lanes.handleHookEvent fragment.hookType packet false fragment.blockActive
      fragment.created
    { s with lanes := lanes }
  else if d.forwardingTarget = 0 then s
  else
    let (_, lanes) := s.lanes.forwardPhysicalEvent fragment.hookType packet fragment.created
    { s with lanes := lanes }

/-- `handle_input_event`, and what follows a failed read. -/
def handleInputEvent (i : Nat) : Read → Reader
  | .key code value room fragments =>
    let s := if !(s.devices i).grabbed && value == 0 then
        s.forwardReleaseAfterUngrab i code .stream room
      else s
    fragments.foldl (·.deliver i ·) s
  | .other fragments => fragments.foldl (·.deliver i ·) s
  | .lost now => s.closeTrackedDevice i now

/-- `drain_device_events`. A device that was lost is not read any more. -/
def drainDeviceEvents (i : Nat) (reads : List Read) : Reader :=
  reads.foldl (fun s e => if (s.devices i).fd then s.handleInputEvent i e else s) s

def readSnapshotKeys (i : Nat) (keys : Option KeyBits) : Reader :=
  { s with lastSnapshot := update s.lastSnapshot i keys }

def settleUngrabHolds (i : Nat) (keys : Option KeyBits) (room : Code → Bool) : Reader :=
  let d := s.devices i
  if d.grabbed || decide (d.ungrabHeldKeys = ∅) then s
  else
    let s := s.readSnapshotKeys i keys
    match keys with
    | none => s
    | some keys => (setBits (d.ungrabHeldKeys \ keys)).foldl
        (fun s code => s.forwardReleaseAfterUngrab i code .snapshot (room code)) s

/-- `defer_grab_while_held`: a snapshot that cannot be read also holds the grab off. -/
def deferGrabWhileHeld (i : Nat) (keys : Option KeyBits) : Bool × Reader :=
  (match keys with
    | none => true
    | some keys => decide (heldKeys keys ≠ ∅), s.readSnapshotKeys i keys)

/-- The part of `set_device_grab` after the kernel ended the grab of a forwarded source: what it
still holds stays down, and the releases are owed. -/
def endGrab (i : Nat) : Reader :=
  let d := s.devices i
  let (next, kept, output) := s.lanes.output.pushEndGrab d.forwardingTarget
  let s := s.setOutput output
  { s.setDevice i { d with
      grabbed := false, foreignGrab := false, forwardingTarget := next
      ungrabHeldKeys := kept } with
    issued := match Forward.slotOf next with
      | none => s.issued
      | some slot => s.issued ++ [(next, s.sourceAt slot)]
    kept := s.kept ++ [(next, kept)] }

/-- `set_device_grab` to end a grab. -/
def ungrabDevice (i : Nat) (answers : UngrabAnswers) : Bool × Reader :=
  if !(s.devices i).fd then (true, s)
  else
    let s := if (s.devices i).grabbed then s.drainDeviceEvents i answers.drained else s
    let d := s.devices i
    if !d.fd then (true, s)
    else if !d.grabbed then (true, s.setDevice i { d with foreignGrab := false })
    else if !answers.ungrabs then (false, s.closeTrackedDevice i answers.now)
    else if d.forwardingTarget = 0 then
      (true, s.setDevice i { d with grabbed := false, foreignGrab := false })
    else (true, s.endGrab i)

/-- The part of `set_device_grab` that takes the grab. -/
def takeGrab (i : Nat) (answers : GrabAnswers) : Bool × Reader :=
  let (deferred, s) := s.deferGrabWhileHeld i answers.first
  if deferred then (true, s)
  else if !(s.devices i).foreignGrab && answers.feedsDownstream then (true, s)
  else
    let s := s.drainDeviceEvents i answers.drained
    let s := s.settleUngrabHolds i answers.settled answers.room
    if !(s.devices i).fd then (true, s)
    else
      let (deferred, s) := s.deferGrabWhileHeld i answers.second
      if deferred || decide ((s.devices i).ungrabHeldKeys ≠ ∅) then (true, s)
      else if answers.result = .ok then
        (true, s.setDevice i { s.devices i with grabbed := true, foreignGrab := false })
      else (false, s.setDevice i { s.devices i with
        foreignGrab := decide (answers.result = .busy) })

/-- `set_device_grab` to begin a grab. One taken for BlockInput alone may now have to pass input
on, and ends first if it cannot. -/
def grabDevice (i : Nat) (answers : GrabAnswers) : Bool × Reader :=
  if !(s.devices i).fd then (true, s)
  else if (s.devices i).grabbed && (!s.needsForwarding i || s.forwardingUsable i) then (true, s)
  else
    let (ok, s) := if (s.devices i).grabbed then s.ungrabDevice i answers.ungrab else (true, s)
    if !ok then (false, s)
    else if s.needsForwarding i &&
        s.forward.forwardFailed (s.devices i).forwardingTarget .enqueued then (false, s)
    else if s.needsForwarding i && !s.forwardingUsable i then (true, s)
    else s.takeGrab i answers

def step : Event → Option Reader
  | .lanes e =>
    if ofReader e then none else (s.lanes.step e).map fun lanes => { s with lanes := lanes }
  | .track i keyboardCandidate mouseBlockCandidate =>
    if (s.devices i).fd then none
    else some (s.setDevice i { s.devices i with
      fd := true, keyboardCandidate := keyboardCandidate
      mouseBlockCandidate := mouseBlockCandidate })
  | .ensureForwarding i info now => some (s.ensureForwarding i info now)
  | .cloneAdmitted i =>
    if (s.devices i).forwardingTarget = 0 then none
    else some (s.setDevice i { s.devices i with forwardingReady := true })
  | .sinkAdmitted generation => some { s with sinkAdmittedGeneration := generation }
  | .setBlockInput keyboard mouse => some { s with blockKeyboard := keyboard, blockMouse := mouse }
  | .read i e => if (s.devices i).fd then some (s.handleInputEvent i e) else none
  | .grab i answers => some (s.grabDevice i answers).2
  | .ungrab i answers => some (s.ungrabDevice i answers).2
  | .settle i keys room => some (s.settleUngrabHolds i keys room)
  | .retire i now =>
    let d := s.devices i
    if d.grabbed || decide (d.forwardingTarget = 0) ||
        !s.forward.forwardFailed d.forwardingTarget .enqueued then none
    else some (s.closeForwardingDevice i now)
  | .close i now => some (s.closeTrackedDevice i now)

end Reader

def start (outcome : Nat → Option Nat) (absOpens : Bool) : Reader :=
  { lanes := LaneOrder.start outcome absOpens }

end KeysharpInput.Grabs
