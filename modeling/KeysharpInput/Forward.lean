import KeysharpInput.Holds
import KeysharpInput.Inputs

/-!
The outputs of grabbed sources.
A source's keyboard keys go to the sink, the keyboard device that all keyboards and synthesis
share, and the rest to its own clone. Each source keeps, at both queue positions, the keys it
holds downstream, the keys it physically holds and the holds that synthesis displaced.
What the kernel answers to each write is given in advance, and every write that reaches it is
kept as history.
-/

namespace KeysharpInput.Output

open Function List

/-- `KSI_MAX_FORWARDING_DEVICES`. -/
def maxForwardingDevices : Nat := 128

/-- `KSI_FORWARD_DRAIN_MS`. -/
def forwardDrainMs : Nat := 100

structure ForwardKeys where
  output : KeyBits := ∅
  source : KeyBits := ∅
  displaced : KeyBits := ∅
  deriving DecidableEq

/-- One event of a packet in the source's or the downstream key state. A released source leaves
nothing to restore. -/
def ForwardKeys.note (source : Bool) (keys : ForwardKeys) (e : InputEvent) : ForwardKeys :=
  match e.key with
  | none => keys
  | some code =>
    if e.value = 2 then keys
    else if source then
      { keys with
        source := setKeyBit keys.source code (e.value != 0)
        displaced := if e.value = 0 then keys.displaced.erase code else keys.displaced }
    else { keys with output := setKeyBit keys.output code (e.value != 0) }

/-- One grabbed source; `output` says whether it has a clone. -/
structure ForwardingDevice where
  target : View → Nat := fun _ => 0
  isOpen : Bool := false
  closing : Bool := false
  keyboard : Bool := false
  output : Bool := false
  failed : Bool := false
  retiring : Bool := false
  retireMs : Nat := 0
  sinkReportOpen : Bool := false
  cloneReportOpen : Bool := false
  wheel : Bool := false
  horizontalWheel : Bool := false
  wheelRemainder : Int := 0
  horizontalRemainder : Int := 0
  views : View → ForwardKeys := fun _ => {}

namespace ForwardingDevice

variable (d : ForwardingDevice)

def live : Bool := d.isOpen && !d.retiring

def onSink (code : Code) : Bool := d.keyboard && isKeyboard code

def carries (packet : ForwardPacket) : Bool :=
  if packet.clone then d.output else d.keyboard

def mapKeys (view : View) (g : ForwardKeys → ForwardKeys) : ForwardingDevice :=
  { d with views := update d.views view (g (d.views view)) }

end ForwardingDevice

inductive OutputDevice
  | sink
  | absolute
  | clone (slot : Nat)
  deriving DecidableEq

structure Write where
  device : OutputDevice
  events : List InputEvent
  deriving DecidableEq

/-- The kernel's side of the outputs. `outcome n` is the fate of the `n`-th write: none if it
succeeds, otherwise how many of its events were still taken. -/
structure Uinput where
  outcome : Nat → Option Nat := fun _ => none
  attempts : Nat := 0
  written : List Write := []

structure Sink where
  attached : Bool := false
  failed : Bool := false
  down : KeyBits := ∅
  synth : KeyBits := ∅

structure Forward where
  uinput : Uinput := {}
  devices : List ForwardingDevice := []
  nextSerial : Nat := 1
  targetEpoch : Nat := 0
  failurePending : Bool := false
  sinkGeneration : Nat := 0
  sink : Sink := {}

namespace Forward

variable (f : Forward)

def device (i : Nat) : ForwardingDevice := f.devices[i]?.getD {}

def modifyDevice (i : Nat) (g : ForwardingDevice → ForwardingDevice) : Forward :=
  { f with devices := f.devices.modify i g }

def slotOf (target : Nat) : Option Nat :=
  let slot := target % 256
  if slot = 0 ∨ maxForwardingDevices < slot then none else some (slot - 1)

/-- `new_target_locked`, the next target of a slot. -/
def newTarget (i : Nat) : Nat := f.nextSerial * 256 + (i + 1)

/-- `find_device_locked`, by slot. -/
def findDevice (target : Nat) (view : View) : Option Nat :=
  (slotOf target).filter fun i => (f.device i).target view == target && !(f.device i).retiring

def outputWrite (device : OutputDevice) (events : List InputEvent) : Bool × Forward :=
  let taken := f.uinput.outcome f.uinput.attempts
  (taken.isNone, { f with uinput := { f.uinput with
    attempts := f.uinput.attempts + 1
    written := f.uinput.written ++ [⟨device, events.take (taken.getD events.length)⟩] } })

/-- `write_locked`: a write to a source's clone. -/
def writeClone (i : Nat) (events : List InputEvent) : Bool × Forward :=
  if (f.device i).failed then (false, f)
  else
    let (ok, f) := f.outputWrite (.clone i) events
    if ok then (true, f)
    else
      (false, { f.modifyDevice i fun d => { d with failed := true } with failurePending := true })

def writeSink (events : List InputEvent) : Bool × Forward :=
  let note := fun (f : Forward) (ok : Bool) =>
    { f with sink := { f.sink with down := noteWrittenKeys f.sink.down events ok } }
  if f.sink.attached && !f.sink.failed then
    let (ok, f) := f.outputWrite .sink events
    let f := if ok then f
      else { f with sink := { f.sink with failed := true }, failurePending := true }
    (ok, note f ok)
  else (false, note f false)

def writeSinkKey (code : Code) (value : Int) : Bool × Forward :=
  f.writeSink [keyEvent code value, synReport]

def needsRepress (code : Code) : Bool :=
  !isModifierOrLock code && isKeyboard code && code ∈ f.sink.down

def tap (code : Code) : Option Nat × Forward :=
  let down := decide (code ∈ f.sink.down)
  let (ok, f) := f.writeSink [keyEvent code (if down then 0 else 1), synReport,
    keyEvent code (if down then 1 else 0), synReport]
  (if ok then some 4 else none, f)

def sinkWants (code : Code) : Bool :=
  code ∈ f.sink.synth ||
    f.devices.any fun d => d.live && d.onSink code && code ∈ (d.views .applied).output

def reconcile (code : Code) : Option Nat × Forward :=
  let want := f.sinkWants code
  if want = decide (code ∈ f.sink.down) then (some 0, f)
  else
    let (ok, f) := f.writeSinkKey code (if want then 1 else 0)
    (if ok then some 2 else none, f)

def setOutput (i : Nat) (view : View) (code : Code) (held : Bool) : Forward :=
  let f := f.modifyDevice i fun d => d.mapKeys view fun keys =>
    { keys with output := setKeyBit keys.output code held }
  match view with
  | .enqueued => f
  | .applied =>
    if (f.device i).onSink code then (f.reconcile code).2
    else if (f.device i).output then
      (f.writeClone i [keyEvent code (if held then 1 else 0), synReport]).2
    else f

/-- Keeps only the holds in `keep`. -/
def releaseOutputs (i : Nat) (view : View) (keep : KeyBits) : Forward :=
  let codes := setBits (((f.device i).views view).output \ keep)
  let f := codes.foldl (fun f code => f.setOutput i view code false) f
  f.modifyDevice i fun d => d.mapKeys view fun keys =>
    { keys with displaced := keys.displaced ∩ keep }

def endOpenReports (i : Nat) : Forward :=
  let d := f.device i
  let f := if d.sinkReportOpen then (f.writeSink [synReport]).2 else f
  let f := if d.cloneReportOpen then (f.writeClone i [synReport]).2 else f
  f.modifyDevice i fun d => { d with sinkReportOpen := false, cloneReportOpen := false }

/-- `end_grab_locked`: keeps the holds the source still has at this queue position. -/
def endGrabLocked (i : Nat) (view : View) (keep : Option KeyBits) : Forward :=
  let keep := keep.getD ((f.device i).views view).source
  let f := match view with
    | .applied => f.endOpenReports i
    | .enqueued => f
  let f := f.releaseOutputs i view keep
  let f := f.modifyDevice i fun d => d.mapKeys view fun keys => { keys with displaced := ∅ }
  { f with targetEpoch := f.targetEpoch + 1 }

def setTarget (i : Nat) (view : View) (target : Nat) : Forward :=
  f.modifyDevice i fun d => { d with target := update d.target view target }

structure SourceInfo where
  keyboard : Bool
  /-- The source reports something its clone must carry. -/
  hasCodes : Bool
  wheel : Bool := false
  horizontalWheel : Bool := false
  /-- The description could be read and the clone created. -/
  created : Bool := true

/-- `ksi_linux_forward_open`; the target is zero if the source cannot be forwarded. -/
def forwardOpen (info : SourceInfo) : Nat × Forward :=
  match (range maxForwardingDevices).find? fun i => !(f.device i).isOpen with
  | none => (0, f)
  | some i =>
    if !info.created then (0, f)
    else
      let target := f.newTarget i
      let d : ForwardingDevice :=
        { isOpen := true, keyboard := info.keyboard, output := info.hasCodes
          wheel := info.wheel, horizontalWheel := info.horizontalWheel
          target := fun _ => target }
      (target, { f with
        devices := if i < f.devices.length then f.devices.set i d else f.devices ++ [d]
        nextSerial := f.nextSerial + 1 })

/-- `ksi_linux_forward_end_grab`: the next target and the keys the source still holds. -/
def forwardEndGrab (target : Nat) : Nat × KeyBits × Forward :=
  match f.findDevice target .enqueued with
  | none => (target, ∅, f)
  | some i =>
    let held := ((f.device i).views .enqueued).source
    let f := f.endGrabLocked i .enqueued none
    let next := f.newTarget i
    (next, held, { f.setTarget i .enqueued next with nextSerial := f.nextSerial + 1 })

def forwardApplyEndGrab (next : Nat) (held : Option KeyBits) : Forward :=
  match slotOf next with
  | none => f
  | some i =>
    if (f.device i).live && (f.device i).target .applied < next then
      (f.endGrabLocked i .applied held).setTarget i .applied next
    else f

def forwardClose (target : Nat) : Forward :=
  match f.findDevice target .enqueued with
  | none => f
  | some i =>
    let f := f.modifyDevice i fun d => { d.mapKeys .enqueued fun _ => {} with
      target := update d.target .enqueued 0, closing := true }
    { f with targetEpoch := f.targetEpoch + 1 }

def forwardApplyClose (target now : Nat) : Forward :=
  match slotOf target with
  | none => f
  | some i =>
    if (f.device i).closing && (f.device i).live then
      let f := (f.endOpenReports i).releaseOutputs i .applied ∅
      let f := f.modifyDevice i fun d =>
        if d.output then { d with views := fun _ => {}, retiring := true, retireMs := now } else {}
      { f with targetEpoch := f.targetEpoch + 1 }
    else f

def forwardFailed (target : Nat) (view : View) : Bool :=
  match f.findDevice target view with
  | none => true
  | some i => (f.device i).failed

/-- `ksi_linux_forward_epoch`: the counter of ends has 32 bits. -/
def forwardEpoch : Nat := f.targetEpoch % 2 ^ 32

/-- `ksi_linux_forward_collect` while the service runs. -/
def forwardCollect (now : Nat) : Forward :=
  { f with devices := f.devices.map fun d =>
      if d.retiring && !(now - d.retireMs < forwardDrainMs) then {} else d }

def expandWheel (d : ForwardingDevice) : List InputEvent → ForwardingDevice × List InputEvent
  | [] => (d, [])
  | e :: events =>
    let vertical := e.type == .rel && e.code == 11 && d.wheel
    let horizontal := e.type == .rel && e.code == 12 && d.horizontalWheel
    let (d, extra) :=
      if vertical then
        let (steps, remainder) := wheelSteps e.value d.wheelRemainder
        ({ d with wheelRemainder := remainder },
          if steps = 0 then [] else [InputEvent.mk .rel 8 steps])
      else if horizontal then
        let (steps, remainder) := wheelSteps e.value d.horizontalRemainder
        ({ d with horizontalRemainder := remainder },
          if steps = 0 then [] else [InputEvent.mk .rel 6 steps])
      else (d, [])
    let (d, rest) := expandWheel d events
    (d, e :: extra ++ rest)

def endsReport (packet : ForwardPacket) : Bool :=
  packet.reportEnd || packet.events.getLast?.any (·.isSynReport)

/-- The part of `ksi_linux_forward_write` that writes a packet to the source's clone. -/
def writeCloneReport (i : Nat) (packet : ForwardPacket) (events : List InputEvent) :
    Bool × Forward :=
  let (ok, f) := f.writeClone i events
  (ok, f.modifyDevice i fun d => { d.mapKeys .applied fun keys =>
    { keys with output := noteWrittenKeys keys.output events ok } with
      cloneReportOpen := !endsReport packet })

def packetOutput (packet : ForwardPacket) (keys : ForwardKeys) : ForwardKeys :=
  match packet.key with
  | some (code, value) =>
    if value ≠ 2 then { keys with output := setKeyBit keys.output code (value != 0) } else keys
  | none => keys

/-- The sink has nothing to write for the packet: a repeat of a key that it does not hold, or a
transition that is not its first press or last release. -/
def sinkUnchanged (packet : ForwardPacket) : Bool :=
  packet.key.any fun (code, value) =>
    if value = 2 then code ∉ f.sink.down else f.sinkWants code == decide (code ∈ f.sink.down)

def writeRepress (packet : ForwardPacket) : Bool × Forward :=
  match packet.key with
  | some (code, _) => f.writeSinkKey code 0
  | none => (true, f)

/-- The part of `ksi_linux_forward_write` that writes a packet to the sink. -/
def writeSinkReport (i : Nat) (packet : ForwardPacket) (events : List InputEvent) :
    Bool × Forward :=
  let repress := packet.key.any fun (code, value) => value == 1 && f.needsRepress code
  let f := f.modifyDevice i fun d => d.mapKeys .applied (packetOutput packet)
  if !repress && f.sinkUnchanged packet then (true, f)
  else
    let (ok, f) := if repress then f.writeRepress packet else (true, f)
    let (ok, f) := if ok then f.writeSink events else (false, f)
    (ok, f.modifyDevice i fun d => { d with sinkReportOpen := !endsReport packet })

/-- `ksi_linux_forward_write`; false for a failed write. -/
def forwardWrite (packet : ForwardPacket) : Bool × Forward :=
  if packetEvents < packet.events.length then (false, f)
  else
    match f.findDevice packet.target .applied with
    | none => (true, f)
    | some i =>
      let d := f.device i
      let output := (d.views .applied).output
      if !d.carries packet then (true, f)
      else if packet.key.any fun (code, value) =>
          value == 0 && code ∉ output && buttonAlias code ∉ output then
        -- Still a release for a sink left holding the key with no holder.
        match packet.key with
        | some (code, _) => (true, if packet.clone then f else (f.reconcile code).2)
        | none => (true, f)
      else
        let (d, events) := expandWheel d packet.events
        let f := f.modifyDevice i fun _ => d
        let events := if packet.reportEnd then events ++ [synReport] else events
        if packet.clone then f.writeCloneReport i packet events
        else f.writeSinkReport i packet events

/-- `note_keys`: the packet's transitions, in the source's or the downstream key state. -/
def noteKeys (packet : ForwardPacket) (view : View) (source : Bool) : Forward :=
  if packetEvents < packet.events.length ∨ packet.transition = false then f
  else
    match f.findDevice packet.target view with
    | none => f
    | some i =>
      f.modifyDevice i fun d => d.mapKeys view fun keys =>
        packet.events.foldl (ForwardKeys.note source) keys

def noteOutput (packet : ForwardPacket) : Forward := f.noteKeys packet .enqueued false

def noteSource (packet : ForwardPacket) (view : View) : Forward :=
  f.noteKeys packet view true

def codesOf (code : Code) : List Code :=
  if buttonAlias code = code then [code] else [code, buttonAlias code]

/-- One turn of the loops of `shift_key`. -/
def shiftCode (view : View) (restore : Bool) (i : Nat) (acc : Bool × Forward) (code : Code) :
    Bool × Forward :=
  let f := acc.2
  let keys := (f.device i).views view
  if code ∉ (if restore then keys.displaced else keys.output) then acc
  else
    let f := f.modifyDevice i fun d => d.mapKeys view fun keys =>
      { keys with displaced := setKeyBit keys.displaced code (!restore && code ∈ keys.source) }
    (true, f.setOutput i view code restore)

/-- `shift_key`: moves a key between each source's held and displaced sets. -/
def shiftKey (code : Code) (view : View) (restore : Bool) : Bool × Forward :=
  (range f.devices.length).foldl (fun acc i =>
    if (acc.2.device i).live then (codesOf code).foldl (shiftCode view restore i) acc else acc)
    (false, f)

def releaseKey (code : Code) (view : View) : Forward :=
  (f.shiftKey code view false).2

def restoreKey (code : Code) (view : View) : Bool × Forward :=
  f.shiftKey code view true

def forwardReleaseAll (view : View) : Forward :=
  (range f.devices.length).foldl (fun f i =>
    if (f.device i).live then f.releaseOutputs i view ∅ else f) f

def attachSink (attached : Bool) : Forward :=
  let f := if attached then f
    else { f with sinkGeneration := f.sinkGeneration + 1, failurePending := true }
  { f with sink := { attached := attached } }

def sinkReady : Bool := f.sink.attached && !f.sink.failed

def sinkKey (code : Code) (held : Bool) : Option Nat × Forward :=
  { f with sink := { f.sink with synth := setKeyBit f.sink.synth code held } }.reconcile code

def sinkTap (code : Code) : Option Nat × Forward := f.tap code

def sinkRepress (code : Code) : Option Nat × Forward :=
  if f.needsRepress code then f.tap code else (some 0, f)

def sinkClearSynth : Forward :=
  (range 96).foldl (fun f byte =>
    let codes := setBits (f.sink.synth.filter fun code => code.val / 8 = byte)
    let f := { f with sink := { f.sink with
      synth := f.sink.synth.filter fun code => code.val / 8 ≠ byte } }
    codes.foldl (fun f code => (f.reconcile code).2) f) f

end Forward

end KeysharpInput.Output
