import KeysharpInput.Synth
import KeysharpInput.Transition

/-!
The output queue and its sequencer.
Every backend write is an action of one bounded FIFO queue. An admission changes the enqueued
view in the step that appends the action; the sequencer changes the applied view when it drains
the action. Actions of clients and sources carry the input generation that admitted them, the
daemon's own safety actions carry zero.
-/

namespace KeysharpInput.Output

/-- `KSI_MAX_OUTPUT_ACTIONS`. -/
def maxOutputActions : Nat := 4096

/-- `KSI_OUTPUT_CLEANUP_RESERVE`: places that only releases and source state may take. -/
def outputCleanupReserve : Nat := 1024

/-- `KSI_MAX_OUTPUT_SYNTH_BYTES`. -/
def maxOutputSynthBytes : Nat := 1024 * 1024

/-- `KSI_OUTPUT_CLEANUP_BYTES`. -/
def outputCleanupBytes : Nat := 1024 * inputSize

inductive OutputAction
  | replay (packet : ForwardPacket)
  | sourceState (packet : ForwardPacket)
  | synth (inputs : List Input) (flags : SynthFlags) (owner : SynthOwner)
  | releaseSynthOwner (filter : SynthOwner)
  | releaseAll
  | releaseGeneric
  | recreateSynth
  | endGrab (next : Nat)
  | closeSource (target : Nat)
  deriving DecidableEq

/-- `output_action_synth_bytes`. -/
def OutputAction.synthBytes : OutputAction → Nat
  | .synth inputs _ _ => inputs.length * inputSize
  | _ => 0

def OutputAction.closeSlot : OutputAction → Option Nat
  | .closeSource target => Forward.slotOf target
  | _ => none

structure QueuedAction where
  action : OutputAction
  inputGeneration : Nat := 0
  deriving DecidableEq

structure OutputOwner where
  connectionId : Nat
  hooks : List Nat
  deriving DecidableEq

structure OutputState where
  backend : Backend := {}
  queue : List QueuedAction := []
  owners : List OutputOwner := []
  inputGeneration : Nat := 1

namespace OutputState

variable (s : OutputState)

def synthBytes : Nat := (s.queue.map (·.action.synthBytes)).sum

/-- `output_is_stale_locked`. -/
def isStale (generation : Nat) : Bool := generation != 0 && generation != s.inputGeneration

/-- `output_owner_is_live_locked`. -/
def ownerIsLive (owner : SynthOwner) : Bool :=
  owner.connectionId == 0 ||
    (s.owners.find? (·.connectionId == owner.connectionId)).any fun entry =>
      owner.hookType == 0 || entry.hooks.contains owner.hookType

/-- `output_queue_push_action_locked`. -/
def pushAction (action : OutputAction) (generation : Nat) : OutputState :=
  { s with queue := s.queue ++ [⟨action, generation⟩] }

def admitAction (action : OutputAction) (generation : Nat) (backend : Backend → Backend) :
    OutputState :=
  { s.pushAction action generation with backend := backend s.backend }

def isFull (reserve : Nat) : Bool := decide (maxOutputActions - reserve ≤ s.queue.length)

/-- `output_queue_push_packet`, for a replay or for source state. -/
def pushPacket (sourceState : Bool) (packet : ForwardPacket) (generation : Nat) :
    Bool × OutputState :=
  if packetEvents < packet.events.length then (false, s)
  else if sourceState && !packet.transition then (true, s)
  else
    let cleanup := sourceState || packet.keyUp
    if s.isStale generation then (true, s)
    else if s.isFull (if cleanup then 0 else outputCleanupReserve) then (false, s)
    else if sourceState then
      (true, s.admitAction (.sourceState packet) generation fun b =>
        { b with forward := b.forward.noteSource packet .enqueued })
    else
      (true, s.admitAction (.replay packet) generation fun b =>
        { b with forward := b.forward.noteOutput packet }.physicalRelease packet .enqueued)

/-- `output_queue_push_owned_synth`. A Modify replacement is refused once its lane was flushed
after the decision, as `flushed` says. -/
def pushOwnedSynth (inputs : List Input) (flags : SynthFlags) (generation : Nat)
    (owner : SynthOwner) (flushed : Bool) : Bool × OutputState :=
  let bytes := inputs.length * inputSize
  let cleanup := synthBatchIsCleanup inputs
  let limit := maxOutputSynthBytes - if cleanup then 0 else outputCleanupBytes
  let closed := !s.ownerIsLive owner
  if s.isStale generation then (true, s)
  else if closed && owner.hookType != 0 then (false, s)
  else if flushed
      || decide (maxOutputActions - (if cleanup then 0 else outputCleanupReserve) ≤
        s.queue.length + if closed then 1 else 0)
      || decide (limit < bytes) || decide (limit - bytes < s.synthBytes) then (false, s)
  else
    let s := s.admitAction (.synth inputs flags owner) generation (·.noteEnqueuedSynth inputs owner)
    if closed && !flags.fragment then
      let release : SynthOwner := { connectionId := owner.connectionId }
      (true, s.admitAction (.releaseSynthOwner release) 0 (·.releaseOwner release .enqueued))
    else (true, s)

/-- `output_queue_push_synth`: the connection owns what the batch holds. -/
def pushSynth (inputs : List Input) (flags : SynthFlags) (generation connectionId : Nat) :
    Bool × OutputState :=
  s.pushOwnedSynth inputs flags generation { connectionId := connectionId } false

def pushReleaseAll : Bool × OutputState :=
  if s.isFull 0 then (false, s)
  else (true, s.admitAction .releaseAll 0 fun b =>
    let b := b.resetEnqueuedSynth
    { b with forward := b.forward.forwardReleaseAll .enqueued })

def pushReleaseGeneric : Bool × OutputState :=
  if s.isFull 0 then (false, s) else (true, s.admitAction .releaseGeneric 0 (·.resetEnqueuedSynth))

def pushRecreateSynth : Bool × OutputState :=
  if s.isFull 0 then (false, s) else (true, s.admitAction .recreateSynth 0 (·.resetEnqueuedSynth))

/-- `output_queue_push_release_owner`. A filter that matches everything is refused. -/
def pushReleaseOwner (filter : SynthOwner) : Bool × OutputState :=
  if filter = {} then (false, s)
  else if s.isFull 0 then (false, s)
  else (true, s.admitAction (.releaseSynthOwner filter) 0 (·.releaseOwner filter .enqueued))

/-- `output_queue_push_end_grab`: the source's next target and the keys it keeps. A full queue
cannot order the end, so written output moves at once. -/
def pushEndGrab (target : Nat) : Nat × KeyBits × OutputState :=
  let (next, kept, forward) := s.backend.forward.forwardEndGrab target
  if s.isFull 0 then
    let forward := forward.forwardApplyEndGrab next (some kept)
    (next, kept, { s with backend := { s.backend with forward := forward } })
  else (next, kept, s.admitAction (.endGrab next) 0 fun b => { b with forward := forward })

def pushClose (target now : Nat) : OutputState :=
  let forward := s.backend.forward.forwardClose target
  if s.isFull 0 then
    { s with backend := { s.backend with forward := forward.forwardApplyClose target now } }
  else s.admitAction (.closeSource target) 0 fun b => { b with forward := forward }

def discardStale (generation : Nat) : OutputState :=
  { s with queue := s.queue.filter fun entry =>
      entry.inputGeneration == 0 || entry.inputGeneration == generation }

/-- The part of `apply_output_action` that writes one action. -/
def writeAction (b : Backend) (now : Nat) (opens absOpens : Bool) : OutputAction → Backend
  | .replay packet =>
    { b with forward := (b.forward.forwardWrite packet).2 }.physicalRelease packet .applied
  | .sourceState packet => { b with forward := b.forward.noteSource packet .applied }
  | .synth inputs flags owner => (b.sendInput inputs flags owner).2
  | .releaseSynthOwner filter => b.releaseOwner filter .applied
  | .releaseAll =>
    let b := b.releaseAll
    { b with forward := b.forward.forwardReleaseAll .applied }
  | .releaseGeneric => b.releaseAll
  | .recreateSynth => b.recreate opens absOpens
  | .endGrab next => { b with forward := b.forward.forwardApplyEndGrab next none }
  | .closeSource target => { b with forward := b.forward.forwardApplyClose target now }

/-- `apply_output_action`. An action of a former generation is dropped. -/
def applyOutputAction (entry : QueuedAction) (now : Nat) (opens absOpens : Bool) : Backend :=
  if s.isStale entry.inputGeneration then s.backend
  else (writeAction s.backend now opens absOpens entry.action).maintainOutput now

end OutputState

/-- What can happen at the output side. The outcomes that the component does not control are
part of the event: the time, and whether devices can be opened. -/
inductive OutputEvent
  | pushPacket (sourceState : Bool) (packet : ForwardPacket) (generation : Nat)
  | pushOwnedSynth (inputs : List Input) (flags : SynthFlags) (generation : Nat)
      (owner : SynthOwner) (flushed : Bool)
  | pushReleaseOwner (filter : SynthOwner)
  | pushReleaseAll
  | pushReleaseGeneric
  | pushRecreateSynth
  | openSource (info : Forward.SourceInfo)
  | pushEndGrab (target : Nat)
  | pushClose (target now : Nat)
  | syncOwners (owners : List OutputOwner)
  | advanceGeneration
  | discardStale (generation : Nat)
  | drain (now : Nat) (opens absOpens : Bool)
  | maintain (now : Nat)

namespace OutputState

def step (s : OutputState) : OutputEvent → Option OutputState
  | .pushPacket sourceState packet generation => some (s.pushPacket sourceState packet generation).2
  | .pushOwnedSynth inputs flags generation owner flushed =>
    some (s.pushOwnedSynth inputs flags generation owner flushed).2
  | .pushReleaseOwner filter => some (s.pushReleaseOwner filter).2
  | .pushReleaseAll => some s.pushReleaseAll.2
  | .pushReleaseGeneric => some s.pushReleaseGeneric.2
  | .pushRecreateSynth => some s.pushRecreateSynth.2
  | .openSource info =>
    some { s with backend := { s.backend with forward := (s.backend.forward.forwardOpen info).2 } }
  | .pushEndGrab target => some (s.pushEndGrab target).2.2
  | .pushClose target now => some (s.pushClose target now)
  | .syncOwners owners => some { s with owners := owners }
  | .advanceGeneration => some { s with inputGeneration := s.inputGeneration + 1 }
  | .discardStale generation => some (s.discardStale generation)
  | .drain now opens absOpens =>
    match s.queue with
    | [] => none
    | entry :: queue =>
      some { s with queue := queue, backend := s.applyOutputAction entry now opens absOpens }
  | .maintain now => some { s with backend := s.backend.maintainOutput now }

/-- The state after `ksi_linux_synth_start`: the devices are open and nothing is held. The fate
of every later write is given. -/
def start (outcome : Nat → Option Nat) (absOpens : Bool) : OutputState :=
  { backend := {
      forward := Forward.attachSink { uinput := { outcome := outcome } } true
      uinputFd := true, uinputAbsFd := absOpens } }

end OutputState

end KeysharpInput.Output
