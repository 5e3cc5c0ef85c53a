import KeysharpInput.ClientWire
import KeysharpInput.DeviceCodec

/-!
What the client library reads from payloads.
A payload is checked for its size, its reserved fields and the ranges of its values before
anything is taken from it. Statuses, hook events, observer messages, device descriptions and
notices each have their own check.
-/

namespace KeysharpInput.Client

inductive Opcode
  | permissionsList
  | sessionRevoked
  | sessionGranted
  | keyStateEvent
  | hookEvent
  | hookQuarantined
  | observerEvent
  deriving DecidableEq

def Opcode.code : Opcode → Nat
  | .permissionsList => 0x0004
  | .sessionRevoked => 0x0006
  | .sessionGranted => 0x0007
  | .keyStateEvent => 0x0009
  | .hookEvent => 0x1002
  | .hookQuarantined => 0x1003
  | .observerEvent => 0x1030

def statusPayloadSize : Nat := 8

/-- `decode_status`: the status and whether it ends the connection. No size given stands for the
payload's own. -/
def decodeStatus (payload : List Nat) (successSize : Option Nat) : Status × Bool :=
  if payload.length < statusPayloadSize then (.internal, true)
  else if readU32 payload 0 = 0 then
    if successSize.any (· ≠ payload.length) then (.internal, true) else (.ok, false)
  else if payload.length ≠ statusPayloadSize ∧ (payload.length < statusPayloadSize + 4 ∨
        readU32 payload statusPayloadSize ≠ payload.length - statusPayloadSize - 4) then
    (.internal, true)
  else match decodeStatusCode (readU32 payload 0) with
    | some status => (status, false)
    | none => (.internal, true)

structure HookEvent where
  hookType : Nat
  requestId : Nat
  body : List Nat
  deriving DecidableEq

def hookEventPrefixSize : Nat := 8

def decodeHookEvent (payload : List Nat) (requestId : Nat) : Option HookEvent :=
  if payload.length < hookEventPrefixSize ∨ readU32 payload 4 ≠ 0 then none
  else
    let hookType := readU32 payload 0
    let body := payload.drop hookEventPrefixSize
    if (hookType = 13 ∧ body.length = 40 ∧ readU32 body 36 = 0) ∨
        (hookType = 14 ∧ body.length = 52 ∧ readU32 body 40 = 0) then
      some ⟨hookType, requestId, body⟩
    else none

/-- `KSI_MAX_HOOK_REPLACEMENTS`. -/
def maxHookReplacements : Nat := 1024

def inputWireSize : Nat := 40

/-- `ksi_hook_reply` as `send_hook_response` reads it. An input that `encode_input` rejects has no
bytes. -/
structure HookReply where
  /-- The size is right and the reserved fields are zero. -/
  wellFormed : Bool := true
  decision : Nat := 0
  inputCount : Nat := 0
  inputs : Option (List (Option (List Nat))) := none

def HookReply.encodeInputs (reply : HookReply) : Option (List Nat) :=
  ((List.range reply.inputCount).mapM fun i => (reply.inputs.getD [])[i]?.join).map List.flatten

def hookResponsePayload (status detail : Nat) (reply : HookReply) : Option (List Nat) :=
  let head := writeLe 4 status ++ writeLe 4 detail
  if status ≠ 0 then some head
  else if !reply.wellFormed || 2 < reply.decision
      || ((reply.decision == 2) != (reply.inputCount != 0))
      || maxHookReplacements < reply.inputCount
      || (reply.inputCount != 0 && reply.inputs.isNone) then none
  else reply.encodeInputs.map fun inputs =>
    head ++ writeLe 4 reply.decision ++ writeLe 4 reply.inputCount ++ inputs

inductive HookMessage
  | event (event : HookEvent)
  | quarantined (payload : List Nat)
  | sessionRevoked (scopes : BitVec 32)
  deriving DecidableEq

/-- `decode_quarantine`. -/
def quarantineIsValid (payload : List Nat) : Bool :=
  payload.length == 32 && readU32 payload 28 == 0

/-- `ksi_device_decode`, where only its answer matters. -/
def deviceIsValid (body : List Nat) : Bool :=
  (Devices.deviceDecode (fun i => UInt8.ofNat (body.getD i 0)) body.length).isSome

inductive ObserverKind
  | input
  | deviceAdded
  | deviceRemoved
  | deviceChanged
  | overflow
  | rawInput
  deriving DecidableEq

def decodeObserverKind : Nat → Option ObserverKind
  | 1 => some .input
  | 2 => some .deviceAdded
  | 3 => some .deviceRemoved
  | 4 => some .deviceChanged
  | 5 => some .overflow
  | 7 => some .rawInput
  | _ => none

structure ObserverMessage where
  kind : ObserverKind
  generation : Nat
  droppedEvents : Nat
  body : List Nat
  deriving DecidableEq

def observerPrefixSize : Nat := 24

def ObserverKind.bodyIsValid (kind : ObserverKind) (droppedEvents : Nat) (body : List Nat) : Bool :=
  match kind with
  | .input => (decodeHookEvent body 0).isSome
  | .deviceAdded | .deviceRemoved | .deviceChanged => deviceIsValid body
  | .overflow => body.length == 0 && droppedEvents != 0
  | .rawInput =>
    body.length == 32 && readU32 body 0 != 0 && readU32 body 28 == 0 && readU32 body 4 == 0

def decodeObserver (payload : List Nat) : Option ObserverMessage :=
  if payload.length < observerPrefixSize ∨ readU32 payload 4 ≠ 0 then none
  else
    let body := payload.drop observerPrefixSize
    let droppedEvents := readU64 payload 16
    (decodeObserverKind (readU32 payload 0)).bind fun kind =>
      if kind.bodyIsValid droppedEvents body then
        some ⟨kind, readU64 payload 8, droppedEvents, body⟩
      else none

inductive LeaseMessage
  | granted (scopes : BitVec 32)
  | revoked (scopes granted : BitVec 32)
  | keyboard (snapshot : Bool) (granted : BitVec 32) (payload : List Nat)
  deriving DecidableEq

def LeaseMessage.isKeyboard : LeaseMessage → Bool
  | .keyboard .. => true
  | _ => false

/-- The check of `queue_lease_event` on a keyboard state. -/
def keyStateIsValid (payload : List Nat) : Bool :=
  payload.length == 216 && (readU32 payload 0 == 3 || readU32 payload 0 == 4) &&
    readU64 payload 8 != 0 && payload.getD 23 0 == 0 && decide (payload.getD 20 0 ≤ 1) &&
    decide (payload.getD 21 0 ≤ 1) && decide (payload.getD 22 0 ≤ 1)

def decodeRevocation (payload : List Nat) : BitVec 32 :=
  if payload.length = 8 ∧ readU32 payload 4 = 0 then BitVec.ofNat 32 (readU32 payload 0) else 0

end KeysharpInput.Client
