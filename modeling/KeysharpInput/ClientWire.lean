import KeysharpInput.Framing
import KeysharpInput.Session

/-!
The client library's side of the wire.
Bytes are natural numbers and integers are little endian. A call that reads or writes is given
the outcomes of its system calls, so it may stop anywhere: in the middle of a header or of a
payload, at a timeout or an error. What was read of a frame stays in the connection, and every
byte handed to the socket is kept as history.
-/

namespace KeysharpInput.Client

open Framing

inductive Status
  | ok
  | denied
  | unsupported
  | invalidRequest
  | unavailable
  | busy
  | notFound
  | resourceExhausted
  | timeout
  | cancelled
  | revoked
  | internal
  deriving DecidableEq, Repr

def decodeStatusCode : Nat → Option Status
  | 0 => some .ok
  | 1 => some .denied
  | 2 => some .unsupported
  | 3 => some .invalidRequest
  | 4 => some .unavailable
  | 5 => some .busy
  | 6 => some .notFound
  | 7 => some .resourceExhausted
  | 8 => some .timeout
  | 9 => some .cancelled
  | 10 => some .revoked
  | 255 => some .internal
  | _ => none

def writeLe : Nat → Nat → List Nat
  | 0, _ => []
  | count + 1, value => value % 256 :: writeLe count (value / 256)

def readLe : List Nat → Nat
  | [] => 0
  | byte :: bytes => byte + 256 * readLe bytes

def readU16 (bytes : List Nat) (offset : Nat) : Nat := readLe ((bytes.drop offset).take 2)

def readU32 (bytes : List Nat) (offset : Nat) : Nat := readLe ((bytes.drop offset).take 4)

def readU64 (bytes : List Nat) (offset : Nat) : Nat := readLe ((bytes.drop offset).take 8)

def frameHeaderSize : Nat := 24

/-- `KSI_MAX_PAYLOAD_SIZE`. -/
def maxPayloadSize : Nat := 65536 - frameHeaderSize

def protocolMajor : Nat := 3

def protocolMinor : Nat := 0

/-- The text `KSIP`. -/
def frameMagic : List Nat := [0x4b, 0x53, 0x49, 0x50]

structure WireHeader where
  opcode : Nat
  flags : Nat
  payloadSize : Nat
  requestId : Nat
  deriving DecidableEq

namespace WireHeader

variable (header : WireHeader)

/-- `KSI_FRAME_FLAG_RESPONSE`. -/
def response : Bool := header.flags.testBit 0

/-- `KSI_FRAME_FLAG_EVENT`. -/
def event : Bool := header.flags.testBit 1

/-- `KSI_FRAME_FLAG_MORE`. -/
def more : Bool := header.flags.testBit 2

/-- `wire_header_is_valid`. -/
def isValid : Bool :=
  if 8 ≤ header.flags || (header.response && header.event) || (header.more && !header.response) then
    false
  else if header.event then header.requestId == 0
  else if header.response then header.requestId != 0
  else header.flags == 0 && header.requestId != 0

/-- The header that `send_frame` builds. -/
def encode : List Nat :=
  frameMagic ++ writeLe 2 protocolMajor ++ writeLe 2 protocolMinor ++ writeLe 2 header.opcode ++
    writeLe 2 header.flags ++ writeLe 4 header.payloadSize ++ writeLe 8 header.requestId

end WireHeader

/-- The checks of `receive_frame` on a complete header, with the status they fail with. -/
def decodeHeader (raw : List Nat) : Except Status WireHeader :=
  if raw.take 4 ≠ frameMagic ∨ readU16 raw 4 ≠ protocolMajor ∨ readU16 raw 6 ≠ protocolMinor then
    .error .unsupported
  else
    let header : WireHeader :=
      { opcode := readU16 raw 8, flags := readU16 raw 10, payloadSize := readU32 raw 12
        requestId := readU64 raw 16 }
    if maxPayloadSize < header.payloadSize || !header.isValid then .error .internal
    else .ok header

def wireFormat : Format Nat where
  headerSize := frameHeaderSize
  headerSize_pos := by decide
  payloadSize raw := (decodeHeader raw).toOption.map (·.payloadSize)

structure OutFrame where
  opcode : Nat
  flags : Nat
  requestId : Nat
  payload : List Nat
  deriving DecidableEq

def OutFrame.bytes (frame : OutFrame) : List Nat :=
  WireHeader.encode
    { opcode := frame.opcode, flags := frame.flags, payloadSize := frame.payload.length
      requestId := frame.requestId } ++ frame.payload

/-- One turn of the loop of `write_all`: the result of `send`, or of the wait after it. -/
inductive WriteOutcome
  /-- One byte more than the number, or what is left. -/
  | wrote (more : Nat)
  | interrupted
  /-- The socket was full and became writable. -/
  | ready
  | timeout
  /-- `send` or `poll` failed. -/
  | failed
  deriving DecidableEq

/-- `write_all`: the status, the bytes written and the outcomes left. Past the outcomes given,
everything is written. -/
def writeAll : List WriteOutcome → List Nat → Status × List Nat × List WriteOutcome
  | outcomes, [] => (.ok, [], outcomes)
  | [], bytes => (.ok, bytes, [])
  | .wrote more :: outcomes, bytes =>
    let (status, written, rest) := writeAll outcomes (bytes.drop (more + 1))
    (status, bytes.take (more + 1) ++ written, rest)
  | .interrupted :: outcomes, bytes => writeAll outcomes bytes
  | .ready :: outcomes, bytes => writeAll outcomes bytes
  | .timeout :: outcomes, _ => (.timeout, [], outcomes)
  | .failed :: outcomes, _ => (.unavailable, [], outcomes)

/-- One turn of the loop of `read_incremental`. -/
inductive ReadOutcome
  /-- One byte more than the number, at most what is asked for and what there is. -/
  | bytes (more : Nat)
  | interrupted
  | ready
  | timeout
  /-- The service closed the connection, or `read` or `poll` failed. -/
  | failed
  deriving DecidableEq

/-- `read_incremental`: the status, what was read so far, what is left of the stream and the
outcomes left. -/
def readIncremental (size : Nat) :
    List ReadOutcome → List Nat → List Nat → Status × List Nat × List Nat × List ReadOutcome
  | [], buffer, stream => (if size ≤ buffer.length then .ok else .timeout, buffer, stream, [])
  | outcome :: outcomes, buffer, stream =>
    if size ≤ buffer.length then (.ok, buffer, stream, outcome :: outcomes)
    else match outcome with
      | .bytes more =>
        let count := min (more + 1) (size - buffer.length)
        readIncremental size outcomes (buffer ++ stream.take count) (stream.drop count)
      | .interrupted => readIncremental size outcomes buffer stream
      | .ready => readIncremental size outcomes buffer stream
      | .timeout => (.timeout, buffer, stream, outcomes)
      | .failed => (.unavailable, buffer, stream, outcomes)

/-- The receiving part of a connection, with what the service has sent and the client has not
read. The frames decoded so far are history. -/
structure Receiver where
  stream : List Nat
  rxHeader : List Nat := []
  rxPayload : List Nat := []
  decoded : List (Frame Nat) := []

/-- `receive_frame`: a frame or a status. -/
def Receiver.receiveFrame (r : Receiver) (outcomes : List ReadOutcome) :
    Except Status (WireHeader × List Nat) × Receiver :=
  let (status, rxHeader, stream, outcomes) :=
    readIncremental frameHeaderSize outcomes r.rxHeader r.stream
  let r := { r with rxHeader := rxHeader, stream := stream }
  if status ≠ .ok then (.error status, r)
  else match decodeHeader rxHeader with
    | .error status => (.error status, r)
    | .ok header =>
      let (status, rxPayload, stream, _) :=
        readIncremental header.payloadSize outcomes r.rxPayload r.stream
      let r := { r with rxPayload := rxPayload, stream := stream }
      if status ≠ .ok then (.error status, r)
      else (.ok (header, rxPayload),
        { r with rxHeader := [], rxPayload := [], decoded := r.decoded ++ [(rxHeader, rxPayload)] })

def Receiver.headerInvalid (r : Receiver) : Bool :=
  frameHeaderSize ≤ r.rxHeader.length && (decodeHeader r.rxHeader).toOption.isNone

end KeysharpInput.Client
