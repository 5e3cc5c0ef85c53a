import KeysharpInput.ClientWire
import KeysharpInput.Transition

/-!
The frames that the daemon reads from a client.
A read adds to the receive buffer whatever the socket has, up to the size of the largest frame.
The frames that are complete by then are handed to the message handler and the rest is kept. The
handler is any function of the messages so far that says whether the client stays. How the reads
cut the stream decides when a message is handed over and nothing else, and what is kept never
fills the buffer.
-/

namespace KeysharpInput.Server

open Framing Transition Client List

structure FrameHeader where
  major : Nat
  minor : Nat
  opcode : Nat
  flags : Nat
  payloadLength : Nat
  requestId : Nat

/-- `KSI_OPCODE_PING`. -/
def opcodePing : Nat := 3

def frameHeaderDecode (raw : List Nat) : Option FrameHeader :=
  if raw.take 4 ≠ frameMagic then none
  else some
    { major := readU16 raw 4, minor := readU16 raw 6, opcode := readU16 raw 8
      flags := readU16 raw 10, payloadLength := readU32 raw 12, requestId := readU64 raw 16 }

/-- `ksi_protocol_frame_is_valid`. -/
def FrameHeader.isValid (header : FrameHeader) : Bool :=
  let response := header.flags.testBit 0
  let event := header.flags.testBit 1
  let more := header.flags.testBit 2
  if header.major ≠ protocolMajor ∨ header.minor ≠ protocolMinor
      ∨ maxPayloadSize < header.payloadLength ∨ 8 ≤ header.flags then false
  else if (response && event) || (more && !response) then false
  else if event then header.requestId == 0
  else if response then header.requestId != 0
  else if header.flags ≠ 0 then false
  else header.requestId != 0 || (header.opcode == opcodePing && header.payloadLength == 0)

def serverFormat : Format Nat where
  headerSize := frameHeaderSize
  headerSize_pos := wireFormat.headerSize_pos
  payloadSize raw := (frameHeaderDecode raw).bind fun header =>
    if header.isValid then some header.payloadLength else none

/-- `KSI_MAX_MESSAGE_SIZE`. -/
def maxMessageSize : Nat := 65536

/-- `KSI_MAX_CLIENT_READS_PER_PASS`. -/
def maxClientReadsPerPass : Nat := 8

section Reading

variable (handles : List (Frame Nat) → Frame Nat → Bool)

/-- The loop of `process_client_buffer_direct`; each turn consumes a header, so the size of the
buffer is enough turns. -/
def processFrames : Nat → List (Frame Nat) → List Nat → Drained Nat
  | 0, handed, buffer => .waiting handed buffer
  | turns + 1, handed, buffer =>
    if buffer.length < frameHeaderSize then .waiting handed buffer
    else match frameHeaderDecode (buffer.take frameHeaderSize) with
      | none => .stopped handed
      | some header =>
        if !header.isValid then .stopped handed
        else if header.major ≠ protocolMajor ∨ header.minor ≠ protocolMinor then .stopped handed
        else if buffer.length < frameHeaderSize + header.payloadLength then .waiting handed buffer
        else
          let message := (buffer.take frameHeaderSize,
            (buffer.drop frameHeaderSize).take header.payloadLength)
          if handles handed message then
            processFrames turns (handed ++ [message])
              (buffer.drop (frameHeaderSize + header.payloadLength))
          else .stopped (handed ++ [message])

/-- `process_client_buffer_direct`. -/
def processClientBuffer (handed : List (Frame Nat)) (buffer : List Nat) : Drained Nat :=
  processFrames handles buffer.length handed buffer

/-- What a client's connection holds: the receive buffer and what the socket still has. The
messages handed over and the bytes read are history. -/
structure Receiver where
  rxBuffer : List Nat := []
  unread : List Nat := []
  handed : List (Frame Nat) := []
  read : List Nat := []

/-- The result of a `read`. -/
inductive ReadOutcome
  /-- One byte more than the number, at most what is asked for and what there is. -/
  | bytes (more : Nat)
  | closed
  | interrupted
  | again
  | failed

inductive PassResult
  | keep
  | closed
  | failed
  | refused
  | overflow
  deriving DecidableEq

/-- `read_client_frames_direct` with the reads left of its budget. Past the outcomes given the
socket has nothing. -/
def readClientFrames : Nat → List ReadOutcome → Receiver → PassResult × Receiver
  | 0, _, r => (.keep, r)
  | _ + 1, [], r => if maxMessageSize - r.rxBuffer.length = 0 then (.overflow, r) else (.keep, r)
  | reads + 1, outcome :: outcomes, r =>
    let available := maxMessageSize - r.rxBuffer.length
    if available = 0 then (.overflow, r)
    else match outcome with
      | .closed => (.closed, r)
      | .interrupted => readClientFrames (reads + 1) outcomes r
      | .again => (.keep, r)
      | .failed => (.failed, r)
      | .bytes more =>
        let chunk := r.unread.take (min (more + 1) available)
        let taken := { r with unread := r.unread.drop chunk.length, read := r.read ++ chunk }
        if chunk = [] then (.keep, r)
        else match processClientBuffer handles r.handed (r.rxBuffer ++ chunk) with
          | .stopped handed => (.refused, { taken with handed := handed })
          | .waiting handed rest =>
            let r := { taken with handed := handed, rxBuffer := rest }
            if chunk.length < available then (.keep, r) else readClientFrames reads outcomes r

/-- A connection with the result of its last pass. Any result but `keep` ends it. -/
structure Connection where
  receiver : Receiver := {}
  result : PassResult := .keep

inductive Event
  | arrive (bytes : List Nat)
  | pass (outcomes : List ReadOutcome)

def Connection.step (s : Connection) : Event → Option Connection
  | .arrive bytes => some
      { s with receiver := { s.receiver with unread := s.receiver.unread ++ bytes } }
  | .pass outcomes =>
    if s.result = .keep then
      let (result, receiver) := readClientFrames handles maxClientReadsPerPass outcomes s.receiver
      some { receiver := receiver, result := result }
    else none

end Reading

def Connection.arrived (s : Connection) : List Nat := s.receiver.read ++ s.receiver.unread

variable {handles : List (Frame Nat) → Frame Nat → Bool}

theorem FrameHeader.version_of_isValid {header : FrameHeader} (h : header.isValid = true) :
    header.major = protocolMajor ∧ header.minor = protocolMinor ∧
      header.payloadLength ≤ maxPayloadSize := by
  unfold FrameHeader.isValid at h
  split at h
  · cases h
  · rename_i hall
    simp only [not_or, not_not, not_lt] at hall
    exact ⟨hall.1, hall.2.1, hall.2.2.1⟩

theorem payloadSize_le {raw : List Nat} {size : Nat}
    (h : serverFormat.payloadSize raw = some size) : size ≤ maxPayloadSize := by
  obtain ⟨header, -, h⟩ := Option.bind_eq_some_iff.mp h
  split at h
  · rename_i hvalid
    cases h
    exact (FrameHeader.version_of_isValid hvalid).2.2
  · cases h

theorem processFrames_eq {turns : Nat} {handed : List (Frame Nat)} {buffer : List Nat}
    (h : buffer.length ≤ turns) :
    processFrames handles turns handed buffer = serverFormat.drain handles handed buffer := by
  induction turns generalizing handed buffer with
  | zero =>
    have hshort : buffer.length < serverFormat.headerSize := by
      have hpos := serverFormat.headerSize_pos
      omega
    rw [Format.drain_of_short hshort, processFrames]
  | succ _ ih =>
    unfold processFrames
    by_cases hshort : buffer.length < frameHeaderSize
    · have hfmt : buffer.length < serverFormat.headerSize := hshort
      rw [if_pos hshort, Format.drain_of_short hfmt]
    have hfmt : ¬ buffer.length < serverFormat.headerSize := hshort
    rw [if_neg hshort]
    cases hdecode : frameHeaderDecode (buffer.take frameHeaderSize) with
    | none =>
      have hsize : serverFormat.payloadSize (buffer.take serverFormat.headerSize) = none := by
        change (frameHeaderDecode (buffer.take frameHeaderSize)).bind _ = none
        rw [hdecode]
        rfl
      rw [Format.drain_of_invalid hfmt hsize]
    | some header =>
      have hsize : serverFormat.payloadSize (buffer.take serverFormat.headerSize) =
          if header.isValid then some header.payloadLength else none := by
        change (frameHeaderDecode (buffer.take frameHeaderSize)).bind _ = _
        rw [hdecode]
        rfl
      dsimp only
      by_cases hvalid : header.isValid = true
      · obtain ⟨hmajor, hminor, -⟩ := FrameHeader.version_of_isValid hvalid
        rw [if_pos hvalid] at hsize
        simp only [hvalid, hmajor, hminor, Bool.not_true, Bool.false_eq_true, if_false, ne_eq,
          not_true, or_self]
        have hlength : (buffer.drop serverFormat.headerSize).length =
            buffer.length - frameHeaderSize := length_drop
        by_cases hpart : buffer.length < frameHeaderSize + header.payloadLength
        · rw [if_pos hpart, Format.drain_of_incomplete hfmt hsize (by omega)]
        rw [if_neg hpart, Format.drain_of_complete hfmt hsize (by omega) rfl, ih ?_, ← drop_drop]
        · rfl
        · have hpos : frameHeaderSize = 24 := rfl
          rw [length_drop]
          omega
      · rw [if_neg hvalid] at hsize
        rw [Format.drain_of_invalid hfmt hsize, Bool.eq_false_iff.mpr hvalid]
        rfl

theorem processClientBuffer_eq (handed : List (Frame Nat)) (buffer : List Nat) :
    processClientBuffer handles handed buffer = serverFormat.drain handles handed buffer :=
  processFrames_eq (Nat.le_refl _)

/-- Where a receiver stands: what it has read, consumed at once, gives the messages it has handed
over, and it keeps the rest unless it stopped. -/
structure Follows (handles : List (Frame Nat) → Frame Nat → Bool) (result : PassResult)
    (r : Receiver) : Prop where
  drained : serverFormat.drain handles [] r.read =
    if result = .refused then .stopped r.handed else .waiting r.handed r.rxBuffer
  fits : result ≠ .overflow

theorem Follows.space {result : PassResult} {r : Receiver} (h : Follows handles result r)
    (hresult : result ≠ .refused) : r.rxBuffer.length < maxMessageSize := by
  have hdrained := h.drained
  rw [if_neg hresult] at hdrained
  exact Format.length_of_drain maxPayloadSize (fun _ _ => payloadSize_le) hdrained

theorem Follows.process {r : Receiver} (h : Follows handles .keep r) (chunk : List Nat) :
    serverFormat.drain handles [] (r.read ++ chunk) =
      processClientBuffer handles r.handed (r.rxBuffer ++ chunk) := by
  have hdrained := h.drained
  rw [if_neg (by decide)] at hdrained
  rw [Format.drain_append, hdrained, processClientBuffer_eq]

theorem Follows.available {r : Receiver} (h : Follows handles .keep r) :
    ¬ maxMessageSize - r.rxBuffer.length = 0 := by
  have hspace := h.space (by decide)
  omega

theorem Follows.ends {r : Receiver} (h : Follows handles .keep r) (result : PassResult)
    (hrefused : result ≠ .refused) (hoverflow : result ≠ .overflow) : Follows handles result r := by
  have hdrained := h.drained
  rw [if_neg (by decide)] at hdrained
  exact ⟨by rw [if_neg hrefused, hdrained], hoverflow⟩

theorem Follows.readClientFrames {reads : Nat} {outcomes : List ReadOutcome} {r : Receiver}
    (h : Follows handles .keep r) :
    Follows handles (readClientFrames handles reads outcomes r).1
        (readClientFrames handles reads outcomes r).2 ∧
      (readClientFrames handles reads outcomes r).2.read ++
        (readClientFrames handles reads outcomes r).2.unread = r.read ++ r.unread := by
  induction outcomes generalizing reads r with
  | nil =>
    cases reads with
    | zero => exact ⟨h, rfl⟩
    | succ =>
      unfold Server.readClientFrames
      rw [if_neg h.available]
      exact ⟨h, rfl⟩
  | cons outcome outcomes ih =>
    cases reads with
    | zero => exact ⟨h, rfl⟩
    | succ reads =>
      unfold Server.readClientFrames
      rw [if_neg h.available]
      cases outcome with
      | closed => exact ⟨h.ends .closed nofun nofun, rfl⟩
      | interrupted => exact ih h
      | again => exact ⟨h, rfl⟩
      | failed => exact ⟨h.ends .failed nofun nofun, rfl⟩
      | bytes more =>
        dsimp only
        obtain ⟨chunk, hchunk⟩ : ∃ chunk, chunk = r.unread.take
          (min (more + 1) (maxMessageSize - r.rxBuffer.length)) := ⟨_, rfl⟩
        have hprefix : chunk ++ r.unread.drop chunk.length = r.unread := by
          have htake : chunk <+: r.unread := hchunk ▸ take_prefix _ _
          exact prefix_iff_eq_append.mp htake
        rw [← hchunk]
        split
        · exact ⟨h, rfl⟩
        have hprocess := h.process chunk
        have hsplit : r.read ++ chunk ++ r.unread.drop chunk.length = r.read ++ r.unread := by
          rw [append_assoc, hprefix]
        cases hp : processClientBuffer handles r.handed (r.rxBuffer ++ chunk) with
        | stopped =>
          exact ⟨⟨by rw [if_pos rfl, hprocess, hp], nofun⟩, hsplit⟩
        | waiting handed rest =>
          dsimp only
          obtain ⟨r', hr'⟩ : ∃ r' : Receiver, r' =
            { rxBuffer := rest, unread := r.unread.drop chunk.length, handed := handed
              read := r.read ++ chunk } := ⟨_, rfl⟩
          have hnext : Follows handles .keep r' := by
            subst hr'
            exact ⟨by rw [if_neg (by decide), hprocess, hp], by decide⟩
          have hread : r'.read ++ r'.unread = r.read ++ r.unread := by rw [hr', hsplit]
          rw [← hr']
          split
          · exact ⟨hnext, hread⟩
          · obtain ⟨hfollows, hbytes⟩ := @ih reads r' hnext
            exact ⟨hfollows, hbytes.trans hread⟩

theorem follows_of_reaches {s : Connection} (h : Reaches (Connection.step handles) always {} s) :
    Follows handles s.result s.receiver := by
  have hstart : serverFormat.drain handles [] [] = .waiting [] [] :=
    Format.drain_of_short serverFormat.headerSize_pos
  refine h.invariant (P := fun s => Follows handles s.result s.receiver) ⟨hstart, nofun⟩
    fun s e t hs _ hstep => ?_
  cases e with
  | arrive =>
    cases hstep
    exact ⟨hs.drained, hs.fits⟩
  | pass =>
    simp only [Connection.step, Option.ite_none_right_eq_some, Option.some.injEq] at hstep
    obtain ⟨hkeep, rfl⟩ := hstep
    rw [hkeep] at hs
    exact hs.readClientFrames.1

/-- In every run, however the reads cut the stream, the messages handed over are those that the
whole stream gives when it is processed at once, up to a drop or to what is still unread; and the
buffer has room. -/
theorem frames_of_stream {s : Connection} (h : Reaches (Connection.step handles) always {} s) :
    s.receiver.handed <+: (processClientBuffer handles [] s.arrived).found ∧ (s.result = .refused →
        processClientBuffer handles [] s.arrived = .stopped s.receiver.handed) ∧
      (s.result ≠ .refused → s.receiver.unread = [] →
        processClientBuffer handles [] s.arrived = .waiting s.receiver.handed s.receiver.rxBuffer) ∧
      s.result ≠ .overflow ∧
      (s.result ≠ .refused → s.receiver.rxBuffer.length < maxMessageSize) := by
  have hfollows := follows_of_reaches h
  have hdrained := hfollows.drained
  have hwhole : serverFormat.drain handles [] s.arrived = _ :=
    Format.drain_append [] s.receiver.read s.receiver.unread
  rw [processClientBuffer_eq]
  by_cases hrefused : s.result = .refused
  · rw [hdrained, if_pos hrefused] at hwhole
    rw [hwhole]
    exact ⟨prefix_rfl, fun _ => rfl, fun hne => absurd hrefused hne, hfollows.fits,
      fun hne => absurd hrefused hne⟩
  rw [if_neg hrefused] at hdrained
  rw [hdrained] at hwhole
  refine ⟨?_, fun heq => absurd heq hrefused, fun _ hread => ?_, hfollows.fits, hfollows.space⟩
  · rw [hwhole]
    exact Format.prefix_found_drain _ _
  · rw [Connection.arrived, hread, append_nil, hdrained]

def pingHeader : List Nat :=
  frameMagic ++ [3, 0, 0, 0, 3, 0, 0, 0, 0, 0, 0, 0, 1, 0, 0, 0, 0, 0, 0, 0]

theorem frames_of_stream_of_run :
    ∃ s, Reaches (Connection.step fun _ _ => true) always {} s ∧ s.receiver.unread = [] ∧
      s.receiver.handed.length = 1 ∧
      processClientBuffer (fun _ _ => true) [] s.arrived =
        .waiting s.receiver.handed s.receiver.rxBuffer := by
  let events : List Event :=
    [.arrive (pingHeader.take 10), .pass [.bytes 20], .arrive (pingHeader.drop 10 ++ [0x4b]),
      .pass [.interrupted, .bytes 3, .bytes 0], .pass [.bytes 40]]
  obtain ⟨s, hs, hread, hone, hkeep⟩ := exists_reaches (Connection.step fun _ _ => true) {} events
    (q := fun s => s.receiver.unread = [] ∧ s.receiver.handed.length = 1 ∧ s.result = .keep)
    (by decide +kernel)
  exact ⟨s, hs, hread, hone, (frames_of_stream hs).2.2.1 (by rw [hkeep]; decide) hread⟩

end KeysharpInput.Server
