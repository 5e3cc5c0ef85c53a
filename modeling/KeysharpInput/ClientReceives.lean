import KeysharpInput.ClientSends

/-!
What the client library receives.
A call that stops in the middle of a frame leaves what it has read in the connection, and the next
call that receives goes on there, whatever call it is. So the frames decoded do not depend on where
calls stopped. A header that fails its checks stays in the connection as well: every later attempt
to receive finds it again, and the socket was shut down.
-/

namespace KeysharpInput.Client

open Framing Transition List Connection Nat Bool

variable {buffer raw total : List Nat} {status : Status} {r : Receiver}

/-- What `read_incremental` does to the buffer it fills. -/
structure Fills (size : Nat) (buffer stream : List Nat) (status : Status)
    (buffer' stream' : List Nat) : Prop where
  bytes : buffer' ++ stream' = buffer ++ stream
  keeps : buffer <+: buffer'
  bounded : buffer'.length ≤ size
  full : status = .ok → buffer'.length = size
  failed : status = .ok ∨ status = .timeout ∨ status = .unavailable

theorem readIncremental_spec (size : Nat) (outcomes : List ReadOutcome) (buffer stream : List Nat)
    (h : buffer.length ≤ size) :
    Fills size buffer stream (readIncremental size outcomes buffer stream).1
      (readIncremental size outcomes buffer stream).2.1
      (readIncremental size outcomes buffer stream).2.2.1 := by
  induction outcomes generalizing buffer stream with
  | nil =>
    unfold readIncremental
    refine ⟨rfl, prefix_rfl, h, fun hok => ?_, ?_⟩ <;> dsimp only at *
    · split at hok
      · omega
      · cases hok
    · split <;> simp
  | cons outcome outcomes ih =>
    unfold readIncremental
    split
    · rename_i hfull
      exact ⟨rfl, prefix_rfl, h, fun _ => le_antisymm h hfull, .inl rfl⟩
    cases outcome with
    | bytes more =>
      have hlength : (buffer ++ stream.take (min (more + 1) (size - buffer.length))).length
          ≤ size := by
        rw [length_append, length_take]
        omega
      obtain ⟨hbytes, hkeeps, hbounded, hfull, hfailed⟩ :=
        ih _ (stream.drop (min (more + 1) (size - buffer.length))) hlength
      refine ⟨?_, (prefix_append _ _).trans hkeeps, hbounded, hfull, hfailed⟩
      rw [hbytes, append_assoc, take_append_drop]
    | interrupted | ready => exact ih buffer stream h
    | timeout => exact ⟨rfl, prefix_rfl, h, (nomatch ·), .inr (.inl rfl)⟩
    | failed => exact ⟨rfl, prefix_rfl, h, (nomatch ·), .inr (.inr rfl)⟩

theorem Fills.same {size : Nat} {stream buffer' stream' : List Nat}
    (h : Fills size buffer stream status buffer' stream') (hfull : buffer.length = size) :
    buffer' = buffer ∧ stream' = stream := by
  have hlength : buffer.length = buffer'.length :=
    le_antisymm h.keeps.length_le (by rw [hfull]; exact h.bounded)
  obtain rfl := h.keeps.eq_of_length hlength
  exact ⟨rfl, append_cancel_left h.bytes⟩

/-- A receiver stands in the middle of a stream; it has part of a payload only with a valid
header for it. -/
structure Receiver.Stands (total : List Nat) (r : Receiver) : Prop where
  resumes : Resumes wireFormat total r.decoded r.rxHeader r.rxPayload r.stream
  header : r.rxHeader.length ≤ frameHeaderSize
  payload : r.rxPayload ≠ [] → r.rxHeader.length = frameHeaderSize ∧
    ∃ header, decodeHeader r.rxHeader = .ok header ∧ r.rxPayload.length ≤ header.payloadSize

/-- What `receive_frame` does: it stops in the middle of a frame, at a header that fails its
checks, or with the next frame. -/
inductive Receiver.Receives (r : Receiver) : Except Status (WireHeader × List Nat) → Receiver → Prop
  | stops {status : Status} {r' : Receiver} (hstatus : status = .timeout ∨ status = .unavailable)
      (hdecoded : r'.decoded = r.decoded) : Receives r (.error status) r'
  | invalid {status : Status} {r' : Receiver} (hstatus : decodeHeader r'.rxHeader = .error status)
      (hinvalid : r'.headerInvalid = true) (hdecoded : r'.decoded = r.decoded) :
      Receives r (.error status) r'
  | frame {header : WireHeader} {payload : List Nat} {r' : Receiver} {raw : List Nat}
      (hheader : decodeHeader raw = .ok header)
      (hdecoded : r'.decoded = r.decoded ++ [(raw, payload)])
      (hvalid : r'.headerInvalid = false) : Receives r (.ok (header, payload)) r'

theorem headerInvalid_of_length (hlength : r.rxHeader.length = frameHeaderSize)
    (h : decodeHeader r.rxHeader = .error status) : r.headerInvalid = true := by
  simp [Receiver.headerInvalid, hlength, h, Except.toOption]

theorem wireFormat_valid {payload : List Nat} {header : WireHeader}
    (hlength : raw.length = frameHeaderSize) (hheader : decodeHeader raw = .ok header)
    (hpayload : payload.length = header.payloadSize) : wireFormat.Valid (raw, payload) := by
  refine ⟨hlength, ?_⟩
  simp [wireFormat, hheader, hpayload, Except.toOption]

theorem Receiver.Stands.receiveFrame (h : r.Stands total) (outcomes : List ReadOutcome) :
    (r.receiveFrame outcomes).2.Stands total ∧
      r.Receives (r.receiveFrame outcomes).1 (r.receiveFrame outcomes).2 := by
  have hfirst := readIncremental_spec frameHeaderSize outcomes r.rxHeader r.stream h.header
  unfold Receiver.receiveFrame
  dsimp only
  generalize readIncremental frameHeaderSize outcomes r.rxHeader r.stream = first at hfirst ⊢
  obtain ⟨status, rxHeader, stream, outcomes'⟩ := first
  -- Part of a payload can only be there with the whole header, which is then left alone.
  have hstands : Receiver.Stands total { r with rxHeader := rxHeader, stream := stream } := by
    by_cases hpayload : r.rxPayload = []
    · have hresumes := h.resumes
      rw [hpayload] at hresumes
      refine ⟨?_, hfirst.bounded, fun hne => absurd hpayload hne⟩
      rw [hpayload]
      exact hresumes.readHeader hfirst.bytes
    · obtain ⟨rfl, rfl⟩ := hfirst.same (h.payload hpayload).1
      exact h
  by_cases hstatus : status = .ok
  swap
  · rw [if_pos hstatus]
    exact ⟨hstands, .stops (hfirst.failed.resolve_left hstatus) rfl⟩
  rw [if_neg (by simpa using hstatus)]
  have hlength := hfirst.full hstatus
  split
  · rename_i status' hdecode
    exact ⟨hstands, .invalid hdecode (headerInvalid_of_length hlength hdecode) rfl⟩
  rename_i header hdecode
  have hroom : r.rxPayload.length ≤ header.payloadSize := by
    by_cases hpayload : r.rxPayload = []
    · simp [hpayload]
    · obtain ⟨-, header', hdecode', hle⟩ := hstands.payload hpayload
      obtain rfl := Except.ok.inj (hdecode.symm.trans hdecode')
      exact hle
  have hsecond := readIncremental_spec header.payloadSize outcomes' r.rxPayload stream hroom
  generalize readIncremental header.payloadSize outcomes' r.rxPayload stream = second at hsecond ⊢
  obtain ⟨status', _, _, _⟩ := second
  have hresumes := hstands.resumes.readPayload hsecond.bytes
  by_cases hstatus' : status' = .ok
  · rw [if_neg (by simpa using hstatus')]
    have hvalid := wireFormat_valid hlength hdecode (hsecond.full hstatus')
    refine ⟨⟨hresumes.complete hvalid, zero_le _, fun hne => absurd rfl hne⟩, ?_⟩
    exact .frame hdecode rfl rfl
  · rw [if_pos hstatus']
    refine ⟨⟨hresumes, hfirst.bounded, fun _ => ⟨hlength, header, hdecode, hsecond.bounded⟩⟩, ?_⟩
    exact .stops (hsecond.failed.resolve_left hstatus') rfl

theorem readIncremental_full {size : Nat} (h : size ≤ buffer.length) (outcomes : List ReadOutcome)
    (stream : List Nat) :
    readIncremental size outcomes buffer stream = (.ok, buffer, stream, outcomes) := by
  cases outcomes with
  | nil => rw [readIncremental, if_pos h]
  | cons =>
    unfold readIncremental
    rw [if_pos h]

theorem decodeHeader_ne_ok (h : decodeHeader raw = .error status) : status ≠ .ok := by
  unfold decodeHeader at h
  split at h
  · obtain rfl := Except.error.inj h
    decide
  dsimp only at h
  split at h
  · obtain rfl := Except.error.inj h
    decide
  · cases h

theorem Receiver.receiveFrame_headerInvalid (h : r.headerInvalid = true)
    (outcomes : List ReadOutcome) :
    ∃ status, status ≠ .ok ∧ r.receiveFrame outcomes = (.error status, r) := by
  simp only [Receiver.headerInvalid, and_eq_true, decide_eq_true_eq] at h
  obtain ⟨hlength, hinvalid⟩ := h
  cases hdecode : decodeHeader r.rxHeader with
  | error status =>
    refine ⟨status, decodeHeader_ne_ok hdecode, ?_⟩
    unfold Receiver.receiveFrame
    simp [readIncremental_full hlength, hdecode]
  | ok => simp [hdecode, Except.toOption] at hinvalid

namespace Connection

variable {c d : Connection} {status : Status} {e : Event} {total : List Nat}

def OnlyBuffered (c d : Connection) : Prop :=
  ∃ more, d.returned = c.returned ++ more ∧ ∀ r ∈ more, r.status ≠ .ok ∨ r.buffered = true

theorem OnlyBuffered.of_eq (h : d.returned = c.returned) : OnlyBuffered c d :=
  ⟨[], by rw [h, append_nil], fun _ hr => absurd hr not_mem_nil⟩

theorem OnlyBuffered.of_return {r : Return} (h : d.returned = c.returned ++ [r])
    (hr : r.status ≠ .ok ∨ r.buffered = true) : OnlyBuffered c d :=
  ⟨[r], h, fun _ hmem => by rwa [mem_singleton.mp hmem]⟩

theorem OnlyBuffered.trans {e : Connection} (h : OnlyBuffered c d) (h' : OnlyBuffered d e) :
    OnlyBuffered c e := by
  obtain ⟨more, heq, hmore⟩ := h
  obtain ⟨more', heq', hmore'⟩ := h'
  refine ⟨more ++ more', by rw [heq', heq, append_assoc], fun r hr => ?_⟩
  exact (mem_append.mp hr).elim (hmore r) (hmore' r)

theorem returned_sendFrame (c : Connection) (frame : OutFrame) (writes : List WriteOutcome) :
    (c.sendFrame frame writes).2.returned = c.returned := by
  unfold sendFrame
  split
  · rfl
  split <;> rfl

theorem returned_nextRequestId (c : Connection) : c.nextRequestId.2.returned = c.returned := by
  unfold nextRequestId
  split <;> rfl

section

variable (hc : c.shutdown = true)

include hc

theorem sendHookResponse_closed (requestId status detail : Nat)
    (reply : HookReply) (writes : List WriteOutcome) :
    (c.sendHookResponse requestId status detail reply writes).1 ≠ .ok ∧
      (c.sendHookResponse requestId status detail reply writes).2.returned = c.returned := by
  unfold sendHookResponse
  split
  · exact ⟨(nomatch ·), rfl⟩
  split
  · exact ⟨(nomatch ·), rfl⟩
  · obtain ⟨_, hsends⟩ := sendFrame_spec c _ writes
    exact ⟨(hsends.closed hc).2, returned_sendFrame c _ _⟩

theorem onlyBuffered_respond (requestId status detail : Nat)
    (reply : HookReply) (writes : List WriteOutcome) :
    OnlyBuffered c (c.respond requestId status detail reply writes) := by
  obtain ⟨hstatus, hreturned⟩ := sendHookResponse_closed hc requestId status detail reply writes
  unfold respond
  dsimp only
  rw [if_neg hstatus]
  exact .of_return (congrArg (· ++ [_]) hreturned) (.inl hstatus)

theorem onlyBuffered_replyEvent (requestId : Nat) (reply : HookReply)
    (writes : List WriteOutcome) : OnlyBuffered c (c.replyEvent requestId reply writes) := by
  obtain ⟨hstatus, hreturned⟩ := sendHookResponse_closed hc requestId 0 0 reply writes
  exact .of_return (congrArg (· ++ [_]) hreturned) (.inl hstatus)

theorem onlyBuffered_beginRequest (opcode : Nat) (payload : List Nat)
    (kind : Awaiting) (writes : List WriteOutcome) :
    OnlyBuffered c (c.beginRequest opcode payload kind writes) := by
  obtain ⟨_, hsends⟩ := sendFrame_spec c.nextRequestId.2
    ⟨opcode, 0, c.nextRequestId.1, payload⟩ writes
  have hstatus := (hsends.closed ((silent_nextRequestId c).shutdown hc)).2
  have hreturned := (returned_sendFrame c.nextRequestId.2
    ⟨opcode, 0, c.nextRequestId.1, payload⟩ writes).trans (returned_nextRequestId c)
  unfold beginRequest
  dsimp only
  rw [if_neg hstatus]
  split <;> exact .of_return (congrArg (· ++ [_]) hreturned) (.inl hstatus)

end

theorem onlyBuffered_answer {buffered : Bool} (h : status ≠ .ok ∨ buffered = true) :
    OnlyBuffered c (c.answer status buffered) :=
  .of_return rfl h

theorem onlyBuffered_start (h : c.start e = some d) (hc : c.shutdown = true) :
    OnlyBuffered c d := by
  cases e with
  | request spec writes | permissionsList writes =>
    cases h
    split
    · exact onlyBuffered_answer (.inl (by decide))
    · exact onlyBuffered_beginRequest hc _ _ _ _
  | devicesList =>
    cases h
    exact onlyBuffered_beginRequest hc _ _ _ _
  | setNestedHookHandler present | setDeviceChangeHandler present =>
    cases h
    split
    · exact onlyBuffered_answer (.inl (by decide))
    · exact .of_eq rfl
  | hookNext =>
    cases h
    split
    · exact onlyBuffered_answer (.inl (by decide))
    split
    · exact onlyBuffered_answer (.inl (by decide))
    split
    · rename_i c₁ hpop
      have hsame := congrArg Wire.returned (wire_popNotification hpop)
      exact .of_return (congrArg (· ++ [_]) hsame) (.inr rfl)
    · exact .of_eq rfl
  | leaseNext =>
    cases h
    split
    · exact onlyBuffered_answer (.inl (by decide))
    split
    · exact .of_return rfl (.inr rfl)
    · exact .of_eq rfl
  | observerNext =>
    cases h
    split
    · exact onlyBuffered_answer (.inl (by decide))
    split
    · rename_i htake
      have hsame := congrArg Wire.returned (wire_takeObserver htake)
      exact .of_return (congrArg (· ++ [_]) hsame) (.inr rfl)
    · exact .of_eq rfl
  | hookReplyEvent requestId reply writes =>
    cases h
    split
    · exact onlyBuffered_answer (.inl (by decide))
    · exact onlyBuffered_replyEvent hc requestId reply writes
  | receive | expire | handlerReturns => cases h

def Ends (c : Connection) : Prop := c.shutdown = true ∧ c.receiver.headerInvalid = true

theorem onlyBuffered_receiveFailed (c : Connection) (call : Activity) (h : status ≠ .ok) :
    OnlyBuffered c (c.receiveFailed call status) := by
  unfold receiveFailed
  split
  · split <;> exact .of_return rfl (.inl h)
  · exact .of_return rfl (.inl h)

theorem Ends.receiveFrame (hc : Ends c) (reads : List ReadOutcome) :
    (∃ status, status ≠ .ok ∧ (c.receiveFrame reads).1 = .error status) ∧
      (c.receiveFrame reads).2.receiver = c.receiver := by
  obtain ⟨status, hstatus, heq⟩ := Receiver.receiveFrame_headerInvalid hc.2 reads
  unfold Connection.receiveFrame
  rw [heq]
  exact ⟨⟨status, hstatus, rfl⟩, rfl⟩

theorem Ends.step (hc : Ends c) (h : c.step e = some d) :
    d.receiver = c.receiver ∧ d.sent = c.sent ∧ Ends d ∧ OnlyBuffered c d := by
  have hreceiver : d.receiver = c.receiver := by
    obtain ⟨_, hbegins, hemits⟩ := emits_step h
    refine hemits.receiver.trans ?_
    obtain ⟨_, rfl | ⟨reads, rfl⟩, hwire⟩ := hbegins
    · exact congrArg Wire.receiver hwire
    · exact (congrArg Wire.receiver hwire).trans (hc.receiveFrame reads).2
  obtain ⟨hshutdown, hsent⟩ := sent_step_closed h hc.1
  refine ⟨hreceiver, hsent, ⟨hshutdown, by rw [hreceiver]; exact hc.2⟩, ?_⟩
  obtain ⟨reads, goOn, writes, rfl, h⟩ | ⟨_, _, _, _, -, rfl, rfl⟩ |
    ⟨_, _, _, _, _, _, -, rfl, rfl⟩ | ⟨-, h⟩ := step_cases h
  · obtain ⟨⟨_, hstatus, herror⟩, -⟩ := hc.receiveFrame reads
    obtain ⟨call, rest, -, -, ⟨status', heq, rfl⟩ | ⟨header, payload, heq, -⟩⟩ := receive_cases h
    · obtain rfl := Except.error.inj (herror.symm.trans heq)
      exact onlyBuffered_receiveFailed (c.receiveFrame reads).2 call hstatus
    · cases herror.symm.trans heq
  · exact .of_return rfl (.inl (by decide))
  · refine OnlyBuffered.trans ?_ (onlyBuffered_respond ?_ _ _ _ _ _)
    · exact .of_eq rfl
    · exact hc.1
  · exact onlyBuffered_start h hc.1

structure Stands (total : List Nat) (c : Connection) : Prop where
  receiver : c.receiver.Stands total
  ended : c.receiver.headerInvalid = true → c.shutdown = true

theorem Stands.begins (hc : Stands total c) (h : Begins c d) : Stands total d := by
  obtain ⟨c₁, hbegins, hwire⟩ := h
  have hreceiver : d.receiver = c₁.receiver := congrArg Wire.receiver hwire
  have hshutdown : d.shutdown = c₁.shutdown := congrArg Wire.shutdown hwire
  constructor <;> rw [hreceiver]
  · obtain rfl | ⟨reads, rfl⟩ := hbegins
    · exact hc.receiver
    · exact (hc.receiver.receiveFrame reads).1
  rw [hshutdown]
  obtain rfl | ⟨_, rfl⟩ := hbegins
  · exact hc.ended
  · intro hinvalid
    simp only [receiveFrame, or_eq_true] at hinvalid ⊢
    exact .inr hinvalid

theorem Stands.step (hc : Stands total c) (h : c.step e = some d) : Stands total d := by
  obtain ⟨_, hbegins, hemits⟩ := emits_step h
  have hc₁ := hc.begins hbegins
  refine ⟨by rw [hemits.receiver]; exact hc₁.receiver, fun hinvalid => ?_⟩
  rw [hemits.receiver] at hinvalid
  exact (hemits.closed (hc₁.ended hinvalid)).1

end Connection

theorem Receiver.Stands.parse_headerInvalid (h : r.Stands total)
    (hinvalid : r.headerInvalid = true) : wireFormat.parse total = r.decoded := by
  simp only [Receiver.headerInvalid, and_eq_true, decide_eq_true_eq] at hinvalid
  have hlength : r.rxHeader.length = wireFormat.headerSize := le_antisymm h.header hinvalid.1
  have hnone : wireFormat.payloadSize r.rxHeader = none := by
    simp [wireFormat, Option.isNone_iff_eq_none.mp hinvalid.2]
  rw [h.resumes.parse_eq, append_assoc, Format.parse_of_invalid hlength hnone, append_nil]

theorem stands_connect (role : Session.ConnectionRole) (stream : List Nat) :
    (connect role stream).Stands stream where
  receiver := ⟨Resumes.start _ _, zero_le _, fun hne => absurd rfl hne⟩
  ended := fun hinvalid => by cases hinvalid

/-- Whatever calls read it, the frames decoded are the first frames of the stream and the others
are still to come. Once a header has failed its checks nothing is decoded or sent any more, and
calls return with a failure or with a message that was buffered. -/
theorem received_frames {role : Session.ConnectionRole} {stream : List Nat} {c : Connection}
    (h : Reaches step always (connect role stream) c) :
    wireFormat.parse stream = c.receiver.decoded ++
      wireFormat.parse (c.receiver.rxHeader ++ c.receiver.rxPayload ++ c.receiver.stream) ∧
    (c.receiver.headerInvalid = true → wireFormat.parse stream = c.receiver.decoded ∧
      ∀ d, Reaches step always c d →
        d.receiver = c.receiver ∧ d.sent = c.sent ∧ c.OnlyBuffered d) := by
  have hstands : c.Stands stream := h.invariant
    (stands_connect role stream) fun _ _ _ hc _ hstep => hc.step hstep
  refine ⟨hstands.receiver.resumes.parse_eq, fun hinvalid => ?_⟩
  refine ⟨hstands.receiver.parse_headerInvalid hinvalid, fun d hd => ?_⟩
  have hends := hd.invariant
    (P := fun d => d.receiver = c.receiver ∧ d.sent = c.sent ∧ d.Ends ∧ c.OnlyBuffered d)
    ⟨rfl, rfl, ⟨hstands.ended hinvalid, hinvalid⟩, .of_eq rfl⟩ fun s _ t hs _ hstep => ?_
  · exact ⟨hends.1, hends.2.1, hends.2.2.2⟩
  · obtain ⟨hreceiver, hsent, hended, hbuffered⟩ := hs
    obtain ⟨hreceiver', hsent', hended', hbuffered'⟩ := hended.step hstep
    exact ⟨hreceiver'.trans hreceiver, hsent'.trans hsent, hended', hbuffered.trans hbuffered'⟩

def quarantineFrame : List Nat :=
  OutFrame.bytes ⟨Opcode.hookQuarantined.code, 2, 0, replicate 32 0⟩

def splitReads : List Event :=
  [.hookNext, .receive [.bytes 9, .timeout] (fun _ => true) [], .request ksiPing [],
    .receive [.bytes 3, .interrupted, .bytes 40, .bytes 11, .ready, .bytes 40] (fun _ => true) []]

theorem received_frames_split : ∃ c,
    Reaches step always (connect .callbackStream quarantineFrame) c ∧
      c.receiver.decoded.length = 1 ∧ wireFormat.parse quarantineFrame = c.receiver.decoded ++
        wireFormat.parse (c.receiver.rxHeader ++ c.receiver.rxPayload ++ c.receiver.stream) := by
  obtain ⟨c, hc, hone⟩ := exists_reaches step (connect .callbackStream quarantineFrame) splitReads
    (q := fun c : Connection => c.receiver.decoded.length = 1) (by decide +kernel)
  exact ⟨c, hc, hone, (received_frames hc).1⟩

def noticeBeforeInvalid : List Event :=
  [.request ksiPing [], .receive [.bytes 40, .bytes 40] (fun _ => true) [],
    .receive [.bytes 40] (fun _ => true) []]

/-- The wait for hooks after that returns the notice. -/
theorem notice_after_invalid_header : ∃ c d, Reaches step always
        (connect .callbackStream (quarantineFrame ++ replicate 24 0)) c ∧
      c.receiver.headerInvalid = true ∧ c.step .hookNext = some d ∧
      d.returned = c.returned ++ [⟨.ok, true⟩] := by
  obtain ⟨c, hc, hinvalid, hnext⟩ := exists_reaches step
    (connect .callbackStream (quarantineFrame ++ replicate 24 0)) noticeBeforeInvalid
    (q := fun c : Connection => c.receiver.headerInvalid ∧
      (c.step .hookNext).any fun d => d.returned = c.returned ++ [⟨.ok, true⟩]) (by decide +kernel)
  obtain ⟨d, hd, hreturned⟩ := (Option.any_eq_true _ _).mp hnext
  exact ⟨c, d, hc, hinvalid, hd, of_decide_eq_true hreturned⟩

end KeysharpInput.Client
