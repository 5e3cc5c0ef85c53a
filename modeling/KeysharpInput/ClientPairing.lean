import KeysharpInput.ClientReceives

/-!
Requests and their responses.
The calls in progress say which responses and which replies are still owed: each waiting request
its response, each running handler the reply to its hook event. A call that returns with an error
has to read its response or end the connection. It does neither when the reply to a hook event
that came meanwhile is refused or runs out of time.
-/

namespace KeysharpInput.Client

open Transition List Connection

variable {calls : List Activity}

def awaited (calls : List Activity) : List Nat :=
  calls.filterMap fun
    | .awaiting _ requestId _ => some requestId
    | _ => none

def handled (calls : List Activity) : List Nat :=
  calls.filterMap fun
    | .handling requestId => some requestId
    | _ => none

def Numbered (calls : List Activity) : Prop :=
  ∀ requestId, .handling requestId ∈ calls → requestId ≠ 0

theorem Numbered.tail (h : Numbered calls) : Numbered calls.tail :=
  fun requestId hmem => h requestId (mem_of_mem_tail hmem)

theorem Numbered.cons {call : Activity} (h : Numbered calls)
    (hcall : ∀ requestId, call = .handling requestId → requestId ≠ 0) :
    Numbered (call :: calls) := by
  intro requestId hmem
  obtain heq | hmem := mem_cons.mp hmem
  · exact hcall requestId heq.symm
  · exact h requestId hmem

/-- A reply that `send_hook_response` sends. -/
def answerable (status detail : Nat) (reply : HookReply) : Bool :=
  (hookResponsePayload status detail reply).any (·.length ≤ maxPayloadSize)

namespace Connection

variable {c d : Connection} {calls : List Activity} {writes : List WriteOutcome}
  {requestId status detail opcode : Nat} {reply : HookReply} {header : WireHeader}
  {payload : List Nat} {rest : List Activity} {goOn : Nat → Bool} {call : Activity}

def usable (c : Connection) : Bool := !c.shutdown && !c.broken

def Owes (c : Connection) (calls : List Activity) : Prop :=
  c.usable = true → c.unread = awaited calls ∧ c.unanswered = handled calls

structure Paired (c : Connection) : Prop where
  owes : c.Owes c.calls
  numbered : Numbered c.calls

theorem owes_of_shutdown (h : c.shutdown = true) : c.Owes calls := by
  intro husable
  simp [usable, h] at husable

theorem owes_of_broken (h : c.broken = true) : c.Owes calls := by
  intro husable
  simp [usable, h] at husable

structure Carries (c d : Connection) : Prop where
  unread : d.unread = c.unread
  unanswered : d.unanswered = c.unanswered
  usable : d.usable = true → c.usable = true
  calls : d.calls = c.calls

theorem Owes.carries (hc : c.Owes calls) (h : Carries c d) : d.Owes calls := by
  intro husable
  rw [h.unread, h.unanswered]
  exact hc (h.usable husable)

theorem Paired.carries (hc : Paired c) (h : Carries c d) : Paired d := by
  refine ⟨?_, ?_⟩ <;> rw [h.calls]
  · exact hc.owes.carries h
  · exact hc.numbered

theorem carries_of_wire (h : d.wire = c.wire) : Carries c d := by
  have hshutdown : d.shutdown = c.shutdown := congrArg Wire.shutdown h
  have hbroken : d.broken = c.broken := congrArg Wire.broken h
  refine ⟨congrArg Wire.unread h, congrArg Wire.unanswered h, fun husable => ?_,
    congrArg Wire.calls h⟩
  rwa [usable, hshutdown, hbroken] at husable

theorem Carries.trans {e : Connection} (h : Carries c d) (h' : Carries d e) : Carries c e :=
  ⟨h'.unread.trans h.unread, h'.unanswered.trans h.unanswered,
    fun husable => h.usable (h'.usable husable), h'.calls.trans h.calls⟩

theorem carries_answer (c : Connection) (status : Status) (buffered : Bool) :
    Carries c (c.answer status buffered) :=
  ⟨rfl, rfl, id, rfl⟩

theorem paired_finish (h : c.Owes c.calls.tail) (hnumbered : Numbered c.calls)
    (status : Status) : Paired (c.finish status) :=
  ⟨h, hnumbered.tail⟩

theorem paired_fail (hnumbered : Numbered c.calls) (status : Status) :
    Paired (c.terminalFailure.finish status) :=
  ⟨owes_of_shutdown rfl, hnumbered.tail⟩

theorem writeAll_fails (outcomes : List WriteOutcome) (bytes : List Nat) (h : .timeout ∉ outcomes)
    (hstatus : (writeAll outcomes bytes).1 ≠ .ok) : (writeAll outcomes bytes).1 = .unavailable := by
  obtain ⟨o, ho, hstops⟩ := any_eq_true.mp (writeAll_stops outcomes bytes hstatus)
  cases o with
  | timeout => exact absurd ho h
  | failed => exact (Option.some.inj (beq_iff_eq.mp hstops)).symm
  | wrote | interrupted | ready => cases beq_iff_eq.mp hstops

theorem carries_sendFrame (c : Connection) (frame : OutFrame) (writes : List WriteOutcome) :
    Carries c (c.sendFrame frame writes).2 := by
  unfold sendFrame
  split
  · exact ⟨rfl, rfl, id, rfl⟩
  split
  · exact ⟨rfl, rfl, fun h => by simp [usable] at h, rfl⟩
  · refine ⟨rfl, rfl, fun h => ?_, rfl⟩
    simp only [usable, Bool.and_eq_true, Bool.not_eq_true', Bool.or_eq_false_iff] at h ⊢
    exact ⟨h.1, h.2.1⟩

theorem carries_nextRequestId (c : Connection) : Carries c c.nextRequestId.2 := by
  unfold nextRequestId
  split <;> exact ⟨rfl, rfl, id, rfl⟩

theorem carries_sendHookResponse (c : Connection) (requestId status detail : Nat)
    (reply : HookReply) (writes : List WriteOutcome) :
    Carries c (c.sendHookResponse requestId status detail reply writes).2 := by
  unfold sendHookResponse
  split
  · exact ⟨rfl, rfl, id, rfl⟩
  split
  · exact ⟨rfl, rfl, id, rfl⟩
  · exact carries_sendFrame c _ _

/-- A frame of the right size that is not sent in time for any other reason ends the connection. -/
theorem sendFrame_fails (c : Connection) {frame : OutFrame}
    (hsize : frame.payload.length ≤ maxPayloadSize) (hwrites : .timeout ∉ writes)
    (hstatus : (c.sendFrame frame writes).1 ≠ .ok) :
    (c.sendFrame frame writes).2.broken = true := by
  unfold sendFrame at hstatus ⊢
  rw [if_neg (Nat.not_lt.mpr hsize)] at hstatus ⊢
  split at hstatus
  · rw [if_pos ‹_›]
  rw [if_neg ‹_›]
  have hfirst := writeAll_fails writes (frame.bytes.take frameHeaderSize) hwrites
  have hrest := writeAll_rest writes (frame.bytes.take frameHeaderSize)
  dsimp only at hstatus ⊢
  generalize writeAll writes (frame.bytes.take frameHeaderSize) = first at *
  obtain ⟨status, _, outcomes⟩ := first
  dsimp only at *
  by_cases hok : status = .ok
  · rw [if_neg (by simpa using hok)] at hstatus ⊢
    have hwrites' : .timeout ∉ outcomes := fun h => hwrites (hrest.subset h)
    have hsecond := writeAll_fails outcomes frame.payload hwrites' hstatus
    simp [hsecond]
  · simp [hfirst hok]

theorem sendHookResponse_fails (c : Connection) (hid : requestId ≠ 0)
    (hreply : answerable status detail reply = true) (hwrites : .timeout ∉ writes)
    (hstatus : (c.sendHookResponse requestId status detail reply writes).1 ≠ .ok) :
    (c.sendHookResponse requestId status detail reply writes).2.broken = true := by
  unfold sendHookResponse at hstatus ⊢
  rw [if_neg hid] at hstatus ⊢
  cases hpayload : hookResponsePayload status detail reply with
  | none => simp [answerable, hpayload] at hreply
  | some =>
    simp only [answerable, hpayload, Option.any_some, decide_eq_true_eq] at hreply
    simp only [hpayload] at hstatus
    exact sendFrame_fails c hreply hwrites hstatus

theorem paired_respond (hc : c.Owes (.handling requestId :: c.calls))
    (hnumbered : Numbered c.calls) (hid : requestId ≠ 0)
    (hreply : answerable status detail reply = true) (hwrites : .timeout ∉ writes) :
    Paired (c.respond requestId status detail reply writes) := by
  have hcarries := carries_sendHookResponse c requestId status detail reply writes
  have hfails := sendHookResponse_fails c hid hreply hwrites
  unfold respond
  dsimp only
  split
  · refine ⟨fun husable => ?_, ?_⟩
    · obtain ⟨hunread, hunanswered⟩ := hc (hcarries.usable husable)
      rw [hcarries.calls, hcarries.unread, hcarries.unanswered, hunread, hunanswered]
      exact ⟨rfl, by simp [handled]⟩
    · rw [hcarries.calls]
      exact hnumbered
  · rename_i hstatus
    refine paired_finish (owes_of_broken (hfails hstatus)) ?_ _
    rw [hcarries.calls]
    exact hnumbered

theorem paired_beginRequest (hc : Paired c) (opcode : Nat) (payload : List Nat) (kind : Awaiting)
    (writes : List WriteOutcome) : Paired (c.beginRequest opcode payload kind writes) := by
  have hcarries := (carries_nextRequestId c).trans (carries_sendFrame c.nextRequestId.2
    ⟨opcode, 0, c.nextRequestId.1, payload⟩ writes)
  have hpaired := hc.carries hcarries
  unfold beginRequest
  dsimp only
  split
  · refine ⟨fun husable => ?_, hpaired.numbered.cons (fun _ h => by cases h)⟩
    obtain ⟨hunread, hunanswered⟩ := hpaired.owes husable
    rw [hunread, hunanswered]
    exact ⟨rfl, rfl⟩
  split
  · exact ⟨owes_of_shutdown rfl, hpaired.numbered⟩
  · exact hpaired.carries (carries_answer _ _ _)

theorem paired_finishStatus (h : c.Owes c.calls.tail) (hnumbered : Numbered c.calls)
    (result : Status × Bool) : Paired (c.finishStatus result) := by
  unfold finishStatus
  split
  · exact paired_fail hnumbered _
  · exact paired_finish h hnumbered _

def followsProtocol (header : WireHeader) (payload : List Nat) : Bool :=
  !header.more || decodeStatus payload none == (.ok, false)

structure Answered (c : Connection) (header : WireHeader) (payload : List Nat) : Prop where
  last : header.more = false → c.Owes c.calls.tail
  more : header.more = true → decodeStatus payload none = (.ok, false)
  numbered : Numbered c.calls

theorem more_eq_false (h : header.flags = 1) : header.more = false := by
  rw [WireHeader.more, h]
  decide

theorem decodeStatus_of_ok (h : decodeStatus payload none = (.ok, false)) (size : Option Nat)
    (hne : decodeStatus payload size ≠ (.ok, false)) : (decodeStatus payload size).2 = true := by
  unfold decodeStatus at *
  split
  · rfl
  rename_i hlong
  rw [if_neg hlong] at h hne
  split
  · rename_i hzero
    rw [if_pos hzero] at hne
    split
    · rfl
    · rename_i hsize
      rw [if_neg hsize] at hne
      exact absurd rfl hne
  · rename_i hzero
    rw [if_neg hzero] at h hne
    exact absurd h hne

section

variable (hc : Answered c header payload)

include hc

theorem Answered.finishStatus {size : Option Nat} (hne : decodeStatus payload size ≠ (.ok, false)) :
    Paired (c.finishStatus (decodeStatus payload size)) := by
  cases hmore : header.more with
  | false => exact paired_finishStatus (hc.last hmore) hc.numbered _
  | true =>
    unfold Connection.finishStatus
    rw [if_pos (decodeStatus_of_ok (hc.more hmore) size hne)]
    exact paired_fail hc.numbered _

theorem paired_finishRequest {spec : RequestSpec} :
    Paired (c.finishRequest spec header payload) := by
  unfold finishRequest
  dsimp only
  split
  · exact paired_fail hc.numbered _
  split
  · rename_i hne
    exact hc.finishStatus hne
  split
  · exact paired_fail hc.numbered _
  rename_i hvalid
  have hflags : header.flags = 1 := by
    simp only [Bool.or_eq_true, decide_eq_true_eq, not_or, not_not] at hvalid
    exact hvalid.1
  exact (paired_finish (hc.last (more_eq_false hflags)) hc.numbered .ok).carries ⟨rfl, rfl, id, rfl⟩

theorem paired_finishPermissionsList {cancelled goOn : Bool}
    (hcalls : c.calls = .awaiting opcode requestId (.permissionsList cancelled) :: rest)
    (hopen : header.more = true → Paired c) :
    Paired (c.finishPermissionsList opcode requestId cancelled goOn header payload) := by
  unfold finishPermissionsList
  split
  · rename_i hflags
    have hlast := hc.last (more_eq_false hflags)
    dsimp only
    split
    · exact paired_finish hlast hc.numbered _
    · exact paired_finishStatus hlast hc.numbered _
  split
  · exact paired_fail hc.numbered _
  rename_i hflags
  dsimp only
  split
  · rename_i hne
    exact hc.finishStatus hne
  split
  · exact paired_fail hc.numbered _
  have hmore : header.more = true := by
    rw [not_or, not_not] at hflags
    rw [WireHeader.more, hflags.1]
    decide
  refine ⟨fun husable => ?_, ?_⟩
  · have howes := (hopen hmore).owes husable
    rw [hcalls] at howes ⊢
    exact howes
  · exact (hc.numbered.tail).cons fun _ h => by cases h

end

theorem paired_finishDevicesList {offset generation : Nat} (writes : List WriteOutcome)
    (hc : Answered c header payload) :
    Paired (c.finishDevicesList opcode offset generation goOn header payload writes) := by
  unfold finishDevicesList
  dsimp only
  split
  · rename_i hne
    exact hc.finishStatus hne
  split
  · exact paired_fail hc.numbered _
  rename_i hvalid
  have hlast := hc.last (more_eq_false (not_not.mp (not_or.mp hvalid).1))
  split
  · split
    · exact paired_finish hlast hc.numbered _
    · exact paired_beginRequest ⟨hlast, hc.numbered.tail⟩ _ _ _ _
  · exact paired_fail hc.numbered _
  · exact paired_finish hlast hc.numbered _

theorem carries_queueServiceEvent {accepted : Bool}
    (h : c.queueServiceEvent header payload = (accepted, d)) : Carries c d := by
  have hwire := wire_queueServiceEvent c header payload
  rw [h] at hwire
  exact carries_of_wire hwire

theorem paired_handleNestedHook (hc : Paired c) (hid : header.requestId ≠ 0)
    (hwrites : .timeout ∉ writes) : Paired (c.handleNestedHook header payload writes) := by
  have howes : Owes { c with unanswered := header.requestId :: c.unanswered }
      (.handling header.requestId :: c.calls) := by
    intro husable
    obtain ⟨hunread, hunanswered⟩ := hc.owes husable
    exact ⟨hunread, congrArg (header.requestId :: ·) hunanswered⟩
  unfold handleNestedHook
  split
  · exact paired_fail hc.numbered _
  dsimp only
  split
  · exact paired_respond howes hc.numbered hid (by decide) hwrites
  split
  · exact paired_respond howes hc.numbered hid (by decide) hwrites
  · refine ⟨howes, hc.numbered.cons fun requestId heq => ?_⟩
    rw [← Activity.handling.inj heq]
    exact hid

def isNestedHook (header : WireHeader) : Bool :=
  header.flags == 0 && header.opcode == Opcode.hookEvent.code

section

variable (hc : Paired c)

include hc

theorem paired_awaitFrame {kind : Awaiting}
    (hcalls : c.calls = .awaiting opcode requestId kind :: rest)
    (hprotocol : followsProtocol header payload = true)
    (hhook : isNestedHook header = true → header.requestId ≠ 0 ∧ .timeout ∉ writes) :
    Paired (c.awaitFrame opcode requestId kind goOn header payload writes) := by
  unfold awaitFrame
  split
  · split
    · rename_i c₁ hqueue
      exact hc.carries (carries_queueServiceEvent hqueue)
    · rename_i c₁ hqueue
      exact paired_fail (hc.carries (carries_queueServiceEvent hqueue)).numbered _
  split
  · rename_i hnested
    obtain ⟨hid, hwrites⟩ := hhook (by simp [isNestedHook, hnested])
    exact paired_handleNestedHook hc hid hwrites
  split
  · exact paired_fail hc.numbered _
  -- The response is read, so the call no longer owes it, unless more will follow.
  generalize hread : (if header.more = true then c else _) = c₁
  have hcalls₁ : c₁.calls = .awaiting opcode requestId kind :: rest := by
    rw [← hread, ← hcalls]
    split <;> rfl
  have hsame : header.more = true → c₁ = c := fun hmore => by rw [← hread, if_pos hmore]
  have hanswered : Answered c₁ header payload := by
    refine ⟨fun hmore husable => ?_, fun hmore => ?_, ?_⟩
    · rw [if_neg (by simp [hmore])] at hread
      subst hread
      obtain ⟨hunread, hunanswered⟩ := hc.owes husable
      rw [hunread, hunanswered, hcalls]
      exact ⟨by simp [awaited], rfl⟩
    · simpa [followsProtocol, hmore] using hprotocol
    · rw [hcalls₁, ← hcalls]
      exact hc.numbered
  cases kind with
  | request => exact paired_finishRequest hanswered
  | permissionsList =>
    exact paired_finishPermissionsList hanswered hcalls₁ fun hmore => by
      rw [hsame hmore]
      exact hc
  | devicesList => exact paired_finishDevicesList writes hanswered

theorem Paired.finish (hcalls : c.calls = call :: rest)
    (hawaited : awaited (call :: rest) = awaited rest)
    (hhandled : handled (call :: rest) = handled rest) (status : Status) :
    Paired (c.finish status) := by
  refine paired_finish (fun husable => ?_) hc.numbered status
  obtain ⟨hunread, hunanswered⟩ := hc.owes husable
  rw [hunread, hunanswered, hcalls, hawaited, hhandled]
  exact ⟨rfl, rfl⟩

theorem paired_hookNextFrame (hcalls : c.calls = .hookNext :: rest)
    (header : WireHeader) (payload : List Nat) : Paired (c.hookNextFrame header payload) := by
  unfold hookNextFrame
  split
  · split
    · rename_i c₁ hqueue
      have hcarries := carries_queueServiceEvent hqueue
      split
      · rename_i hpop
        have hcarries₂ := hcarries.trans (carries_of_wire (wire_popNotification hpop))
        exact (hc.carries hcarries₂).finish (hcarries₂.calls.trans hcalls) rfl rfl _
      · exact hc.carries hcarries
    · rename_i hqueue
      exact paired_fail (hc.carries (carries_queueServiceEvent hqueue)).numbered _
  split
  · exact paired_fail hc.numbered _
  · exact Paired.finish (c := { c with outstandingHookRequest := header.requestId })
      ⟨hc.owes, hc.numbered⟩ hcalls rfl rfl _

theorem paired_leaseNextFrame (hcalls : c.calls = .leaseNext :: rest)
    (header : WireHeader) (payload : List Nat) : Paired (c.leaseNextFrame header payload) := by
  have hwire := (queueLeaseEvent_same c header payload).1
  unfold leaseNextFrame
  split
  · split
    · rename_i c₁ hqueue
      rw [hqueue] at hwire
      have hcarries : Carries c c₁.popLease :=
        (carries_of_wire hwire).trans ⟨rfl, rfl, id, rfl⟩
      exact (hc.carries hcarries).finish (hcarries.calls.trans hcalls) rfl rfl _
    · rename_i hqueue
      rw [hqueue] at hwire
      exact paired_fail (hc.carries (carries_of_wire hwire)).numbered _
  · exact paired_fail hc.numbered _

theorem paired_observerNextFrame (hcalls : c.calls = .observerNext :: rest)
    (header : WireHeader) (payload : List Nat) : Paired (c.observerNextFrame header payload) := by
  unfold observerNextFrame
  split
  · split
    · rename_i c₁ hqueue
      have hcarries := carries_queueServiceEvent hqueue
      split
      · rename_i htake
        have hcarries₂ := hcarries.trans (carries_of_wire (wire_takeObserver htake))
        exact (hc.carries hcarries₂).finish (hcarries₂.calls.trans hcalls) rfl rfl _
      · exact hc.carries hcarries
    · rename_i hqueue
      exact paired_fail (hc.carries (carries_queueServiceEvent hqueue)).numbered _
  · exact paired_fail hc.numbered _

end

theorem carries_receiveFrame (c : Connection) (reads : List ReadOutcome) :
    Carries c (c.receiveFrame reads).2 := by
  refine ⟨rfl, rfl, fun h => ?_, rfl⟩
  simp only [usable, receiveFrame, Bool.and_eq_true, Bool.not_eq_true', Bool.or_eq_false_iff] at h ⊢
  exact ⟨h.1.1, h.2.1⟩

/-- A request whose response could not be received in time or otherwise leaves a connection that
cannot be used. -/
theorem paired_receiveFailed {total : List Nat} {reads : List ReadOutcome} {status : Status}
    (hstands : Stands total c) (hc : Paired (c.receiveFrame reads).2)
    (hcalls : c.calls = call :: rest) (hreceives : call.receives = true)
    (herror : (c.receiveFrame reads).1 = .error status) :
    Paired ((c.receiveFrame reads).2.receiveFailed call status) := by
  cases call with
  | awaiting opcode requestId kind =>
    unfold receiveFailed
    dsimp only
    split
    · exact paired_fail hc.numbered _
    rename_i htimeout
    refine paired_finish ?_ hc.numbered status
    have hspec := (hstands.receiver.receiveFrame reads).2
    unfold receiveFrame at herror ⊢
    dsimp only at herror ⊢
    rw [herror] at hspec ⊢
    cases hspec with
    | stops hstatus =>
      obtain rfl := hstatus.resolve_left htimeout
      exact owes_of_broken (Bool.or_true _)
    | invalid _ hinvalid =>
      refine owes_of_shutdown ?_
      rw [hinvalid]
      exact Bool.or_true _
  | hookNext | leaseNext | observerNext => exact hc.finish hcalls rfl rfl _
  | handling => cases hreceives

theorem requestId_ne_zero {raw : List Nat} (h : decodeHeader raw = .ok header)
    (hflags : header.flags = 0) : header.requestId ≠ 0 := by
  unfold decodeHeader at h
  split at h
  · cases h
  dsimp only at h
  split at h
  · cases h
  rename_i hvalid
  obtain rfl := Except.ok.inj h
  dsimp only at hflags ⊢
  simp only [hflags, Bool.or_eq_true, not_or] at hvalid
  simpa [WireHeader.isValid, WireHeader.event, WireHeader.more] using hvalid.2

end Connection

/-- The service follows the protocol in what a step receives, and the reply to a hook event is
one that can be sent and does not run out of time. -/
def Connection.answersHooks (c : Connection) : Event → Bool
  | .receive reads _ writes =>
    match (c.receiveFrame reads).1 with
    | .ok (header, payload) => followsProtocol header payload &&
      (!isNestedHook header || !writes.contains .timeout)
    | .error _ => true
  | .handlerReturns status detail reply writes =>
    answerable (callbackStatus status) detail reply && !writes.contains .timeout
  | _ => true

namespace Connection

variable {c d : Connection} {total : List Nat}

theorem paired_receive {reads : List ReadOutcome} {goOn : Nat → Bool} {writes : List WriteOutcome}
    (hstands : Stands total c) (hc : Paired c)
    (hguard : c.answersHooks (.receive reads goOn writes) = true)
    (h : c.receive reads goOn writes = some d) : Paired d := by
  have hc₁ := hc.carries (carries_receiveFrame c reads)
  obtain ⟨call, rest, hcalls, hreceives, ⟨status, heq, rfl⟩ | ⟨header, payload, heq, rfl⟩⟩ :=
    receive_cases h
  · exact paired_receiveFailed hstands hc₁ hcalls hreceives heq
  simp only [answersHooks, heq, Bool.and_eq_true, Bool.or_eq_true, Bool.not_eq_true',
    contains_eq_mem, decide_eq_false_iff_not] at hguard
  have hspec := (hstands.receiver.receiveFrame reads).2
  have heq' : (c.receiver.receiveFrame reads).1 = .ok (header, payload) := heq
  rw [heq'] at hspec
  cases call with
  | awaiting =>
    refine paired_awaitFrame hc₁ hcalls hguard.1 fun hhook => ?_
    cases hspec with
    | frame hheader =>
      have hflags : header.flags = 0 := by
        simp only [isNestedHook, Bool.and_eq_true, beq_iff_eq] at hhook
        exact hhook.1
      refine ⟨requestId_ne_zero hheader hflags, hguard.2.resolve_left ?_⟩
      simp [hhook]
  | hookNext => exact paired_hookNextFrame hc₁ hcalls header payload
  | leaseNext => exact paired_leaseNextFrame hc₁ hcalls header payload
  | observerNext => exact paired_observerNextFrame hc₁ hcalls header payload
  | handling => cases hreceives

theorem Paired.push {call : Activity} (hc : Paired c)
    (hawaited : awaited (call :: c.calls) = awaited c.calls)
    (hhandled : handled (call :: c.calls) = handled c.calls)
    (hcall : ∀ requestId, call = .handling requestId → requestId ≠ 0) :
    Paired { c with calls := call :: c.calls } := by
  refine ⟨fun husable => ?_, hc.numbered.cons hcall⟩
  obtain ⟨hunread, hunanswered⟩ := hc.owes husable
  exact ⟨hunread.trans hawaited.symm, hunanswered.trans hhandled.symm⟩

theorem paired_start {e : Event} (hc : Paired c) (h : c.start e = some d) : Paired d := by
  cases e with
  | request spec writes | permissionsList writes =>
    cases h
    split
    · exact hc.carries (carries_answer c _ _)
    · exact paired_beginRequest hc _ _ _ _
  | devicesList =>
    cases h
    exact paired_beginRequest hc _ _ _ _
  | setNestedHookHandler present | setDeviceChangeHandler present =>
    cases h
    split <;> exact hc.carries ⟨rfl, rfl, id, rfl⟩
  | hookNext =>
    cases h
    split
    · exact hc.carries (carries_answer c _ _)
    split
    · exact hc.carries (carries_answer c _ _)
    split
    · rename_i c₁ hpop
      exact hc.carries ((carries_of_wire (wire_popNotification hpop)).trans (carries_answer c₁ _ _))
    · exact hc.push rfl rfl fun _ heq => by cases heq
  | leaseNext =>
    cases h
    split
    · exact hc.carries (carries_answer c _ _)
    split
    · exact hc.carries ⟨rfl, rfl, id, rfl⟩
    · exact hc.push rfl rfl fun _ heq => by cases heq
  | observerNext =>
    cases h
    split
    · exact hc.carries (carries_answer c _ _)
    split
    · rename_i c₁ htake
      exact hc.carries ((carries_of_wire (wire_takeObserver htake)).trans (carries_answer c₁ _ _))
    · exact hc.push rfl rfl fun _ heq => by cases heq
  | hookReplyEvent requestId reply writes =>
    cases h
    split
    · exact hc.carries (carries_answer c _ _)
    · exact hc.carries ((carries_sendHookResponse c requestId 0 0 reply writes).trans
        ⟨rfl, rfl, id, rfl⟩)
  | receive | expire | handlerReturns => cases h

theorem Paired.step {e : Event} (hstands : Stands total c) (hc : Paired c)
    (hguard : c.answersHooks e = true) (h : c.step e = some d) : Paired d := by
  obtain ⟨reads, goOn, writes, rfl, h⟩ | ⟨_, _, _, _, -, rfl, rfl⟩ |
    ⟨requestId, rest, status, detail, reply, writes, hcalls, rfl, rfl⟩ | ⟨-, h⟩ := step_cases h
  · exact paired_receive hstands hc hguard h
  · exact paired_fail hc.numbered _
  · simp only [answersHooks, Bool.and_eq_true, Bool.not_eq_true', contains_eq_mem,
      decide_eq_false_iff_not] at hguard
    have hnumbered := hc.numbered
    rw [hcalls] at hnumbered
    refine paired_respond (fun husable => ?_) hnumbered.tail
      (hnumbered requestId mem_cons_self) hguard.1 hguard.2
    have howes := hc.owes husable
    rw [hcalls] at howes
    exact howes
  · exact paired_start hc h

end Connection

def pongFrame (requestId : Nat) : List Nat :=
  OutFrame.bytes ⟨ksiPing.opcode, 1, requestId, replicate 8 0⟩

def readAll : Event := .receive [.bytes 1000, .bytes 1000] (fun _ => true) []

end KeysharpInput.Client
