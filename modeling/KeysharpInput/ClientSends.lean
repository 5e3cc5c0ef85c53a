import KeysharpInput.ClientEffects

/-!
What the client library puts on the socket.
A frame may be cut off anywhere by a timeout or an error. Requests end the connection when their
frame times out, so nothing follows a part of it. A hook reply does not, and neither does any
frame whose write fails, so the next call writes behind the part.
-/

namespace KeysharpInput.Client

open Transition List Connection Bool

def WriteOutcome.stops : WriteOutcome → Option Status
  | .timeout => some .timeout
  | .failed => some .unavailable
  | _ => none

def stopsPartway (status : Status) : List WriteOutcome → Bool
  | [] => false
  | .wrote _ :: rest => rest.any (·.stops == some status)
  | .interrupted :: rest => stopsPartway status rest
  | .ready :: rest => stopsPartway status rest
  | .timeout :: _ => false
  | .failed :: _ => false

theorem writeAll_written (outcomes : List WriteOutcome) (bytes : List Nat) :
    (writeAll outcomes bytes).2.1 <+: bytes ∧
      ((writeAll outcomes bytes).1 = .ok → (writeAll outcomes bytes).2.1 = bytes) := by
  fun_induction writeAll outcomes bytes with
  | case1 | case2 => exact ⟨prefix_rfl, fun _ => rfl⟩
  | case3 more _ bytes _ _ written _ heq ih =>
    rw [heq] at ih
    refine ⟨?_, fun hok => ?_⟩
    · nth_rewrite 2 [← take_append_drop (more + 1) bytes]
      exact (prefix_append_right_inj _).mpr ih.1
    · have hrest : written = bytes.drop (more + 1) := ih.2 hok
      rw [hrest, take_append_drop]
  | case4 _ _ _ ih => exact ih
  | case5 _ _ _ ih => exact ih
  | case6 | case7 => exact ⟨ nil_prefix, fun h => by cases h⟩

theorem writeAll_rest (outcomes : List WriteOutcome) (bytes : List Nat) :
    (writeAll outcomes bytes).2.2 <:+ outcomes := by
  fun_induction writeAll outcomes bytes with
  | case1 | case2 => exact suffix_rfl
  | case3 _ _ _ _ _ _ _ heq ih =>
    rw [heq] at ih
    exact ih.trans (suffix_cons _ _)
  | case4 outcomes bytes _ ih | case5 outcomes bytes _ ih => exact ih.trans (suffix_cons _ _)
  | case6 | case7 => exact suffix_cons _ _

theorem writeAll_stops (outcomes : List WriteOutcome) (bytes : List Nat)
    (h : (writeAll outcomes bytes).1 ≠ .ok) :
    outcomes.any (·.stops == some (writeAll outcomes bytes).1) = true := by
  fun_induction writeAll outcomes bytes with
  | case1 | case2 => exact absurd rfl h
  | case3 _ _ _ _ _ _ _ heq ih =>
    rw [heq] at ih
    simp [ih h]
  | case4 _ _ _ ih => simp [ih h]
  | case5 _ _ _ ih => simp [ih h]
  | case6 | case7 => simp [WriteOutcome.stops]

theorem writeAll_partway (outcomes : List WriteOutcome) (bytes : List Nat)
    (h : (writeAll outcomes bytes).1 ≠ .ok) (hwritten : (writeAll outcomes bytes).2.1 ≠ []) :
    stopsPartway (writeAll outcomes bytes).1 outcomes = true := by
  fun_induction writeAll outcomes bytes with
  | case1 => exact absurd rfl h
  | case2 => exact absurd rfl h
  | case3 more outcomes bytes _ _ _ _ heq =>
    have hstops := writeAll_stops outcomes (bytes.drop (more + 1))
    rw [heq] at hstops
    exact hstops h
  | case4 outcomes bytes _ ih | case5 outcomes bytes _ ih => exact ih h hwritten
  | case6 | case7 => exact absurd rfl hwritten

theorem stopsPartway_of_rest (outcomes : List WriteOutcome) (bytes : List Nat) (status : Status)
    (hbytes : bytes ≠ []) (hok : (writeAll outcomes bytes).1 = .ok)
    (h : (writeAll outcomes bytes).2.2.any (·.stops == some status) = true) :
    stopsPartway status outcomes = true := by
  fun_induction writeAll outcomes bytes with
  | case1 => exact absurd rfl hbytes
  | case2 => cases h
  | case3 more outcomes bytes _ _ _ _ heq =>
    have hrest := writeAll_rest outcomes (bytes.drop (more + 1))
    rw [heq] at hrest
    obtain ⟨o, ho, hstops⟩ := any_eq_true.mp h
    exact any_eq_true.mpr ⟨o, hrest.subset ho, hstops⟩
  | case4 outcomes bytes _ ih | case5 outcomes bytes _ ih => exact ih hbytes hok h
  | case6 => cases hok
  | case7 => cases hok

theorem length_writeLe (count value : Nat) : (writeLe count value).length = count := by
  induction count generalizing value with
  | zero => rfl
  | succ _ ih => simp [writeLe, ih]

theorem WireHeader.length_encode (header : WireHeader) :
    header.encode.length = frameHeaderSize := by
  simp [encode, length_writeLe, frameMagic, frameHeaderSize]

theorem OutFrame.take_bytes (frame : OutFrame) :
    frame.bytes.take frameHeaderSize ++ frame.payload = frame.bytes := by
  unfold OutFrame.bytes
  rw [take_left' (WireHeader.length_encode _)]

/-- A frame that `send_frame` accepts. -/
def OutFrame.WellFormed (frame : OutFrame) : Prop := frame.payload.length ≤ maxPayloadSize

namespace Connection

variable {c d : Connection} {e : Connection} {status : Status} {writes : List WriteOutcome}
  {request : Bool} {F : WireHeader → List Nat → Prop}

/-- Nothing is sent or received, no message comes or goes, and the connection does not open
again. -/
structure Silent (c d : Connection) : Prop where
  sent : d.sent = c.sent
  cut : d.cut = c.cut
  shutdown : c.shutdown = true → d.shutdown = true
  receiver : d.receiver = c.receiver
  store : d.store = c.store

theorem Silent.refl (c : Connection) : Silent c c := ⟨rfl, rfl, id, rfl, rfl⟩

theorem Silent.trans (h : Silent c d) (h' : Silent d e) : Silent c e :=
  ⟨h'.sent.trans h.sent, h'.cut.trans h.cut, fun hc => h'.shutdown (h.shutdown hc),
    h'.receiver.trans h.receiver, h'.store.trans h.store⟩

theorem silent_finish (c : Connection) (status : Status) : Silent c (c.finish status) :=
  ⟨rfl, rfl, id, rfl, rfl⟩

theorem silent_answer (c : Connection) (status : Status) (buffered : Bool) :
    Silent c (c.answer status buffered) :=
  ⟨rfl, rfl, id, rfl, rfl⟩

theorem silent_fail (c : Connection) (status : Status) :
    Silent c (c.terminalFailure.finish status) :=
  ⟨rfl, rfl, fun _ => rfl, rfl, rfl⟩

structure Sends (frame : OutFrame) (writes : List WriteOutcome) (c : Connection) (status : Status)
    (d : Connection) (written : List Nat) : Prop where
  sent : d.sent = c.sent ++ written
  wellFormed : written ≠ [] → frame.WellFormed
  bytes : written <+: frame.bytes
  whole : status = .ok → written = frame.bytes
  closed : c.shutdown = true → written = [] ∧ status ≠ .ok
  shutdown : c.shutdown = true → d.shutdown = true
  receiver : d.receiver = c.receiver
  store : d.store = c.store
  cut : d.cut = (c.cut || (written ≠ [] && status ≠ .ok))
  partway : written ≠ [] → status ≠ .ok → stopsPartway status writes = true

theorem sends_nothing (frame : OutFrame) (writes : List WriteOutcome) (h : Silent c d)
    (hstatus : status ≠ .ok) : Sends frame writes c status d [] where
  sent := by rw [h.sent, append_nil]
  wellFormed := fun h => absurd rfl h
  bytes := nil_prefix
  whole := fun h => absurd h hstatus
  closed := fun _ => ⟨rfl, hstatus⟩
  shutdown := h.shutdown
  receiver := h.receiver
  store := h.store
  cut := by simp [h.cut]
  partway := fun h => absurd rfl h

theorem sendFrame_spec (c : Connection) (frame : OutFrame) (writes : List WriteOutcome) :
    ∃ written, Sends frame writes c (c.sendFrame frame writes).1 (c.sendFrame frame writes).2
      written := by
  unfold sendFrame
  split
  · exact ⟨[], sends_nothing frame writes ⟨rfl, rfl, id, rfl, rfl⟩ (by simp)⟩
  rename_i hsize
  split
  · exact ⟨[], sends_nothing frame writes ⟨rfl, rfl, id, rfl, rfl⟩ (by simp)⟩
  rename_i hshutdown
  have hheader := writeAll_written writes (frame.bytes.take frameHeaderSize)
  have hstops := writeAll_partway writes (frame.bytes.take frameHeaderSize)
  have hrest := stopsPartway_of_rest writes (frame.bytes.take frameHeaderSize)
  dsimp only
  generalize writeAll writes (frame.bytes.take frameHeaderSize) = first at *
  obtain ⟨status, written, outcomes⟩ := first
  by_cases hok : status = .ok
  · rw [if_neg (by simpa using hok)]
    have hpayload := writeAll_written outcomes frame.payload
    have hlast := writeAll_stops outcomes frame.payload
    generalize writeAll outcomes frame.payload = second at *
    obtain ⟨status', more, _⟩ := second
    dsimp only at *
    have hwritten := hheader.2 hok
    refine ⟨written ++ more, rfl, fun _ => Nat.le_of_not_lt hsize, ?_, fun h => ?_, fun h => ?_,
      id, rfl, rfl, rfl, fun _ hstatus => ?_⟩
    · rw [hwritten]
      exact (prefix_append_right_inj _).mpr hpayload.1
    · rw [hwritten, hpayload.2 h, frame.take_bytes]
    · exact absurd h hshutdown
    refine hrest status' ?_ hok (hlast hstatus)
    intro hnil
    have hlength := congrArg length hnil
    simp [OutFrame.bytes, WireHeader.length_encode, frameHeaderSize] at hlength
  · rw [if_pos hok]
    refine ⟨written, rfl, fun _ => Nat.le_of_not_lt hsize, ?_, fun h => absurd h hok,
      fun h => absurd h hshutdown, id, rfl, rfl, rfl,
      fun hne hstatus => hstops hstatus hne⟩
    exact hheader.1.trans ( take_prefix _ _)

structure Framed (c : Connection) : Prop where
  frames : ∃ (frames : List OutFrame) (rest : List Nat), (∀ frame ∈ frames, frame.WellFormed) ∧
    c.sent ++ rest = frames.flatMap OutFrame.bytes ∧ (c.cut = false → rest = [])
  closed : c.cut = true → c.shutdown = true

theorem Framed.of_same (hc : Framed c) (hsent : d.sent = c.sent) (hcut : d.cut = c.cut)
    (hshutdown : c.shutdown = true → d.shutdown = true) : Framed d := by
  obtain ⟨frames, rest, hwell, heq, hrest⟩ := hc.frames
  refine ⟨⟨frames, rest, hwell, ?_, ?_⟩, ?_⟩
  · rw [hsent]
    exact heq
  · rw [hcut]
    exact hrest
  · rw [hcut]
    exact fun h => hshutdown (hc.closed h)

theorem Framed.send {frame : OutFrame} {written : List Nat} (hc : Framed c)
    (hd : Sends frame writes c status d written) (hsent : e.sent = d.sent) (hcut : e.cut = d.cut)
    (hshutdown : c.shutdown = true → e.shutdown = true)
    (hwhole : stopsPartway status writes = true → e.shutdown = true) : Framed e := by
  by_cases hnothing : written = []
  · refine hc.of_same ?_ ?_ hshutdown
    · rw [hsent, hd.sent, hnothing, append_nil]
    · rw [hcut, hd.cut]
      simp [hnothing]
  have hopen : c.shutdown = false := by
    by_contra h
    exact hnothing (hd.closed (by simpa using h)).1
  have hclean : c.cut = false := by
    by_contra h
    rw [hc.closed (by simpa using h)] at hopen
    cases hopen
  obtain ⟨frames, _, hwell, heq, hrest⟩ := hc.frames
  rw [hrest hclean, append_nil] at heq
  obtain ⟨rest', hrest'⟩ := hd.bytes
  refine ⟨⟨frames ++ [frame], rest', fun f hf => ?_, ?_, fun h => ?_⟩, fun h => ?_⟩
  · obtain hold | hnew := mem_append.mp hf
    · exact hwell f hold
    · rw [mem_singleton.mp hnew]
      exact hd.wellFormed hnothing
  · rw [hsent, hd.sent, heq, append_assoc, hrest']
    simp
  · rw [hcut, hd.cut, hclean] at h
    have hok : status = .ok := by simpa [hnothing] using h
    have hbytes := hd.whole hok
    rw [hbytes] at hrest'
    simpa using hrest'
  · rw [hcut, hd.cut, hclean] at h
    have hstatus : status ≠ .ok := by
      simp only [Bool.false_or, Bool.and_eq_true, decide_eq_true_eq] at h
      exact h.2
    exact hwhole (hd.partway hnothing hstatus)

def Emits (request : Bool) (writes : List WriteOutcome) (c d : Connection) : Prop :=
  Silent c d ∨ ∃ frame status c₁ written, Sends frame writes c status c₁ written ∧ Silent c₁ d ∧
    (request = true → status = .timeout → d.shutdown = true)

theorem Emits.after (h' : Emits request writes d e) (h : Silent c d) :
    Emits request writes c e := by
  obtain hsilent | ⟨frame, status, c₁, written, hsends, hsilent, hrequest⟩ := h'
  · exact .inl (h.trans hsilent)
  refine .inr ⟨frame, status, c₁, written, { hsends with
    sent := by rw [hsends.sent, h.sent]
    closed := fun hc => hsends.closed (h.shutdown hc)
    shutdown := fun hc => hsends.shutdown (h.shutdown hc)
    receiver := hsends.receiver.trans h.receiver
    store := hsends.store.trans h.store
    cut := by rw [hsends.cut, h.cut] }, hsilent, hrequest⟩

theorem Emits.weaken (h : Emits true writes c d) : Emits request writes c d := by
  obtain hsilent | ⟨frame, status, c₁, written, hsends, hsilent, hrequest⟩ := h
  · exact .inl hsilent
  · exact .inr ⟨frame, status, c₁, written, hsends, hsilent, fun _ => hrequest rfl⟩

theorem emits_sendHookResponse (c : Connection) (requestId status detail : Nat) (reply : HookReply)
    (writes : List WriteOutcome)
    (he : Silent (c.sendHookResponse requestId status detail reply writes).2 e) :
    Emits false writes c e := by
  unfold sendHookResponse at he
  split at he
  · exact .inl he
  split at he
  · exact .inl he
  · obtain ⟨written, hsends⟩ := sendFrame_spec c _ writes
    exact .inr ⟨_, _, _, written, hsends, he, fun h => by cases h⟩

theorem emits_respond (c : Connection) (requestId status detail : Nat) (reply : HookReply)
    (writes : List WriteOutcome) :
    Emits false writes c (c.respond requestId status detail reply writes) := by
  refine emits_sendHookResponse c requestId status detail reply writes ?_
  unfold respond
  dsimp only
  split
  · exact ⟨rfl, rfl, id, rfl, rfl⟩
  · exact silent_finish _ _

theorem emits_handleNestedHook (c : Connection) (header : WireHeader) (payload : List Nat)
    (writes : List WriteOutcome) :
    Emits false writes c (c.handleNestedHook header payload writes) := by
  unfold handleNestedHook
  split
  · exact .inl (silent_fail c _)
  dsimp only
  split
  · exact (emits_respond _ _ _ _ _ _).after ⟨rfl, rfl, id, rfl, rfl⟩
  split
  · exact (emits_respond _ _ _ _ _ _).after ⟨rfl, rfl, id, rfl, rfl⟩
  · exact .inl ⟨rfl, rfl, id, rfl, rfl⟩

theorem silent_nextRequestId (c : Connection) : Silent c c.nextRequestId.2 := by
  unfold nextRequestId
  split <;> exact ⟨rfl, rfl, id, rfl, rfl⟩

theorem emits_beginRequest (c : Connection) (opcode : Nat) (payload : List Nat) (kind : Awaiting)
    (writes : List WriteOutcome) :
    Emits true writes c (c.beginRequest opcode payload kind writes) := by
  refine Emits.after ?_ (silent_nextRequestId c)
  obtain ⟨written, hsends⟩ := sendFrame_spec c.nextRequestId.2
    ⟨opcode, 0, c.nextRequestId.1, payload⟩ writes
  refine .inr ⟨_, _, _, written, hsends, ?_⟩
  unfold beginRequest
  dsimp only
  split
  · rename_i hok
    exact ⟨⟨rfl, rfl, id, rfl, rfl⟩, fun _ htimeout => by rw [hok] at htimeout; cases htimeout⟩
  split
  · exact ⟨⟨rfl, rfl, fun _ => rfl, rfl, rfl⟩, fun _ _ => rfl⟩
  · rename_i hother
    exact ⟨⟨rfl, rfl, id, rfl, rfl⟩, fun _ htimeout => absurd htimeout hother⟩

theorem silent_finishStatus (c : Connection) (result : Status × Bool) :
    Silent c (c.finishStatus result) := by
  unfold finishStatus
  split
  · exact silent_fail c _
  · exact silent_finish c _

theorem silent_finishRequest (c : Connection) (spec : RequestSpec) (header : WireHeader)
    (payload : List Nat) : Silent c (c.finishRequest spec header payload) := by
  unfold finishRequest
  dsimp only
  split
  · exact silent_fail c _
  split
  · exact silent_finishStatus c _
  split
  · exact silent_fail c _
  · exact ⟨rfl, rfl, id, rfl, rfl⟩

theorem silent_finishPermissionsList (c : Connection) (opcode requestId : Nat)
    (cancelled goOn : Bool) (header : WireHeader) (payload : List Nat) :
    Silent c (c.finishPermissionsList opcode requestId cancelled goOn header payload) := by
  unfold finishPermissionsList
  split
  · dsimp only
    split
    · exact silent_finish c _
    · exact silent_finishStatus c _
  split
  · exact silent_fail c _
  dsimp only
  split
  · exact silent_finishStatus c _
  split
  · exact silent_fail c _
  · exact ⟨rfl, rfl, id, rfl, rfl⟩

theorem emits_finishDevicesList (c : Connection) (opcode offset generation : Nat)
    (goOn : Nat → Bool) (header : WireHeader) (payload : List Nat) (writes : List WriteOutcome) :
    Emits true writes c
      (c.finishDevicesList opcode offset generation goOn header payload writes) := by
  unfold finishDevicesList
  dsimp only
  split
  · exact .inl (silent_finishStatus c _)
  split
  · exact .inl (silent_fail c _)
  split
  · split
    · exact .inl (silent_finish c _)
    · exact (emits_beginRequest _ _ _ _ _).after ⟨rfl, rfl, id, rfl, rfl⟩
  · exact .inl (silent_fail c _)
  · exact .inl (silent_finish c _)

def Turns (F : WireHeader → List Nat → Prop) (request : Bool) (writes : List WriteOutcome)
    (c d : Connection) : Prop :=
  ∃ c₁, Exchanges F c c₁ ∧ Emits request writes c₁ d

theorem Emits.turns (h : Emits request writes c d) : Turns F request writes c d :=
  ⟨c, .nothing, h⟩

theorem Silent.turns (h : Silent c d) : Turns F request writes c d :=
  Emits.turns (.inl h)

section Frames

variable {F : WireHeader → List Nat → Prop} {header : WireHeader} {payload : List Nat}
  {request : Bool}

theorem turns_awaitFrame (c : Connection) (opcode requestId : Nat) (kind : Awaiting)
    (goOn : Nat → Bool) (writes : List WriteOutcome) (hframe : F header payload)
    (hrequest : header.flags = 0 ∧ header.opcode = Opcode.hookEvent.code → request = false) :
    Turns F request writes c
      (c.awaitFrame opcode requestId kind goOn header payload writes) := by
  unfold awaitFrame
  split
  · rename_i hflags
    split
    · rename_i c₁ hqueue
      exact ⟨c₁, .queue hframe hflags hqueue, .inl (.refl c₁)⟩
    · rename_i c₁ hqueue
      exact ⟨c₁, .queue hframe hflags hqueue, .inl (silent_fail c₁ _)⟩
  split
  · rename_i hhook
    rw [hrequest hhook]
    exact (emits_handleNestedHook c header payload writes).turns
  split
  · exact (silent_fail c _).turns
  have hread : Silent c (if header.more = true then c
      else { c with unread := c.unread.erase requestId }) := by
    split <;> exact ⟨rfl, rfl, id, rfl, rfl⟩
  cases kind with
  | request => exact (hread.trans (silent_finishRequest _ _ _ _)).turns
  | permissionsList =>
    exact (hread.trans (silent_finishPermissionsList _ _ _ _ _ _ _)).turns
  | devicesList =>
    exact ((emits_finishDevicesList _ _ _ _ _ _ _ _).after hread).weaken.turns

theorem turns_hookNextFrame (c : Connection) (writes : List WriteOutcome)
    (hframe : F header payload) : Turns F request writes c (c.hookNextFrame header payload) := by
  unfold hookNextFrame
  split
  · rename_i hflags
    split
    · rename_i c₁ hqueue
      have hqueued : Exchanges F c c₁ := .queue hframe hflags hqueue
      split
      · rename_i c₂ hpop
        exact ⟨c₂, hqueued.popNotification hpop, .inl (silent_finish c₂ _)⟩
      · exact ⟨c₁, hqueued, .inl (.refl c₁)⟩
    · rename_i c₁ hqueue
      exact ⟨c₁, .queue hframe hflags hqueue, .inl (silent_fail c₁ _)⟩
  split
  · exact (silent_fail c _).turns
  · exact Silent.turns ⟨rfl, rfl, id, rfl, rfl⟩

theorem turns_leaseNextFrame (c : Connection) (writes : List WriteOutcome) :
    Turns F request writes c (c.leaseNextFrame header payload) := by
  have hwire := (queueLeaseEvent_same c header payload).1
  have hlease : ∀ {d}, d.wire = c.wire → d.store = (c.leaseNextFrame header payload).store →
      Exchanges F c d := .lease header payload
  unfold leaseNextFrame at hlease ⊢
  split at hlease
  · rename_i hflags
    rw [if_pos hflags]
    split at hlease
    · rename_i c₁ hqueue
      rw [hqueue] at hwire
      exact ⟨c₁.popLease, hlease hwire rfl, .inl (silent_finish _ _)⟩
    · rename_i c₁ hqueue
      rw [hqueue] at hwire
      exact ⟨c₁, hlease hwire rfl, .inl (silent_fail c₁ _)⟩
  · rename_i hflags
    rw [if_neg hflags]
    exact (silent_fail c _).turns

theorem turns_observerNextFrame (c : Connection) (writes : List WriteOutcome)
    (hframe : F header payload) :
    Turns F request writes c (c.observerNextFrame header payload) := by
  unfold observerNextFrame
  split
  · rename_i hflags
    split
    · rename_i c₁ hqueue
      have hqueued : Exchanges F c c₁ := .queue hframe hflags hqueue
      split
      · rename_i c₂ htake
        exact ⟨c₂, hqueued.takeObserver htake, .inl (silent_finish c₂ _)⟩
      · exact ⟨c₁, hqueued, .inl (.refl c₁)⟩
    · rename_i c₁ hqueue
      exact ⟨c₁, .queue hframe hflags hqueue, .inl (silent_fail c₁ _)⟩
  · exact (silent_fail c _).turns

end Frames

theorem silent_receiveFailed (c : Connection) (call : Activity) (status : Status) :
    Silent c (c.receiveFailed call status) := by
  unfold receiveFailed
  split
  · split
    · exact silent_fail c _
    · exact silent_finish c _
  · exact silent_finish c _

def receivesHook (c : Connection) (reads : List ReadOutcome) : Bool :=
  match (c.receiveFrame reads).1 with
  | .ok (header, _) => header.flags == 0 && header.opcode == Opcode.hookEvent.code
  | .error _ => false

theorem turns_receive {reads : List ReadOutcome} {goOn : Nat → Bool}
    (h : c.receive reads goOn writes = some d)
    (hF : ∀ header payload, (c.receiveFrame reads).1 = .ok (header, payload) → F header payload) :
    Turns F (!c.receivesHook reads) writes (c.receiveFrame reads).2 d := by
  obtain ⟨call, _, -, -, ⟨_, -, rfl⟩ | ⟨header, payload, heq, rfl⟩⟩ := receive_cases h
  · exact (silent_receiveFailed _ _ _).turns
  have hframe := hF header payload heq
  cases call with
  | awaiting =>
    refine turns_awaitFrame _ _ _ _ _ _ hframe fun hhook => ?_
    simp [receivesHook, heq, hhook]
  | hookNext => exact turns_hookNextFrame _ _ hframe
  | leaseNext => exact turns_leaseNextFrame _ _
  | observerNext => exact turns_observerNextFrame _ _ hframe
  | handling => exact (Silent.refl _).turns

end Connection

def Event.writes (c : Connection) : Event → Bool × List WriteOutcome
  | .request _ writes => (true, writes)
  | .permissionsList writes => (true, writes)
  | .devicesList _ writes => (true, writes)
  | .hookReplyEvent _ _ writes => (false, writes)
  | .receive reads _ writes => (!c.receivesHook reads, writes)
  | .handlerReturns _ _ _ writes => (false, writes)
  | _ => (false, [])

namespace Connection

variable {c d : Connection} {e : Event} {request : Bool} {writes : List WriteOutcome}

theorem turns_start {F : WireHeader → List Nat → Prop} (h : c.start e = some d) :
    Turns F (e.writes c).1 (e.writes c).2 c d := by
  have hanswer : ∀ {request writes} status buffered,
      Turns F request writes c (c.answer status buffered) := fun status buffered =>
    (silent_answer c status buffered).turns
  cases e with
  | request spec writes | permissionsList writes =>
    cases h
    split
    · exact hanswer _ _
    · exact (emits_beginRequest c _ _ _ _).turns
  | devicesList =>
    cases h
    exact (emits_beginRequest c _ _ _ _).turns
  | setNestedHookHandler present | setDeviceChangeHandler present =>
    cases h
    split <;> exact Silent.turns ⟨rfl, rfl, id, rfl, rfl⟩
  | hookNext =>
    cases h
    split
    · exact hanswer _ _
    split
    · exact hanswer _ _
    split
    · rename_i c₁ hpop
      exact ⟨c₁, Exchanges.nothing.popNotification hpop, .inl (silent_answer c₁ _ _)⟩
    · exact Silent.turns ⟨rfl, rfl, id, rfl, rfl⟩
  | leaseNext =>
    cases h
    split
    · exact hanswer _ _
    split
    · exact ⟨c.popLease, Exchanges.nothing.popLease, .inl (silent_answer _ _ _)⟩
    · exact Silent.turns ⟨rfl, rfl, id, rfl, rfl⟩
  | observerNext =>
    cases h
    split
    · exact hanswer _ _
    split
    · rename_i c₁ htake
      exact ⟨c₁, Exchanges.nothing.takeObserver htake, .inl (silent_answer c₁ _ _)⟩
    · exact Silent.turns ⟨rfl, rfl, id, rfl, rfl⟩
  | hookReplyEvent requestId reply writes =>
    cases h
    split
    · exact hanswer _ _
    · exact Emits.turns (emits_sendHookResponse c requestId 0 0 reply writes
        ⟨rfl, rfl, id, rfl, rfl⟩)
  | receive | expire | handlerReturns => cases h

theorem turns_step (h : c.step e = some d) :
    ∃ c₁, (c₁ = c ∨ ∃ reads, c₁ = (c.receiveFrame reads).2) ∧
      Turns (fun header payload => ∃ reads goOn writes, e = .receive reads goOn writes ∧
          (c.receiveFrame reads).1 = .ok (header, payload) ∧ c₁ = (c.receiveFrame reads).2)
        (e.writes c).1 (e.writes c).2 c₁ d := by
  obtain ⟨reads, goOn, writes, rfl, h⟩ | ⟨_, _, _, _, -, rfl, rfl⟩ |
    ⟨_, _, _, _, _, _, -, rfl, rfl⟩ | ⟨-, h⟩ := step_cases h
  · exact ⟨_, .inr ⟨reads, rfl⟩, turns_receive h fun _ _ hframe =>
      ⟨reads, goOn, writes, rfl, hframe, rfl⟩⟩
  · exact ⟨c, .inl rfl, (silent_fail c _).turns⟩
  · exact ⟨c, .inl rfl, Emits.turns ((emits_respond _ _ _ _ _ _).after ⟨rfl, rfl, id, rfl, rfl⟩)⟩
  · exact ⟨c, .inl rfl, turns_start h⟩

theorem Emits.store (h : Emits request writes c d) : d.store = c.store := by
  obtain hsilent | ⟨_, _, _, _, hsends, hsilent, -⟩ := h
  · exact hsilent.store
  · exact hsilent.store.trans hsends.store

theorem StoreRule.step {P : Store → Prop} {Takes : Connection → WireHeader → List Nat → Prop}
    (h : StoreRule P Takes) (hc : P c.store)
    (htakes : ∀ reads goOn writes, e = .receive reads goOn writes → ∀ header payload,
      (c.receiveFrame reads).1 = .ok (header, payload) → header.flags = 2 →
      Takes (c.receiveFrame reads).2 header payload) (hstep : c.step e = some d) : P d.store := by
  obtain ⟨_, hbegins, _, hexchanges, hemits⟩ := turns_step hstep
  rw [hemits.store]
  refine h.exchanges ?_ (fun header payload hreceives hflags => ?_) hexchanges
  · obtain rfl | ⟨reads, rfl⟩ := hbegins <;> exact hc
  · obtain ⟨reads, goOn, writes, rfl, hframe, rfl⟩ := hreceives
    exact htakes reads goOn writes rfl header payload hframe hflags

/-- What a frame is sent from: the connection of the last turn or one that has received, and
messages may have come and gone. -/
def Begins (c d : Connection) : Prop :=
  ∃ c₁, (c₁ = c ∨ ∃ reads, c₁ = (c.receiveFrame reads).2) ∧ d.wire = c₁.wire

theorem emits_step (h : c.step e = some d) :
    ∃ c₁, Begins c c₁ ∧ Emits (e.writes c).1 (e.writes c).2 c₁ d := by
  obtain ⟨c₁, hbegins, c₂, hexchanges, hemits⟩ := turns_step h
  exact ⟨c₂, ⟨c₁, hbegins, hexchanges.wire⟩, hemits⟩

theorem Begins.sent (h : Begins c d) : d.sent = c.sent := by
  obtain ⟨_, rfl | ⟨_, rfl⟩, hwire⟩ := h <;> exact congrArg Wire.sent hwire

theorem Begins.cut (h : Begins c d) : d.cut = c.cut := by
  obtain ⟨_, rfl | ⟨_, rfl⟩, hwire⟩ := h <;> exact congrArg Wire.cut hwire

theorem Begins.shutdown (h : Begins c d) (hc : c.shutdown = true) : d.shutdown = true := by
  obtain ⟨_, rfl | ⟨_, rfl⟩, hwire⟩ := h
  · exact (congrArg Wire.shutdown hwire).trans hc
  · refine (congrArg Wire.shutdown hwire).trans ?_
    simp [wire, receiveFrame, hc]

theorem Framed.begins (hc : Framed c) (h : Begins c d) : Framed d :=
  hc.of_same h.sent h.cut h.shutdown

theorem Framed.emits (hc : Framed c) (h : Emits request writes c d)
    (hwrites : ∀ status, stopsPartway status writes = true → request = true ∧ status = .timeout) :
    Framed d := by
  obtain hsilent | ⟨_, status, _, _, hsends, hsilent, hrequest⟩ := h
  · exact hc.of_same hsilent.sent hsilent.cut hsilent.shutdown
  refine hc.send hsends hsilent.sent hsilent.cut
    (fun hshut => hsilent.shutdown (hsends.shutdown hshut)) fun hstops => ?_
  obtain ⟨hreq, htimeout⟩ := hwrites status hstops
  exact hrequest hreq htimeout

theorem Emits.closed (h : Emits request writes c d) (hc : c.shutdown = true) :
    d.shutdown = true ∧ d.sent = c.sent := by
  obtain hsilent | ⟨_, _, _, _, hsends, hsilent, -⟩ := h
  · exact ⟨hsilent.shutdown hc, hsilent.sent⟩
  · refine ⟨hsilent.shutdown (hsends.shutdown hc), ?_⟩
    rw [hsilent.sent, hsends.sent, (hsends.closed hc).1, append_nil]

theorem Emits.receiver (h : Emits request writes c d) : d.receiver = c.receiver := by
  obtain hsilent | ⟨_, _, _, _, hsends, hsilent, -⟩ := h
  · exact hsilent.receiver
  · exact hsilent.receiver.trans hsends.receiver

theorem sent_step_closed (h : c.step e = some d) (hc : c.shutdown = true) :
    d.shutdown = true ∧ d.sent = c.sent := by
  obtain ⟨_, hbegins, hemits⟩ := emits_step h
  obtain ⟨hshutdown, hsent⟩ := hemits.closed (hbegins.shutdown hc)
  exact ⟨hshutdown, hsent.trans hbegins.sent⟩

end Connection

def Event.keepsFrames (c : Connection) (e : Event) : Bool :=
  !stopsPartway .unavailable (e.writes c).2 &&
    ((e.writes c).1 || !stopsPartway .timeout (e.writes c).2)

theorem stopsPartway_eq_true {status : Status} {writes : List WriteOutcome}
    (h : stopsPartway status writes = true) : status = .timeout ∨ status = .unavailable := by
  have hstop : ∀ o : WriteOutcome, (o.stops == some status) = true →
      status = .timeout ∨ status = .unavailable := by
    intro o ho
    cases o <;> simp [WriteOutcome.stops] at ho <;> simp [← ho]
  induction writes with
  | nil => cases h
  | cons o _ ih =>
    cases o with
    | wrote =>
      obtain ⟨o, -, ho⟩ := any_eq_true.mp h
      exact hstop o ho
    | interrupted => exact ih h
    | ready => exact ih h
    | timeout => cases h
    | failed => cases h

theorem Event.keepsFrames_spec {c : Connection} {e : Event} (h : e.keepsFrames c = true)
    (status : Status) (hstops : stopsPartway status (e.writes c).2 = true) :
    (e.writes c).1 = true ∧ status = .timeout := by
  simp only [Event.keepsFrames, and_eq_true, or_eq_true, not_eq_true'] at h
  obtain rfl | rfl := stopsPartway_eq_true hstops
  · refine ⟨h.2.resolve_right fun hfalse => ?_, rfl⟩
    rw [hfalse] at hstops
    cases hstops
  · rw [h.1] at hstops
    cases hstops

/-- As long as only requests that run out of time leave a frame in part, the bytes sent are
whole frames up to the last, and nothing follows a part of a frame. -/
theorem sent_frames_whole {role : Session.ConnectionRole} {stream : List Nat} {c : Connection}
    (h : Reaches step (fun c e => e.keepsFrames c = true) (connect role stream) c) :
    (∃ frames : List OutFrame, (∀ frame ∈ frames, frame.WellFormed) ∧
      c.sent <+: frames.flatMap OutFrame.bytes) ∧
    (c.cut = true → ∀ d, Reaches step always c d → d.sent = c.sent) := by
  have hframed : c.Framed := by
    refine h.invariant ⟨⟨[], [], ?_, rfl, fun _ => rfl⟩, ?_⟩
      fun _ e _ hc hkeeps hstep => ?_
    · exact fun _ hframe => absurd hframe not_mem_nil
    · exact fun hcut => by cases hcut
    · obtain ⟨_, hbegins, hemits⟩ := emits_step hstep
      exact (hc.begins hbegins).emits hemits (Event.keepsFrames_spec hkeeps)
  obtain ⟨frames, rest, hwell, heq, -⟩ := hframed.frames
  refine ⟨⟨frames, hwell, rest, heq⟩, fun hcut d hd => ?_⟩
  refine (hd.invariant (P := fun d => d.shutdown = true ∧ d.sent = c.sent)
    ⟨hframed.closed hcut, rfl⟩ fun s _ t hs _ hstep => ?_).2
  obtain ⟨hshut, hsent⟩ := sent_step_closed hstep hs.1
  exact ⟨hshut, hsent.trans hs.2⟩

/-- A request that runs out of time in the middle of its header ends the connection. -/
theorem sent_frames_whole_timeout : ∃ c,
    Reaches step (fun c e => e.keepsFrames c = true) (connect .rpc []) c ∧
      c.cut = true ∧ c.sent.length = 10 ∧
      ∀ d, Reaches step always c d → d.sent = c.sent := by
  obtain ⟨c, hc, hcut, hlength⟩ := exists_reaches_of_check step (fun c e => e.keepsFrames c)
    (connect .rpc []) [.request ksiPing [.wrote 9, .timeout]]
    (q := fun c : Connection => c.cut ∧ c.sent.length = 10) (by decide) (by decide)
  exact ⟨c, hc, hcut, hlength, (sent_frames_whole hc).2 hcut⟩

def hookFrame (requestId : Nat) : List Nat :=
  OutFrame.bytes ⟨Opcode.hookEvent.code, 0, requestId, writeLe 4 13 ++ replicate 44 0⟩

def brokenReply : List Event :=
  [.hookNext, .receive [.bytes 1000, .bytes 1000] (fun _ => true) [],
    .hookReplyEvent 7 {} [.wrote 9, .timeout]]

theorem ping_follows_part_of_reply : ∃ c d,
    Reaches step always (connect .callbackStream (hookFrame 7)) c ∧ c.cut = true ∧
      c.sent.length = 10 ∧ Reaches step always c d ∧
      d.sent = c.sent ++ OutFrame.bytes ⟨3, 0, 1, []⟩ := by
  obtain ⟨c, hc, hcut, hlength, hping⟩ := exists_reaches step
    (connect .callbackStream (hookFrame 7)) brokenReply
    (q := fun c : Connection => c.cut ∧ c.sent.length = 10 ∧
      (c.step (.request ksiPing [])).any fun d =>
        d.sent = c.sent ++ OutFrame.bytes ⟨3, 0, 1, []⟩) (by decide +kernel)
  obtain ⟨d, hd, hsent⟩ := (Option.any_eq_true _ _).mp hping
  exact ⟨c, d, hc, hcut, hlength, Reaches.refl.tail _ trivial hd, of_decide_eq_true hsent⟩

end KeysharpInput.Client
