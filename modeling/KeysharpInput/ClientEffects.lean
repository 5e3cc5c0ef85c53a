import KeysharpInput.ClientCalls

/-!
What the pieces of a client call leave alone.
A connection has two sides that do not meet: the wire with the calls in progress, and the
buffers that notices go to. Each function of the library changes one of them.
-/

namespace KeysharpInput.Client

open Option

structure Wire where
  role : Session.ConnectionRole
  receiver : Receiver
  shutdown : Bool
  calls : List Activity
  sent : List Nat
  cut : Bool
  broken : Bool
  unread : List Nat
  unanswered : List Nat
  returned : List Return

structure Buffers where
  role : Session.ConnectionRole
  observerNotifications : List ObserverMessage
  observerDropped : Nat
  observed : List ObserverMessage
  told : List ObserverMessage
  emptied : Bool

/-- Everything the calls for messages take from: the buffers and the descriptor that tells of
them. -/
structure Store extends Buffers where
  pendingRevokedScopes : BitVec 32
  leaseNotifications : List LeaseMessage
  notifications : List HookMessage
  ready : Bool

namespace Connection

def wire (c : Connection) : Wire :=
  { role := c.role, receiver := c.receiver, shutdown := c.shutdown, calls := c.calls
    sent := c.sent, cut := c.cut, broken := c.broken, unread := c.unread
    unanswered := c.unanswered, returned := c.returned }

def buffers (c : Connection) : Buffers :=
  { role := c.role, observerNotifications := c.observerNotifications
    observerDropped := c.observerDropped, observed := c.observed, told := c.told
    emptied := c.emptied }

def store (c : Connection) : Store :=
  { c.buffers with
    pendingRevokedScopes := c.pendingRevokedScopes, leaseNotifications := c.leaseNotifications
    notifications := c.notifications, ready := c.ready }

variable {c d : Connection}

@[simp]
theorem buffers_updateBufferedReadiness (c : Connection) :
    c.updateBufferedReadiness.buffers = c.buffers := rfl

theorem wire_queueNotification (c : Connection) (message : HookMessage) :
    (c.queueNotification message).2.wire = c.wire := by
  unfold queueNotification
  split <;> rfl

theorem queueLease_same (c : Connection) (message : LeaseMessage) :
    (c.queueLease message).2.wire = c.wire ∧ (c.queueLease message).2.buffers = c.buffers := by
  unfold queueLease
  split
  · exact ⟨rfl, rfl⟩
  · split <;> exact ⟨rfl, rfl⟩

theorem queueLeaseEvent_same (c : Connection) (header : WireHeader) (payload : List Nat) :
    (c.queueLeaseEvent header payload).2.wire = c.wire ∧
      (c.queueLeaseEvent header payload).2.buffers = c.buffers := by
  unfold queueLeaseEvent
  split
  · split
    · exact ⟨rfl, rfl⟩
    · exact queueLease_same c _
  split
  · split
    · exact ⟨rfl, rfl⟩
    · exact queueLease_same _ _
  split
  · dsimp only
    split
    · exact ⟨rfl, rfl⟩
    · exact queueLease_same _ _
  · exact ⟨rfl, rfl⟩

theorem wire_queueObserver (c : Connection) (message : ObserverMessage) :
    (c.queueObserver message).wire = c.wire := by
  unfold queueObserver
  split
  · split <;> rfl
  · rfl

theorem wire_queueServiceEvent (c : Connection) (header : WireHeader) (payload : List Nat) :
    (c.queueServiceEvent header payload).2.wire = c.wire := by
  unfold queueServiceEvent
  split
  · exact (queueLeaseEvent_same c header payload).1
  split
  · split
    · rfl
    · split
      · rfl
      · exact wire_queueObserver _ _
  split
  · dsimp only
    split
    · rfl
    split
    · exact wire_queueNotification _ _
    · split <;> rfl
  split
  · exact wire_queueNotification c _
  · rfl

theorem wire_popNotification (h : c.popNotification = some d) : d.wire = c.wire := by
  unfold popNotification at h
  split at h
  · cases h
  · cases h
    split <;> rfl

theorem wire_takeObserver (h : c.takeObserver = some d) : d.wire = c.wire := by
  unfold takeObserver at h
  split at h
  · cases h
    rfl
  split at h
  · cases h
    rfl
  split at h
  · cases h
    rfl
  · cases h

theorem buffers_popNotification (h : c.popNotification = some d) : d.buffers = c.buffers := by
  unfold popNotification at h
  split at h
  · cases h
  · cases h
    split <;> rfl

theorem receive_cases {reads : List ReadOutcome} {goOn : Nat → Bool} {writes : List WriteOutcome}
    (h : c.receive reads goOn writes = some d) :
    ∃ call rest, c.calls = call :: rest ∧ call.receives = true ∧
      ((∃ status, (c.receiveFrame reads).1 = .error status ∧
          d = (c.receiveFrame reads).2.receiveFailed call status) ∨
        ∃ header payload, (c.receiveFrame reads).1 = .ok (header, payload) ∧
          d = (c.receiveFrame reads).2.receivedFrame call goOn header payload writes) := by
  unfold receive at h
  split at h
  · cases h
  rename_i call rest hcalls
  split at h
  · cases h
  rename_i hreceives
  refine ⟨call, rest, hcalls, by simpa using hreceives, ?_⟩
  split at h
  · rename_i status c₁ heq
    rw [heq]
    exact .inl ⟨status, rfl, (some.inj h).symm⟩
  · rename_i header payload _ heq
    rw [heq]
    exact .inr ⟨header, payload, rfl, (some.inj h).symm⟩

/-- What a step is: a turn of the innermost call, a deadline, the return of the nested handler or
a call of the application. -/
theorem step_cases {e : Event} (h : c.step e = some d) :
    (∃ reads goOn writes, e = .receive reads goOn writes ∧ c.receive reads goOn writes = some d) ∨
    (∃ opcode requestId kind rest, c.calls = .awaiting opcode requestId kind :: rest ∧
      e = .expire ∧ d = c.terminalFailure.finish .timeout) ∨
    (∃ requestId rest status detail reply writes, c.calls = .handling requestId :: rest ∧
      e = .handlerReturns status detail reply writes ∧
      d = respond { c with calls := rest, recursionDepth := c.recursionDepth - 1 } requestId
        (callbackStatus status) detail reply writes) ∨
    (c.mayCall = true ∧ c.start e = some d) := by
  unfold step at h
  split at h
  · exact .inl ⟨_, _, _, rfl, h⟩
  · split at h
    · rename_i hcalls
      exact .inr (.inl ⟨_, _, _, _, hcalls, rfl, (some.inj h).symm⟩)
    · cases h
  · split at h
    · rename_i hcalls
      exact .inr (.inr (.inl ⟨_, _, _, _, _, _, hcalls, rfl, (some.inj h).symm⟩))
    · cases h
  · split at h
    · rename_i hmay
      exact .inr (.inr (.inr ⟨hmay, h⟩))
    · cases h

theorem buffers_leaseNextFrame (c : Connection) (header : WireHeader) (payload : List Nat) :
    (c.leaseNextFrame header payload).buffers = c.buffers := by
  have h := (queueLeaseEvent_same c header payload).2
  unfold leaseNextFrame
  split
  · split
    · rename_i c₁ heq
      rw [heq] at h
      exact h
    · rename_i heq
      rw [heq] at h
      exact h
  · rfl

structure StoreRule (P : Store → Prop) (Takes : Connection → WireHeader → List Nat → Prop) :
    Prop where
  queueServiceEvent : ∀ {c : Connection} {header : WireHeader} {payload : List Nat}, P c.store →
    Takes c header payload → P (c.queueServiceEvent header payload).2.store
  leaseNextFrame : ∀ {c : Connection}, P c.store → ∀ header payload,
    P (c.leaseNextFrame header payload).store
  popNotification : ∀ {c d : Connection}, P c.store → c.popNotification = some d → P d.store
  popLease : ∀ {c : Connection}, P c.store → P c.popLease.store
  takeObserver : ∀ {c d : Connection}, P c.store → c.takeObserver = some d → P d.store

/-- A turn takes in a frame among `F` or gives out a message. -/
inductive Exchanges (F : WireHeader → List Nat → Prop) (c : Connection) : Connection → Prop
  | nothing : Exchanges F c c
  | queue {header payload accepted} {d : Connection} : F header payload → header.flags = 2 →
      c.queueServiceEvent header payload = (accepted, d) → Exchanges F c d
  | lease {d : Connection} (header payload) : d.wire = c.wire →
      d.store = (c.leaseNextFrame header payload).store → Exchanges F c d
  | popNotification {d e : Connection} : Exchanges F c d → d.popNotification = some e →
      Exchanges F c e
  | popLease {d : Connection} : Exchanges F c d → Exchanges F c d.popLease
  | takeObserver {d e : Connection} : Exchanges F c d → d.takeObserver = some e → Exchanges F c e

variable {F : WireHeader → List Nat → Prop}

theorem Exchanges.wire (h : Exchanges F c d) : d.wire = c.wire := by
  induction h with
  | nothing => rfl
  | @queue header payload _ _ _ _ heq =>
    have hwire := wire_queueServiceEvent c header payload
    rwa [heq] at hwire
  | lease _ _ hwire => exact hwire
  | popNotification _ hpop ih => exact (wire_popNotification hpop).trans ih
  | popLease _ ih => exact ih
  | takeObserver _ htake ih => exact (wire_takeObserver htake).trans ih

theorem StoreRule.exchanges {P : Store → Prop} {Takes : Connection → WireHeader → List Nat → Prop}
    (h : StoreRule P Takes) (hc : P c.store)
    (htakes : ∀ header payload, F header payload → header.flags = 2 → Takes c header payload)
    (hd : Exchanges F c d) : P d.store := by
  induction hd with
  | nothing => exact hc
  | queue hframe hflags heq =>
    have hqueue := h.queueServiceEvent hc (htakes _ _ hframe hflags)
    rwa [heq] at hqueue
  | lease header payload _ hstore =>
    rw [hstore]
    exact h.leaseNextFrame hc header payload
  | popNotification _ hpop ih => exact h.popNotification ih hpop
  | popLease _ ih => exact h.popLease ih
  | takeObserver _ htake ih => exact h.takeObserver ih htake

end Connection

end KeysharpInput.Client
