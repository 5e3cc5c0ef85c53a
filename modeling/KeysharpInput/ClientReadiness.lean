import KeysharpInput.ClientPairing

/-!
The descriptor that an application polls.
Notices that arrive while a call waits for something else are kept, and the library makes its own
descriptor readable for them, because the socket no longer is. Whether the descriptor is readable is
a copy of what the buffers hold: each function that fills or drains one of them has to refresh it. A
revocation on an observer stream is kept beside the buffers and does not refresh the copy.
-/

namespace KeysharpInput.Client

open Session (ConnectionRole)
open Transition Connection

def nextCall : ConnectionRole → Event
  | .callbackStream => .hookNext
  | .observerStream => .observerNext
  | .authorizationLease | .rpc => .leaseNext

def Connection.holdsMessage (c : Connection) : Bool :=
  (c.start (nextCall c.role)).any fun d => d.returned == c.returned ++ [⟨.ok, true⟩]

def Connection.holdsNext (c : Connection) : Bool :=
  holdsMessage { c with outstandingHookRequest := 0 }

/-- `ksi_connection_fd` is readable: for the library's own descriptor, for a socket that was shut
down, or for bytes that wait in the socket. -/
def Connection.pollReadable (c : Connection) (waiting : Bool) : Bool :=
  c.ready || (c.shutdown || waiting)

def Store.Revoked (b : Store) : Prop :=
  b.role = .observerStream ∧ b.pendingRevokedScopes ≠ 0

def Store.holds (b : Store) : Bool :=
  !b.notifications.isEmpty || !b.observerNotifications.isEmpty || b.observerDropped != 0 ||
    !b.leaseNotifications.isEmpty

structure Store.Sorted (b : Store) : Prop where
  hook : b.role ≠ .callbackStream → b.notifications = []
  lease : b.role ≠ .authorizationLease → b.role ≠ .rpc → b.leaseNotifications = []
  observer : b.role ≠ .observerStream → b.observerNotifications = [] ∧ b.observerDropped = 0

structure Store.Signals (b : Store) : Prop extends b.Sorted where
  ready : ¬b.Revoked → b.ready = b.holds

theorem Store.Signals.pending {b : Store} (hs : b.Signals) (hrole : b.role ≠ .observerStream)
    (pending : BitVec 32) : Store.Signals { b with pendingRevokedScopes := pending } :=
  ⟨⟨hs.hook, hs.lease, hs.observer⟩, fun _ => hs.ready fun hrevoked => hrole hrevoked.1⟩

namespace Connection

variable {c d : Connection}

theorem signals_updateBufferedReadiness (h : c.store.Sorted) :
    c.updateBufferedReadiness.store.Signals := by
  refine ⟨⟨h.hook, h.lease, h.observer⟩, fun hrevoked => ?_⟩
  have hnone : (c.role == .observerStream && c.pendingRevokedScopes != 0) = false := by
    rw [Bool.eq_false_iff]
    intro hboth
    simp only [Bool.and_eq_true, beq_iff_eq, bne_iff_ne] at hboth
    exact hrevoked hboth
  show (_ || (c.role == .observerStream && c.pendingRevokedScopes != 0)) = c.store.holds
  rw [hnone, Bool.or_false]
  rfl

section

variable (hs : c.store.Signals)

include hs

theorem signals_queueNotification (hrole : c.role = .callbackStream) (message : HookMessage) :
    (c.queueNotification message).2.store.Signals := by
  unfold queueNotification
  split
  · exact hs
  · exact signals_updateBufferedReadiness
      ⟨fun hother => absurd hrole hother, hs.lease, hs.observer⟩

theorem signals_queueLease (hrole : c.role = .authorizationLease ∨ c.role = .rpc)
    (message : LeaseMessage) : (c.queueLease message).2.store.Signals := by
  have hsorted : ∀ messages,
      Store.Sorted (store { c with leaseNotifications := messages }) := fun messages =>
    ⟨hs.hook, fun hlease hrpc => absurd hrole (not_or.mpr ⟨hlease, hrpc⟩), hs.observer⟩
  unfold queueLease
  split
  · exact signals_updateBufferedReadiness (hsorted _)
  split
  · exact hs
  · exact signals_updateBufferedReadiness (hsorted _)

theorem signals_queueLeaseEvent
    (hrole : c.role = .authorizationLease ∨ c.role = .rpc) (header : WireHeader)
    (payload : List Nat) : (c.queueLeaseEvent header payload).2.store.Signals := by
  unfold queueLeaseEvent
  split
  · split
    · exact hs
    · exact signals_queueLease hs hrole _
  split
  · split
    · exact hs
    · exact signals_queueLease
        (c := { c with grantedScopes := BitVec.ofNat 32 (readU32 payload 0) }) hs hrole _
  split
  · dsimp only
    split
    · exact hs
    have hother : c.role ≠ .observerStream := by
      rcases hrole with hrole | hrole <;> exact hrole ▸ nofun
    have hkept : Store.Signals (store
        { c.applyRevocation (decodeRevocation payload) with pendingRevokedScopes := 0 }) :=
      hs.pending hother 0
    exact signals_queueLease hkept hrole _
  · exact hs

theorem signals_queueObserver (hrole : c.role = .observerStream)
    (message : ObserverMessage) : (c.queueObserver message).store.Signals := by
  unfold queueObserver
  split
  · rename_i hfull
    have hbuffered : c.observerNotifications.isEmpty = false := by
      rw [List.isEmpty_eq_false_iff]
      intro hnone
      rw [hnone] at hfull
      cases hfull
    split
    · -- The count alone is not signalled, but the full buffer already is.
      refine ⟨⟨hs.hook, hs.lease, fun hother => absurd hrole hother⟩, fun hrevoked => ?_⟩
      have hready := hs.ready hrevoked
      simp only [Store.holds, store, buffers, hbuffered] at hready ⊢
      simpa using hready
    · exact ⟨⟨hs.hook, hs.lease, hs.observer⟩, hs.ready⟩
  · exact signals_updateBufferedReadiness
      ⟨hs.hook, hs.lease, fun hother => absurd hrole hother⟩

theorem signals_queueServiceEvent (header : WireHeader)
    (payload : List Nat) : (c.queueServiceEvent header payload).2.store.Signals := by
  unfold queueServiceEvent
  split
  · rename_i hrole
    exact signals_queueLeaseEvent hs hrole header payload
  rename_i hlease
  have hobserver : c.role ≠ .callbackStream → c.role = .observerStream := by
    intro hhook
    cases hrole : c.role with
    | observerStream => rfl
    | callbackStream => exact absurd hrole hhook
    | rpc => exact absurd (.inr hrole) hlease
    | authorizationLease => exact absurd (.inl hrole) hlease
  split
  · split
    · exact hs
    split
    · exact hs
    · rename_i hhook
      exact signals_queueObserver (c := { c with observed := c.observed ++ [_] })
        ⟨⟨hs.hook, hs.lease, hs.observer⟩, hs.ready⟩ (hobserver hhook) _
  split
  · dsimp only
    split
    · exact hs
    rename_i hsome
    split
    · rename_i hrole
      have hkept : (c.applyRevocation (decodeRevocation payload)).store.Signals :=
        hs.pending (fun hother => absurd (hother.symm.trans hrole) nofun) _
      exact signals_queueNotification hkept hrole _
    rename_i hhook
    have hrole := hobserver hhook
    have hrevoked : (c.applyRevocation (decodeRevocation payload)).store.Revoked :=
      ⟨hrole, fun hzero => hsome (BitVec.or_eq_zero_iff.mp hzero).2⟩
    split
    · exact ⟨⟨hs.hook, hs.lease, fun hother => absurd hrole hother⟩,
        fun hnot => absurd hrevoked hnot⟩
    · exact ⟨⟨hs.hook, hs.lease, hs.observer⟩, fun hnot => absurd hrevoked hnot⟩
  split
  · rename_i hquarantined
    exact signals_queueNotification hs hquarantined.2.1 _
  · exact hs

theorem signals_popNotification (h : c.popNotification = some d) : d.store.Signals := by
  unfold popNotification at h
  split at h
  · cases h
  rename_i rest hqueue
  cases h
  have hhook : c.role ≠ .callbackStream → rest = [] := fun hother =>
    absurd ((hs.hook hother).symm.trans hqueue) nofun
  apply signals_updateBufferedReadiness
  split <;> exact ⟨hhook, hs.lease, hs.observer⟩

end

theorem signals_popLease (hs : c.store.Sorted) : c.popLease.store.Signals := by
  refine signals_updateBufferedReadiness ⟨hs.hook, fun hlease hrpc => ?_, hs.observer⟩
  rw [show c.leaseNotifications = [] from hs.lease hlease hrpc]
  rfl

theorem signals_takeObserver (hs : c.store.Signals) (h : c.takeObserver = some d) :
    d.store.Signals := by
  unfold takeObserver at h
  split at h
  · cases h
    exact signals_updateBufferedReadiness ⟨hs.hook, hs.lease, hs.observer⟩
  split at h
  · rename_i hqueue
    cases h
    refine signals_updateBufferedReadiness ⟨hs.hook, hs.lease, fun hother => ?_⟩
    exact absurd ((hs.observer hother).1.symm.trans hqueue) nofun
  split at h
  · cases h
    exact signals_updateBufferedReadiness
      ⟨hs.hook, hs.lease, fun hother => ⟨(hs.observer hother).1, rfl⟩⟩
  · cases h

theorem queueLeaseEvent_first (hnone : c.leaseNotifications = []) (header : WireHeader)
    (payload : List Nat) :
    c.queueLeaseEvent header payload = (false, c) ∨
      ∃ message pending granted, c.queueLeaseEvent header payload =
        (true, updateBufferedReadiness { c with
          leaseNotifications := [message]
          pendingRevokedScopes := pending
          grantedScopes := granted }) := by
  have hqueue : ∀ d : Connection, d.leaseNotifications = [] → ∀ message, d.queueLease message =
        (true, updateBufferedReadiness { d with leaseNotifications := [message] }) := by
    intro _ hd _
    simp [queueLease, hd, notificationCapacity]
  unfold queueLeaseEvent
  split
  · split
    · exact .inl rfl
    · exact .inr ⟨_, c.pendingRevokedScopes, c.grantedScopes, hqueue c hnone _⟩
  split
  · split
    · exact .inl rfl
    · exact .inr ⟨_, c.pendingRevokedScopes, _,
        hqueue { c with grantedScopes := BitVec.ofNat 32 (readU32 payload 0) } hnone _⟩
  split
  · dsimp only
    split
    · exact .inl rfl
    · exact .inr ⟨_, 0, _, hqueue
        { c.applyRevocation (decodeRevocation payload) with pendingRevokedScopes := 0 } hnone _⟩
  · exact .inl rfl

theorem signals_leaseNextFrame (hs : c.store.Signals) (header : WireHeader)
    (payload : List Nat) : (c.leaseNextFrame header payload).store.Signals := by
  unfold leaseNextFrame
  split
  · by_cases hrole : c.role = .authorizationLease ∨ c.role = .rpc
    · have hqueue := signals_queueLeaseEvent hs hrole header payload
      split
      · rename_i c₁ heq
        rw [heq] at hqueue
        exact signals_popLease hqueue.toSorted
      · rename_i heq
        rw [heq] at hqueue
        exact hqueue
    · -- No such call waits on another role; its message would leave the buffer empty again.
      have hother := not_or.mp hrole
      obtain heq | ⟨message, pending, granted, heq⟩ :=
        queueLeaseEvent_first (hs.lease hother.1 hother.2) header payload
      · rw [heq]
        exact hs
      · rw [heq]
        exact signals_updateBufferedReadiness ⟨hs.hook, fun _ _ => rfl, hs.observer⟩
  · exact hs

theorem signals_rule : StoreRule Store.Signals fun _ _ _ => True where
  queueServiceEvent := fun hs _ => signals_queueServiceEvent hs _ _
  leaseNextFrame := signals_leaseNextFrame
  popNotification := signals_popNotification
  popLease := fun hs => signals_popLease hs.toSorted
  takeObserver := signals_takeObserver

theorem holdsNext_callback (hrole : c.role = .callbackStream) :
    c.holdsNext = !c.notifications.isEmpty := by
  unfold holdsNext holdsMessage
  cases c.notifications with
  | nil => simp [nextCall, start, popNotification, hrole]
  | cons message =>
    cases message <;>
      simp [nextCall, start, popNotification, answer, updateBufferedReadiness, hrole]

theorem holdsNext_lease (hrole : c.role = .authorizationLease ∨ c.role = .rpc) :
    c.holdsNext = !c.leaseNotifications.isEmpty := by
  have hnext : nextCall c.role = .leaseNext := by
    rcases hrole with hrole | hrole <;> rw [hrole] <;> rfl
  have hlease : ¬(c.role ≠ .authorizationLease ∧ c.role ≠ .rpc) := by
    rwa [← not_or, not_not]
  unfold holdsNext holdsMessage
  cases c.leaseNotifications with
  | nil => simp [hnext, start, if_neg hlease]
  | cons =>
    simp [hnext, start, if_neg hlease, popLease, answer, updateBufferedReadiness]

theorem holdsNext_observer (hrole : c.role = .observerStream) (hnone : c.pendingRevokedScopes = 0) :
    c.holdsNext = (!c.observerNotifications.isEmpty || c.observerDropped != 0) := by
  unfold holdsNext holdsMessage
  cases c.observerNotifications with
  | nil =>
    by_cases hdropped : c.observerDropped = 0
    · simp [nextCall, start, takeObserver, hrole, hnone, hdropped]
    · simp [nextCall, start, takeObserver, answer, updateBufferedReadiness, hrole, hnone, hdropped]
  | cons =>
    simp [nextCall, start, takeObserver, answer, updateBufferedReadiness, hrole, hnone]

theorem holdsNext_eq (hs : c.store.Sorted) (hrevoked : ¬c.store.Revoked) :
    c.holdsNext = c.store.holds := by
  have hhook : c.role ≠ .callbackStream → c.notifications = [] := hs.hook
  have hlease : c.role ≠ .authorizationLease → c.role ≠ .rpc → c.leaseNotifications = [] :=
    hs.lease
  have hobserver : c.role ≠ .observerStream →
      c.observerNotifications = [] ∧ c.observerDropped = 0 := hs.observer
  cases hrole : c.role with
  | callbackStream =>
    simp [hrole] at hlease hobserver
    simp [holdsNext_callback hrole, Store.holds, store, buffers, hlease, hobserver]
  | observerStream =>
    have hnone : c.pendingRevokedScopes = 0 := by
      by_contra hsome
      exact hrevoked ⟨hrole, hsome⟩
    simp [hrole] at hlease hhook
    simp [holdsNext_observer hrole hnone, Store.holds, store, buffers, hlease, hhook]
  | authorizationLease =>
    simp [hrole] at hhook hobserver
    simp [holdsNext_lease (.inl hrole), Store.holds, store, buffers, hhook, hobserver]
  | rpc =>
    simp [hrole] at hhook hobserver
    simp [holdsNext_lease (.inr hrole), Store.holds, store, buffers, hhook, hobserver]

end Connection

/-- In every state of a connection, unless an observer was not yet told of a revocation, the
library's descriptor is readable exactly if the next call for a message returns one without
reading the socket, once the hook event that was taken last is answered. -/
theorem readiness_exact {role : ConnectionRole} {stream : List Nat} {c : Connection}
    (h : Reaches step always (connect role stream) c)
    (htold : ¬(c.role = .observerStream ∧ c.pendingRevokedScopes ≠ 0)) :
    (c.ready = true ↔ c.holdsNext = true) ∧
      (c.outstandingHookRequest = 0 → (c.ready = true ↔ c.holdsMessage = true)) ∧
      ∀ waiting, c.pollReadable waiting = true ↔
        c.holdsNext = true ∨ c.shutdown = true ∨ waiting = true := by
  have hinit : (connect role stream).store.Signals :=
    ⟨⟨fun _ => rfl, fun _ _ => rfl, fun _ => ⟨rfl, rfl⟩⟩, fun _ => rfl⟩
  have hs : c.store.Signals := h.invariant hinit
    fun _ _ _ hs _ hstep => signals_rule.step hs (fun _ _ _ _ _ _ _ _ => trivial) hstep
  have hready : c.ready = c.holdsNext :=
    (hs.ready htold).trans (holdsNext_eq hs.toSorted htold).symm
  refine ⟨by rw [hready], fun hanswered => ?_, fun waiting => ?_⟩
  · have hsame : { c with outstandingHookRequest := 0 } = c := by rw [← hanswered]
    rw [hready, holdsNext, hsame]
  · rw [pollReadable, Bool.or_eq_true, Bool.or_eq_true, hready]

/-- A revocation that an observer's ping receives is kept, and the descriptor does not tell. -/
example : (run step
    (connect .observerStream (OutFrame.bytes ⟨Opcode.sessionRevoked.code, 2, 0,
      writeLe 4 1 ++ writeLe 4 0⟩ ++ pongFrame 1)) [.request ksiPing [], readAll, readAll]).any
      (fun c => c.calls.isEmpty && !c.pollReadable false && c.holdsMessage) = true := by
  decide +kernel

def noticeWhileBusy : List Event := [.hookNext, readAll, .request ksiPing [], readAll, readAll]

def busyStream : List Nat := hookFrame 7 ++ quarantineFrame ++ pongFrame 1

theorem readiness_exact_busy : ∃ c,
    Reaches step always (connect .callbackStream busyStream) c ∧ c.ready = true ∧
      c.mayCall = true ∧ (c.ready = true ↔ c.holdsNext = true) := by
  obtain ⟨c, hc, hrole, hready, hmay⟩ := exists_reaches step
    (connect .callbackStream busyStream) noticeWhileBusy
    (q := fun c : Connection => c.role = .callbackStream ∧ c.ready ∧ c.mayCall) (by decide +kernel)
  exact ⟨c, hc, hready, hmay,
    (readiness_exact hc fun htold => absurd (hrole.symm.trans htold.1) nofun).1⟩

/-- The descriptor is readable for that notice, but the next call says that it is busy. -/
theorem readable_while_busy : ∃ c d,
    Reaches step always (connect .callbackStream busyStream) c ∧ c.calls = [] ∧
      c.shutdown = false ∧ c.ready = true ∧ c.step .hookNext = some d ∧
      d.returned = c.returned ++ [⟨.busy, false⟩] := by
  obtain ⟨c, hc, hcalls, hshutdown, hready, hnext⟩ := exists_reaches step
    (connect .callbackStream busyStream) noticeWhileBusy (q := fun c : Connection => c.calls = [] ∧
      c.shutdown = false ∧ c.ready ∧
      (c.step .hookNext).any fun d => d.returned = c.returned ++ [⟨.busy, false⟩])
    (by decide +kernel)
  obtain ⟨d, hd, hreturned⟩ := (Option.any_eq_true _ _).mp hnext
  exact ⟨c, d, hc, hcalls, hshutdown, hready, hd, of_decide_eq_true hreturned⟩

end KeysharpInput.Client
