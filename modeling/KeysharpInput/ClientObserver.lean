import KeysharpInput.ClientSends
import KeysharpInput.Gaps

/-!
What an observer is told through the client library.
Observer frames are buffered while a call waits, and what does not fit is counted. The account
holds as long as the counter only ever counts single notices that come after everything
buffered: an overflow frame that meets a full buffer is counted as one notice, and a message
that is buffered behind a count comes out before it.
-/

namespace KeysharpInput.Client

open Gaps Transition List Connection ObserverMessage Opcode

def ObserverMessage.record (m : ObserverMessage) : Record ObserverMessage :=
  if m.kind = .overflow then .gap m.droppedEvents else .item m

def notices (messages : List ObserverMessage) : List ObserverMessage :=
  items (messages.map record)

def reported (messages : List ObserverMessage) : Nat :=
  gaps (messages.map record)

def observerFrame (kind dropped : Nat) (body : List Nat) : List Nat :=
  OutFrame.bytes ⟨observerEvent.code, 2, 0,
    writeLe 4 kind ++ writeLe 4 0 ++ writeLe 8 1 ++ writeLe 8 dropped ++ body⟩

def keyboardBody : List Nat := writeLe 4 13 ++ replicate 44 0

def crowdedStream : List Nat :=
  (replicate 16 (observerFrame 1 0 keyboardBody)).flatten ++ observerFrame 5 5 []

def crowdedWait : List Event :=
  .request ksiPing [] :: replicate 17 (.receive [.bytes 1000, .bytes 1000] (fun _ => true) [])

/-- Five lost notices count as one. -/
theorem overflow_counted_once : ∃ c, Reaches step always (connect .observerStream crowdedStream) c ∧
      c.emptied = false ∧
      (notices c.told).length + reported c.told + (notices c.observerNotifications).length +
        reported c.observerNotifications + c.observerDropped = 17 ∧
      (notices c.observed).length + reported c.observed = 21 :=
  exists_reaches _ _ crowdedWait (by decide +kernel)

/-- An observer message that the buffers can take without losing count or order: behind a count
there is no room for messages, and a full buffer leaves only single notices to count. -/
def Connection.fits (c : Connection) (m : ObserverMessage) : Bool :=
  if c.observerNotifications.length = notificationCapacity then
    m.kind != .overflow && c.observerDropped != uint64Max
  else c.observerDropped == 0

def Event.fits (c : Connection) : Event → Bool
  | .receive reads _ _ =>
    match (c.receiveFrame reads).1 with
    | .ok (header, payload) =>
      header.flags != 2 || header.opcode != observerEvent.code ||
        (decodeObserver payload).all c.fits
    | .error _ => true
  | _ => true

namespace Buffers

def stream (b : Buffers) : List (Record ObserverMessage) :=
  (b.told ++ b.observerNotifications).map record ++ pending b.observerDropped

structure Account (b : Buffers) : Prop where
  role : b.role = .observerStream
  condenses : b.emptied = false → Condenses b.stream (b.observed.map record)

end Buffers

namespace Connection

variable {c d : Connection}

theorem account_queueObserver (ha : c.buffers.Account) {m : ObserverMessage}
    (hfits : c.fits m = true) :
    ({ c with observed := c.observed ++ [m] }.queueObserver m).buffers.Account := by
  unfold fits at hfits
  unfold queueObserver
  dsimp only
  split
  · rename_i hfull
    rw [if_pos hfull] at hfits
    obtain ⟨hkind, hmax⟩ : m.kind ≠ .overflow ∧ c.observerDropped ≠ uint64Max := by
      simpa using hfits
    rw [if_pos hmax]
    have hrecord : m.record = .item m := if_neg hkind
    refine ⟨ha.role, fun hemptied => ?_⟩
    have hcount := (ha.condenses hemptied).count_next (r := m.record)
      (by simp [hrecord, Record.weight])
    simpa [Buffers.stream, buffers, hrecord, Record.weight] using hcount
  · rename_i hroom
    rw [if_neg hroom] at hfits
    have hzero : c.observerDropped = 0 := by simpa using hfits
    rw [buffers_updateBufferedReadiness]
    refine ⟨ha.role, fun hemptied => ?_⟩
    have hcondenses := ha.condenses hemptied
    rw [Buffers.stream, show c.buffers.observerDropped = 0 from hzero] at hcondenses
    have hkept := hcondenses.keep_next m.record
    simpa [Buffers.stream, buffers, hzero] using hkept

theorem account_queueServiceEvent (ha : c.buffers.Account) {header : WireHeader}
    {payload : List Nat} (hfits : header.opcode = observerEvent.code →
      ∀ m, decodeObserver payload = some m → c.fits m = true) :
    (c.queueServiceEvent header payload).2.buffers.Account := by
  have hrole : c.role = .observerStream := ha.role
  unfold queueServiceEvent
  rw [if_neg (by simp [hrole])]
  split
  · rename_i hopcode
    split
    · exact ha
    · rename_i m hm
      rw [if_neg (by simp [hrole])]
      exact account_queueObserver ha (hfits hopcode m hm)
  split
  · dsimp only
    split
    · exact ha
    rw [if_neg (by simp [applyRevocation, hrole])]
    split
    · exact ⟨hrole, fun h => by simp [buffers] at h⟩
    · exact ha
  split
  · rename_i hquarantined
    exact absurd hquarantined.2.1 (by simp [hrole])
  · exact ha

theorem account_takeObserver (ha : c.buffers.Account) (h : c.takeObserver = some d) :
    d.buffers.Account := by
  unfold takeObserver at h
  split at h
  · cases h
    exact ha
  split at h
  · rename_i hqueue
    cases h
    rw [buffers_updateBufferedReadiness]
    refine ⟨ha.role, fun hemptied => ?_⟩
    have hcondenses := ha.condenses hemptied
    simpa [Buffers.stream, buffers, hqueue] using hcondenses
  rename_i hqueue
  split at h
  · rename_i hdropped
    cases h
    rw [buffers_updateBufferedReadiness]
    refine ⟨ha.role, fun hemptied => ?_⟩
    have hreport := (ha.condenses hemptied).report hdropped
    simpa [Buffers.stream, buffers, hqueue, record] using hreport
  · cases h

theorem account_rule : StoreRule (·.toBuffers.Account) fun c header payload =>
    header.opcode = observerEvent.code →
      ∀ m, decodeObserver payload = some m → c.fits m = true where
  queueServiceEvent := fun ha hfits => account_queueServiceEvent ha hfits
  leaseNextFrame := fun {c} ha header payload => by
    show (c.leaseNextFrame header payload).buffers.Account
    rw [buffers_leaseNextFrame]
    exact ha
  popNotification := fun {_ d} ha hpop => by
    show d.buffers.Account
    rw [buffers_popNotification hpop]
    exact ha
  popLease := fun ha => ha
  takeObserver := account_takeObserver

theorem account_step (ha : c.buffers.Account) {e : Event} (hfits : e.fits c = true)
    (h : c.step e = some d) : d.buffers.Account := by
  refine account_rule.step ha ?_ h
  rintro reads goOn writes rfl header payload hframe hflags hopcode m hm
  simp only [Event.fits, hframe, hflags, hopcode, hm] at hfits
  exact hfits

end Connection

/-- As long as every observer message fits, what an observer was told, what is buffered and what
is counted account for everything received, and an overflow comes before every notice newer than
the gap it reports. -/
theorem observer_messages_account {stream : List Nat} {c : Connection}
    (h : Reaches step (fun c e => e.fits c = true) (connect .observerStream stream) c)
    (hemptied : c.emptied = false) :
    (notices c.told).length + reported c.told + (notices c.observerNotifications).length +
        reported c.observerNotifications + c.observerDropped =
      (notices c.observed).length + reported c.observed ∧
      (notices (c.told ++ c.observerNotifications)).Sublist (notices c.observed) ∧
      ∀ before dropped after, (c.told ++ c.observerNotifications).map record ++
          pending c.observerDropped = before ++ .gap dropped :: after →
        ∃ older lost newer, c.observed.map record = older ++ lost ++ newer ∧
          total lost = dropped ∧ (items before).Sublist (items older) ∧
          (items after).Sublist (items newer) := by
  have ha : c.buffers.Account := h.invariant
    ⟨rfl, fun _ => .nil⟩ fun _ _ _ ha hfits hstep => account_step ha hfits hstep
  have hcondenses := ha.condenses hemptied
  refine ⟨?_, ?_, fun before dropped after hsplit => ?_⟩
  · have htotal := hcondenses.total_eq
    simp only [Buffers.stream, buffers, map_append, total_append, total_pending] at htotal
    rw [total_eq, total_eq, total_eq] at htotal
    unfold notices reported
    omega
  · have hitems := hcondenses.items_sublist
    rw [Buffers.stream, items_append] at hitems
    exact (sublist_append_left _ _).trans hitems
  have hgap : Condenses (before ++ .gap dropped :: after)
      (c.observed.map record) := hsplit ▸ hcondenses
  obtain ⟨older, lost, newer, heq, hlost, holder, hnewer⟩ := hgap.around_gap
  exact ⟨older, lost, newer, heq, hlost, holder.items_sublist, hnewer.items_sublist⟩

/-- A notice is received by a call for the next message, which tells it. -/
theorem observer_messages_account_next : ∃ c, Reaches step (fun c e => e.fits c = true)
      (connect .observerStream (observerFrame 1 0 keyboardBody)) c ∧ (notices c.told).length = 1 ∧
    (notices c.told).length + reported c.told + (notices c.observerNotifications).length +
        reported c.observerNotifications + c.observerDropped =
      (notices c.observed).length + reported c.observed := by
  obtain ⟨c, hc, hkept, htold⟩ := exists_reaches_of_check step (fun c e => e.fits c)
    (connect .observerStream (observerFrame 1 0 keyboardBody))
    [.observerNext, .receive [.bytes 1000, .bytes 1000] (fun _ => true) []]
    (q := fun c : Connection => c.emptied = false ∧ (notices c.told).length = 1)
    (by decide +kernel) (by decide +kernel)
  exact ⟨c, hc, htold, (observer_messages_account hc hkept).1⟩

end KeysharpInput.Client
