import KeysharpInput.Session
import KeysharpInput.Transition

/-!
Observer streams: passive notices of input and of devices.
Notices for an observer wait in a bounded ring until a flush writes them. What the ring cannot take
is counted, and the count goes out as an overflow record before anything newer. While another user
owns the seat or a permission refresh is pending an observer is paused: what it had queued is
counted as lost, and so are the device notices it misses.
-/

namespace KeysharpInput.Observers

open Session

/-- `KSI_OBSERVER_QUEUE_CAPACITY`. -/
def observerQueueCapacity : Nat := 64

def flushBudget : Nat := 32

def uint64Max : Nat := 2 ^ 64 - 1

inductive NoticeKind
  | input
  | deviceAdded
  | deviceRemoved
  | deviceChanged
  | rawInput
  deriving DecidableEq, Repr

def NoticeKind.device : NoticeKind → Bool
  | .deviceAdded | .deviceRemoved | .deviceChanged => true
  | .input | .rawInput => false

structure Notice where
  kind : NoticeKind
  generation : Nat := 0
  eventId : Nat := 0
  body : List Nat := []
  deriving DecidableEq

inductive ObserverFrame
  | notice (n : Notice)
  | overflow (generation dropped : Nat)
  deriving DecidableEq

def ObserverFrame.lost : ObserverFrame → Nat
  | .notice _ => 1
  | .overflow _ dropped => dropped

/-- The outcomes of `hook_send_ref_try_send`. -/
inductive TrySend
  | sent
  | blocked
  | failed
  deriving DecidableEq

/-- The parts of `ksi_client` that observation reads. The last four fields are history: the
frames written, the notices the observer is owed, whether a count was cut off at its maximum, and
whether the client once gave up its last subscription. -/
structure Observer where
  uid : Nat
  connectionRole : ConnectionRole
  observerSubscriptions : Finset Observed := ∅
  /-- HELLO is complete and the grants have Input Monitoring. -/
  monitoring : Bool := false
  hasLease : Bool := false
  permissionRefreshPending : Bool := false
  streamValid : Bool := true
  observerQueue : Bool := false
  queue : List ObserverFrame := []
  dropped : Nat := 0
  delivered : List ObserverFrame := []
  published : List Notice := []
  saturated : Bool := false
  withdrawn : Bool := false

structure Seat where
  inputOwnerEnforced : Bool := false
  activeInputUid : Option Nat := none

/-- `input_owner_matches_uid`. -/
def Seat.ownerMatchesUid (seat : Seat) (uid : Nat) : Bool :=
  !seat.inputOwnerEnforced || seat.activeInputUid == some uid

namespace Observer

variable (seat : Seat) (c : Observer)

/-- `client_has_scope` for Input Monitoring. -/
def hasScope : Bool := c.monitoring && !c.permissionRefreshPending

def active : Bool :=
  c.observerSubscriptions ≠ ∅ && c.hasScope && seat.ownerMatchesUid c.uid && c.streamValid

def paused : Bool :=
  c.observerSubscriptions ≠ ∅ && c.streamValid &&
    (c.permissionRefreshPending || !seat.ownerMatchesUid c.uid)

def countLost (count : Nat) : Observer :=
  if uint64Max - c.dropped < count then { c with dropped := uint64Max, saturated := true }
  else { c with dropped := c.dropped + count }

def discard : Observer :=
  let counted := if c.paused seat then c.queue.foldl (fun c frame => c.countLost frame.lost) c
    else { c with dropped := 0 }
  { counted with queue := [] }

def enqueue (frame : ObserverFrame) : Option Observer :=
  if !c.observerQueue || c.queue.length == observerQueueCapacity then none
  else some { c with queue := c.queue ++ [frame] }

def sendNow (sendOk : ObserverFrame → Bool) (frame : ObserverFrame) : Bool × Observer :=
  if c.streamValid && sendOk frame then (true, { c with delivered := c.delivered ++ [frame] })
  else (false, { c with streamValid := false })

def reportLost (sendOk : ObserverFrame → Bool) (generation : Nat) : Bool × Observer :=
  if c.dropped = 0 then (true, c)
  else
    let frame := ObserverFrame.overflow generation c.dropped
    let (reported, c) := match c.connectionRole with
      | .callbackStream => c.sendNow sendOk frame
      | _ => match c.enqueue frame with
        | some c => (true, c)
        | none => (false, c)
    (reported, if reported then { c with dropped := 0 } else c)

/-- What `observer_publish` does for a client that matches. -/
def offer (sendOk : ObserverFrame → Bool) (n : Notice) : Observer :=
  match c.connectionRole with
  | .callbackStream =>
    if !n.kind.device then c
    else
      let (reported, c) := c.reportLost sendOk n.generation
      if reported then (c.sendNow sendOk (.notice n)).2 else c
  | _ =>
    let c := (c.reportLost sendOk n.generation).2
    (c.enqueue (.notice n)).getD (c.countLost 1)

/-- The body of the loop of `observer_publish`; no subscription asked for stands for zero. -/
def publish (sendOk : ObserverFrame → Bool) (subscription : Option Observed) (n : Notice) :
    Observer :=
  if !c.active seat then if n.kind.device && c.paused seat then c.countLost 1 else c
  else if subscription.any (· ∉ c.observerSubscriptions) then c
  else c.offer sendOk n

/-- What the observer is owed once the notice is out: what matches while it is active, and the
device notices while it is paused. -/
def owed (subscription : Option Observed) (n : Notice) : List Notice :=
  if c.active seat && !subscription.any (· ∉ c.observerSubscriptions) ||
      !c.active seat && c.paused seat && n.kind.device then c.published ++ [n]
  else c.published

/-- The loop of `flush_observers` over the queue, with the outcome of each write. -/
def sendQueued : Nat → List TrySend → Observer → Observer
  | 0, _, c => c
  | budget + 1, outcomes, c =>
    match c.queue, outcomes with
    | frame :: queue, .sent :: outcomes =>
      sendQueued budget outcomes { c with queue := queue, delivered := c.delivered ++ [frame] }
    | _ :: _, .failed :: _ => { c with streamValid := false }
    | _, _ => c

/-- The body of the loop of `flush_observers`. -/
def flush (sendOk : ObserverFrame → Bool) (outcomes : List TrySend) (generation : Nat) : Observer :=
  if !c.active seat then c.discard seat
  else ((sendQueued flushBudget outcomes c).reportLost sendOk generation).2

def revoke : Observer :=
  { c with
    monitoring := false, observerSubscriptions := ∅, queue := [], dropped := 0
    streamValid := false }

end Observer

structure State where
  seat : Seat := {}
  observers : List Observer := []

structure Sends where
  now : Nat → ObserverFrame → Bool := fun _ _ => true
  queued : Nat → List TrySend := fun _ => []
  generation : Nat := 0

inductive Event
  | accept (uid : Nat) (role : ConnectionRole)
  | remove (i : Nat)
  | grant (i : Nat)
  | revoke (i : Nat)
  /-- A write that another part of the daemon makes on the stream fails. -/
  | retire (i : Nat)
  | subscribe (i : Nat) (observed : Observed) (allocOk : Bool)
  | unsubscribe (i : Nat) (observed : Observed)
  | publish (sends : Sends) (subscription : Option Observed) (n : Notice)
  | flush (sends : Sends)
  /-- The first half of `set_active_input_owner`: nobody owns the seat. -/
  | releaseSeat
  /-- The second half: the new owner's observers hear what they missed. -/
  | takeSeat (uid : Nat) (sends : Sends)
  | beginRefresh
  | endRefresh (sends : Sends)

namespace State

variable (s : State)

def modify (i : Nat) (f : Observer → Observer) : State :=
  { s with observers := s.observers.modify i f }

/-- `observer_publish`; what each observer is owed is noted beside the loop's body. -/
def publish (sends : Sends) (subscription : Option Observed) (n : Notice) : State :=
  { s with observers := s.observers.mapIdx fun i c =>
      { c.publish s.seat (sends.now i) subscription n with
        published := c.owed s.seat subscription n } }

/-- `flush_observers`. -/
def flush (sends : Sends) : State :=
  { s with observers := s.observers.mapIdx fun i c =>
      c.flush s.seat (sends.now i) (sends.queued i) sends.generation }

def subscribe (i : Nat) (observed : Observed) (allocOk : Bool) : State :=
  s.modify i fun c =>
    if !s.seat.ownerMatchesUid c.uid || !c.hasScope then c
    else if c.connectionRole = .observerStream && !c.observerQueue && !allocOk then c
    else
      { c with
        observerQueue := c.observerQueue || c.connectionRole == .observerStream
        observerSubscriptions := insert observed c.observerSubscriptions }

def unsubscribe (i : Nat) (observed : Observed) : State :=
  s.modify i fun c =>
    { c with
      observerSubscriptions := c.observerSubscriptions.erase observed
      withdrawn := c.withdrawn ||
        (c.observerSubscriptions ≠ ∅ && c.observerSubscriptions.erase observed = ∅) }

def step : Event → Option State
  | .accept uid role =>
    some { s with observers := s.observers ++ [{ uid := uid, connectionRole := role }] }
  | .remove i => some { s with observers := s.observers.eraseIdx i }
  | .grant i => some (s.modify i fun c => { c with monitoring := true, hasLease := true })
  | .revoke i => some (s.modify i (·.revoke))
  | .retire i => some (s.modify i fun c => { c with streamValid := false })
  | .subscribe i observed allocOk => some (s.subscribe i observed allocOk)
  | .unsubscribe i observed => some (s.unsubscribe i observed)
  | .publish sends subscription n => some (s.publish sends subscription n)
  | .flush sends => some (s.flush sends)
  | .releaseSeat =>
    if s.seat.inputOwnerEnforced && s.seat.activeInputUid.isSome then
      let seat := { s.seat with activeInputUid := none }
      some { seat := seat, observers := s.observers.map fun c => c.discard seat }
    else none
  | .takeSeat uid sends =>
    if s.seat.inputOwnerEnforced && s.seat.activeInputUid.isNone then
      some (flush { s with seat := { s.seat with activeInputUid := some uid } } sends)
    else none
  | .beginRefresh =>
    some { s with observers := s.observers.map fun c =>
      { c with permissionRefreshPending := c.hasLease } }
  | .endRefresh sends =>
    some (flush { s with observers := s.observers.map fun c =>
      { c with permissionRefreshPending := false } } sends)

end State

end KeysharpInput.Observers
