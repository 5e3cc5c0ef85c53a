import Mathlib

/-!
The callback stack of one stream (`connection_ref.c`).
A root callback enters an empty stack; a recursive one may also enter above a frame that is pumping
a Send. Every critical section of `turn_mutex` is one step: a blocked call is resumed by a wake-up,
spurious or not, or by its deadline. The unlocked look at `valid` that precedes a section is an
argument of the call, since the stream may be invalidated between the two.
-/
namespace KeysharpInput.Callback

open Function

/-- `KSI_MAX_HOOK_CALL_DEPTH`. -/
def maxHookCallDepth : Nat := 64

/-- `ksi_hook_call_frame`; the default is a zeroed slot. -/
structure CallFrame where
  eventId : Nat := 0
  pumping : Bool := false
  deriving DecidableEq, Repr

/-- `ksi_hook_turn_waiter`; it lives on the stack of the thread that waits. -/
structure TurnWaiter where
  thread : Nat
  recursive : Bool
  deriving DecidableEq, Repr

/-- The turn fields of `ksi_hook_send_ref`. -/
structure SendRef where
  valid : Bool := true
  waiters : List TurnWaiter := []
  calls : Nat → CallFrame := fun _ => {}
  callDepth : Nat := 0

namespace SendRef

variable (ref : SendRef)

/-- `best_waiter`: the first recursive one, or else the first. -/
def bestWaiter : Option TurnWaiter :=
  (ref.waiters.find? (·.recursive)).or ref.waiters.head?

/-- `calls[call_depth - 1]`, read only when the stack is not empty. -/
def top : CallFrame := ref.calls (ref.callDepth - 1)

def waiterCanEnter (waiter : TurnWaiter) : Bool :=
  if ref.callDepth ≥ maxHookCallDepth || ref.bestWaiter != some waiter then false
  else if ref.callDepth = 0 then true
  else waiter.recursive && ref.top.pumping

/-- The loop of `find_call`, from the top of the stack down. -/
def findBelow (calls : Nat → CallFrame) (eventId : Nat) : Nat → Option Nat
  | 0 => none
  | i + 1 => if (calls i).eventId = eventId then some i else findBelow calls eventId i

def findCall (eventId : Nat) : Option Nat :=
  findBelow ref.calls eventId ref.callDepth

def setCall (i : Nat) (f : CallFrame → CallFrame) : SendRef :=
  { ref with calls := update ref.calls i (f (ref.calls i)) }

def appendWaiter (waiter : TurnWaiter) : SendRef :=
  { ref with waiters := ref.waiters ++ [waiter] }

def removeWaiter (waiter : TurnWaiter) : SendRef :=
  { ref with waiters := ref.waiters.erase waiter }

def enter (eventId : Nat) : SendRef :=
  { ref.setCall ref.callDepth fun frame => { frame with eventId } with
    callDepth := ref.callDepth + 1 }

/-- `hook_send_ref_complete_event`: the frames above close the gap and the last slot is
zeroed. -/
def completeEvent (eventId : Nat) : SendRef :=
  if eventId = 0 then ref
  else match ref.findCall eventId with
    | none => ref
    | some index =>
      { ref with
        calls := fun i =>
          if i = ref.callDepth - 1 then {}
          else if index ≤ i ∧ i < ref.callDepth - 1 then ref.calls (i + 1)
          else ref.calls i
        callDepth := ref.callDepth - 1 }

/-- The locked part of `hook_send_ref_begin_pump`. -/
def beginPump (eventId : Nat) : SendRef × Bool :=
  if ref.callDepth ≠ 0 ∧ ref.top.eventId = eventId ∧ !ref.top.pumping then
    (ref.setCall (ref.callDepth - 1) fun frame => { frame with pumping := true }, true)
  else (ref, false)

def currentEventId : Nat :=
  if ref.valid && ref.callDepth != 0 then ref.top.eventId else 0

/-- `end_pump` keeps waiting: something still stands above its frame. -/
def pumpWaits (eventId index : Nat) : Bool :=
  ref.valid && decide (ref.callDepth > index + 1) && (ref.calls index).eventId == eventId

/-- The result of `end_pump` once it stops waiting. -/
def pumpEnded (eventId index : Nat) : Bool :=
  ref.valid && ref.callDepth == index + 1 && (ref.calls index).eventId == eventId

end SendRef

inductive Blocked
  | turn (eventId : Nat) (recursive : Bool)
  | pump (eventId index : Nat)
  deriving DecidableEq, Repr

inductive Returned
  | turn (eventId : Nat) (recursive entered : Bool)
  | beginPump (eventId : Nat) (ok : Bool)
  | endPump (eventId : Nat) (ended : Bool)
  deriving DecidableEq, Repr

/-- A stream with the threads that use it. The last three fields are history: the ids
that asked for a turn, the frames that were asked to end their pump and for which
`end_pump` has not returned true since, and what the last step returned. -/
structure Stream where
  ref : SendRef := {}
  blocked : Nat → Option Blocked := fun _ => none
  requested : List Nat := []
  asked : Nat → Bool := fun _ => false
  returned : Option Returned := none

inductive Action
  | waitEventTurn (thread eventId : Nat) (recursive sawValid : Bool)
  | beginPump (eventId : Nat) (sawValid : Bool)
  | endPump (thread eventId : Nat) (sawValid : Bool)
  | completeEvent (eventId : Nat)
  /-- The condition variable lets a thread go on. -/
  | wake (thread : Nat)
  /-- The deadline of a turn passes. -/
  | timeout (thread : Nat)
  /-- `hook_send_ref_invalidate`. -/
  | invalidate

namespace Stream

variable (s : Stream)

def leaveTurn (thread eventId : Nat) (recursive entered : Bool) (ref : SendRef) : Stream :=
  { s with
    ref := ref.removeWaiter ⟨thread, recursive⟩
    blocked := update s.blocked thread none
    returned := some (.turn eventId recursive entered) }

/-- One round of the loop of `hook_send_ref_wait_event_turn`. -/
def tryTurn (thread eventId : Nat) (recursive : Bool) : Stream :=
  if !s.ref.valid then s.leaveTurn thread eventId recursive false s.ref
  else if s.ref.waiterCanEnter ⟨thread, recursive⟩ then
    s.leaveTurn thread eventId recursive true (s.ref.enter eventId)
  else
    { s with
      blocked := update s.blocked thread (some (.turn eventId recursive))
      returned := none }

/-- One round of the loop of `hook_send_ref_end_pump`. -/
def tryEndPump (thread eventId index : Nat) : Stream :=
  if s.ref.pumpWaits eventId index then
    { s with
      blocked := update s.blocked thread (some (.pump eventId index))
      returned := none }
  else
    let ended := s.ref.pumpEnded eventId index
    { s with
      blocked := update s.blocked thread none
      asked := if ended then update s.asked eventId false else s.asked
      returned := some (.endPump eventId ended) }

/-- `hook_send_ref_end_pump` after its unlocked look. -/
def endPump (thread eventId : Nat) : Stream :=
  match s.ref.findCall eventId with
  | none => { s with returned := some (.endPump eventId false) }
  | some index =>
    if (s.ref.calls index).pumping then
      { s with
        ref := s.ref.setCall index fun frame => { frame with pumping := false }
        asked := update s.asked eventId true }.tryEndPump thread eventId index
    else { s with returned := some (.endPump eventId false) }

def step : Action → Option Stream
  | .waitEventTurn thread eventId recursive sawValid =>
    if (s.blocked thread).isSome then none
    else
      let s := { s with requested := eventId :: s.requested }
      if eventId = 0 || !sawValid then
        some { s with returned := some (.turn eventId recursive false) }
      else
        some ({ s with ref := s.ref.appendWaiter ⟨thread, recursive⟩ }.tryTurn
          thread eventId recursive)
  | .beginPump eventId sawValid =>
    if eventId = 0 || !sawValid then
      some { s with returned := some (.beginPump eventId false) }
    else
      let (ref, ok) := s.ref.beginPump eventId
      some { s with ref, returned := some (.beginPump eventId ok) }
  | .endPump thread eventId sawValid =>
    if (s.blocked thread).isSome then none
    else if eventId = 0 || !sawValid then
      some { s with returned := some (.endPump eventId false) }
    else some (s.endPump thread eventId)
  | .completeEvent eventId => some { s with ref := s.ref.completeEvent eventId, returned := none }
  | .wake thread =>
    match s.blocked thread with
    | none => none
    | some (.turn eventId recursive) => some (s.tryTurn thread eventId recursive)
    | some (.pump eventId index) => some (s.tryEndPump thread eventId index)
  | .timeout thread =>
    match s.blocked thread with
    | some (.turn eventId recursive) => some (s.leaveTurn thread eventId recursive false s.ref)
    | _ => none
  | .invalidate => some { s with ref := { s.ref with valid := false }, returned := none }

end Stream

end KeysharpInput.Callback
