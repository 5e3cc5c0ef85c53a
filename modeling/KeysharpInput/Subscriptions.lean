import KeysharpInput.Requests

/-!
Hook and observer subscriptions, BlockInput and hook quarantine.
A subscription needs Input Monitoring at the time of the request and BlockInput needs
Input Control; afterwards they are kept until a request, a revocation, a fail-open or
the end of the lease takes them. A grab change that fails rolls the request back.
-/
namespace KeysharpInput.Session

open Function

structure HookPayload where
  hookType : Nat
  reserved : Nat

variable (env : Env) (s : State)

/-- `handle_hook_subscription` on an observer stream. -/
def handleObserverSubscription (i : Nat) (c : Client)
    (opcode : Opcode) (requestId : Nat) (t : HookType) : State :=
  let answer := fun (s : State) => s.modifyClient i fun c =>
    c.reply (.observedResult opcode requestId (c.observerSubscriptions.erase .devices))
  if opcode = .subscribeHook then
    if !s.inputOwnerMatchesUid c.uid || !clientHasScope s.leases c {.inputMonitoring} then
      sendStatus s i opcode requestId .denied .none
    else if !c.observerQueue && !env.allocOk then
      sendStatus s i opcode requestId .resourceExhausted .none
    else answer (s.modifyClient i fun c =>
      { c with
        observerQueue := true
        observerSubscriptions := insert t.observed c.observerSubscriptions })
  else answer (s.modifyClient i fun c =>
    { c with observerSubscriptions := c.observerSubscriptions.erase t.observed })

/-- The change `handle_hook_subscription` makes before it updates the grabs. -/
def changeHookSubscription (i : Nat) (c : Client) (opcode : Opcode) (t : HookType) : State :=
  if opcode = .subscribeHook then
    if t ∈ c.hookSubscriptions then s
    else
      let ordinal := s.nextHookSubscriptionOrdinal t + 1
      { s.modifyClient i fun c =>
          { c with
            hookSubscriptions := insert t c.hookSubscriptions
            hookSubscriptionOrdinal := update c.hookSubscriptionOrdinal t ordinal } with
        nextHookSubscriptionOrdinal :=
          update s.nextHookSubscriptionOrdinal t ordinal }
  else s.modifyClient i fun c =>
    { c with
      hookSubscriptions := c.hookSubscriptions.erase t
      hookSubscriptionOrdinal := update c.hookSubscriptionOrdinal t 0 }

/-- `handle_hook_subscription` on a callback stream. A failed grab restores the client's
subscriptions and its ordinal, not the counter. -/
def handleCallbackSubscription (i : Nat) (c : Client)
    (opcode : Opcode) (requestId : Nat) (t : HookType) : State :=
  if opcode = .subscribeHook
      && (!s.inputOwnerMatchesUid c.uid || !clientHasScope s.leases c {.inputMonitoring}) then
    sendStatus s i opcode requestId .denied .none
  else if opcode = .subscribeHook && s.readyOperations &&& hookOperation t == 0 then
    sendStatus s i opcode requestId .unavailable .none
  else
    let s := changeHookSubscription s i c opcode t
    if env.grabOk then
      s.modifyClient i fun c => c.reply (.hooksResult opcode requestId c.hookSubscriptions)
    else
      sendStatus (s.modifyClient i fun o =>
        { o with
          hookSubscriptions := c.hookSubscriptions
          hookSubscriptionOrdinal :=
            update o.hookSubscriptionOrdinal t (c.hookSubscriptionOrdinal t) })
        i opcode requestId .unavailable .none

/-- `handle_hook_subscription`, for subscribe and unsubscribe. -/
def handleHookSubscription (i : Nat) (opcode : Opcode)
    (requestId : Nat) (payload : Option HookPayload) : State :=
  match s.clients[i]? with
  | none => s
  | some c =>
    if c.connectionRole ≠ .callbackStream ∧ c.connectionRole ≠ .observerStream then
      sendStatus s i opcode requestId .denied .wrongRole
    else match payload with
      | none => sendStatus s i opcode requestId .invalidRequest .payloadSize
      | some payload =>
        if payload.reserved ≠ 0 then
          sendStatus s i opcode requestId .invalidRequest .reservedNonzero
        else match decodeHookType payload.hookType with
          | none => sendStatus s i opcode requestId .invalidRequest .valueRange
          | some t =>
            if c.connectionRole = .observerStream then
              handleObserverSubscription env s i c opcode requestId t
            else handleCallbackSubscription env s i c opcode requestId t

def handleDevicesSubscribe (i : Nat) (requestId : Nat) (payloadEmpty : Bool) : State :=
  match s.clients[i]? with
  | none => s
  | some c =>
    if c.connectionRole ≠ .observerStream ∧ c.connectionRole ≠ .callbackStream then
      sendStatus s i .devicesSubscribe requestId .denied .wrongRole
    else if !payloadEmpty then
      sendStatus s i .devicesSubscribe requestId .invalidRequest .payloadSize
    else if !s.inputOwnerMatchesUid c.uid || !clientHasScope s.leases c {.inputMonitoring} then
      sendStatus s i .devicesSubscribe requestId .denied .none
    else if c.connectionRole = .observerStream && !c.observerQueue && !env.allocOk then
      sendStatus s i .devicesSubscribe requestId .resourceExhausted .none
    else
      sendStatus (s.modifyClient i fun c =>
        { c with
          observerQueue := c.observerQueue || c.connectionRole == .observerStream
          observerSubscriptions := insert .devices c.observerSubscriptions })
        i .devicesSubscribe requestId .ok .none

structure BlockPayload where
  blockMask : Nat
  reserved : Nat

def handleSetBlockInput (i : Nat) (requestId : Nat) (payload : Option BlockPayload) : State :=
  match s.clients[i]? with
  | none => s
  | some c =>
    let fail := sendStatus s i .setBlockInput requestId
    match payload with
    | none => fail .invalidRequest .payloadSize
    | some payload =>
      if payload.reserved ≠ 0 then fail .invalidRequest .reservedNonzero
      else match decodeBlockMask payload.blockMask with
        | none => fail .invalidRequest .valueRange
        | some mask =>
          if mask ≠ ∅ ∧ !clientHasScope s.leases c {.inputControl} then fail .denied .none
          else if mask ≠ ∅ ∧ !s.inputOwnerMatchesUid c.uid then fail .denied .none
          else if mask ≠ ∅ ∧ s.readyOperations &&& blockInputOperation = 0 then
            fail .unavailable .none
          else if env.grabOk then
            s.modifyClient i fun c =>
              { c with blockInputMask := mask }.reply (.blockResult requestId mask)
          else fail .unavailable .none

/-- The pause before a quarantined hook is tried again: it doubles from one second up to
sixteen. -/
def retryAfterMs (failures : Nat) : Nat :=
  1000 <<< (if failures > 5 then 4 else failures - 1)

def recordClientHookFailure (i : Nat) (t : HookType) : State :=
  match s.clients[i]? with
  | none => s
  | some c =>
    if !s.inputOwnerMatchesUid c.uid then s
    else if t ∉ c.hookSubscriptions ∨ t ∈ c.quarantinedHooks then s
    else
      let last := c.lastHookQuarantineMs t
      let failures :=
        (if last ≠ 0 ∧ env.nowMs ≥ last + 60000 then 0 else c.consecutiveHookFailures t) + 1
      let s := s.modifyClient i fun c =>
        { c with
          consecutiveHookFailures := update c.consecutiveHookFailures t failures
          lastHookQuarantineMs := update c.lastHookQuarantineMs t env.nowMs
          quarantinedHooks := insert t c.quarantinedHooks
          stalledLanes := insert t c.stalledLanes
          quarantineRearmAfterMs := update c.quarantineRearmAfterMs t
            (env.nowMs + retryAfterMs failures) }
      if failures < maxConsecutiveHookFailures then s else removeClient s i

/-- The turn of `retry_quarantined_hooks` for one client and one hook type. -/
def Client.retryHook (now : Nat) (t : HookType) (c : Client) : Client :=
  if t ∉ c.quarantinedHooks ∨ c.quarantineRearmAfterMs t = 0 ∨ now < c.quarantineRearmAfterMs t
  then c
  else
    { c with
      quarantinedHooks := c.quarantinedHooks.erase t
      quarantineRearmAfterMs := update c.quarantineRearmAfterMs t 0
      stalledLanes := c.stalledLanes.erase t }

def retryQuarantinedHooks : State :=
  { s with clients := s.clients.map fun c =>
    (c.retryHook env.nowMs .keyboard).retryHook env.nowMs .mouse }

end KeysharpInput.Session
