import KeysharpInput.Daemon

/-!
One pass of the main loop over the polled clients.
The descriptors are polled in the order of the client table. Before the loop comes to them, the
pass may follow a change of the seat, invalidate permissions and accept connections, and an accept
may evict a client. The
loop then goes through the polled places from the last to the first, and takes whatever client
stands at a place for the one that was polled there.
-/

namespace KeysharpInput.Session

structure Revents where
  /-- Any of `POLLHUP`, `POLLERR` and `POLLNVAL`. -/
  closed : Bool := false
  readable : Bool := false
  deriving DecidableEq

structure Peer where
  env : Env := {}
  pid : Nat
  uid : Nat
  startTime : Nat := 0

inductive PassAction
  | read (connectionId : Nat) (ok : Bool)
  | removed (connectionId : Nat)
  /-- The place is beyond the table: what stands there is no client. -/
  | stale (i : Nat)
  deriving DecidableEq

def acceptClients (s : State) (peers : List Peer) : State :=
  peers.foldl (fun s peer => acceptClient peer.env s peer.pid peer.uid peer.startTime) s

end KeysharpInput.Session
