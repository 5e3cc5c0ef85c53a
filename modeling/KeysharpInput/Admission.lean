import KeysharpInput.Effects
import KeysharpInput.PollPass

/-!
Admission to the client table.
A full table gives a slot of another user to the active one before `add_client` checks the limit of
that user and allocates. So a client may be evicted for a connection that is then refused.
-/

namespace KeysharpInput.Session

open List

variable {env : Env} {s : State} {uid : Nat}

def State.seats (s : State) : List (Nat × Nat) := s.clients.map fun c => (c.connectionId, c.uid)

structure State.WithinLimits (s : State) : Prop where
  total : s.seats.length ≤ maxClients
  perUser : ∀ uid, s.seats.countP (·.2 == uid) ≤ maxClientsPerUid

/-- What `add_client` puts behind a table. -/
def newcomer (env : Env) (s : State) (uid : Nat) (seats : List (Nat × Nat)) : List (Nat × Nat) :=
  if seats.length < maxClients ∧ seats.countP (·.2 == uid) < maxClientsPerUid ∧ env.allocOk = true
  then [(s.nextConnectionId, uid)] else []

inductive Accepted (env : Env) (s : State) (uid : Nat) : List (Nat × Nat) → Prop
  | refused : Accepted env s uid s.seats
  | added : Accepted env s uid (s.seats ++ newcomer env s uid s.seats)
  | evicted {i : Nat} {seat : Nat × Nat} (hfull : maxClients ≤ s.seats.length)
      (hseat : s.seats[i]? = some seat) (hother : s.inputOwnerMatchesUid seat.2 = false) :
      Accepted env s uid (s.seats.eraseIdx i ++ newcomer env s uid (s.seats.eraseIdx i))

theorem seats_removeClient {c : Client} {i : Nat} (hc : s.clients[i]? = some c) :
    (removeClient s i).seats = s.seats.eraseIdx i := by
  have hcores : ∀ t : State, t.seats = t.cores.map fun k => (k.connectionId, k.uid) := by
    intro t
    simp [State.seats, State.cores, Client.core]
  rw [hcores, hcores, removeClient_cores hc, eraseIdx_map]

theorem seats_addClient (pid uid startTime : Nat) :
    (addClient env s pid uid startTime).seats = s.seats ++ newcomer env s uid s.seats := by
  have hlength : s.seats.length = s.clients.length := by simp [State.seats]
  have hcount : s.seats.countP (·.2 == uid) = s.clients.countP fun c => c.uid == uid := countP_map
  unfold addClient newcomer
  rw [hlength, hcount]
  split
  · rw [if_neg (by omega), append_nil]
  split
  · rw [if_neg (by omega), append_nil]
  split
  · rw [if_neg (by simp_all), append_nil]
  · rw [if_pos (by simp_all)]
    exact map_append

theorem accepted (hs : s.WithinLimits) (pid uid startTime : Nat) :
    Accepted env s uid (acceptClient env s pid uid startTime).seats := by
  have hlength : s.seats.length = s.clients.length := by simp [State.seats]
  have htotal := hs.total
  unfold acceptClient
  split
  · exact .refused
  by_cases hroom : s.clients.length < maxClients
  · have hslot : ensureActiveClientSlot s = (s, true) := if_pos hroom
    simp only [hslot, if_true, seats_addClient]
    exact .added
  cases hfind : s.clients.findIdx? fun c => !s.inputOwnerMatchesUid c.uid with
  | none =>
    have hslot : ensureActiveClientSlot s = (s, false) := by
      simp [ensureActiveClientSlot, hroom, hfind]
    simp only [hslot]
    exact .refused
  | some i =>
    obtain ⟨hi, hother, -⟩ := findIdx?_eq_some_iff_getElem.mp hfind
    have hc : s.clients[i]? = some s.clients[i] := getElem?_eq_getElem hi
    have hseats := seats_removeClient hc
    have hfree : (removeClient s i).clients.length < maxClients := by
      have hlen := congrArg length hseats
      rw [length_eraseIdx_of_lt (by omega)] at hlen
      simp only [State.seats, length_map] at hlen hlength htotal
      omega
    have hslot : ensureActiveClientSlot s = (removeClient s i, true) := by
      simp [ensureActiveClientSlot, hroom, hfind, hfree]
    obtain ⟨_, _, -, hframe⟩ := removeClient_frame s i
    have hnext : (removeClient s i).nextConnectionId = s.nextConnectionId := by rw [hframe]
    simp only [hslot, if_true, seats_addClient, hseats, newcomer, hnext]
    have hseat : s.seats[i]? = some (s.clients[i].connectionId, s.clients[i].uid) := by
      simp [State.seats, hc]
    exact .evicted (by omega) hseat (by simpa using hother)

theorem newcomer_perUser {seats : List (Nat × Nat)}
    (h : ∀ u, seats.countP (·.2 == u) ≤ maxClientsPerUid) (u : Nat) :
    (seats ++ newcomer env s uid seats).countP (·.2 == u) ≤ maxClientsPerUid := by
  unfold newcomer
  split
  · rename_i hadmits
    rw [countP_append]
    by_cases hu : uid = u
    · subst hu
      simp
      omega
    · simpa [hu] using h u
  · simpa using h u

theorem newcomer_total {seats : List (Nat × Nat)} (h : seats.length ≤ maxClients) :
    (seats ++ newcomer env s uid seats).length ≤ maxClients := by
  unfold newcomer
  split
  · rename_i hadmits
    rw [length_append]
    exact hadmits.1
  · simpa using h

theorem State.WithinLimits.accept (hs : s.WithinLimits) (pid uid startTime : Nat) :
    (acceptClient env s pid uid startTime).WithinLimits := by
  have haccepted : Accepted env s uid _ := accepted hs pid uid startTime
  generalize hseats : (acceptClient env s pid uid startTime).seats = seats at haccepted
  suffices hlimits : seats.length ≤ maxClients ∧ ∀ u, seats.countP (·.2 == u) ≤ maxClientsPerUid by
    exact ⟨hseats ▸ hlimits.1, hseats ▸ hlimits.2⟩
  cases haccepted with
  | refused => exact ⟨hs.total, hs.perUser⟩
  | added => exact ⟨newcomer_total hs.total, newcomer_perUser hs.perUser⟩
  | @evicted i =>
    have hsub := eraseIdx_sublist s.seats i
    refine ⟨newcomer_total (hsub.length_le.trans hs.total), newcomer_perUser fun u => ?_⟩
    exact hsub.countP_le.trans (hs.perUser u)

theorem State.WithinLimits.accepts (hs : s.WithinLimits) (peers : List Peer) :
    (acceptClients s peers).WithinLimits := by
  induction peers generalizing s with
  | nil => exact hs
  | cons _ _ ih => exact ih (hs.accept ..)

/-- The limits hold, and each connection leaves all clients or takes the slot of one whose user is
not active; it is then admitted if its user is below the limit and the allocations succeed. -/
theorem client_admission (hs : s.WithinLimits) (peers : List Peer) :
    (acceptClients s peers).WithinLimits ∧
    ∀ before peer after, peers = before ++ peer :: after →
      ∃ u t, u = acceptClients s before ∧
        t = acceptClient peer.env u peer.pid peer.uid peer.startTime ∧
        ((∃ new, t.seats = u.seats ++ new) ∨
          ∃ i seat new, u.seats[i]? = some seat ∧ u.inputOwnerMatchesUid seat.2 = false ∧
            t.seats = u.seats.eraseIdx i ++ new ∧
            (u.seats.countP (·.2 == peer.uid) < maxClientsPerUid → peer.env.allocOk = true →
              new = [(u.nextConnectionId, peer.uid)])) := by
  refine ⟨hs.accepts peers, ?_⟩
  rintro before peer after -
  refine ⟨_, _, rfl, rfl, ?_⟩
  have hu := hs.accepts before
  generalize acceptClients s before = u at hu
  have haccepted : Accepted peer.env u peer.uid _ := accepted hu peer.pid peer.uid peer.startTime
  generalize (acceptClient peer.env u peer.pid peer.uid peer.startTime).seats = seats at haccepted
  cases haccepted with
  | refused => exact .inl ⟨[], by simp⟩
  | added => exact .inl ⟨_, rfl⟩
  | @evicted i seat _ hseat hother =>
    refine .inr ⟨i, seat, _, hseat, hother, rfl, fun hbelow halloc => if_pos ⟨?_, ?_, halloc⟩⟩
    · have htotal := hu.total
      obtain ⟨hi, -⟩ := List.getElem?_eq_some_iff.mp hseat
      rw [length_eraseIdx_of_lt hi]
      omega
    · exact (eraseIdx_sublist u.seats i).countP_le.trans_lt hbelow

def fullTable (n : Nat) : State where
  clients := replicate n { connectionId := 1, pid := 1, uid := 1, startTime := 0 } ++
    replicate (maxClients - n) { connectionId := 2, pid := 2, uid := 2, startTime := 0 }
  systemService := true
  inputOwnerEnforced := true
  activeInputUid := some 1

theorem fullTable_withinLimits {n : Nat} (hn : 8 ≤ n ∧ n ≤ maxClientsPerUid) :
    (fullTable n).WithinLimits := by
  obtain ⟨hlow, hhigh⟩ := hn
  unfold maxClientsPerUid maxClients at hhigh
  refine ⟨by simp [State.seats, fullTable, maxClients]; omega, fun uid => ?_⟩
  simp only [State.seats, fullTable, map_append, map_replicate, countP_append, countP_replicate,
    maxClientsPerUid, maxClients, beq_iff_eq]
  split_ifs <;> omega

theorem client_admission_replaces :
    (acceptClients (fullTable 55) [{ pid := 1, uid := 1 }]).WithinLimits ∧
      (acceptClients (fullTable 55) [{ pid := 1, uid := 1 }]).seats =
        (fullTable 55).seats.eraseIdx 55 ++ [((fullTable 55).nextConnectionId, 1)] :=
  ⟨(client_admission (fullTable_withinLimits (by decide)) _).1, by decide +kernel⟩

/-- The limit of the active user refuses the connection for which a client was evicted. -/
theorem evicted_for_nobody : (fullTable 56).WithinLimits ∧
    (acceptClients (fullTable 56) [{ pid := 1, uid := 1 }]).seats =
      (fullTable 56).seats.eraseIdx 56 :=
  ⟨fullTable_withinLimits (by decide), by decide +kernel⟩

end KeysharpInput.Session
