import KeysharpInput.Admission

/-!
Which clients a pass of the main loop reads and removes.
No request moves a client in the table, and the loop only removes at or behind its place, so the
places in front of it are still those that were polled. If no accept of the pass evicts a client,
every read and every removal therefore concerns the client that was polled. An eviction moves the
clients behind it, and the loop then removes one for what was reported about its neighbour.
-/

namespace KeysharpInput.Session

open List Nat Bool Session.Client

variable {s t : State} {i : Nat}

def State.ids (s : State) : List Nat := s.clients.map (·.connectionId)

@[simp] theorem connectionId_reply (f : Frame) (c : Client) :
    (c.reply f).connectionId = c.connectionId := rfl

variable (env : Env)

theorem connectionId_announce (opcode : Opcode) (reply : Frame) (grants : Scopes)
    (c : Client) : (c.announce env opcode reply grants).connectionId = c.connectionId := by
  have hnotice : ∀ c : Client, (if c.connectionRole = .authorizationLease
      then c.notify env (.sessionGranted grants) else c).connectionId = c.connectionId := by
    intro c
    unfold notify
    split
    · split <;> rfl
    · rfl
  unfold announce
  split
  · rw [connectionId_reply, hnotice]
  · rw [hnotice, connectionId_reply]

@[simp] theorem ids_finishClientAuthorization (opcode : Opcode) (requestId : Nat)
    (requested granted : Scopes) (began : Nat) :
    (finishClientAuthorization env s i opcode requestId requested granted began).ids = s.ids := by
  unfold finishClientAuthorization
  split
  · rfl
  · exact Tables.map_modify_of_eq _ (connectionId_announce env opcode _ _)

theorem ids_eq_map_seats (s : State) : s.ids = s.seats.map (·.1) := by
  simp [State.ids, State.seats]

theorem ids_removeClient (s : State) (i : Nat) : (removeClient s i).ids = s.ids.eraseIdx i := by
  cases hc : s.clients[i]? with
  | none =>
    have hlen : s.ids.length ≤ i := by simpa [State.ids] using getElem?_eq_none_iff.mp hc
    rw [eraseIdx_of_length_le hlen, removeClient, hc]
  | some => rw [ids_eq_map_seats, ids_eq_map_seats, seats_removeClient hc, eraseIdx_map]

structure Turn (r : Revents) (id : Nat) (added : List PassAction) : Prop where
  removed : ∀ x, .removed x ∈ added → x = id ∧ (r.closed = true ∨ .read x false ∈ added)
  closed : r.closed = true → .removed id ∈ added
  read : r.readable = true → r.closed = false → ∃ ok, .read id ok ∈ added
  reads : ∀ x ok, .read x ok ∈ added → x = id ∧ r.readable = true ∧ r.closed = false
  current : ∀ j, .stale j ∉ added

variable {revents : Nat → Revents} {sockets : Nat → Reading} {table : List Nat}
  {m n : Nat} {log added : List PassAction}

/-- The log about the places from `n` to `m`, by the clients that stood there when the loop
began. -/
structure PassLog (revents : Nat → Revents) (table : List Nat) (m n : Nat) (s : State)
    (log : List PassAction) : Prop where
  /-- The places that are still to come are as they were. -/
  front : s.ids.take n = table.take n
  removed : ∀ id, .removed id ∈ log →
    (∃ i < m, table[i]? = some id ∧ (revents i).closed = true) ∨ .read id false ∈ log
  closed : ∀ i id, n ≤ i → i < m → table[i]? = some id → (revents i).closed = true →
    .removed id ∈ log
  read : ∀ i id, n ≤ i → i < m → table[i]? = some id → (revents i).readable = true →
    (revents i).closed = false → ∃ ok, .read id ok ∈ log
  reads : ∀ id ok, .read id ok ∈ log →
    ∃ i < m, table[i]? = some id ∧ (revents i).readable = true ∧ (revents i).closed = false
  stale : ∀ i, .stale i ∈ log ↔ n ≤ i ∧ i < m ∧ table.length ≤ i ∧
    ((revents i).closed = true ∨ (revents i).readable = true)
  present : ∀ id ∈ table, id ∈ s.ids ∨ .removed id ∈ log

section

variable (h : PassLog revents table m (i + 1) s log) (hm : i < m)

include h

theorem PassLog.at_place : s.ids[i]? = table[i]? := by
  have hfront := congrArg (fun l => l[i]?) h.front
  simpa only [getElem?_take_of_lt (lt_succ_self i)] using hfront

theorem PassLog.front_le : s.ids.take i = table.take i := by
  simpa [take_take] using congrArg (take i) h.front

include hm

theorem PassLog.turn {id : Nat} (hplace : table[i]? = some id) (hturn : Turn (revents i) id added)
    (hids : t.ids = s.ids ∨ t.ids = s.ids.eraseIdx i ∧ .removed id ∈ added) :
    PassLog revents table m i t (log ++ added) := by
  refine ⟨?_, fun x hx => ?_, fun j x hj hjm hjx hc => ?_, fun j x hj hjm hjx hr hc => ?_,
    fun x ok hx => ?_, fun j => ?_, fun x hx => ?_⟩
  · rcases hids with heq | ⟨heq, -⟩
    · rw [heq, h.front_le]
    · rw [heq, take_eraseIdx_eq_take_of_le _ _ _ (le_refl i), h.front_le]
  · rcases mem_append.mp hx with hold | hnew
    · exact (h.removed x hold).imp_right fun hr => mem_append_left _ hr
    · obtain ⟨rfl, hwhy⟩ := hturn.removed x hnew
      exact hwhy.imp (fun hclosed => ⟨i, hm, hplace, hclosed⟩) fun hr => mem_append_right _ hr
  · rcases eq_or_lt_of_le hj with rfl | hlt
    · obtain rfl := Option.some.inj (hjx.symm.trans hplace)
      exact mem_append_right _ (hturn.closed hc)
    · exact mem_append_left _ (h.closed j x hlt hjm hjx hc)
  · rcases eq_or_lt_of_le hj with rfl | hlt
    · obtain rfl := Option.some.inj (hjx.symm.trans hplace)
      obtain ⟨ok, hok⟩ := hturn.read hr hc
      exact ⟨ok, mem_append_right _ hok⟩
    · obtain ⟨ok, hok⟩ := h.read j x hlt hjm hjx hr hc
      exact ⟨ok, mem_append_left _ hok⟩
  · rcases mem_append.mp hx with hold | hnew
    · exact h.reads x ok hold
    · obtain ⟨rfl, hr⟩ := hturn.reads x ok hnew
      exact ⟨i, hm, hplace, hr⟩
  · have hlt : i < table.length := (List.getElem?_eq_some_iff.mp hplace).1
    rw [mem_append, h.stale j, or_iff_left (hturn.current j)]
    constructor
    · rintro ⟨hj, hrest⟩
      exact ⟨by omega, hrest⟩
    · rintro ⟨hj, hjm, hbeyond, hr⟩
      exact ⟨by omega, hjm, hbeyond, hr⟩
  · rcases h.present x hx with hin | hgone
    · rcases hids with heq | ⟨heq, hlogged⟩
      · exact .inl (heq ▸ hin)
      rw [heq]
      by_cases hsame : x = id
      · exact .inr (mem_append_right _ (hsame ▸ hlogged))
      refine .inl ((mem_eraseIdx_iff_getElem?).mpr ?_)
      obtain ⟨j, hj⟩ := mem_iff_getElem?.mp hin
      refine ⟨j, fun hji => hsame ?_, hj⟩
      exact Option.some.inj ((hji ▸ hj).symm.trans (h.at_place.trans hplace))
    · exact .inr (mem_append_left _ hgone)

end

structure State.Distinct (s : State) : Prop where
  nodup : s.ids.Nodup
  issued : ∀ id ∈ s.ids, id < s.nextConnectionId

theorem State.Distinct.removeClient (hs : s.Distinct) (i : Nat) : (removeClient s i).Distinct := by
  obtain ⟨_, _, -, hframe⟩ := removeClient_frame s i
  have hsub : (Session.removeClient s i).ids.Sublist s.ids := by
    rw [ids_removeClient]
    exact eraseIdx_sublist _ i
  refine ⟨hs.nodup.sublist hsub, fun id hid => ?_⟩
  rw [show (Session.removeClient s i).nextConnectionId = s.nextConnectionId by rw [hframe]]
  exact hs.issued id (hsub.subset hid)

theorem State.Distinct.addClient (hs : s.Distinct) (pid uid startTime : Nat) :
    (addClient env s pid uid startTime).Distinct := by
  unfold Session.addClient
  split_ifs
  · exact hs
  · exact hs
  · exact hs
  have hids : ({ s with
      clients := s.clients ++ [{ connectionId := s.nextConnectionId, pid, uid, startTime }]
      nextConnectionId := s.nextConnectionId + 1 } : State).ids =
      s.ids ++ [s.nextConnectionId] := by
    simp [State.ids]
  constructor
  · rw [hids]
    refine nodup_append.mpr ⟨hs.nodup, nodup_singleton _, fun a ha b hb hab => ?_⟩
    have hlt := hs.issued a ha
    rw [mem_singleton.mp hb] at hab
    omega
  · intro id hid
    rw [hids, mem_append, mem_singleton] at hid
    rcases hid with hid | rfl
    · exact lt_succ_of_lt (hs.issued id hid)
    · exact lt_succ_self _

theorem State.Distinct.acceptClients (hs : s.Distinct) (peers : List Peer) :
    (acceptClients s peers).Distinct := by
  refine foldlRecOn (motive := State.Distinct) peers _ hs fun u hu peer _ => ?_
  have hslot : (ensureActiveClientSlot u).1.Distinct := by
    unfold ensureActiveClientSlot
    split_ifs
    · exact hu
    · split
      · exact hu.removeClient _
      · exact hu
  unfold acceptClient
  split
  · exact hu
  · dsimp only
    split
    · exact hslot.addClient ..
    · exact hslot
variable (s : State) (owner : Option Nat) (notification : Option (Env × Notification))
  (peers : List Peer) (revents : Nat → Revents) (sockets : Nat → Reading)

structure Handled (log : List PassAction) : Prop where
  removed : ∀ id, .removed id ∈ log →
    (∃ i, s.ids[i]? = some id ∧ (revents i).closed = true) ∨ .read id false ∈ log
  read : ∀ i id, s.ids[i]? = some id → (revents i).readable = true → ∃ ok, .read id ok ∈ log
  current : ∀ i, .stale i ∉ log

variable {s revents}

def crowded : State :=
  { systemService := true
    inputOwnerEnforced := true
    activeInputUid := some 2
    nextConnectionId := 65
    clients := (range 64).map fun i =>
      { connectionId := i + 1, pid := i, uid := if i < 10 then 1 else 2, startTime := 0 } }

end KeysharpInput.Session
