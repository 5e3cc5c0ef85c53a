import KeysharpInput.Grants
import KeysharpInput.Tables

/-!
Who may hold grants: the invariant that ties clients, leases and identities.
It reads only part of each client, its core, so that most of what the daemon does
leaves it alone by definition. A lease counts the clients attached to it, is active
while its owner is connected, and grants something only when the owner has an
identity whose hash the lease carries.
-/
namespace KeysharpInput.Session

open Tables List

variable {cs : List Core} {f : Core → Core}

structure Core where
  connectionId : Nat
  uid : Nat
  pid : Nat
  startTime : Nat
  role : ConnectionRole
  lease : Option Nat
  hello : Bool
  attempted : Bool
  hasIdentity : Bool
  identityHash : Hash

def Client.core (c : Client) : Core where
  connectionId := c.connectionId
  uid := c.uid
  pid := c.pid
  startTime := c.startTime
  role := c.connectionRole
  lease := c.authorizationLease
  hello := c.helloComplete
  attempted := c.identityAttempted
  hasIdentity := c.hasIdentity
  identityHash := c.identityHash

def Core.peer (k : Core) : Nat × Nat × Nat := (k.uid, k.pid, k.startTime)

def State.cores (s : State) : List Core := s.clients.map Client.core

/-- `leases'` is `leases` with some grants withdrawn. -/
def Leases.Shrinks (leases leases' : Leases) : Prop :=
  ∀ q, ∃ scopes : Scopes, leases' q =
    (leases q).map fun l => { l with grantedScopes := l.grantedScopes \ scopes }

theorem Leases.Shrinks.refl (leases : Leases) : leases.Shrinks leases :=
  fun q => ⟨∅, by simp⟩

theorem Leases.Shrinks.trans {a b c : Leases} (hab : a.Shrinks b) (hbc : b.Shrinks c) :
    a.Shrinks c := by
  intro q
  obtain ⟨x, hx⟩ := hab q
  obtain ⟨y, hy⟩ := hbc q
  refine ⟨x ∪ y, ?_⟩
  rw [hy, hx]
  simp [Function.comp_def, sdiff_sdiff_left]

theorem Leases.shrinks_modify (leases : Leases) (p : Nat) (scopes : Scopes) :
    leases.Shrinks (leases.modify p fun l =>
      { l with grantedScopes := l.grantedScopes \ scopes }) := by
  intro q
  by_cases hq : q = p
  · subst hq
    exact ⟨scopes, by simp [Leases.modify]⟩
  · exact ⟨∅, by simp [Leases.modify, hq]⟩

def attached (cs : List Core) (p : Nat) : Nat := cs.countP fun c => c.lease == some p

/-- The connection that allocated lease `p` and still has it. -/
def Core.Owns (o : Core) (p : Nat) : Prop :=
  o.connectionId = p ∧ o.role = .authorizationLease ∧ o.lease = some p

structure Registry (cs : List Core) (leases : Leases) (next : Nat) : Prop where
  next_pos : 0 < next
  nodup : (cs.map Core.connectionId).Nodup
  bounds : ∀ c ∈ cs, 0 < c.connectionId ∧ c.connectionId < next
  fresh : ∀ c ∈ cs, c.hello = false →
    c.role = .rpc ∧ c.lease = none ∧ c.attempted = false ∧ c.hasIdentity = false
  own : ∀ c ∈ cs, c.role = .authorizationLease → ∀ p, c.lease = some p →
    p = c.connectionId ∧ ∃ l, leases p = some l ∧ l.active = true
  pointers : ∀ d ∈ cs, ∀ p, d.lease = some p → p < next ∧ ∀ c ∈ cs, c.connectionId = p → c.Owns p
  counted : ∀ p l, leases p = some l → l.references = attached cs p
  allocated : ∀ p, leases p = none → attached cs p = 0
  owned : ∀ p l, leases p = some l → l.active = true →
    ∃ o ∈ cs, o.Owns p ∧ ∀ c ∈ cs, c.lease = some p → c.peer = o.peer
  granted : ∀ p l, leases p = some l → l.grantedScopes ≠ ∅ →
    l.active = true ∧ ∃ o ∈ cs, o.Owns p ∧ o.hasIdentity = true ∧ l.hash = o.identityHash
  identified : ∀ c ∈ cs, c.hasIdentity = true →
    c.role = .authorizationLease ∧ c.hello = true ∧ c.attempted = true

theorem attached_pos {c : Core} {p : Nat} (hc : c ∈ cs) (hp : c.lease = some p) :
    0 < attached cs p :=
  countP_pos_iff.mpr ⟨c, hc, by simp [hp]⟩

theorem attached_modify {i : Nat} {c : Core} (hc : cs[i]? = some c) (hf : (f c).lease = c.lease)
    (p : Nat) : attached (cs.modify i f) p = attached cs p := by
  have := countP_modify (f := f) (fun c : Core => c.lease == some p) hc
  simp only [hf] at this
  exact Nat.add_right_cancel this

theorem nodup_modify {i : Nat} (hn : (cs.map Core.connectionId).Nodup)
    (hf : ∀ c, (f c).connectionId = c.connectionId) :
    ((cs.modify i f).map Core.connectionId).Nodup := by
  rwa [map_modify_of_eq Core.connectionId hf]

namespace Registry

variable {cs : List Core} {leases : Leases} {next i p : Nat} {c : Core} {l : Lease}
  {f : Core → Core} {leases' : Leases}

section

variable (h : Registry cs leases next)

include h

theorem lease_exists (hc : c ∈ cs) (hp : c.lease = some p) : ∃ l, leases p = some l := by
  cases hl : leases p with
  | some l => exact ⟨l, rfl⟩
  | none =>
    have := attached_pos hc hp
    have := h.allocated p hl
    omega

theorem granted_owner (hc : c ∈ cs) (ho : c.Owns p) (hl : leases p = some l)
    (hg : l.grantedScopes ≠ ∅) : c.hasIdentity = true ∧ l.hash = c.identityHash := by
  obtain ⟨-, o, hos, how, hid, hh⟩ := h.granted p l hl hg
  obtain rfl : c = o := eq_of_key_eq h.nodup hc hos (ho.1.trans how.1.symm)
  exact ⟨hid, hh⟩

theorem granted_peer (hc : c ∈ cs) (hp : c.lease = some p)
    (hl : leases p = some l) (hg : l.grantedScopes ≠ ∅) :
    ∃ o ∈ cs, o.Owns p ∧ o.hasIdentity = true ∧ l.hash = o.identityHash ∧ o.peer = c.peer := by
  obtain ⟨hactive, -⟩ := h.granted p l hl hg
  obtain ⟨o, hos, how, huid⟩ := h.owned p l hl hactive
  obtain ⟨hid, hh⟩ := h.granted_owner hos how hl hg
  exact ⟨o, hos, how, hid, hh, (huid c hc hp).symm⟩

theorem modify_core (hc : cs[i]? = some c) (hid : ∀ c, (f c).connectionId = c.connectionId)
    (hpeer : (f c).peer = c.peer) (hlease : (f c).lease = c.lease)
    (hfresh : (f c).hello = false → (f c).role = .rpc ∧ (f c).lease = none ∧
      (f c).attempted = false ∧ (f c).hasIdentity = false)
    (hrole : (f c).role = .authorizationLease → ∀ p, c.lease = some p →
      c.role = .authorizationLease) (howner : ∀ p, c.Owns p → (f c).role = .authorizationLease)
    (hkeep : c.hasIdentity = true → (f c).hasIdentity = true ∧ (f c).identityHash = c.identityHash)
    (hident : (f c).hasIdentity = true →
      (f c).role = .authorizationLease ∧ (f c).hello = true ∧ (f c).attempted = true) :
    Registry (cs.modify i f) leases next := by
  have hmem : c ∈ cs := mem_of_getElem? hc
  have howns : ∀ o ∈ cs, ∀ p, o.Owns p → ∃ o' ∈ cs.modify i f, o'.Owns p ∧ o'.peer = o.peer ∧
      (o.hasIdentity = true → o'.hasIdentity = true ∧ o'.identityHash = o.identityHash) := by
    intro o ho p how
    by_cases hoc : o.connectionId = c.connectionId
    · obtain rfl := eq_of_key_eq h.nodup ho hmem hoc
      exact ⟨f o, (mem_modify h.nodup hc).mpr (.inl rfl),
        ⟨(hid o).trans how.1, howner p how, hlease.trans how.2.2⟩, hpeer, hkeep⟩
    · exact ⟨o, (mem_modify h.nodup hc).mpr (.inr ⟨ho, hoc⟩), how, rfl, fun h => ⟨h, rfl⟩⟩
  have hpoint : ∀ x ∈ cs.modify i f, ∀ p, x.lease = some p → ∃ y ∈ cs, y.lease = some p ∧
      x.peer = y.peer :=
    forall_mem_modify hc (fun p hp => ⟨c, hmem, hlease ▸ hp, hpeer⟩) fun x hx p hp =>
      ⟨x, hx, hp, rfl⟩
  refine ⟨h.next_pos, nodup_modify h.nodup hid, ?_, forall_mem_modify hc hfresh h.fresh, ?_, ?_, ?_,
    ?_, ?_, ?_, forall_mem_modify hc hident h.identified⟩
  · refine forall_mem_modify hc ?_ h.bounds
    rw [hid]
    exact h.bounds c hmem
  · refine forall_mem_modify hc (fun hr p hp => ?_) h.own
    rw [hid]
    rw [hlease] at hp
    exact h.own c hmem (hrole hr p hp) p hp
  · intro x hx p hp
    obtain ⟨y, hy, hyp, -⟩ := hpoint x hx p hp
    obtain ⟨hlt, hown⟩ := h.pointers y hy p hyp
    refine ⟨hlt, forall_mem_modify hc (fun hdp => ?_) hown⟩
    have how := hown c hmem (hid c ▸ hdp)
    exact ⟨hdp, howner p how, hlease.trans how.2.2⟩
  · intro p l hl
    rw [attached_modify hc hlease]
    exact h.counted p l hl
  · intro p hl
    rw [attached_modify hc hlease]
    exact h.allocated p hl
  · intro p l hl hactive
    obtain ⟨o, ho, how, hu⟩ := h.owned p l hl hactive
    obtain ⟨o', ho', how', hu', -⟩ := howns o ho p how
    refine ⟨o', ho', how', fun x hx hp => ?_⟩
    obtain ⟨y, hy, hyp, hxy⟩ := hpoint x hx p hp
    rw [hxy, hu y hy hyp, hu']
  · intro p l hl hg
    obtain ⟨hactive, o, ho, how, hoid, hh⟩ := h.granted p l hl hg
    obtain ⟨o', ho', how', -, hkept⟩ := howns o ho p how
    exact ⟨hactive, o', ho', how', (hkept hoid).1, by rw [hh, (hkept hoid).2]⟩

theorem append {k : Core} (hid : k.connectionId = next) (hlease : k.lease = none)
    (hident : k.hasIdentity = false) (hrole : k.role = .rpc) (hattempted : k.attempted = false) :
    Registry (cs ++ [k]) leases (next + 1) := by
  have hattached : ∀ p, attached (cs ++ [k]) p = attached cs p := by simp [attached, hlease]
  refine ⟨Nat.succ_pos _, ?_, ?_, ?_, ?_, ?_, ?_, ?_, ?_, ?_, ?_⟩
  · rw [map_append, map_singleton]
    refine nodup_append.mpr ⟨h.nodup, nodup_singleton _, ?_⟩
    intro a ha b hb
    obtain ⟨c, hc, rfl⟩ := mem_map.mp ha
    have := (h.bounds c hc).2
    simp only [mem_singleton] at hb
    omega
  · refine forall_mem_concat (fun x hx => ?_) ⟨hid ▸ h.next_pos, hid ▸ Nat.lt_succ_self _⟩
    exact ⟨(h.bounds x hx).1, Nat.lt_succ_of_lt (h.bounds x hx).2⟩
  · exact forall_mem_concat h.fresh fun _ => ⟨hrole, hlease, hattempted, hident⟩
  · exact forall_mem_concat h.own (by simp [hlease])
  · refine forall_mem_concat (fun x hx p hp => ?_) (by simp [hlease])
    obtain ⟨hlt, hown⟩ := h.pointers x hx p hp
    refine ⟨Nat.lt_succ_of_lt hlt, forall_mem_concat hown fun hkp => ?_⟩
    omega
  · intro p l hl
    rw [hattached]
    exact h.counted p l hl
  · intro p hl
    rw [hattached]
    exact h.allocated p hl
  · intro p l hl hactive
    obtain ⟨o, ho, how, hu⟩ := h.owned p l hl hactive
    exact ⟨o, mem_append_left _ ho, how, forall_mem_concat hu (by simp [hlease])⟩
  · intro p l hl hg
    obtain ⟨hactive, o, ho, hrest⟩ := h.granted p l hl hg
    exact ⟨hactive, o, mem_append_left _ ho, hrest⟩
  · exact forall_mem_concat h.identified (by simp [hident])

end

/-- What the removal of client `c` may do to the lease heap: its own lease loses one
reference, and ends with its owner. -/
structure Unlinks (cs : List Core) (c : Core) (leases leases' : Leases) : Prop where
  other : ∀ q, c.lease ≠ some q → leases' q = leases q
  last : ∀ q, c.lease = some q → leases' q = none → attached cs q = 1
  linked : ∀ q l', c.lease = some q → leases' q = some l' → ∃ l, leases q = some l ∧
    l'.references + 1 = l.references ∧
    (c.role ≠ .authorizationLease ∧ l'.active = l.active ∧
        l'.grantedScopes = l.grantedScopes ∧ l'.hash = l.hash ∧
        l'.grantedBegan = l.grantedBegan ∨
      c.role = .authorizationLease ∧ l'.active = false ∧ l'.grantedScopes = ∅)

theorem erase (h : Registry cs leases next) (hc : cs[i]? = some c)
    (hu : Unlinks cs c leases leases') : Registry (cs.eraseIdx i) leases' next := by
  have hmem : c ∈ cs := mem_of_getElem? hc
  have hcases : ∀ x, x ∈ cs.eraseIdx i ↔ x ∈ cs ∧ x.connectionId ≠ c.connectionId :=
    fun x => mem_eraseIdx h.nodup hc
  have hcount : ∀ q, attached (cs.eraseIdx i) q + (if c.lease = some q then 1 else 0) =
      attached cs q := by
    intro q
    simpa [attached] using countP_eraseIdx (fun c : Core => c.lease == some q) hc
  -- The owner of a lease that is still active is not the client that leaves.
  have howner : ∀ q l', leases' q = some l' → l'.active = true → ∃ l, leases q = some l ∧
      l.active = true ∧ l'.grantedScopes = l.grantedScopes ∧ l'.hash = l.hash ∧ ¬ c.Owns q := by
    intro q l' hl' hactive
    by_cases hq : c.lease = some q
    · obtain ⟨l, hl, -, hkeep⟩ := hu.linked q l' hq hl'
      rcases hkeep with ⟨hrole, ha, hg, hh, -⟩ | ⟨-, ha, -⟩
      · exact ⟨l, hl, ha ▸ hactive, hg, hh, fun how => hrole how.2.1⟩
      · rw [ha] at hactive
        simp at hactive
    · exact ⟨l', hu.other q hq ▸ hl', hactive, rfl, rfl, fun how => hq how.2.2⟩
  have hstays : ∀ q, ∀ o ∈ cs, o.Owns q → ¬ c.Owns q → o ∈ cs.eraseIdx i := by
    intro q o ho how hnot
    refine (hcases o).mpr ⟨ho, fun heq => hnot ?_⟩
    obtain rfl := eq_of_key_eq h.nodup ho hmem heq
    exact how
  refine ⟨h.next_pos, ?_, ?_, ?_, ?_, ?_, ?_, ?_, ?_, ?_, ?_⟩
  · exact h.nodup.sublist ((eraseIdx_sublist cs i).map _)
  · exact fun x hx => h.bounds x ((hcases x).mp hx).1
  · exact fun x hx => h.fresh x ((hcases x).mp hx).1
  · intro x hx hr q hq
    obtain ⟨hxs, hne⟩ := (hcases x).mp hx
    obtain ⟨rfl, l, hl, hactive⟩ := h.own x hxs hr q hq
    refine ⟨rfl, ?_⟩
    by_cases hcx : c.lease = some x.connectionId
    · have hpos := attached_pos hx hq
      have hcnt := hcount x.connectionId
      rw [if_pos hcx] at hcnt
      cases hl' : leases' x.connectionId with
      | none =>
        have := hu.last _ hcx hl'
        omega
      | some l' =>
        obtain ⟨k, hk, -, ⟨-, ha, -⟩ | ⟨hrole, -⟩⟩ := hu.linked _ l' hcx hl'
        · rw [Option.some.inj (hk.symm.trans hl)] at ha
          exact ⟨l', rfl, ha.trans hactive⟩
        · exact absurd (h.own c hmem hrole _ hcx).1 hne
    · exact ⟨l, by rw [hu.other _ hcx, hl], hactive⟩
  · intro x hx q hq
    obtain ⟨hlt, hown⟩ := h.pointers x ((hcases x).mp hx).1 q hq
    exact ⟨hlt, fun d hd => hown d ((hcases d).mp hd).1⟩
  · intro q l' hl'
    have := hcount q
    by_cases hq : c.lease = some q
    · obtain ⟨l, hl, href, -⟩ := hu.linked q l' hq hl'
      have := h.counted q l hl
      rw [if_pos hq] at *
      omega
    · rw [hu.other q hq] at hl'
      have := h.counted q l' hl'
      rw [if_neg hq] at *
      omega
  · intro q hl'
    have := hcount q
    by_cases hq : c.lease = some q
    · have := hu.last q hq hl'
      rw [if_pos hq] at *
      omega
    · rw [hu.other q hq] at hl'
      have := h.allocated q hl'
      omega
  · intro q l' hl' hactive
    obtain ⟨l, hl, ha, -, -, hnot⟩ := howner q l' hl' hactive
    obtain ⟨o, ho, how, hsame⟩ := h.owned q l hl ha
    exact ⟨o, hstays q o ho how hnot, how, fun x hx => hsame x ((hcases x).mp hx).1⟩
  · intro q l' hl' hg
    have hactive : l'.active = true := by
      by_cases hq : c.lease = some q
      · obtain ⟨l, hl, -, ⟨-, ha, hgl, -⟩ | ⟨-, -, hnone⟩⟩ := hu.linked q l' hq hl'
        · exact ha.trans (h.granted q l hl (hgl ▸ hg)).1
        · exact absurd hnone hg
      · exact (h.granted q l' (hu.other q hq ▸ hl') hg).1
    obtain ⟨l, hl, -, hgl, hh, hnot⟩ := howner q l' hl' hactive
    obtain ⟨-, o, ho, how, hid, hash⟩ := h.granted q l hl (hgl ▸ hg)
    exact ⟨hactive, o, hstays q o ho how hnot, how, hid, hh.trans hash⟩
  · exact fun x hx => h.identified x ((hcases x).mp hx).1

/-- A client without a lease is attached to `p`. -/
theorem attached_link (hc : cs[i]? = some c) (hnone : c.lease = none) (hf : (f c).lease = some p)
    (q : Nat) : attached (cs.modify i f) q = attached cs q + (if q = p then 1 else 0) := by
  have := countP_modify (f := f) (fun c : Core => c.lease == some q) hc
  simp only [hnone, hf] at this
  by_cases hq : q = p
  · subst hq
    simpa [attached] using this
  · have hpq : p ≠ q := Ne.symm hq
    simpa [attached, hq, hpq] using this

/-- What client `c`, which had no lease, may become with the lease `p`: its own new one, or one that
is active and belongs to its process. -/
structure Links (cs : List Core) (c c' : Core) (p : Nat) (leases leases' : Leases) (l : Lease) :
    Prop where
  free : c.lease = none
  peer : c'.peer = c.peer
  lease : c'.lease = some p
  hello : c'.hello = true
  unidentified : c'.hasIdentity = false
  new : leases' p = some l
  active : l.active = true
  other : ∀ q, q ≠ p → leases' q = leases q
  references : l.references = attached cs p + 1
  kind : (p = c.connectionId ∧ c'.role = .authorizationLease ∧ l.grantedScopes = ∅) ∨
    (c'.role ≠ .authorizationLease ∧ ∃ o ∈ cs, o.Owns p ∧ o.peer = c.peer ∧
      ∃ k, leases p = some k ∧ l.grantedScopes = k.grantedScopes ∧ l.hash = k.hash)

namespace Links

variable (hu : Links cs c (f c) p leases leases' l) (h : Registry cs leases next)
  (hc : cs[i]? = some c)

include hu h hc

theorem stays {o : Core} {q : Nat} (ho : o ∈ cs) (how : o.Owns q) : o ∈ cs.modify i f := by
  refine (mem_modify h.nodup hc).mpr (.inr ⟨ho, fun heq => ?_⟩)
  obtain rfl := eq_of_key_eq h.nodup ho (mem_of_getElem? hc) heq
  exact Option.some_ne_none q (how.2.2.symm.trans hu.free)

theorem owner (hid : ∀ c, (f c).connectionId = c.connectionId) :
    ∃ o ∈ cs.modify i f, o.Owns p ∧ o.peer = c.peer ∧ p < next := by
  rcases hu.kind with ⟨rfl, hr, -⟩ | ⟨-, o, ho, how, hou, -⟩
  · exact ⟨f c, (mem_modify h.nodup hc).mpr (.inl rfl), ⟨hid c, hr, hu.lease⟩, hu.peer,
      (h.bounds c (mem_of_getElem? hc)).2⟩
  · exact ⟨o, hu.stays h hc ho how, how, hou, (h.pointers o ho p how.2.2).1⟩

theorem peers : ∀ x ∈ cs.modify i f, x.lease = some p → x.peer = c.peer := by
  refine forall_mem_modify hc (fun _ => hu.peer) fun x hx hp => ?_
  rcases hu.kind with ⟨rfl, -, -⟩ | ⟨-, o, ho, how, hou, -⟩
  · have how := (h.pointers x hx _ hp).2 c (mem_of_getElem? hc) rfl
    exact absurd (how.2.2.symm.trans hu.free) (Option.some_ne_none _)
  · obtain ⟨-, k, hk, ha⟩ := h.own o ho how.2.1 p how.2.2
    obtain ⟨o', ho', how', hsame⟩ := h.owned p k hk ha
    rw [hsame x hx hp, ← hsame o ho how.2.2, hou]

theorem pointers (hid : ∀ c, (f c).connectionId = c.connectionId) : ∀ x ∈ cs.modify i f, ∀ q,
    x.lease = some q → q < next ∧ ∀ d ∈ cs.modify i f, d.connectionId = q → d.Owns q := by
  intro x hx q hq
  by_cases hqp : q = p
  · subst hqp
    obtain ⟨o, ho, how, -, hlt⟩ := hu.owner h hc hid
    refine ⟨hlt, fun d hd hdq => ?_⟩
    obtain rfl := eq_of_key_eq (nodup_modify h.nodup hid) hd ho (hdq.trans how.1.symm)
    exact how
  rcases (mem_modify h.nodup hc).mp hx with rfl | ⟨hx, -⟩
  · exact absurd (Option.some.inj (hq.symm.trans hu.lease)) hqp
  obtain ⟨hlt, hown⟩ := h.pointers x hx q hq
  refine ⟨hlt, forall_mem_modify hc (fun hcq => ?_) hown⟩
  have how := hown c (mem_of_getElem? hc) (hid c ▸ hcq)
  exact absurd (how.2.2.symm.trans hu.free) (Option.some_ne_none _)

theorem owned (hid : ∀ c, (f c).connectionId = c.connectionId) : ∀ q k, leases' q = some k →
    k.active = true → ∃ o ∈ cs.modify i f, o.Owns q ∧
      ∀ x ∈ cs.modify i f, x.lease = some q → x.peer = o.peer := by
  intro q k hk ha
  by_cases hqp : q = p
  · subst hqp
    obtain ⟨o, ho, how, hou, -⟩ := hu.owner h hc hid
    exact ⟨o, ho, how, fun x hx hp => (hu.peers h hc x hx hp).trans hou.symm⟩
  · obtain ⟨o, ho, how, hsame⟩ := h.owned q k (hu.other q hqp ▸ hk) ha
    refine ⟨o, hu.stays h hc ho how, how, forall_mem_modify hc (fun hp => ?_) hsame⟩
    exact absurd (Option.some.inj (hp.symm.trans hu.lease)) hqp

theorem granted : ∀ q k, leases' q = some k → k.grantedScopes ≠ ∅ → k.active = true ∧
    ∃ o ∈ cs.modify i f, o.Owns q ∧ o.hasIdentity = true ∧ k.hash = o.identityHash := by
  intro q k hk hg
  by_cases hqp : q = p
  · subst hqp
    obtain rfl : l = k := Option.some.inj (hu.new.symm.trans hk)
    rcases hu.kind with ⟨-, -, hnog⟩ | ⟨-, o, ho, how, -, m, hm, hgm, hh⟩
    · exact absurd hnog hg
    · obtain ⟨hoid, hash⟩ := h.granted_owner ho how hm (hgm ▸ hg)
      exact ⟨hu.active, o, hu.stays h hc ho how, how, hoid, hh.trans hash⟩
  · obtain ⟨ha, o, ho, how, hrest⟩ := h.granted q k (hu.other q hqp ▸ hk) hg
    exact ⟨ha, o, hu.stays h hc ho how, how, hrest⟩

end Links

section

variable (h : Registry cs leases next)

include h

theorem link (hc : cs[i]? = some c) (hid : ∀ c, (f c).connectionId = c.connectionId)
    (hu : Links cs c (f c) p leases leases' l) : Registry (cs.modify i f) leases' next := by
  have hmem : c ∈ cs := mem_of_getElem? hc
  refine ⟨h.next_pos, nodup_modify h.nodup hid, ?_, ?_, ?_, hu.pointers h hc hid, ?_, ?_,
    hu.owned h hc hid, hu.granted h hc, ?_⟩
  · refine forall_mem_modify hc ?_ h.bounds
    rw [hid]
    exact h.bounds c hmem
  · exact forall_mem_modify hc (by simp [hu.hello]) h.fresh
  · refine forall_mem_modify hc (fun hr q hq => ?_) fun x hx hr q hq => ?_
    · obtain rfl : p = q := Option.some.inj (hu.lease.symm.trans hq)
      rcases hu.kind with ⟨hp, -⟩ | ⟨hnr, -⟩
      · exact ⟨by rw [hid, hp], l, hu.new, hu.active⟩
      · exact absurd hr hnr
    · obtain ⟨hqx, k, hk, ha⟩ := h.own x hx hr q hq
      by_cases hqp : q = p
      · exact ⟨hqx, l, hqp ▸ hu.new, hu.active⟩
      · exact ⟨hqx, k, by rw [hu.other q hqp, hk], ha⟩
  · intro q k hk
    rw [attached_link hc hu.free hu.lease]
    by_cases hqp : q = p
    · subst hqp
      obtain rfl : l = k := Option.some.inj (hu.new.symm.trans hk)
      simp [hu.references]
    · simpa [hqp] using h.counted q k (hu.other q hqp ▸ hk)
  · intro q hk
    rw [attached_link hc hu.free hu.lease]
    by_cases hqp : q = p
    · simp [hqp, hu.new] at hk
    · simpa [hqp] using h.allocated q (hu.other q hqp ▸ hk)
  · exact forall_mem_modify hc (by simp [hu.unidentified]) h.identified

/-- A lease change that keeps who points where: references and activity stay, and a grant
needs an owner with the identity whose hash the lease then has. -/
theorem change_leases
    (hmap : ∀ q, (leases q = none ∧ leases' q = none) ∨ ∃ l l', leases q = some l ∧
      leases' q = some l' ∧ l'.references = l.references ∧ l'.active = l.active ∧
      (l'.grantedScopes ≠ ∅ → l.active = true ∧ ∃ o ∈ cs, o.Owns q ∧ o.hasIdentity = true ∧
        l'.hash = o.identityHash)) : Registry cs leases' next := by
  have hback : ∀ q l', leases' q = some l' → ∃ l, leases q = some l ∧
      l'.references = l.references ∧ l'.active = l.active ∧
      (l'.grantedScopes ≠ ∅ → l.active = true ∧ ∃ o ∈ cs, o.Owns q ∧ o.hasIdentity = true ∧
        l'.hash = o.identityHash) := by
    intro q l' hl'
    rcases hmap q with ⟨-, hnone⟩ | ⟨l, k, hl, hk, hrest⟩
    · simp [hnone] at hl'
    · obtain rfl : k = l' := Option.some.inj (hk.symm.trans hl')
      exact ⟨l, hl, hrest⟩
  refine ⟨h.next_pos, h.nodup, h.bounds, h.fresh, ?_, h.pointers, ?_, ?_, ?_, ?_, h.identified⟩
  · intro x hx hr q hq
    obtain ⟨hqx, l, hl, ha⟩ := h.own x hx hr q hq
    rcases hmap q with ⟨hnone, -⟩ | ⟨k, l', hk, hl', -, ha', -⟩
    · simp [hnone] at hl
    · rw [Option.some.inj (hk.symm.trans hl)] at ha'
      exact ⟨hqx, l', hl', ha'.trans ha⟩
  · intro q l' hl'
    obtain ⟨l, hl, hr, -⟩ := hback q l' hl'
    exact hr.trans (h.counted q l hl)
  · intro q hl'
    rcases hmap q with ⟨hnone, -⟩ | ⟨l, l', -, hsome, -⟩
    · exact h.allocated q hnone
    · simp [hl'] at hsome
  · intro q l' hl' ha
    obtain ⟨l, hl, -, ha', -⟩ := hback q l' hl'
    exact h.owned q l hl (ha' ▸ ha)
  · intro q l' hl' hg
    obtain ⟨_, -, -, ha', hrest⟩ := hback q l' hl'
    exact ⟨ha'.trans (hrest hg).1, (hrest hg).2⟩

theorem shrink (hs : leases.Shrinks leases') :
    Registry cs leases' next := by
  apply h.change_leases
  intro q
  obtain ⟨scopes, hq⟩ := hs q
  cases hl : leases q with
  | none => exact .inl ⟨rfl, by rw [hq, hl]; rfl⟩
  | some l =>
    refine .inr ⟨l, { l with grantedScopes := l.grantedScopes \ scopes }, rfl, ?_, rfl, rfl,
      fun hg => ?_⟩
    · rw [hq, hl]
      rfl
    have hg' : l.grantedScopes ≠ ∅ := by
      rintro hempty
      simp [hempty] at hg
    exact h.granted q l hl hg'

theorem grant (hc : c ∈ cs) (ho : c.Owns p) (granted : Scopes)
    (began : Nat) (hid : granted ≠ ∅ → c.hasIdentity = true)
    (hp : leases' p = (leases p).map (Lease.grant granted c.identityHash began))
    (hother : ∀ q, q ≠ p → leases' q = leases q) : Registry cs leases' next := by
  apply h.change_leases
  intro q
  by_cases hq : q = p
  · subst hq
    obtain ⟨-, l, hl, ha⟩ := h.own c hc ho.2.1 q ho.2.2
    refine .inr ⟨l, Lease.grant granted c.identityHash began l, hl, by rw [hp, hl]; rfl, rfl, rfl,
      fun hg => ⟨ha, c, hc, ho, ?_, rfl⟩⟩
    by_cases hold : l.grantedScopes = ∅
    · refine hid fun hempty => hg ?_
      simp [Lease.grant, hold, hempty]
    · exact (h.granted_owner hc ho hl hold).1
  · cases hl : leases q with
    | none => exact .inl ⟨rfl, by rw [hother q hq, hl]⟩
    | some l =>
      exact .inr ⟨l, l, rfl, by rw [hother q hq, hl], rfl, rfl, fun hg => h.granted q l hl hg⟩

end

end Registry

end KeysharpInput.Session
