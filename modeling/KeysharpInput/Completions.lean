import KeysharpInput.PartRule

/-!
Every part of a batch is accounted for once.
Each step of the system takes shares out of their places, moves them or ends them, and the ledger
holds after it. So a completion falls to zero exactly once, with its last part, whatever mix of
admissions, failures, cancellations and closed streams its parts meet, and its request then has one
reply or its stream has ended.
-/

namespace KeysharpInput.Synthesis

open Session (HookType)
open Output (Input)
open Transition Option

namespace System

variable {s t : System} {r : Nat} {pend : List Nat} {stream : Nat} {c : Completion} {q : Request}

theorem Ledger.invalidate (h : Ledger s pend) (stream : Nat) :
    Ledger { s with invalidated := stream :: s.invalidated } pend :=
  ⟨fun r => (h.accounted r).mono fun _ => List.mem_cons_of_mem _, h.active⟩

section

variable (h : Ledger s [])

include h

theorem Ledger.eraseTransaction {i : Nat} {t : Transaction}
    (ht : s.nested[i]? = some t) : Ledger { s with nested := s.nested.eraseIdx i } [t.request] := by
  refine h.move rfl rfl rfl rfl rfl rfl fun r => ?_
  obtain ⟨hlt, hat⟩ := List.getElem?_eq_some_iff.mp ht
  have hcount : s.nested.countP (·.request == r) =
      (s.nested.eraseIdx i).countP (·.request == r) + [t.request].count r := by
    conv_lhs => rw [← List.take_append_drop i s.nested, List.drop_eq_getElem_cons hlt, hat]
    rw [List.eraseIdx_eq_take_drop_succ, List.countP_append, List.countP_append, List.countP_cons,
      List.count_singleton]
    omega
  simp only [System.shares, List.count_nil]
  omega

theorem Ledger.setTransaction {i : Nat} {t t' : Transaction} (ht : s.nested[i]? = some t)
    (hrequest : t'.request = t.request) : Ledger (s.setTransaction i t') [] := by
  refine h.move rfl rfl rfl rfl rfl rfl fun r => ?_
  obtain ⟨hlt, hat⟩ := List.getElem?_eq_some_iff.mp ht
  have hcount : (s.nested.set i t').countP (·.request == r) = s.nested.countP (·.request == r) := by
    conv_rhs => rw [← List.take_append_drop i s.nested, List.drop_eq_getElem_cons hlt, hat]
    rw [List.set_eq_take_append_cons_drop, if_pos hlt, List.countP_append, List.countP_append,
      List.countP_cons, List.countP_cons, hrequest]
  simp only [System.shares, System.setTransaction, hcount]

theorem Ledger.advance {p : Phase} (hq : s.requests[r]? = some ⟨stream, some c⟩)
    (hrequests : t.requests = (s.modifyCompletion r fun c => { c with phase := p }).requests)
    (hshares : ∀ r', t.shares r' = s.shares r') (hzeroed : t.zeroed = s.zeroed)
    (hacks : ∀ r', r' ≠ r → t.acks.count r' = s.acks.count r')
    (hreplies : ∀ r', r' ≠ r → (t.replies.map (·.1)).count r' = (s.replies.map (·.1)).count r')
    (hinvalidated : ∀ n ∈ s.invalidated, n ∈ t.invalidated)
    (hself : Accounted (some ⟨stream, some { c with phase := p }⟩) (s.shares r)
      (s.zeroed.count r) (t.acks.count r) ((t.replies.map (·.1)).count r) t.invalidated)
    (hactive : t.activeSyntheticTransactions =
      (s.modifyCompletion r fun c => { c with phase := p }).requests.countP Request.transacts) :
    Ledger t [] := by
  refine ⟨fun r' => ?_, by rw [hactive, hrequests]⟩
  rw [hrequests, hshares, hzeroed, getElem?_modifyCompletion]
  by_cases hrr : r' = r
  · subst hrr
    rw [if_pos rfl, hq]
    exact hself
  · rw [if_neg (Ne.symm hrr), hacks r' hrr, hreplies r' hrr]
    exact (h.accounted r').mono hinvalidated

theorem Ledger.active_of_retired {p : Phase} (hq : s.requests[r]? = some ⟨stream, some c⟩)
    (hphase : c.phase.live = false) (hp : p.live = false) : s.activeSyntheticTransactions =
      (s.modifyCompletion r fun c => { c with phase := p }).requests.countP Request.transacts := by
  have hcount := countP_modifyCompletion (f := fun c => { c with phase := p }) hq rfl
  simp only [Request.transacts, Option.any_some, hphase, hp, Bool.and_false] at hcount
  rw [h.active]
  exact hcount.symm

theorem Ledger.retire (hc : s.completion r = some c) (hphase : c.phase = .ending) :
    Ledger { s.modifyCompletion r fun c => { c with phase := .retired } with
      activeSyntheticTransactions :=
        if c.ownsAtomicTransaction then fetchSub s.activeSyntheticTransactions
        else s.activeSyntheticTransactions } [] := by
  obtain ⟨⟨_, o⟩, hq, ho⟩ := Option.bind_eq_some_iff.mp hc
  obtain rfl : o = some c := ho
  have hself := h.accounted r
  rw [hq] at hself
  simp only [Accounted, hphase] at hself
  refine h.advance hq rfl (fun _ => rfl) rfl (fun _ _ => rfl) (fun _ _ => rfl)
    (fun _ hn => hn) ?_ ?_
  · exact hself
  have hcount := countP_modifyCompletion
    (f := fun c => { c with phase := Phase.retired }) hq rfl
  simp only [Request.transacts, Option.any_some, hphase, Phase.live, Bool.and_true,
    Bool.and_false, Bool.toNat_false] at hcount
  have hactive := h.active
  dsimp only
  by_cases howns : c.ownsAtomicTransaction = true
  · rw [if_pos howns]
    rw [howns, Bool.toNat_true] at hcount
    rw [fetchSub, if_neg (by omega)]
    omega
  · rw [if_neg howns]
    rw [Bool.not_eq_true] at howns
    rw [howns, Bool.toNat_false] at hcount
    omega

theorem Ledger.postAck (hq : s.requests[r]? = some q)
    (hphase : q.completion.any (·.phase = .retired) = true) :
    Ledger { s.modifyCompletion r fun c => { c with phase := .acked } with
        acks := s.acks ++ [r] } [] ∧
      Ledger { s.modifyCompletion r fun c => { c with phase := .gone } with
        invalidated := q.stream :: s.invalidated } [] := by
  obtain ⟨_, _⟩ := q
  obtain ⟨c, rfl, hphase⟩ := (any_eq_true _ _).mp hphase
  have hphase : c.phase = .retired := of_decide_eq_true hphase
  have hself := h.accounted r
  rw [hq] at hself
  simp only [Accounted, hphase] at hself
  obtain ⟨hshares, hzeros, hacks, hreplies⟩ := hself
  have hactive : ∀ p : Phase, p.live = false → s.activeSyntheticTransactions =
      (s.modifyCompletion r fun c => { c with phase := p }).requests.countP Request.transacts :=
    fun p hp => h.active_of_retired hq (by rw [hphase]; rfl) hp
  constructor
  · refine h.advance hq rfl (fun _ => rfl) rfl (fun r' hr' => ?_) (fun _ _ => rfl)
      (fun _ hn => hn) ?_ (hactive .acked rfl)
    · simp [Ne.symm hr']
    · refine ⟨hshares, hzeros, ?_, hreplies⟩
      rw [List.count_append, hacks]
      simp
  · exact h.advance hq rfl (fun _ => rfl) rfl (fun _ _ => rfl) (fun _ _ => rfl)
      (fun _ hn => List.mem_cons_of_mem _ hn)
      ⟨hshares, hzeros, hacks, .inr ⟨hreplies, List.mem_cons_self⟩⟩ (hactive .gone rfl)

theorem Ledger.ack {acks : List Nat} (hacks : s.acks = r :: acks)
    (hq : s.requests[r]? = some q) (status : Option Failure) (sent : Bool) :
    Ledger (({ s with acks := acks }.modifyCompletion r fun c =>
      { c with phase := .gone }).reply r q.stream status sent) [] := by
  have hself := h.accounted r
  have hcount : s.acks.count r = acks.count r + 1 := by rw [hacks, List.count_cons_self]
  rw [hq] at hself
  obtain ⟨_, o⟩ := q
  -- Only a completion that waits for its acknowledgement has one on the ring.
  have hacked : ∃ c, o = some c ∧ c.phase = .acked ∧ s.shares r = 0 ∧ s.zeroed.count r = 1 ∧
      acks.count r = 0 ∧ (s.replies.map (·.1)).count r = 0 := by
    cases o with
    | none => exact absurd hself.2.2.1 (by omega)
    | some c =>
      refine ⟨c, rfl, ?_⟩
      simp only [Accounted] at hself
      split at hself <;> rename_i hphase <;>
        first
          | exact ⟨hphase, hself.1, hself.2.1, by omega, hself.2.2.2⟩
          | (exfalso; omega)
  obtain ⟨c, rfl, hphase, hshares, hzeros, hleft, hreplies⟩ := hacked
  have hother : ∀ r', r' ≠ r → acks.count r' = s.acks.count r' := by
    intro r' hr'
    rw [hacks, List.count_cons_of_ne (Ne.symm hr')]
  have hactive := h.active_of_retired (p := .gone) hq (by rw [hphase]; rfl) rfl
  unfold System.reply
  split
  · refine h.advance hq rfl (fun _ => rfl) rfl hother (fun r' hr' => ?_)
      (fun _ hn => hn) ⟨hshares, hzeros, hleft, .inl ?_⟩ hactive
    · show ((s.replies ++ [(r, status)]).map fun p => p.1).count r' = _
      simp [Ne.symm hr']
    · show ((s.replies ++ [(r, status)]).map fun p => p.1).count r = 1
      rw [List.map_append, List.count_append, hreplies]
      simp
  · exact h.advance hq rfl (fun _ => rfl) rfl hother (fun _ _ => rfl)
      (fun _ hn => List.mem_cons_of_mem _ hn)
      ⟨hshares, hzeros, hleft, .inr ⟨hreplies, List.mem_cons_self⟩⟩ hactive

end

theorem ledgerRule : ShareRule Ledger fun _ => True where
  act h hacts := h.quiet hacts.quiet
  still h hacts := h.quiet (hacts 0).quiet
  acts h hacts := h.quiet hacts.quiet
  finish h failure := h.finish failure
  wait hand queue h _ hcount := by
    refine h.move rfl rfl rfl rfl rfl rfl fun r => ?_
    have hr := hcount r
    rw [List.countP_append, List.countP_append] at hr
    simp only [System.shares]
    omega
  pushRelease h connectionId := by
    refine h.move rfl rfl rfl rfl rfl rfl fun r => ?_
    simp [System.shares, QueueItem.isOf]
  hand h hhand := by
    rename_i s f
    have htaken : Ledger { s with hand := none } [f.request] := by
      refine h.move rfl rfl rfl rfl rfl rfl fun r => ?_
      have hcount := count_owed_item r (.fragment f)
      simp only [QueueItem.owed] at hcount
      simp only [System.shares, hhand, toList_some, toList_none, List.countP_nil, List.count_nil]
      omega
    have hhanded : Ledger (s.handed f) [f.request] := by
      unfold handed
      split
      · exact htaken.beginAtomic (by simp)
      · exact htaken
    exact ⟨hhanded, hhanded.quiet (quiet_dispatch _)⟩
  modifyLane h k f hlane := h.moveLane k f hlane
  invalidate h stream := h.invalidate stream
  physical h _ := h.quiet (quiet_dispatch _)
  retire h hc hphase := h.retire hc hphase
  postAck h hq hphase := h.postAck hq hphase
  ack h hacks hq status sent := h.ack hacks hq status sent
  answer h stream batch status sent := h.answer stream batch status sent
  enqueue h hnodes stream generation := by
    rename_i s nodes
    have hcreated := h.create stream nodes (c := { remaining := nodes.length, admitted := true })
      rfl (List.length_pos_iff.mpr hnodes) rfl
    refine hcreated.move rfl rfl rfl rfl rfl rfl fun r => ?_
    simp only [System.shares, newRequest, List.countP_append, countP_fragments, List.count_append]
    omega
  empty h stream := by
    have hempty := h.create stream [] (c := {}) rfl Nat.one_pos rfl
    exact ⟨hempty, hempty.beginAtomic (by simp)⟩
  nest h hrequest stream batch := by
    rename_i s _
    have hcreated := h.create stream batch (c := {}) rfl Nat.one_pos rfl
    have hbegun := hcreated.beginAtomic (r := s.requests.length) (by simp)
    refine hbegun.move rfl rfl rfl rfl rfl rfl fun r => ?_
    simp only [System.shares, List.countP_append, List.countP_cons, List.countP_nil,
      List.append_nil, List.count_nil, hrequest]
    rw [List.replicate_one, List.count_singleton]
    omega
  erase h htr := h.eraseTransaction htr
  set h htr hrequest := h.setTransaction htr hrequest
  member h _ := h.quiet (quiet_dispatch _)

theorem Ledger.step (h : Ledger s []) {e : Event} (hstep : s.step e = some t) : Ledger t [] :=
  ledgerRule.step h (fun _ _ _ _ _ => trivial) hstep

theorem ledger_of_reaches {guard : System → Event → Prop} (h : Reaches System.step guard {} s) :
    Ledger s [] :=
  h.invariant (P := fun s => Ledger s []) ledger_initial fun _ _ _ hs _ hstep => hs.step hstep

/-- Nothing of the request is under way: no share is left, and no thread has a step of its
completion to take. -/
def Finished (s : System) (r : Nat) : Prop :=
  s.shares r = 0 ∧ s.step (.retire r) = none ∧ (∀ room, s.step (.postAck r room) = none) ∧
    r ∉ s.acks

theorem Ledger.settles (h : Ledger s []) (hq : s.requests[r]? = some q) (hfinished : s.Finished r) :
    Settles s.invalidated q.stream ((s.replies.map (·.1)).count r) := by
  obtain ⟨hshares, hretire, hpost, hack⟩ := hfinished
  have hself := h.accounted r
  rw [hq] at hself
  obtain ⟨_, _ | c⟩ := q
  · exact hself.2.2.2
  have hcompletion : s.completion r = some c := by simp [completion, hq]
  simp only [Accounted, List.count_nil] at hself
  split at hself <;> rename_i hphase
  · omega
  · simp [System.step, hcompletion, hphase] at hretire
  · simpa [System.step, hq, hphase] using hpost true
  · exact absurd (List.count_pos_iff.mp (by omega)) hack
  · exact hself.2.2.2

theorem Ledger.replies_le (h : Ledger s []) (r : Nat) : (s.replies.map (·.1)).count r ≤ 1 := by
  have hself := h.accounted r
  have hsettles : ∀ stream n, Settles s.invalidated stream n → n ≤ 1 := by
    rintro stream n (rfl | ⟨rfl, -⟩) <;> omega
  unfold Accounted at hself
  split at hself
  · omega
  · exact hsettles _ _ hself.2.2.2
  · split at hself
    case h_5 => exact hsettles _ _ hself.2.2.2
    all_goals omega

theorem Ledger.zeroed_once (h : Ledger s []) (hq : s.requests[r]? = some q)
    (hc : q.completion = some c) :
    s.zeroed.count r = (if s.shares r = 0 then 1 else 0) ∧
      (s.shares r ≠ 0 → c.remaining = s.shares r) := by
  have hself := h.accounted r
  obtain ⟨_, o⟩ := q
  obtain rfl : o = some c := hc
  rw [hq] at hself
  simp only [Accounted, List.count_nil, Nat.add_zero] at hself
  split at hself
  · rw [if_neg (by omega)]
    exact ⟨hself.2.2.1, fun _ => hself.1⟩
  all_goals
    rw [if_pos hself.1]
    exact ⟨hself.2.1, fun hshares => absurd hself.1 hshares⟩

/-- In every run a completion falls to zero exactly once, when its last part has ended; the
counter of active transactions counts the live completions that began one; and a request has
at most one reply, and when nothing of it is under way exactly one or an ended stream. -/
theorem completion_exactly_once (h : Reaches System.step always {} s) :
    s.activeSyntheticTransactions = s.requests.countP Request.transacts ∧
    ∀ r q, s.requests[r]? = some q →
      (∀ c, q.completion = some c → s.zeroed.count r = (if s.shares r = 0 then 1 else 0) ∧
        (s.shares r ≠ 0 → c.remaining = s.shares r)) ∧
      (s.replies.map (·.1)).count r ≤ 1 ∧
      (s.Finished r → Settles s.invalidated q.stream ((s.replies.map (·.1)).count r)) := by
  have hledger := ledger_of_reaches h
  refine ⟨hledger.active, fun r q hq => ⟨fun c hc => ?_, hledger.replies_le r, ?_⟩⟩
  · exact hledger.zeroed_once hq hc
  · exact hledger.settles hq

/-- Stream 5 sends the key A in two inputs; the hooks pass the first, and the second is cancelled
in the queue. -/
def halfCancelled : List Event :=
  [.request 5 [.keyboard { vk := 0x41 }, .keyboard { vk := 0x41, flags := {.up} }] .hooked true
    true,
   .pop, .handle (.lane .keyboard) false, .take .keyboard, .finish .keyboard .pass, .abort,
   .retire 0, .postAck 0 true, .ack true true]

theorem completion_exactly_once_cancelled : ∃ (s : System) (q : Request),
    s.requests[0]? = some q ∧ s.Finished 0 ∧ s.zeroed.count 0 = 1 ∧
      Settles s.invalidated q.stream ((s.replies.map (·.1)).count 0) := by
  obtain ⟨s, hs, hsome, hshares, hretire, hpost, hacks⟩ := exists_reaches System.step {}
    halfCancelled (q := fun s => (s.completion 0).isSome ∧ s.shares 0 = 0 ∧
      (s.step (.retire 0)).isNone ∧ (∀ room, (s.step (.postAck 0 room)).isNone) ∧ 0 ∉ s.acks)
    (by decide)
  obtain ⟨c, hcompletion⟩ := isSome_iff_exists.mp hsome
  obtain ⟨q, hrequest, hc⟩ := bind_eq_some_iff.mp hcompletion
  have hfinished : s.Finished 0 := ⟨hshares, isNone_iff_eq_none.mp hretire,
    fun room => isNone_iff_eq_none.mp (hpost room), hacks⟩
  obtain ⟨hzeroed, -, hsettles⟩ := (completion_exactly_once hs).2 0 q hrequest
  refine ⟨s, q, hrequest, hfinished, ?_, hsettles hfinished⟩
  rw [(hzeroed c hc).1, if_pos hshares]

end System

end KeysharpInput.Synthesis
