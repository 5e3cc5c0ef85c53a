import KeysharpInput.Completions

/-!
Batches and device events.
A batch owns an atomic transaction from the dispatch of its first fragment until its last part has
ended, and the ordered ingress hands no device event on meanwhile. The other places of the main
loop that read devices do not look at the counter. Where they find no transaction active, no device
event falls between two fragments of one batch; without that, one does.
-/

namespace KeysharpInput.Synthesis

open Session (HookType)
open Output (Input)
open Transition List Option

def Interrupted (dispatched : List Dispatch) (r : Nat) : Prop :=
  ∃ before after, dispatched = before ++ after ∧ .fragment r ∈ before ∧ .physical ∈ after

def Broken (dispatched : List Dispatch) (r : Nat) : Prop :=
  ∃ before after, dispatched = before ++ .fragment r :: after ∧ Interrupted before r

section Dispatches

variable {dispatched : List Dispatch} {r r' : Nat}

theorem Interrupted.mem (h : Interrupted dispatched r) : .fragment r ∈ dispatched := by
  obtain ⟨_, _, rfl, hmem, -⟩ := h
  exact mem_append_left _ hmem

theorem Broken.mem (h : Broken dispatched r) : .fragment r ∈ dispatched := by
  obtain ⟨_, _, rfl, hinterrupted⟩ := h
  exact mem_append_left _ hinterrupted.mem

theorem interrupted_concat_fragment (h : Interrupted (dispatched ++ [.fragment r']) r) :
    Interrupted dispatched r := by
  obtain ⟨before, after, heq, hmem, hphysical⟩ := h
  obtain rfl | ⟨after, d, rfl⟩ := eq_nil_or_concat after
  · cases hphysical
  rw [concat_eq_append, ← append_assoc] at heq
  obtain ⟨rfl, hd⟩ := append_inj' heq rfl
  obtain rfl : Dispatch.fragment r' = d := by simpa using hd
  refine ⟨before, after, rfl, hmem, ?_⟩
  simpa using hphysical

theorem broken_concat {d : Dispatch} (h : Broken (dispatched ++ [d]) r) :
    Broken dispatched r ∨ (d = .fragment r ∧ Interrupted dispatched r) := by
  obtain ⟨before, after, heq, hinterrupted⟩ := h
  obtain rfl | ⟨after, _, rfl⟩ := eq_nil_or_concat after
  · obtain ⟨rfl, hd⟩ := append_inj' heq rfl
    exact .inr ⟨by simpa using hd, hinterrupted⟩
  · rw [concat_eq_append, ← cons_append, ← append_assoc] at heq
    obtain ⟨rfl, -⟩ := append_inj' heq rfl
    exact .inl ⟨before, after, rfl, hinterrupted⟩

end Dispatches

def QueueItem.Follows (a b : QueueItem) : Prop :=
  ∀ f g, a = .fragment f → b = .fragment g → f.request = g.request → g.batchStart = false

namespace System

variable {s t : System} {r : Nat}

def waiting (s : System) : List QueueItem := s.hand.toList ++ s.queue

structure Batches (s : System) : Prop where
  order : s.waiting.Pairwise QueueItem.Follows
  fresh : ∀ f, .fragment f ∈ s.waiting → f.batchStart = true → .fragment f.request ∉ s.dispatched
  /-- Batches that wait and batches that lanes run for a callback are different. -/
  admitted : ∀ f, .fragment f ∈ s.waiting → (s.completion f.request).any (·.admitted) = true
  nested : ∀ tr ∈ s.nested, (s.completion tr.request).any (!·.admitted) = true
  known : ∀ r, .fragment r ∈ s.dispatched → r < s.requests.length
  interrupted : ∀ r c, s.completion r = some c → c.ownsAtomicTransaction = true →
    Interrupted s.dispatched r → c.phase ≠ .counting
  whole : ∀ r c, s.completion r = some c → c.ownsAtomicTransaction = true → ¬ Broken s.dispatched r

theorem batches_initial : Batches {} where
  order := .nil
  fresh _ h := nomatch h
  admitted _ h := nomatch h
  nested _ h := nomatch h
  known _ h := nomatch h
  interrupted _ _ h := nomatch h
  whole _ _ h := nomatch h

theorem Batches.shrink (h : Batches s) (hrequests : t.requests = s.requests)
    (hwaiting : t.waiting.Sublist s.waiting) (hnested : ∀ tr ∈ t.nested, ∃ tr' ∈ s.nested,
      tr'.request = tr.request) (hdispatched : t.dispatched = s.dispatched) : Batches t := by
  have hcompletion : ∀ r, t.completion r = s.completion r := by
    intro r
    rw [completion, completion, hrequests]
  refine ⟨h.order.sublist hwaiting, fun f hf => ?_, fun f hf => ?_, fun tr htr => ?_, ?_, ?_, ?_⟩
  · rw [hdispatched]
    exact h.fresh f (hwaiting.subset hf)
  · rw [hcompletion]
    exact h.admitted f (hwaiting.subset hf)
  · obtain ⟨tr', htr', hrequest⟩ := hnested tr htr
    rw [hcompletion, ← hrequest]
    exact h.nested tr' htr'
  · rw [hdispatched, hrequests]
    exact h.known
  · intro r c
    rw [hcompletion, hdispatched]
    exact h.interrupted r c
  · intro r c
    rw [hcompletion, hdispatched]
    exact h.whole r c

def ordering (s : System) : List Request × List QueueItem × List Transaction × List Dispatch :=
  (s.requests, s.waiting, s.nested, s.dispatched)

theorem Batches.same (h : Batches s) (heq : t.ordering = s.ordering) : Batches t := by
  simp only [ordering, Prod.mk.injEq] at heq
  obtain ⟨hrequests, hwaiting, hnested, hdispatched⟩ := heq
  exact h.shrink hrequests (by rw [hwaiting]) (fun tr htr => ⟨tr, hnested ▸ htr, rfl⟩) hdispatched

theorem completion_modifyCompletion (f : Completion → Completion) (r' : Nat) :
    (s.modifyCompletion r f).completion r' =
      if r = r' then (s.completion r').map f else s.completion r' := by
  unfold completion
  rw [getElem?_modifyCompletion]
  split
  · cases s.requests[r']? <;> rfl
  · rfl

section

variable (h : Batches s)

include h

/-- A completion changes and keeps its kind; one that is not counting does not count again, and
one that begins a transaction has no part dispatched yet. -/
theorem Batches.modify {f : Completion → Completion} (hadmitted : ∀ c, (f c).admitted = c.admitted)
    (hphase : ∀ c, (f c).phase = .counting → c.phase = .counting)
    (howns : ∀ c, (f c).ownsAtomicTransaction = true →
      c.ownsAtomicTransaction = true ∨ .fragment r ∉ s.dispatched) :
    Batches (s.modifyCompletion r f) := by
  have hcompletion := completion_modifyCompletion (s := s) (r := r) f
  have hkept : ∀ (p : Completion → Bool), (∀ c, p (f c) = p c) → ∀ r',
      ((s.modifyCompletion r f).completion r').any p = (s.completion r').any p := by
    intro p hp r'
    rw [hcompletion]
    split
    · cases s.completion r' <;> simp [hp]
    · rfl
  -- A completion that owns a transaction afterwards owned one before, or nothing of it is
  -- dispatched.
  have hbefore : ∀ r' c', (s.modifyCompletion r f).completion r' = some c' →
      c'.ownsAtomicTransaction = true → .fragment r' ∈ s.dispatched →
      ∃ c, s.completion r' = some c ∧ c.ownsAtomicTransaction = true ∧
        (c'.phase = .counting → c.phase = .counting) := by
    intro r' c' hc' hown hmem
    rw [hcompletion] at hc'
    split at hc'
    · subst r'
      obtain ⟨c, hc, rfl⟩ := map_eq_some_iff.mp hc'
      rcases howns c hown with hown | hnot
      · exact ⟨c, hc, hown, hphase c⟩
      · exact absurd hmem hnot
    · exact ⟨c', hc', hown, id⟩
  refine ⟨h.order, h.fresh, fun f' hf' => ?_, fun tr htr => ?_, fun r' hr' => ?_, ?_, ?_⟩
  · rw [hkept _ hadmitted]
    exact h.admitted f' hf'
  · rw [hkept _ fun c => by rw [hadmitted]]
    exact h.nested tr htr
  · rw [show (s.modifyCompletion r f).requests.length = s.requests.length from
      length_modify ..]
    exact h.known r' hr'
  · intro r' c' hc' hown hinterrupted hcounting
    obtain ⟨c, hc, howned, hphase⟩ := hbefore r' c' hc' hown hinterrupted.mem
    exact h.interrupted r' c hc howned hinterrupted (hphase hcounting)
  · intro r' c' hc' hown hbroken
    obtain ⟨c, hc, howned, -⟩ := hbefore r' c' hc' hown hbroken.mem
    exact h.whole r' c hc howned hbroken

theorem Batches.finish (r : Nat) (failure : Option Failure) :
    Batches (s.finish r failure) := by
  have hmodified : Batches (s.modifyCompletion r (Completion.finish failure)) := by
    refine h.modify (fun _ => rfl) (fun c hphase => ?_) (fun c hown => .inl hown)
    simp only [Completion.finish] at hphase
    split at hphase
    · cases hphase
    · exact hphase
  exact hmodified.same rfl

theorem Batches.beginAtomic (hfresh : .fragment r ∉ s.dispatched) :
    Batches (s.beginAtomic r) := by
  unfold System.beginAtomic
  split
  · have hmodified := h.modify (f := fun c => { c with ownsAtomicTransaction := true })
      (fun _ => rfl) (fun _ => id) (fun _ _ => .inr hfresh)
    exact hmodified.same rfl
  · exact h

theorem Batches.dispatchFragment (hcounting : (s.completion r).any (·.phase = .counting) = true)
    (hlater : ∀ f, .fragment f ∈ s.waiting → f.request = r → f.batchStart = false) :
    Batches (s.dispatch (.fragment r)) := by
  obtain ⟨c, hc, hphase⟩ := (any_eq_true _ _).mp hcounting
  have hphase : c.phase = .counting := of_decide_eq_true hphase
  refine ⟨h.order, fun f hf hstart hmem => ?_, h.admitted, h.nested, fun r' hmem => ?_,
    fun r' c' hc' hown hinterrupted => ?_, fun r' c' hc' hown hbroken => ?_⟩
  · rcases mem_append.mp hmem with hmem | hmem
    · exact h.fresh f hf hstart hmem
    · obtain rfl : f.request = r := by simpa using hmem
      exact absurd hstart (by simp [hlater f hf rfl])
  · rcases mem_append.mp hmem with hmem | hmem
    · exact h.known r' hmem
    · obtain rfl : r' = r := by simpa using hmem
      obtain ⟨q, hq, -⟩ := bind_eq_some_iff.mp hc
      exact (List.getElem?_eq_some_iff.mp hq).1
  · exact h.interrupted r' c' hc' hown (interrupted_concat_fragment hinterrupted)
  rcases broken_concat hbroken with hbroken | ⟨heq, hinterrupted⟩
  · exact h.whole r' c' hc' hown hbroken
  · obtain rfl : r = r' := by simpa using heq
    obtain rfl : c = c' := some.inj (hc.symm.trans hc')
    exact h.interrupted r c hc hown hinterrupted hphase

theorem Batches.dispatchPhysical (hledger : Ledger s [])
    (hactive : s.activeSyntheticTransactions = 0) : Batches (s.dispatch .physical) := by
  refine ⟨h.order, fun f hf hstart hmem => ?_, h.admitted, h.nested, fun r' hmem => ?_,
    fun r' c' hc' hown _ hphase => ?_, fun r' c' hc' hown hbroken => ?_⟩
  · exact h.fresh f hf hstart (by simpa [dispatch] using hmem)
  · exact h.known r' (by simpa [dispatch] using hmem)
  · -- A counting completion that owns a transaction would be counted.
    obtain ⟨q, hq, hqc⟩ := bind_eq_some_iff.mp hc'
    have hnone : s.requests.countP Request.transacts = 0 := hledger.active.symm.trans hactive
    refine countP_eq_zero.mp hnone q (mem_of_getElem? hq) ?_
    simp [Request.transacts, hqc, hown, hphase, Phase.live]
  · rcases broken_concat hbroken with hbroken | ⟨heq, -⟩
    · exact h.whole r' c' hc' hown hbroken
    · cases heq

theorem Batches.quiet (hquiet : Quiet s t)
    (hdispatched : t.dispatched = s.dispatched) : Batches t := by
  refine h.same ?_
  unfold ordering waiting
  rw [hquiet.requests, hquiet.hand, hquiet.queue, hquiet.nested, hdispatched]

end

theorem completion_newRequest (stream : Nat) (batch : List Input) (c : Option Completion)
    (hr : r ≠ s.requests.length) : (s.newRequest stream batch c).completion r = s.completion r := by
  rw [completion, completion, ← getElem?_concat_of_ne ⟨stream, c⟩ hr]
  rfl

theorem completion_newRequest_self (stream : Nat) (batch : List Input) (c : Option Completion) :
    (s.newRequest stream batch c).completion s.requests.length = c := by
  simp [completion, newRequest]

theorem Batches.not_dispatched (h : Batches s) : .fragment s.requests.length ∉ s.dispatched :=
  fun hmem => absurd (h.known _ hmem) (lt_irrefl _)

theorem ne_length_of_any {p : Completion → Bool} (h : (s.completion r).any p = true) :
    r ≠ s.requests.length := by
  rintro rfl
  simp [completion] at h

theorem Batches.newRequest (h : Batches s) (stream : Nat) (batch : List Input)
    (c : Option Completion) : Batches (s.newRequest stream batch c) := by
  refine ⟨h.order, h.fresh, fun f hf => ?_, fun tr htr => ?_, fun r hr => ?_,
    fun r c' hc' hown hinterrupted => ?_, fun r c' hc' hown hbroken => ?_⟩
  · rw [completion_newRequest _ _ _ (ne_length_of_any (h.admitted f hf))]
    exact h.admitted f hf
  · rw [completion_newRequest _ _ _ (ne_length_of_any (h.nested tr htr))]
    exact h.nested tr htr
  · have hlt := h.known r hr
    simp only [System.newRequest, length_append]
    omega
  · rw [completion_newRequest _ _ _ (Nat.ne_of_lt (h.known r hinterrupted.mem))] at hc'
    exact h.interrupted r c' hc' hown hinterrupted
  · rw [completion_newRequest _ _ _ (Nat.ne_of_lt (h.known r hbroken.mem))] at hc'
    exact h.whole r c' hc' hown hbroken

theorem pairwise_fragments (generation connectionId : Nat) (nodes : List Input) :
    (fragments r generation connectionId nodes).Pairwise QueueItem.Follows := by
  rw [pairwise_iff_getElem]
  intro _ _ _ _ _ _ _ _ hg _
  simp only [fragments, getElem_mapIdx, QueueItem.fragment.injEq] at hg
  subst hg
  exact beq_eq_false_iff_ne.mpr (by omega)

theorem Batches.reply (h : Batches s) (r stream : Nat) (status : Option Failure) (sent : Bool) :
    Batches (s.reply r stream status sent) := by
  unfold System.reply
  split <;> exact h.same rfl

theorem Batches.enqueue (h : Batches s) (stream generation : Nat) (nodes : List Input)
    {c : Completion} (hc : c.admitted = true) :
    Batches { s.newRequest stream nodes (some c) with
      queue := s.queue ++ fragments s.requests.length generation stream nodes } := by
  have hnew := h.newRequest stream nodes (some c)
  have hrequest : ∀ f, .fragment f ∈ fragments s.requests.length generation stream nodes →
      f.request = s.requests.length := by
    intro f hf
    obtain ⟨place, hplace, heq⟩ := mem_mapIdx.mp hf
    rw [QueueItem.fragment.injEq] at heq
    rw [← heq]
  refine ⟨?_, fun f hf hstart => ?_, fun f hf => ?_, hnew.nested, hnew.known, hnew.interrupted,
    hnew.whole⟩
  · show (s.hand.toList ++ (s.queue ++ _)).Pairwise _
    rw [← append_assoc, pairwise_append]
    refine ⟨h.order, pairwise_fragments .., ?_⟩
    rintro a ha b hb f g rfl rfl heq
    exact absurd (heq.trans (hrequest g hb)) (ne_length_of_any (h.admitted f ha))
  · rw [waiting, ← append_assoc] at hf
    rcases mem_append.mp hf with hf | hf
    · exact h.fresh f hf hstart
    · rw [hrequest f hf]
      exact h.not_dispatched
  rw [waiting, ← append_assoc] at hf
  rcases mem_append.mp hf with hf | hf
  · exact hnew.admitted f hf
  · rw [hrequest f hf]
    show ((s.newRequest stream nodes (some c)).completion _).any _ = true
    rw [completion_newRequest_self, any_some, hc]

theorem Batches.nest (h : Batches s) {tr : Transaction} (hrequest : tr.request = s.requests.length)
    (stream : Nat) (batch : List Input) :
    Batches { (s.newRequest stream batch (some {})).beginAtomic s.requests.length with
      nested := ((s.newRequest stream batch (some {})).beginAtomic s.requests.length).nested ++
        [tr] } := by
  have hbegun := (h.newRequest stream batch (some {})).beginAtomic h.not_dispatched
  refine ⟨hbegun.order, hbegun.fresh, hbegun.admitted, fun tr' htr => ?_, hbegun.known,
    hbegun.interrupted, hbegun.whole⟩
  rcases mem_append.mp htr with htr | htr
  · exact hbegun.nested tr' htr
  rw [mem_singleton.mp htr, hrequest]
  unfold System.beginAtomic
  rw [completion_newRequest_self]
  show (((s.newRequest stream batch (some {})).modifyCompletion _ _).completion
    s.requests.length).any _ = true
  rw [completion_modifyCompletion, if_pos rfl, completion_newRequest_self]
  rfl

theorem Ledger.any_counting {pend : List Nat} (h : Ledger s pend)
    (hshare : 0 < s.shares r + pend.count r) :
    (s.completion r).any (·.phase = .counting) = true := by
  obtain ⟨_, _, hq, hphase, -⟩ := h.counting hshare
  simp [completion, hq, hphase]

theorem waiting_handed (f : Fragment) : (s.handed f).waiting = s.queue := by
  unfold handed beginAtomic
  split_ifs <;> rfl

section

variable (h : Batches s)

include h

theorem Batches.handed (hledger : Ledger s []) {f : Fragment}
    (hhand : s.hand = some (.fragment f)) :
    Batches (s.handed f) ∧ Batches ((s.handed f).dispatch (.fragment f.request)) := by
  have hwaiting : s.waiting = .fragment f :: s.queue := by rw [waiting, hhand]; rfl
  have htaken : Batches { s with hand := none } := by
    refine h.shrink rfl ?_ (fun tr htr => ⟨tr, htr, rfl⟩) rfl
    rw [hwaiting]
    exact sublist_cons_self ..
  have horder := h.order
  rw [hwaiting, pairwise_cons] at horder
  have hhanded : Batches (s.handed f) := by
    unfold System.handed
    split
    · rename_i hstart
      exact htaken.beginAtomic (h.fresh f (by rw [hwaiting]; exact mem_cons_self) hstart)
    · exact htaken
  have hcounting := (ledgerRule.hand hledger hhand).1.any_counting
    (by rw [count_cons_self]; omega)
  refine ⟨hhanded, hhanded.dispatchFragment hcounting fun g hg hrequest => ?_⟩
  rw [waiting_handed] at hg
  exact horder.1 _ hg f g rfl rfl hrequest.symm

theorem Batches.pushRelease (connectionId : Nat) :
    Batches { s with queue := s.queue ++ [.release connectionId] } := by
  have hmem : ∀ f, QueueItem.fragment f ∈ s.hand.toList ++ (s.queue ++ [.release connectionId]) →
      .fragment f ∈ s.waiting := by
    intro f hf
    simpa [waiting] using hf
  refine ⟨?_, fun f hf => h.fresh f (hmem f hf), fun f hf => h.admitted f (hmem f hf), h.nested,
    h.known, h.interrupted, h.whole⟩
  show (s.hand.toList ++ (s.queue ++ [QueueItem.release connectionId])).Pairwise _
  rw [← append_assoc, pairwise_append]
  refine ⟨h.order, pairwise_singleton .., ?_⟩
  rintro a - b hb f g rfl rfl
  cases mem_singleton.mp hb

theorem Batches.eraseTransaction (i : Nat) :
    Batches { s with nested := s.nested.eraseIdx i } :=
  h.shrink rfl (Sublist.refl _) (fun tr htr => ⟨tr, mem_of_mem_eraseIdx htr, rfl⟩) rfl

theorem Batches.setTransaction {i : Nat} (tr : Transaction) {tr' : Transaction}
    (htr : s.nested[i]? = some tr) (hrequest : tr'.request = tr.request) :
    Batches (s.setTransaction i tr') := by
  refine h.shrink rfl (Sublist.refl _) (fun tr'' hmem => ?_) rfl
  rcases mem_or_eq_of_mem_set hmem with hmem | rfl
  · exact ⟨tr'', hmem, rfl⟩
  · exact ⟨tr, mem_of_getElem? htr, hrequest.symm⟩

theorem Batches.dispatchMember (hledger : Ledger s []) {tr : Transaction}
    (htr : tr ∈ s.nested) : Batches (s.dispatch (.fragment tr.request)) := by
  refine h.dispatchFragment (hledger.any_counting ?_) fun f hf hrequest => ?_
  · have hpos : 0 < s.nested.countP (·.request == tr.request) :=
      countP_pos_iff.mpr ⟨tr, htr, beq_self_eq_true _⟩
    unfold shares
    omega
  · have hwaits := h.admitted f hf
    have hruns := h.nested tr htr
    cases hc : s.completion tr.request <;> simp_all

end

def devicesOrdered (s : System) : Event → Bool
  | .physical _ path _ => path = .ingress || s.activeSyntheticTransactions == 0
  | _ => true

theorem Batches.setPhase (h : Batches s) (r : Nat) {p : Phase} (hp : p ≠ .counting) :
    Batches (s.modifyCompletion r fun c => { c with phase := p }) :=
  h.modify (fun _ => rfl) (fun _ hphase => absurd hphase hp) (fun _ => .inl)

theorem batchRule : ShareRule (fun s pend => Ledger s pend ∧ Batches s)
    fun s => s.activeSyntheticTransactions = 0 where
  act h hacts := ⟨ledgerRule.act h.1 hacts, h.2.quiet hacts.quiet hacts.dispatched⟩
  still h hacts :=
    ⟨ledgerRule.still h.1 hacts, h.2.quiet (hacts 0).quiet (hacts 0).dispatched⟩
  acts h hacts := ⟨ledgerRule.acts h.1 hacts, h.2.quiet hacts.quiet hacts.dispatched⟩
  finish h failure := ⟨h.1.finish failure, h.2.finish _ failure⟩
  wait hand queue h hsub hcount := ⟨ledgerRule.wait hand queue h.1 hsub hcount,
    h.2.shrink rfl hsub (fun tr htr => ⟨tr, htr, rfl⟩) rfl⟩
  pushRelease h connectionId :=
    ⟨ledgerRule.pushRelease h.1 connectionId, h.2.pushRelease connectionId⟩
  hand h hhand :=
    have hledger := ledgerRule.hand h.1 hhand
    have hbatches := h.2.handed h.1 hhand
    ⟨⟨hledger.1, hbatches.1⟩, hledger.2, hbatches.2⟩
  modifyLane h k f hlane := ⟨h.1.moveLane k f hlane, h.2.same rfl⟩
  invalidate h stream := ⟨h.1.invalidate stream, h.2.same rfl⟩
  physical h hactive := ⟨h.1.quiet (quiet_dispatch _), h.2.dispatchPhysical h.1 hactive⟩
  retire h hc hphase :=
    ⟨h.1.retire hc hphase, (h.2.setPhase _ (p := .retired) nofun).same rfl⟩
  postAck h hq hphase :=
    have hledger := h.1.postAck hq hphase
    ⟨⟨hledger.1, (h.2.setPhase _ (p := .acked) nofun).same rfl⟩,
      hledger.2, (h.2.setPhase _ (p := .gone) nofun).same rfl⟩
  ack h hacks hq status sent := by
    rename_i s r acks q
    have hleft : Batches { s with acks := acks } := h.2.same rfl
    exact ⟨h.1.ack hacks hq status sent, (hleft.setPhase r (p := .gone) nofun).reply ..⟩
  answer h stream batch status sent :=
    ⟨h.1.answer stream batch status sent, (h.2.newRequest stream batch none).reply ..⟩
  enqueue h hnodes stream generation :=
    ⟨ledgerRule.enqueue h.1 hnodes stream generation, h.2.enqueue _ _ _ rfl⟩
  empty h stream :=
    have hledger := ledgerRule.empty h.1 stream
    have hnew := h.2.newRequest stream [] (some {})
    ⟨⟨hledger.1, hnew⟩, hledger.2, hnew.beginAtomic h.2.not_dispatched⟩
  nest h hrequest stream batch :=
    ⟨ledgerRule.nest h.1 hrequest stream batch, h.2.nest hrequest stream batch⟩
  erase h htr := ⟨h.1.eraseTransaction htr, h.2.eraseTransaction _⟩
  set h htr hrequest := ⟨h.1.setTransaction htr hrequest, h.2.setTransaction _ htr hrequest⟩
  member h htr := ⟨h.1.quiet (quiet_dispatch _), h.2.dispatchMember h.1 htr⟩

theorem active_of_devicesOrdered {k : HookType} {path : DevicePath} {room : Bool}
    (hordered : s.devicesOrdered (.physical k path room) = true)
    (hchecked : ¬ (path = .ingress ∧ s.activeSyntheticTransactions ≠ 0)) :
    s.activeSyntheticTransactions = 0 := by
  by_cases hpath : path = .ingress
  · by_contra hne
    exact hchecked ⟨hpath, hne⟩
  · simpa [devicesOrdered, hpath] using hordered

/-- In every run whose other device reads find no transaction active, no device event goes to a
lane between two parts of a batch that owns a transaction. -/
theorem batch_is_atomic (h : Reaches step (fun s e => s.devicesOrdered e = true) {} s)
    {r : Nat} {c : Completion} (hc : s.completion r = some c)
    (howns : c.ownsAtomicTransaction = true) : ¬ Broken s.dispatched r := by
  have hboth : Ledger s [] ∧ Batches s :=
    h.invariant ⟨ledger_initial, batches_initial⟩
      fun _ _ _ hs hguard hstep => batchRule.step hs (fun _ _ _ he hchecked =>
        active_of_devicesOrdered (he ▸ hguard) hchecked) hstep
  exact hboth.2.whole r c hc howns

def firstPart : List Event :=
  [.request 5 [.keyboard { vk := 0x41 }, .keyboard { vk := 0x41, flags := {.up} }] .hooked true
    true,
   .pop, .handle (.lane .keyboard) false, .take .keyboard, .finish .keyboard .pass]

def secondPart : List Event :=
  [.pop, .handle (.lane .keyboard) false, .take .keyboard, .finish .keyboard .pass]

def deviceRead : List Event :=
  [.physical .mouse .descriptor true, .take .mouse, .finish .mouse .pass]

theorem batch_is_atomic_after_device : ∃ s : System, ∃ c, s.completion 0 = some c ∧
    c.ownsAtomicTransaction = true ∧
    s.dispatched = [.physical, .fragment 0, .fragment 0] ∧ ¬ Broken s.dispatched 0 := by
  obtain ⟨s, hs, hany, hdispatched⟩ := exists_reaches_of_check step devicesOrdered {}
    (deviceRead ++ firstPart ++ secondPart)
    (q := fun s : System => (s.completion 0).any (·.ownsAtomicTransaction) ∧
      s.dispatched = [.physical, .fragment 0, .fragment 0]) (by decide) (by decide)
  obtain ⟨c, hc, howns⟩ := (any_eq_true _ _).mp hany
  exact ⟨s, c, hc, howns, hdispatched, batch_is_atomic hs hc howns⟩

/-- The loop over the descriptors reads a device between the two parts of the batch. -/
theorem device_breaks_batch : ∃ s : System, Reaches step always {} s ∧
    ∃ c, s.completion 0 = some c ∧ c.ownsAtomicTransaction = true ∧ Broken s.dispatched 0 := by
  obtain ⟨s, hs, hany, hdispatched⟩ := exists_reaches step {}
    (firstPart ++ deviceRead ++ secondPart)
    (q := fun s : System => (s.completion 0).any (·.ownsAtomicTransaction) ∧
      s.dispatched = [.fragment 0, .physical, .fragment 0]) (by decide)
  obtain ⟨c, hc, howns⟩ := (any_eq_true _ _).mp hany
  refine ⟨s, hs, c, hc, howns, [.fragment 0, .physical], [], hdispatched, ?_⟩
  exact ⟨[.fragment 0], [.physical], rfl, mem_singleton_self _, mem_singleton_self _⟩

end System

end KeysharpInput.Synthesis
