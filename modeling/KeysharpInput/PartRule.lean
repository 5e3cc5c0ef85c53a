import KeysharpInput.Shares

/-!
What the steps of the system are made of.
A thread takes parts out of the queue or a lane, pushes and records something for their requests,
and ends their shares. A property that each of these acts keeps is kept by every step, so each
invariant of the system is shown for the acts only. The requests of the parts that a thread has
taken are listed beside the system.
-/

namespace KeysharpInput.Synthesis

open List Option Nat

open Session (HookType)
open Output (Input)

namespace System

variable {s t u : System} {r : Nat} {pend : List Nat}

theorem inputGeneration_pushOwnedSynth (o : Output.OutputState) (inputs : List Input)
    (flags : Output.SynthFlags) (generation : Nat) (owner : Output.SynthOwner) (flushed : Bool) :
    (o.pushOwnedSynth inputs flags generation owner flushed).2.inputGeneration =
      o.inputGeneration := by
  unfold Output.OutputState.pushOwnedSynth
  dsimp only
  split_ifs <;> rfl

theorem inputGeneration_pushReleaseOwner (o : Output.OutputState) (filter : Output.SynthOwner) :
    (o.pushReleaseOwner filter).2.inputGeneration = o.inputGeneration := by
  unfold Output.OutputState.pushReleaseOwner
  split_ifs <;> rfl

theorem inputGeneration_pushReleaseGeneric (o : Output.OutputState) :
    o.pushReleaseGeneric.2.inputGeneration = o.inputGeneration := by
  unfold Output.OutputState.pushReleaseGeneric
  split_ifs <;> rfl

theorem inputGeneration_releaseConnection (connectionId : Nat) (lastClient : Bool) :
    (s.releaseConnection connectionId lastClient).output.inputGeneration =
      s.output.inputGeneration := by
  unfold System.releaseConnection
  split
  · rw [inputGeneration_pushReleaseGeneric, inputGeneration_pushReleaseOwner]
  · exact inputGeneration_pushReleaseOwner ..

theorem le_inputGeneration_step {o o' : Output.OutputState} {e : Output.OutputEvent}
    (hstep : o.step e = some o') : o.inputGeneration ≤ o'.inputGeneration := by
  cases e with
  | advanceGeneration =>
    cases hstep
    exact le_succ _
  | drain =>
    simp only [Output.OutputState.step] at hstep
    split at hstep
    · cases hstep
    · cases hstep
      exact le_refl _
  | pushPacket =>
    cases hstep
    unfold Output.OutputState.pushPacket
    dsimp only
    split_ifs <;> exact le_refl _
  | pushOwnedSynth =>
    cases hstep
    exact le_of_eq (inputGeneration_pushOwnedSynth ..).symm
  | pushReleaseOwner =>
    cases hstep
    exact le_of_eq (inputGeneration_pushReleaseOwner ..).symm
  | pushReleaseGeneric =>
    cases hstep
    exact le_of_eq (inputGeneration_pushReleaseGeneric ..).symm
  | pushReleaseAll =>
    cases hstep
    unfold Output.OutputState.pushReleaseAll
    split_ifs <;> exact le_refl _
  | pushRecreateSynth =>
    cases hstep
    unfold Output.OutputState.pushRecreateSynth
    split_ifs <;> exact le_refl _
  | pushEndGrab =>
    cases hstep
    unfold Output.OutputState.pushEndGrab
    split_ifs <;> exact le_refl _
  | pushClose =>
    cases hstep
    unfold Output.OutputState.pushClose
    split_ifs <;> exact le_refl _
  | openSource info | syncOwners owners | discardStale generation | maintain now =>
    cases hstep
    exact le_refl _

structure Acts (s t : System) (r : Nat) : Prop where
  quiet : Quiet s t
  dispatched : t.dispatched = s.dispatched
  handled : ∃ hs, t.handled = s.handled ++ hs ∧ ∀ x ∈ hs, x.request = r
  admitted : ∃ adm, t.admitted = s.admitted ++ adm ∧ ∀ a ∈ adm, a.request = r
  refusals : ∀ r' ∈ s.refusals, r' ∈ t.refusals
  generation : s.output.inputGeneration ≤ t.output.inputGeneration

theorem acts_of_logs (hquiet : Quiet s t)
    (hlogs : (t.dispatched, t.handled, t.admitted, t.refusals) =
      (s.dispatched, s.handled, s.admitted, s.refusals))
    (hgeneration : s.output.inputGeneration ≤ t.output.inputGeneration) : Acts s t r := by
  simp only [Prod.mk.injEq] at hlogs
  obtain ⟨hdispatched, hhandled, hadmitted, hrefusals⟩ := hlogs
  exact ⟨hquiet, hdispatched, ⟨[], by rw [hhandled, append_nil], nofun⟩,
    ⟨[], by rw [hadmitted, append_nil], nofun⟩, fun _ => hrefusals ▸ id, hgeneration⟩

theorem Acts.trans (h : Acts s t r) (h' : Acts t u r) : Acts s u r := by
  obtain ⟨hs, hhandled, hof⟩ := h.handled
  obtain ⟨hs', hhandled', hof'⟩ := h'.handled
  obtain ⟨adm, hadmitted, hfor⟩ := h.admitted
  obtain ⟨adm', hadmitted', hfor'⟩ := h'.admitted
  refine ⟨h'.quiet.trans h.quiet, h'.dispatched.trans h.dispatched,
    ⟨hs ++ hs', by rw [hhandled', hhandled, append_assoc], fun x hx => ?_⟩,
    ⟨adm ++ adm', by rw [hadmitted', hadmitted, append_assoc], fun a ha => ?_⟩,
    fun r' hr' => h'.refusals r' (h.refusals r' hr'), h.generation.trans h'.generation⟩
  · exact (mem_append.mp hx).elim (hof x) (hof' x)
  · exact (mem_append.mp ha).elim (hfor a) (hfor' a)

theorem acts_noteAll (handling : Handling) (places : List Nat) :
    Acts s (s.noteAll r handling places) r := by
  refine ⟨rfl, rfl, ⟨_, rfl, fun x hx => ?_⟩, ⟨[], (append_nil _).symm, nofun⟩, fun _ => id,
    le_refl _⟩
  obtain ⟨_, -, rfl⟩ := mem_map.mp hx
  rfl

theorem acts_note (place : Nat) (handling : Handling) : Acts s (s.note r place handling) r :=
  acts_noteAll handling [place]

theorem acts_refusal (s : System) (r : Nat) : Acts s { s with refusals := r :: s.refusals } r :=
  ⟨rfl, rfl, ⟨[], (append_nil _).symm, nofun⟩, ⟨[], (append_nil _).symm, nofun⟩,
    fun _ => mem_cons_of_mem _, le_refl _⟩

theorem acts_push (inputs : List Input) (flags : Output.SynthFlags) (generation : Nat)
    (owner : Output.SynthOwner) (flushed : Bool) :
    Acts s (s.push r inputs flags generation owner flushed).2 r := by
  refine ⟨rfl, rfl, ⟨[], (append_nil _).symm, nofun⟩, ?_, fun r' hr' => ?_,
    le_of_eq (inputGeneration_pushOwnedSynth ..).symm⟩
  · unfold System.push
    dsimp only
    split
    · exact ⟨_, rfl, fun a ha => by rw [mem_singleton.mp ha]⟩
    · exact ⟨[], (append_nil _).symm, nofun⟩
  · unfold System.push
    dsimp only
    split
    · exact hr'
    · exact mem_cons_of_mem _ hr'

theorem acts_emitOutput (input : Input) (batchStart : Bool) (generation connectionId : Nat)
    (hookType : HookType) (outcome : Outcome) :
    Acts s (s.emitOutput r input batchStart generation connectionId hookType outcome).2 r := by
  have hnone : Acts s s r := acts_of_logs rfl rfl (le_refl _)
  cases outcome with
  | block => exact hnone
  | pass => exact acts_push ..
  | modify =>
    simp only [emitOutput]
    split
    · exact hnone
    · split
      · exact acts_push ..
      · exact (acts_push ..).trans (acts_push ..)

def handed (s : System) (f : Fragment) : System :=
  if f.batchStart then { s with hand := none }.beginAtomic f.request else { s with hand := none }

/-- A property of the system, and of the requests whose parts a thread has taken, that what happens
to parts keeps. Device events go to a lane where `G` holds. -/
structure PartRule (P : System → List Nat → Prop) (G : System → Prop) : Prop where
  act : ∀ {s t r pend}, P s (r :: pend) → Acts s t r → P t (r :: pend)
  still : ∀ {s t pend}, P s pend → (∀ r, Acts s t r) → P t pend
  finish : ∀ {s r pend}, P s (r :: pend) → ∀ failure, P (s.finish r failure) pend
  wait : ∀ {s pend pend'} (hand : Option QueueItem) (queue : List QueueItem), P s pend →
    (hand.toList ++ queue).Sublist (s.hand.toList ++ s.queue) →
    (∀ r, (hand.toList ++ queue).countP (·.isOf r) + pend'.count r =
      (s.hand.toList ++ s.queue).countP (·.isOf r) + pend.count r) →
    P { s with hand := hand, queue := queue } pend'
  pushRelease : ∀ {s pend}, P s pend → ∀ connectionId,
    P { s with queue := s.queue ++ [.release connectionId] } pend
  hand : ∀ {s f}, P s [] → s.hand = some (.fragment f) → P (s.handed f) [f.request] ∧
    P ((s.handed f).dispatch (.fragment f.request)) [f.request]
  modifyLane : ∀ {s pend pend'}, P s pend → ∀ k f,
    (∀ r, (f (s.lanes k)).shares r + pend'.count r = (s.lanes k).shares r + pend.count r) →
    P (s.modifyLane k f) pend'
  invalidate : ∀ {s}, P s [] → ∀ stream, P { s with invalidated := stream :: s.invalidated } []
  physical : ∀ {s}, P s [] → G s → P (s.dispatch .physical) []
  retire : ∀ {s r c}, P s [] → s.completion r = some c → c.phase = .ending →
    P { s.modifyCompletion r fun c => { c with phase := .retired } with
      activeSyntheticTransactions :=
        if c.ownsAtomicTransaction then fetchSub s.activeSyntheticTransactions
        else s.activeSyntheticTransactions } []
  postAck : ∀ {s r q}, P s [] → s.requests[r]? = some q →
    q.completion.any (·.phase = .retired) = true →
    P { s.modifyCompletion r fun c => { c with phase := .acked } with acks := s.acks ++ [r] } [] ∧
    P { s.modifyCompletion r fun c => { c with phase := .gone } with
      invalidated := q.stream :: s.invalidated } []
  ack : ∀ {s r acks q}, P s [] → s.acks = r :: acks → s.requests[r]? = some q → ∀ status sent,
    P (({ s with acks := acks }.modifyCompletion r fun c =>
      { c with phase := .gone }).reply r q.stream status sent) []

theorem count_flatMap_item (r : Nat) (items : List QueueItem) :
    (items.flatMap QueueItem.owed).count r = items.countP (·.isOf r) := by
  induction items with
  | nil => rfl
  | cons _ _ ih =>
    rw [flatMap_cons, count_append, ih, count_owed_item]
    rw [← countP_append]
    rfl

theorem count_flatMap_event (r : Nat) (events : List LaneEvent) :
    (events.flatMap LaneEvent.owed).count r = events.countP (·.isOf r) := by
  induction events with
  | nil => rfl
  | cons _ _ ih =>
    rw [flatMap_cons, count_append, ih, count_owed_event]
    rw [← countP_append]
    rfl

inductive Turns (s : System) (i : Nat) (tr : Transaction) : Event → System → Prop
  | start (parentActive allocated : Bool) : Turns s i tr (.nestedStart i parentActive allocated)
    (s.startTransaction i tr parentActive allocated)
  | member {m : Member} {rest : List Member} (hmembers : tr.members = m :: rest)
    (outcome : Outcome) (allocated : Bool) :
    Turns s i tr (.nestedMember i outcome allocated) (s.processMember i tr m rest outcome allocated)
  | ended (hended : tr.members = []) : Turns s i tr (.nestedEnd i) (s.endTransaction i tr true)
  | close : Turns s i tr (.closeNested i)
    (({ s with nested := s.nested.eraseIdx i }.noteAll tr.request .refused
      (tr.members.map Member.place)).finish tr.request (some .resourceExhausted))

def turnOf : Event → Option Nat
  | .nestedStart i .. | .nestedMember i .. | .nestedEnd i | .closeNested i => some i
  | _ => none

theorem turns_of_step {e : Event} {i : Nat} (he : turnOf e = some i)
    (hstep : s.step e = some t) : ∃ tr, s.nested[i]? = some tr ∧ s.Turns i tr e t := by
  cases e with
  | nestedStart j parentActive allocated =>
    cases he
    simp only [System.step] at hstep
    split at hstep
    · rename_i tr htr
      split at hstep
      · cases hstep
      · cases hstep
        exact ⟨tr, htr, .start parentActive allocated⟩
    · cases hstep
  | nestedMember j outcome allocated =>
    cases he
    simp only [System.step] at hstep
    split at hstep
    · rename_i tr htr
      split at hstep
      · rename_i hmembers
        split at hstep
        · cases hstep
          exact ⟨tr, htr, .member hmembers outcome allocated⟩
        · cases hstep
      · cases hstep
    · cases hstep
  | nestedEnd j =>
    cases he
    simp only [System.step] at hstep
    split at hstep
    · rename_i tr htr
      split at hstep
      · rename_i hended
        cases hstep
        exact ⟨tr, htr, .ended hended.2⟩
      · cases hstep
    · cases hstep
  | closeNested j =>
    cases he
    simp only [System.step] at hstep
    split at hstep
    · rename_i tr htr
      cases hstep
      exact ⟨tr, htr, .close⟩
    · cases hstep
  | _ => cases he

namespace PartRule

variable {P : System → List Nat → Prop} {G : System → Prop} (h : PartRule P G) {f : Fragment}
  {item : QueueItem}

include h

theorem same (hs : P s pend) (hquiet : Quiet s t)
    (hlogs : (t.dispatched, t.handled, t.admitted, t.refusals) =
      (s.dispatched, s.handled, s.admitted, s.refusals))
    (hgeneration : s.output.inputGeneration ≤ t.output.inputGeneration) : P t pend :=
  h.still hs fun _ => acts_of_logs hquiet hlogs hgeneration

theorem settle (hs : P s (r :: pend)) (place : Nat) (handling : Handling)
    (failure : Option Failure) : P ((s.note r place handling).finish r failure) pend :=
  h.finish (h.act hs (acts_note ..)) failure

theorem completeDirect (hs : P s (f.request :: pend)) : P (s.completeDirect f) pend := by
  have hpush : P (s.pushInput f.request f.input f.batchStart f.inputGeneration
      f.connectionId).2 (f.request :: pend) := h.act hs (acts_push ..)
  unfold System.completeDirect
  dsimp only
  split <;> exact h.settle hpush ..

theorem processSyntheticHookInput (hs : P s [f.request])
    (hdispatch : P (s.dispatch (.fragment f.request)) [f.request]) (routing : Routing) :
    P (s.processSyntheticHookInput f routing) [] := by
  cases routing with
  | createFailed =>
    exact h.settle (h.act hs (acts_refusal s f.request)) ..
  | direct => exact h.completeDirect hdispatch
  | lane k =>
    simp only [System.processSyntheticHookInput]
    split
    · refine h.same (h.modifyLane hdispatch k (fun lane => { lane with
        queue := lane.queue ++ [.synthetic f k lane.flushGeneration] }) fun r => ?_) rfl rfl
        (le_refl _)
      simp only [Lane.shares, countP_append, ← count_owed_event, LaneEvent.owed, count_nil]
      omega
    · exact h.same (h.completeDirect hdispatch) rfl rfl (le_refl _)

theorem releaseConnection (hs : P s pend) (connectionId : Nat) (lastClient : Bool) :
    P (s.releaseConnection connectionId lastClient) pend :=
  h.same hs rfl rfl (le_of_eq (inputGeneration_releaseConnection ..).symm)

theorem takeHand (hs : P s []) (hhand : s.hand = some item) :
    P { s with hand := none } (QueueItem.owed item) := by
  refine h.wait none s.queue hs (sublist_append_right ..) fun r => ?_
  rw [count_owed_item, hhand, countP_append, countP_append]
  exact (Nat.add_comm ..).trans (congrArg _ (Nat.zero_add _))

theorem processSyntheticHookQueueOne (hs : P s []) (hhand : s.hand = some item) (routing : Routing)
    (lastClient : Bool) : P (s.processSyntheticHookQueueOne item routing lastClient) [] := by
  have htaken := h.takeHand hs hhand
  unfold System.processSyntheticHookQueueOne
  cases item with
  | release => exact h.releaseConnection htaken ..
  | fragment =>
    obtain ⟨hhanded, hdispatch⟩ := h.hand hs hhand
    dsimp only
    split
    · exact h.settle htaken ..
    · exact h.processSyntheticHookInput hhanded hdispatch routing

theorem removeClient (hs : P s []) (stream : Nat) (lastClient : Bool) :
    P (s.removeClient stream lastClient) [] := by
  have hended := h.invalidate hs stream
  unfold System.removeClient
  dsimp only
  split
  · exact h.pushRelease hended stream
  · exact h.releaseConnection hended ..

theorem abort {items : List QueueItem} (hs : P s (items.flatMap QueueItem.owed)) :
    P (items.foldl abortItem s) [] := by
  induction items generalizing s with
  | nil => exact hs
  | cons item _ ih =>
    refine ih ?_
    cases item with
    | release connectionId => exact h.pushRelease hs connectionId
    | fragment => exact h.settle hs ..

theorem closeEvents {events : List LaneEvent} (hs : P s (events.flatMap LaneEvent.owed)) :
    P (events.foldl closeEvent s) [] := by
  induction events generalizing s with
  | nil => exact hs
  | cons e _ ih =>
    refine ih ?_
    cases e with
    | physical => exact hs
    | synthetic => exact h.settle hs ..

theorem laneProcessEvent {e : LaneEvent} (hs : P s (LaneEvent.owed e)) (k : HookType)
    (outcome : Outcome) : P (s.laneProcessEvent k outcome e) [] := by
  cases e with
  | physical => exact h.same hs rfl rfl (le_refl _)
  | synthetic =>
    simp only [System.laneProcessEvent]
    split
    · exact h.same (h.settle hs ..) rfl rfl (le_refl _)
    · exact h.same (h.settle (h.act hs (acts_emitOutput ..)) ..) rfl rfl (le_refl _)

theorem pop (hs : P s []) (hstep : s.step .pop = some t) : P t [] := by
  simp only [System.step] at hstep
  split at hstep
  · rename_i item queue hhand hqueue
    split at hstep
    · cases hstep
    cases hstep
    refine h.wait (some item) queue hs ?_ fun r => ?_
    · rw [hhand, hqueue]
      exact List.Sublist.refl _
    · rw [hhand, hqueue]
      rfl
  · cases hstep

theorem take {k : HookType} (hs : P s []) (hstep : s.step (.take k) = some t) : P t [] := by
  simp only [System.step] at hstep
  split at hstep
  · rename_i e _ hrunning hqueue
    cases hstep
    refine h.modifyLane hs k _ fun r => ?_
    simp only [Lane.shares, hrunning, hqueue, toList_none, toList_some, countP_cons]
    omega
  · cases hstep

theorem deviceEvent {k : HookType} {path : DevicePath} {room : Bool} (hs : P s [])
    (hdevices : ¬ (path = .ingress ∧ s.activeSyntheticTransactions ≠ 0) → G s)
    (hstep : s.step (.physical k path room) = some t) : P t [] := by
  simp only [System.step] at hstep
  split at hstep
  · cases hstep
  rename_i hchecked
  cases hstep
  have hdispatch := h.physical hs (hdevices hchecked)
  split
  · refine h.same (h.modifyLane hdispatch k (fun lane => { lane with
      queue := lane.queue ++ [.physical] }) fun r => ?_) rfl rfl (le_refl _)
    simp [Lane.shares, LaneEvent.isOf]
  · exact hdispatch

theorem retired (hs : P s []) (hstep : s.step (.retire r) = some t) : P t [] := by
  simp only [System.step] at hstep
  split at hstep
  · rename_i hc
    split at hstep
    · rename_i hphase
      cases hstep
      exact h.retire hs hc hphase
    · cases hstep
  · cases hstep

theorem posted {room : Bool} (hs : P s []) (hstep : s.step (.postAck r room) = some t) :
    P t [] := by
  simp only [System.step] at hstep
  split at hstep
  · rename_i q hq
    split at hstep
    · rename_i hphase
      split at hstep
      · cases hstep
        exact (h.postAck hs hq hphase).1
      · cases hstep
        exact (h.postAck hs hq hphase).2
    · cases hstep
  · cases hstep

theorem acknowledged {pumpEnded sendOk : Bool} (hs : P s [])
    (hstep : s.step (.ack pumpEnded sendOk) = some t) : P t [] := by
  simp only [System.step] at hstep
  split at hstep
  · rename_i hacks
    split at hstep
    · rename_i hq
      cases hstep
      exact h.ack hs hacks hq ..
    · cases hstep
  · cases hstep

theorem step {e : Event} (hs : P s []) (hdevices : ∀ k path room, e = .physical k path room →
      ¬ (path = .ingress ∧ s.activeSyntheticTransactions ≠ 0) → G s)
    (hrequest : ∀ stream inputs route allocOk sendOk,
      t = s.handleSynthesizeInput stream inputs route allocOk sendOk → P t [])
    (hturn : ∀ i tr, s.nested[i]? = some tr → s.Turns i tr e t → P t [])
    (hstep : s.step e = some t) : P t [] := by
  cases e with
  | request stream inputs route allocOk sendOk =>
    exact hrequest stream inputs route allocOk sendOk (some.inj hstep).symm
  | pop => exact h.pop hs hstep
  | handle routing lastClient =>
    obtain ⟨_, hhand, rfl⟩ := map_eq_some_iff.mp hstep
    exact h.processSyntheticHookQueueOne hs hhand routing lastClient
  | abort =>
    cases hstep
    refine h.abort (h.wait s.hand [] hs (List.Sublist.append_left (nil_sublist _) _)
      fun r => ?_)
    rw [count_flatMap_item, append_nil, countP_append]
    rfl
  | disconnect stream lastClient =>
    cases hstep
    exact h.removeClient hs stream lastClient
  | physical k path room => exact h.deviceEvent hs (hdevices k path room rfl) hstep
  | take k => exact h.take hs hstep
  | finish k outcome =>
    obtain ⟨e, hrunning, rfl⟩ := map_eq_some_iff.mp hstep
    refine h.laneProcessEvent (h.modifyLane hs k _ fun r => ?_) k outcome
    rw [count_owed_event]
    simp only [Lane.shares, hrunning, toList_none, toList_some, countP_nil, count_nil]
    omega
  | nestedStart i | nestedMember i | nestedEnd i | closeNested i =>
    obtain ⟨tr, htr, hturns⟩ := turns_of_step rfl hstep
    exact hturn i tr htr hturns
  | closeLane k =>
    cases hstep
    refine h.closeEvents (h.modifyLane hs k _ fun r => ?_)
    rw [count_flatMap_event]
    simp only [Lane.shares, countP_nil, count_nil]
    omega
  | flush k | shutDown k =>
    cases hstep
    exact h.modifyLane hs k _ fun r => rfl
  | retire r => exact h.retired hs hstep
  | postAck r room => exact h.posted hs hstep
  | ack pumpEnded sendOk => exact h.acknowledged hs hstep
  | output =>
    obtain ⟨_, houtput, rfl⟩ := map_eq_some_iff.mp hstep
    exact h.same hs rfl rfl (le_inputGeneration_step houtput)

end PartRule

structure ShareRule (P : System → List Nat → Prop) (G : System → Prop) : Prop
    extends PartRule P G where
  acts : ∀ {s t r pend}, P s pend → Acts s t r → P t pend
  answer : ∀ {s}, P s [] → ∀ stream batch status sent,
    P ((s.newRequest stream batch none).reply s.requests.length stream status sent) []
  enqueue : ∀ {s nodes}, P s [] → nodes ≠ [] → ∀ stream generation,
    P { s.newRequest stream nodes (some { remaining := nodes.length, admitted := true }) with
      queue := s.queue ++ fragments s.requests.length generation stream nodes } []
  empty : ∀ {s}, P s [] → ∀ stream, P (s.newRequest stream [] (some {})) [s.requests.length] ∧
    P ((s.newRequest stream [] (some {})).beginAtomic s.requests.length) [s.requests.length]
  nest : ∀ {s tr}, P s [] → tr.request = s.requests.length → ∀ stream batch,
    P { (s.newRequest stream batch (some {})).beginAtomic s.requests.length with
      nested := ((s.newRequest stream batch (some {})).beginAtomic s.requests.length).nested ++
        [tr] } []
  erase : ∀ {s i tr}, P s [] → s.nested[i]? = some tr →
    P { s with nested := s.nested.eraseIdx i } [tr.request]
  set : ∀ {s i tr tr'}, P s [] → s.nested[i]? = some tr → tr'.request = tr.request →
    P (s.setTransaction i tr') []
  member : ∀ {s tr}, P s [] → tr ∈ s.nested → P (s.dispatch (.fragment tr.request)) []

namespace ShareRule

variable {P : System → List Nat → Prop} {G : System → Prop} (h : ShareRule P G) {i : Nat}
  {tr : Transaction}

include h

section

variable (hs : P s [])

include hs

theorem sendDirect (stream : Nat) (inputs : List Input) (sendOk : Bool) :
    P (s.sendDirect stream inputs sendOk) [] := by
  have hpush := h.acts hs (acts_push (r := s.requests.length) inputs {} s.output.inputGeneration
    { connectionId := stream } false)
  unfold System.sendDirect
  dsimp only
  split
  · exact h.answer (h.acts hpush (acts_noteAll ..)) ..
  · exact h.answer hpush ..

theorem handleSynthesizeInput (stream : Nat) (inputs : List Input) (route : Route)
    (allocOk sendOk : Bool) :
    P (s.handleSynthesizeInput stream inputs route allocOk sendOk) [] := by
  obtain ⟨hempty, hbegun⟩ := h.empty hs stream
  unfold System.handleSynthesizeInput
  dsimp only
  split
  · exact h.answer hs ..
  · exact h.sendDirect hs ..
  · rename_i htaken
    have hinputs : inputs ≠ [] := by
      rintro rfl
      cases route <;> simp [Route.taken] at htaken
    split
    · exact h.answer hs ..
    split
    · exact h.finish hempty _
    · exact h.enqueue hs (expandBatch_ne_nil hinputs) ..
  split
  · exact h.answer hs ..
  split
  · exact h.finish hempty _
  split
  · exact h.finish hempty _
  split
  · exact h.finish hempty _
  split
  · exact h.finish hbegun _
  · exact h.nest hs rfl ..

section

variable (htr : s.nested[i]? = some tr)

include htr

theorem endTransaction (ok : Bool) :
    P (s.endTransaction i tr ok) [] := by
  refine h.finish ?_ _
  split
  · exact h.erase hs htr
  · exact h.same (h.erase hs htr) rfl rfl
      (le_of_eq (inputGeneration_pushReleaseOwner ..).symm)

theorem refuse (handling : Handling) (places : List Nat) (ok : Bool) :
    P ((s.noteAll tr.request handling places).endTransaction i tr ok) [] := by
  refine h.endTransaction (h.acts hs (acts_noteAll ..)) ?_ ok
  exact htr

theorem failOpen (members : List Member) (allocated : Bool) :
    P (s.failOpenNestedTransaction i tr members allocated) [] := by
  unfold System.failOpenNestedTransaction
  split
  · exact h.endTransaction hs htr true
  cases allocated with
  | true =>
    refine h.refuse (h.acts hs (acts_push ..)) ?_ ..
    exact htr
  | false =>
    refine h.refuse (h.acts hs (acts_refusal ..)) ?_ ..
    exact htr

theorem startTransaction (parentActive allocated : Bool) :
    P (s.startTransaction i tr parentActive allocated) [] := by
  unfold System.startTransaction
  split
  · exact h.refuse hs htr ..
  split
  · exact h.set hs htr rfl
  · exact h.failOpen hs htr ..

theorem processMember (m : Member)
    (rest : List Member) (outcome : Outcome) (allocated : Bool) :
    P (s.processMember i tr m rest outcome allocated) [] := by
  have hdispatch := h.member hs (mem_of_getElem? htr)
  unfold System.processMember
  split
  · exact h.refuse hs htr ..
  split
  · have hpush : P ((s.dispatch (.fragment tr.request)).pushInput tr.request m.input
      (m.place == 0) tr.inputGeneration tr.connectionId).2 [] := h.acts hdispatch (acts_push ..)
    dsimp only
    split
    · have hnoted := h.acts hpush (acts_note (r := tr.request) m.place .unchanged)
      exact h.set hnoted (show _ = some tr from htr) rfl
    · exact h.refuse hpush htr ..
  rename_i hookType _ _
  split
  · exact h.failOpen hs htr ..
  dsimp only
  have hacts := acts_emitOutput (s := s.dispatch (.fragment tr.request)) (r := tr.request)
    m.input (m.place == 0) tr.inputGeneration tr.connectionId hookType outcome
  have hemit := h.acts hdispatch hacts
  have hat := htr
  rw [← show _ = s.nested from hacts.quiet.nested] at hat
  split
  · exact h.failOpen hemit hat ..
  · exact h.set (h.acts hemit (acts_note ..)) hat rfl

end

theorem step {e : Event} (hdevices : ∀ k path room, e = .physical k path room →
      ¬ (path = .ingress ∧ s.activeSyntheticTransactions ≠ 0) → G s)
    (hstep : s.step e = some t) : P t [] := by
  refine h.toPartRule.step hs hdevices (fun _ _ _ _ _ ht => ?_) (fun i tr htr hturn => ?_) hstep
  · rw [ht]
    exact h.handleSynthesizeInput hs ..
  cases hturn with
  | start => exact h.startTransaction hs htr ..
  | member => exact h.processMember hs htr ..
  | ended => exact h.endTransaction hs htr true
  | close => exact h.finish (h.acts (h.erase hs htr) (acts_noteAll ..)) _

end

end ShareRule

end System

end KeysharpInput.Synthesis
