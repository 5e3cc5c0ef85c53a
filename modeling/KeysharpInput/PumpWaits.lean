import KeysharpInput.PumpSends

/-!
When the main loop does not wait on itself.
The condition is on turns alone: a recursive turn enters an empty stack or above a frame of its own
lane. Then the main thread's `end_pump` always finds its frame on top or gone, returns at once, and
the main loop is never held up by a callback whose decision it would have to read. Each step of the
system is a change of its view.
-/

namespace KeysharpInput.Pump

open Session (HookType)
open Callback (Stream SendRef CallFrame)
open Function Transition List Option

namespace System

variable {s t : System} {k : HookType} {call call' : LaneCall} {rest : List LaneCall} {c : Nat}
  {stream : Stream} {tr : Transaction} {ring : List Transaction} {phase : CallPhase}
  {others : List Nat} {room : Bool} {move : LaneMove} {acks : List (Nat × Nat)}

def view (s : System) : View where
  lanes := s.stack
  frames c := (s.streams c).ref.frames
  sends := (s.acks : Multiset (Nat × Nat)) +
    (((s.lanes .keyboard).ring.map Transaction.token : Multiset (Nat × Nat)) +
      ((s.lanes .mouse).ring.map Transaction.token : Multiset (Nat × Nat)))
  next := s.nextEventId

theorem view_setStack (s : System) (k : HookType) (stack : List LaneCall) :
    (s.setStack k stack).view = s.view.setStack k stack := by
  have hlanes : (s.setStack k stack).stack = update s.stack k stack := by
    funext k'
    unfold System.stack setStack
    by_cases hk : k' = k
    · subst hk
      simp
    · simp [hk]
  unfold view View.setStack
  rw [hlanes]
  cases k <;> rfl

theorem view_setStream (s : System) (c : Nat) (stream : Stream) :
    (s.setStream c stream).view = s.view.setFrames c stream.ref.frames := by
  have hframes : (fun c' => ((s.setStream c stream).streams c').ref.frames) =
      update (fun c' => (s.streams c').ref.frames) c stream.ref.frames := by
    funext c'
    unfold setStream
    by_cases hc : c' = c
    · subst hc
      simp
    · simp [hc]
  unfold view View.setFrames
  rw [hframes]
  rfl

theorem view_setStream_same (h : stream.ref.frames = (s.streams c).ref.frames) :
    (s.setStream c stream).view = s.view := by
  rw [view_setStream, h]
  simp [View.setFrames, view]

theorem view_invalidate (s : System) (c : Nat) : (s.invalidate c).view = s.view :=
  view_setStream_same rfl

theorem coe_concat (l : List (Nat × Nat)) (x : Nat × Nat) :
    ((l ++ [x] : List (Nat × Nat)) : Multiset (Nat × Nat)) = x ::ₘ (l : Multiset (Nat × Nat)) :=
  Multiset.coe_eq_coe.mpr (perm_append_singleton x l)

theorem view_setRing (s : System) (k : HookType) (ring : List Transaction) :
    (s.setRing k ring).view = { s.view with sends := (s.setRing k ring).view.sends } := by
  have hstack : (s.setRing k ring).stack = s.stack := by
    funext k'
    unfold System.stack setRing
    by_cases hk : k' = k
    · subst hk
      simp
    · simp [hk]
  unfold view
  rw [hstack]
  rfl

theorem sends_setRing_tail (hring : (s.lanes k).ring = tr :: ring) :
    s.view.sends = tr.token ::ₘ (s.setRing k ring).view.sends := by
  unfold view setRing
  cases k <;> simp only [hring, map_cons, ← Multiset.cons_coe, Multiset.cons_add,
    Multiset.add_cons, update_self, ne_eq, reduceCtorEq, not_false_eq_true,
    update_of_ne]

theorem sends_setRing_concat (s : System) (k : HookType) (tr : Transaction) :
    (s.setRing k ((s.lanes k).ring ++ [tr])).view.sends = tr.token ::ₘ s.view.sends := by
  unfold view setRing
  cases k <;> simp only [map_append, map_singleton, coe_concat, Multiset.cons_add,
    Multiset.add_cons, update_self, ne_eq, reduceCtorEq, not_false_eq_true,
    update_of_ne]

theorem view_postAck (s : System) (tr : Transaction) (room : Bool) : (s.postAck tr room).view =
      if room then { s.view with sends := tr.token ::ₘ s.view.sends } else s.view := by
  unfold postAck
  split
  · unfold view
    simp only [coe_concat]
    rfl
  · exact view_invalidate s _

structure Calm (s : System) : Prop where
  ok : s.view.Ok
  clean : ∀ c, (s.streams c).ref.Clean
  main : ∀ c e index, s.main ≠ .ending c e index

theorem calm_initial : Calm {} where
  ok := by
    refine ⟨Nat.zero_lt_one, nofun, nofun, fun _ => .nil, ?_, fun c => ⟨.keyboard, ?_⟩,
      Multiset.nodup_zero, nofun, ?_, nofun, nofun, nofun⟩
    · exact fun _ _ _ => disjoint_nil_left _
    · exact fun _ => (ite_self _).symm
    · exact fun _ _ _ hf => nomatch hf
  clean _ _ _ := rfl
  main _ _ _ := nofun

theorem clean_setStream (h : ∀ c, (s.streams c).ref.Clean) (hclean : stream.ref.Clean) (c' : Nat) :
    ((s.setStream c stream).streams c').ref.Clean := by
  unfold setStream
  by_cases hc : c' = c
  · subst hc
    simpa using hclean
  · simpa [hc] using h c'

/-- A recursive turn meets an empty stack, a top frame that does not pump, or one of its own
lane. -/
def ownLane (s : System) (call : LaneCall) (rest : List LaneCall) (c : Nat) : Bool :=
  !call.recursive || (s.streams c).ref.callDepth == 0 || !(s.streams c).ref.top.pumping ||
    (rest.map (·.eventId)).contains (s.streams c).ref.top.eventId

def sameLane (s : System) : Event → Bool
  | .lane k (.turn _) =>
    match s.stack k with
    | call :: rest => call.subscribers.head?.all (s.ownLane call rest)
    | [] => true
  | .lane k .wake =>
    match s.stack k with
    | call :: rest => call.phase.stream?.all (s.ownLane call rest)
    | [] => true
  | _ => true

theorem turnPhase_cases {returned : Option Callback.Returned}
    (h : ∀ e r, returned ≠ some (.turn e r true)) :
    turnPhase c returned = .between ∨ turnPhase c returned = .turn c := by
  unfold turnPhase
  split
  · rename_i e r
    exact absurd rfl (h e r)
  · exact .inl rfl
  · exact .inr rfl

theorem Calm.mem_head (hstack : s.stack k = call :: rest) : call ∈ s.view.lanes k :=
  show call ∈ s.stack k from hstack ▸ mem_cons_self

theorem Calm.nested_none (h : Calm s) (hstack : s.stack k = call :: rest)
    (hphase : ∀ c d, call.phase ≠ .waiting c d) : call.nested = none := by
  cases hnested : call.nested with
  | none => rfl
  | some tr =>
    obtain ⟨-, d, hwaiting⟩ := (h.ok.call k call (mem_head hstack)).running tr hnested
    exact absurd hwaiting (hphase _ d)

theorem Calm.setHead (h : Calm s) (hstack : s.stack k = call :: rest)
    (hok : call'.Ok s.nextEventId) (hid : call'.eventId = call.eventId)
    (hon : ∀ c, call'.onStack c = call.onStack c)
    (hpending : ∀ c ∈ call'.pending, c ∈ call.pending)
    (htoken : call'.nested.map Transaction.token = call.nested.map Transaction.token) :
    Calm (s.setStack k (call' :: rest)) := by
  refine ⟨?_, h.clean, h.main⟩
  rw [view_setStack]
  refine h.ok.setHead hstack hok hid hon hpending fun tr htr => .inl ?_
  rw [htr] at htoken
  obtain ⟨tr', htr', htoken⟩ := map_eq_some_iff.mp htoken.symm
  exact ⟨k, call, mem_head hstack, tr', htr', htoken⟩

theorem Calm.setPhase (h : Calm s) (hstack : s.stack k = call :: rest)
    (hcall : call.phase = .entered c ∨ ∃ d, call.phase = .waiting c d)
    (hphase : phase = .left c ∧ call.nested = none ∨ ∃ d, phase = .waiting c d) :
    Calm (s.setStack k ({ call with phase := phase } :: rest)) := by
  obtain ⟨hpos, hfresh, hclients, hrunning⟩ := h.ok.call k call (mem_head hstack)
  have hon : ∀ c', call.onStack c' = (c == c') := by
    intro c'
    unfold LaneCall.onStack
    rcases hcall with hcall | ⟨d, hcall⟩ <;> rw [hcall]
  have hpending : call.pending = call.subscribers := by
    unfold LaneCall.pending
    rcases hcall with hcall | ⟨d, hcall⟩ <;> rw [hcall]
  have hall : call.clients = c :: call.subscribers := by
    unfold LaneCall.clients
    rcases hcall with hcall | ⟨d, hcall⟩ <;> rw [hcall] <;> rfl
  rw [hall] at hclients
  refine h.setHead hstack ⟨hpos, hfresh, ?_, fun tr htr => ?_⟩ rfl (fun c' => ?_) ?_ rfl
  · rcases hphase with ⟨rfl, -⟩ | ⟨d, rfl⟩ <;> exact hclients
  · obtain ⟨hparent, d, hwaiting⟩ := hrunning tr htr
    rcases hphase with ⟨-, hnone⟩ | ⟨d', rfl⟩
    · cases hnone.symm.trans htr
    rcases hcall with hcall | ⟨d, hcall⟩
    · cases hcall.symm.trans hwaiting
    · obtain ⟨rfl, -⟩ := CallPhase.waiting.inj (hcall.symm.trans hwaiting)
      exact ⟨hparent, d', rfl⟩
  · rw [hon]
    rcases hphase with ⟨rfl, -⟩ | ⟨d, rfl⟩ <;> rfl
  · rw [hpending]
    rcases hphase with ⟨rfl, -⟩ | ⟨d, rfl⟩ <;> exact fun _ hc => hc

theorem Calm.setMembers (h : Calm s) (hstack : s.stack k = call :: rest)
    (htr : call.nested = some tr) (members : List (Option (List Nat))) :
    Calm (s.setStack k ({ call with nested := some { tr with members := members } } :: rest)) := by
  obtain ⟨hpos, hfresh, hclients, hrunning⟩ := h.ok.call k call (mem_head hstack)
  refine h.setHead hstack ⟨hpos, hfresh, hclients, fun tr' htr' => ?_⟩ rfl (fun _ => rfl)
    (fun _ hc => hc) (by rw [htr]; rfl)
  cases htr'
  exact hrunning tr htr

structure Ahead (call : LaneCall) (c : Nat) (others : List Nat) : Prop where
  pending : call.pending = c :: others
  clients : call.clients = c :: others
  onStack : ∀ c', call.onStack c' = false
  nested : call.nested = none

section

variable (h : Calm s)

include h

theorem Calm.ahead_turn (hstack : s.stack k = call :: rest)
    (hphase : call.phase = .turn c) : Ahead call c call.subscribers := by
  refine ⟨?_, ?_, fun _ => ?_, h.nested_none hstack fun _ _ => by simp [hphase]⟩
  · simp [LaneCall.pending, hphase]
  · simp [LaneCall.clients, CallPhase.stream?, hphase]
  · simp [LaneCall.onStack, hphase]

theorem Calm.ahead_between (hstack : s.stack k = call :: rest)
    (hphase : call.phase = .between) (hnext : call.subscribers = c :: others) :
    Ahead call c others := by
  refine ⟨?_, ?_, fun _ => ?_, h.nested_none hstack fun _ _ => by simp [hphase]⟩
  · simp [LaneCall.pending, hphase, hnext]
  · simp [LaneCall.clients, CallPhase.stream?, hphase, hnext]
  · simp [LaneCall.onStack, hphase]

theorem Calm.stayOut (hstack : s.stack k = call :: rest)
    (hahead : Ahead call c others) {phase : CallPhase}
    (hphase : phase = .between ∨ phase = .turn c) :
    Calm (s.setStack k ({ call with subscribers := others, phase := phase } :: rest)) := by
  obtain ⟨hpos, hfresh, hclients, -⟩ := h.ok.call k call (mem_head hstack)
  rw [hahead.clients] at hclients
  refine h.setHead hstack ⟨hpos, hfresh, ?_, fun tr htr => ?_⟩ rfl (fun c' => ?_) ?_ rfl
  · rcases hphase with rfl | rfl
    · exact (nodup_cons.mp hclients).2
    · exact hclients
  · cases hahead.nested.symm.trans htr
  · rw [hahead.onStack]
    rcases hphase with rfl | rfl <;> rfl
  rw [hahead.pending]
  rcases hphase with rfl | rfl
  · exact fun _ hc => mem_cons_of_mem _ hc
  · exact fun _ hc => hc

theorem Calm.setStream (hframes : stream.ref.frames = (s.streams c).ref.frames)
    (hclean : stream.ref.Clean) : Calm (s.setStream c stream) :=
  ⟨(view_setStream_same hframes).symm ▸ h.ok, clean_setStream h.clean hclean, h.main⟩

theorem Calm.settleOut (hstack : s.stack k = call :: rest)
    (hahead : Ahead call c others) (hframes : stream.ref.frames = (s.streams c).ref.frames)
    (hclean : stream.ref.Clean) (hreturned : ∀ e r, stream.returned ≠ some (.turn e r true)) :
    Calm (s.settleTurn k { call with subscribers := others } rest c stream) :=
  (h.setStream hframes hclean).stayOut hstack hahead (turnPhase_cases hreturned)

theorem Calm.turnRound (hstack : s.stack k = call :: rest)
    (hahead : Ahead call c others) (hframes : stream.ref.frames = (s.streams c).ref.frames)
    (hclean : stream.ref.Clean) (hown : s.ownLane call rest c = true) :
    Calm (s.settleTurn k { call with subscribers := others } rest c
      (stream.tryTurn (laneThread k) call.eventId call.recursive)) := by
  have hclean' := Stream.tryTurn_clean hclean (laneThread k) call.eventId call.recursive
  rcases Stream.tryTurn_frames hclean (laneThread k) call.eventId call.recursive with
    ⟨e, r, hreturned, henter, htop⟩ | ⟨hreturned, hsame⟩
  · obtain ⟨hpos, hfresh, hclients, -⟩ := h.ok.call k call (mem_head hstack)
    rw [hahead.clients] at hclients
    refine ⟨?_, clean_setStream h.clean hclean', h.main⟩
    unfold settleTurn
    rw [hreturned, view_setStack, view_setStream, henter, hframes]
    refine h.ok.enter hstack ⟨hpos, hfresh, hclients, fun tr htr => ?_⟩
      hahead.onStack (hahead.pending ▸ mem_cons_self) rfl (fun _ => rfl)
      (fun _ hc => hahead.pending ▸ mem_cons_of_mem _ hc) hahead.nested
      fun frame frames hlist => ?_
    · cases hahead.nested.symm.trans htr
    obtain ⟨hrecursive, hpumping⟩ := htop frame frames (hframes.trans hlist)
    obtain ⟨n, hdepth, hcalls, -⟩ := SendRef.frames_eq_cons hlist
    have htopFrame : (s.streams c).ref.top = frame := by
      rw [SendRef.top, hdepth, Nat.add_sub_cancel, hcalls]
    unfold ownLane at hown
    simpa [hrecursive, hdepth, htopFrame, hpumping] using hown
  · exact h.settleOut hstack hahead (hsame.trans hframes) hclean' hreturned

end

theorem Calm.pushCall (h : Calm (s.setStack k rest))
    (hbelow : ∀ x ∈ rest, x.nested.isSome = true) (recursive : Bool) {subscribers : List Nat}
    (hsubscribers : subscribers.Nodup) : Calm (s.pushCall k recursive subscribers rest) := by
  have hself : (s.setStack k rest).view.lanes k = rest := by
    rw [view_setStack]
    exact update_self ..
  have hpush := h.ok.push (hself.symm ▸ hbelow)
    (show LaneCall.eventId { eventId := s.nextEventId, recursive, subscribers } = _ from rfl)
    rfl rfl hsubscribers
  refine ⟨?_, h.clean, h.main⟩
  rw [hself, view_setStack] at hpush
  have hview : (s.pushCall k recursive subscribers rest).view = { (s.setStack k
      ({ eventId := s.nextEventId, recursive, subscribers } :: rest)).view with
      next := s.nextEventId + 1 } := rfl
  rw [hview, view_setStack]
  simp only [View.setStack, update_idem] at hpush ⊢
  exact hpush

theorem calm_postAck (hok : (s.postAck tr room).view.Ok) (hclean : ∀ c, (s.streams c).ref.Clean)
    (hmain : ∀ c e index, s.main ≠ .ending c e index) : Calm (s.postAck tr room) := by
  refine ⟨hok, ?_, ?_⟩
  · unfold postAck
    split
    · exact hclean
    · exact clean_setStream hclean (hclean _)
  · unfold postAck
    split <;> exact hmain

section

variable (h : Calm s)

include h

theorem Calm.nestedEnd (hstack : s.stack k = call :: rest)
    (htr : call.nested = some tr) (room : Bool) :
    Calm ((s.setStack k ({ call with nested := none } :: rest)).postAck tr room) := by
  have hmem := mem_head hstack
  obtain ⟨hpos, hfresh, hclients, hrunning⟩ := h.ok.call k call hmem
  obtain ⟨hparent, d, hphase⟩ := hrunning tr htr
  have hon : call.onStack tr.originConnectionId = true := by simp [LaneCall.onStack, hphase]
  have htoken : tr.token = (tr.originConnectionId, call.eventId) := by
    rw [Transaction.token, hparent]
  have hruns : s.view.Runs (tr.originConnectionId, call.eventId) :=
    htoken ▸ ⟨k, call, hmem, tr, htr, rfl⟩
  have hset : (s.view.setStack k ({ call with nested := none } :: rest)).Ok :=
    h.ok.setHead hstack ⟨hpos, hfresh, hclients, by simp⟩ rfl (fun _ => rfl) (fun _ hc => hc)
      (by simp)
  refine calm_postAck ?_ h.clean h.main
  rw [view_postAck, view_setStack]
  split
  · rw [htoken]
    have hself : { call with nested := none } ∈
        (s.view.setStack k ({ call with nested := none } :: rest)).lanes k := by
      simp [View.setStack]
    exact hset.post hself hon rfl (fun hx => h.ok.idle _ hx hruns) (h.ok.pumping _ (.inr hruns))
      (congrArg head? (h.ok.head_ids hstack hon))
  · exact hset

theorem Calm.leave (hstack : s.stack k = call :: rest) (hphase : call.phase = .left c)
    (hstream : stream.ref = (s.streams c).ref.completeEvent call.eventId) :
    Calm ((s.setStream c stream).setStack k ({ call with phase := .between } :: rest)) := by
  obtain ⟨hpos, hfresh, hclients, -⟩ := h.ok.call k call (mem_head hstack)
  have hon : ∀ c', call.onStack c' = (c == c') := fun c' => by simp [LaneCall.onStack, hphase]
  have hids := h.ok.head_ids hstack (by rw [hon]; exact beq_self_eq_true c)
  obtain ⟨frame, frames, hlist, hid⟩ : ∃ frame frames,
      (s.streams c).ref.frames = frame :: frames ∧ frame.eventId = call.eventId := by
    cases hlist : (s.streams c).ref.frames with
    | nil => simp [View.ids, view, hlist] at hids
    | cons frame frames =>
      simp only [View.ids, view, hlist, map_cons, cons.injEq] at hids
      exact ⟨frame, frames, rfl, hids.1⟩
  have hnested := h.nested_none hstack fun _ _ => by simp [hphase]
  refine ⟨?_, clean_setStream h.clean (hstream ▸ SendRef.clean_completeEvent (h.clean c)), h.main⟩
  have hframes := SendRef.frames_completeEvent hlist (hid ▸ Nat.ne_of_gt hpos)
  rw [hid] at hframes
  rw [view_setStack, view_setStream, hstream, hframes]
  refine h.ok.leave hstack hlist ⟨hpos, hfresh, ?_, fun tr htr => ?_⟩ rfl hon (fun _ => rfl) ?_
    hnested
  · simp only [LaneCall.clients, hphase] at hclients
    exact (nodup_cons.mp hclients).2
  · cases hnested.symm.trans htr
  · simp [LaneCall.pending, hphase]

theorem Calm.turn {sawValid : Bool} (hstack : s.stack k = call :: rest)
    (hown : s.sameLane (.lane k (.turn sawValid)) = true)
    (hstep : s.callStep k call rest (.turn sawValid) = some t) : Calm t := by
  simp only [System.callStep] at hstep
  split at hstep
  · rename_i c _ hphase hnext
    have hahead := h.ahead_between hstack hphase hnext
    split at hstep
    · cases hstep
      simp only [sameLane, hstack, hnext] at hown
      have hframes : ((s.streams c).ref.appendWaiter ⟨laneThread k, call.recursive⟩).frames =
          (s.streams c).ref.frames := rfl
      exact h.turnRound hstack hahead hframes (h.clean c) hown
    · cases hstep
      simpa [hphase] using h.stayOut hstack hahead (.inl hphase)
  · cases hstep

theorem Calm.send {ok : Bool} (hstack : s.stack k = call :: rest)
    (hstep : s.callStep k call rest (.send ok) = some t) : Calm t := by
  simp only [System.callStep] at hstep
  split at hstep
  · rename_i c hphase
    cases hstep
    have hnested := h.nested_none hstack fun _ _ => by simp [hphase]
    refine h.setPhase hstack (.inl hphase) ?_
    cases ok with
    | true => exact .inr ⟨false, rfl⟩
    | false => exact .inl ⟨rfl, hnested⟩
  · cases hstep

theorem Calm.nestedMember (hstack : s.stack k = call :: rest)
    (hstep : s.callStep k call rest .nestedMember = some t) : Calm t := by
  simp only [System.callStep] at hstep
  split at hstep
  · rename_i tr htr
    split at hstep
    · rename_i members _
      have hparent := h.setMembers hstack htr members
      split at hstep
      · split at hstep
        · rename_i hnodup
          cases hstep
          refine hparent.pushCall (fun x hx => ?_) true hnodup
          rcases mem_cons.mp hx with rfl | hx
          · rfl
          · refine h.ok.below k x ?_
            show x ∈ (s.stack k).tail
            rwa [hstack]
        · cases hstep
      · cases hstep
        exact hparent
    · cases hstep
  · cases hstep

theorem Calm.callStep (hstack : s.stack k = call :: rest)
    (hown : s.sameLane (.lane k move) = true) (hstep : s.callStep k call rest move = some t) :
    Calm t := by
  cases move with
  | start => cases hstep
  | nestedStart => cases hstep
  | skip =>
    simp only [System.callStep] at hstep
    split at hstep
    · rename_i c others hphase hnext
      cases hstep
      simpa [hphase] using h.stayOut hstack (h.ahead_between hstack hphase hnext) (.inl hphase)
    · cases hstep
  | turn sawValid => exact h.turn hstack hown hstep
  | wake =>
    simp only [System.callStep] at hstep
    split at hstep
    · rename_i c hphase
      cases hstep
      simp only [sameLane, hstack, hphase] at hown
      exact h.turnRound hstack (h.ahead_turn hstack hphase) rfl (h.clean c) hown
    · cases hstep
  | timeout =>
    simp only [System.callStep] at hstep
    split at hstep
    · rename_i c hphase
      cases hstep
      exact h.settleOut hstack (h.ahead_turn hstack hphase) rfl (h.clean c)
        (by simp [Stream.leaveTurn])
    · cases hstep
  | send ok => exact h.send hstack hstep
  | pop =>
    simp only [System.callStep] at hstep
    split at hstep
    · rename_i c hphase hnested
      cases hstep
      exact h.setPhase hstack (.inr ⟨true, hphase⟩) (.inl ⟨rfl, hnested⟩)
    · cases hstep
  | giveUp =>
    simp only [System.callStep] at hstep
    split at hstep
    · rename_i c d hphase hnested
      cases hstep
      exact h.setPhase hstack (.inr ⟨d, hphase⟩) (.inl ⟨rfl, hnested⟩)
    · cases hstep
  | leave =>
    simp only [System.callStep] at hstep
    split at hstep
    · rename_i hphase
      cases hstep
      exact h.leave hstack hphase rfl
    · cases hstep
  | finish =>
    simp only [System.callStep, ite_none_right_eq_some] at hstep
    obtain ⟨hphase, hstep⟩ := hstep
    cases hstep
    exact ⟨(view_setStack s k rest).symm ▸ h.ok.pop hstack hphase, h.clean, h.main⟩
  | nestedMember => exact h.nestedMember hstack hstep
  | nestedBreak =>
    simp only [System.callStep] at hstep
    split at hstep
    · rename_i tr htr
      cases hstep
      exact h.setMembers hstack htr []
    · cases hstep
  | nestedEnd room =>
    simp only [System.callStep] at hstep
    split at hstep
    · rename_i htr
      split at hstep
      · cases hstep
        exact h.nestedEnd hstack htr room
      · cases hstep
    · cases hstep

theorem Calm.nestedStart (hring : (s.lanes k).ring = tr :: ring) {current : Bool}
    (hstep : (s.setRing k ring).nestedStart k tr current room (s.stack k) = some t) : Calm t := by
  have hsends := sends_setRing_tail hring
  obtain ⟨hdrop, hnot⟩ := h.ok.drop hsends
  rw [← view_setRing] at hdrop
  have hposted : Calm ((s.setRing k ring).postAck tr room) := by
    refine calm_postAck ?_ h.clean h.main
    rw [view_postAck, view_setRing, ← hsends]
    split
    · exact h.ok
    · rw [← view_setRing]
      exact hdrop
  cases hlist : s.stack k with
  | nil =>
    rw [hlist] at hstep
    cases hstep
    exact hposted
  | cons call rest =>
    rw [hlist] at hstep
    simp only [System.nestedStart] at hstep
    split at hstep
    · rename_i d hphase _
      split at hstep
      · rename_i hparent
        obtain ⟨-, hparent, rfl⟩ := hparent
        cases hstep
        obtain ⟨hpos, hfresh, hclients, -⟩ := h.ok.call k call (mem_head hlist)
        refine ⟨?_, h.clean, h.main⟩
        have hstack : (s.setRing k ring).view.lanes k = call :: rest := by
          rw [view_setRing]
          exact hlist
        rw [view_setStack]
        refine hdrop.setHead hstack ⟨hpos, hfresh, hclients, fun tr' htr' => ?_⟩ rfl (fun _ => rfl)
          (fun _ hc => hc) fun tr' htr' => .inr ?_
        · cases htr'
          exact ⟨hparent, d, hphase⟩
        · cases htr'
          exact ⟨hnot, h.ok.pumping tr.token (.inl (hsends ▸ Multiset.mem_cons_self _ _))⟩
      · cases hstep
        exact hposted
    · cases hstep

theorem Calm.laneStep (hown : s.sameLane (.lane k move) = true)
    (hstep : s.laneStep k move = some t) : Calm t := by
  cases move with
  | start =>
    simp only [System.laneStep, ite_none_right_eq_some] at hstep
    obtain ⟨⟨hempty, hnodup⟩, hstep⟩ := hstep
    cases hstep
    have hset : Calm (s.setStack k []) := by
      refine ⟨?_, h.clean, h.main⟩
      have hself : s.view.lanes k = [] := hempty
      rw [view_setStack, View.setStack, ← hself, update_eq_self]
      exact h.ok
    exact hset.pushCall (fun x hx => by cases hx) false hnodup
  | nestedStart current room =>
    simp only [System.laneStep] at hstep
    split at hstep
    · rename_i hring
      exact h.nestedStart hring hstep
    · cases hstep
  | _ =>
    simp only [System.laneStep] at hstep
    split at hstep
    · rename_i hstack
      exact h.callStep hstack hown hstep
    · cases hstep

theorem Calm.beginPump {parent : Nat} {ref : SendRef} {frame : CallFrame}
    {frames : List CallFrame} (hlist : (s.streams c).ref.frames = frame :: frames)
    (hid : frame.eventId = parent) (hpumping : frame.pumping = false)
    (hframes : ref.frames = { frame with pumping := true } :: frames) (hclean : ref.Clean) :
    Calm (s.setStream c { s.streams c with ref := ref }) ∧
      View.Ok { (s.setStream c { s.streams c with ref := ref }).view with
        sends := (c, parent) ::ₘ s.view.sends } := by
  have hids : s.view.ids c = parent :: frames.map (·.eventId) := by
    simp [View.ids, view, hlist, hid]
  -- A Send that had begun already would pump.
  have hnew : ¬((c, parent) ∈ s.view.sends ∨ s.view.Runs (c, parent)) := by
    intro hx
    have hmem : frame ∈ (s.streams c).ref.frames := hlist ▸ mem_cons_self
    have hpump := h.ok.pumping _ hx frame hmem hid
    rw [hpumping] at hpump
    cases hpump
  obtain ⟨k, -, x, hx, hon, rfl⟩ := h.ok.exists_call (hids ▸ mem_cons_self : parent ∈ _)
  have hset : (s.setStream c { s.streams c with ref := ref }).view.Ok := by
    rw [view_setStream]
    refine h.ok.setPumping (by simp [hids, hframes, hid]) fun f hf => ?_
    rw [hframes] at hf
    rcases mem_cons.mp hf with rfl | hf
    · exact .inl rfl
    · exact .inr (.inl (show f ∈ (s.streams c).ref.frames by simp [hlist, hf]))
  refine ⟨⟨hset, clean_setStream h.clean hclean, h.main⟩, ?_⟩
  have hnested : x.nested = none := by
    cases hnested : x.nested with
    | none => rfl
    | some => exact absurd (.inr ((h.ok.runs_iff hx).mpr ⟨by simp [hnested], hon⟩)) hnew
  rw [view_setStream] at hset ⊢
  refine hset.post hx hon hnested (fun hmem => hnew (.inl hmem)) (fun f hf hfid => ?_) ?_
  · have hnodup := h.ok.nodup_ids c
    rw [hids] at hnodup
    simp only [View.setFrames, update_self, hframes] at hf
    rcases mem_cons.mp hf with rfl | hf
    · rfl
    · exact absurd (hfid ▸ mem_map_of_mem hf) (nodup_cons.mp hnodup).1
  · simp [View.ids, View.setFrames, hframes, hid]

theorem Calm.top_frame {e : Nat} (hsends : (c, e) ∈ s.view.sends) :
    ∀ f ∈ (s.streams c).ref.frames, f.eventId = e → (s.streams c).ref.frames.head? = some f := by
  rintro f hf rfl
  have htop := h.ok.top _ hsends (mem_map_of_mem hf)
  have hnodup := h.ok.nodup_ids c
  simp only [View.ids, view] at htop hnodup
  rw [head?_map, map_eq_some_iff] at htop
  obtain ⟨_, hhead, hid⟩ := htop
  rw [hhead, inj_on_of_nodup_map hnodup (mem_of_head? hhead) hf hid]

end

theorem sends_acks_tail {x : Nat × Nat} (hacks : s.acks = x :: acks) :
    s.view.sends = x ::ₘ ({ s with acks := acks } : System).view.sends := by
  simp only [view, hacks, ← Multiset.cons_coe, Multiset.cons_add]

theorem Calm.ack (h : Calm s) {e i : Nat} (hacks : s.acks = (c, e) :: acks) :
    Calm ({ s with acks := acks }.settlePump c e i ((s.streams c).endPump mainThread e)) := by
  have hsends := sends_acks_tail hacks
  have hmem : (c, e) ∈ s.view.sends := hsends ▸ Multiset.mem_cons_self _ _
  obtain ⟨hdrop, hnot⟩ := h.ok.drop hsends
  obtain ⟨hreturned, hids, hkept, hclean⟩ :=
    Stream.endPump_frames mainThread (h.clean c) (h.top_frame hmem)
  have hset : Calm ({ s with acks := acks, main := .idle }.setStream c
      ((s.streams c).endPump mainThread e)) := by
    refine ⟨?_, clean_setStream h.clean hclean, nofun⟩
    rw [view_setStream]
    refine View.Ok.setPumping hdrop hids fun f hf => .inr ?_
    by_cases hid : f.eventId = e
    · exact .inr ⟨hid ▸ hnot, hid ▸ h.ok.idle _ hmem⟩
    · exact .inl (hkept f hf hid)
  unfold settlePump
  split
  · exact hset
  · exact hset.setStream rfl (hset.clean c)
  · rename_i hnone
    exact absurd hnone hreturned

theorem Calm.step (h : Calm s) {e : Event} (hown : s.sameLane e = true)
    (hstep : s.step e = some t) : Calm t := by
  cases e with
  | lane => exact h.laneStep hown hstep
  | request =>
    simp only [System.step] at hstep
    split at hstep
    · split at hstep
      · cases hstep
        exact ⟨h.ok, h.clean, nofun⟩
      split at hstep
      · cases hstep
        exact ⟨h.ok, h.clean, nofun⟩
      · cases hstep
    · cases hstep
  | beginPump sawValid members queued room =>
    simp only [System.step] at hstep
    split at hstep
    · rename_i c parent k hmain
      have hidle : Calm { s with main := .idle } := ⟨h.ok, h.clean, nofun⟩
      split at hstep
      · rename_i hok
        rw [Bool.and_eq_true] at hok
        obtain ⟨frame, frames, hlist, hid, hpumping, hframes, hclean⟩ :=
          SendRef.beginPump_ok (h.clean c) hok.2
        obtain ⟨hset, hpost⟩ := hidle.beginPump hlist hid hpumping hframes hclean
        split at hstep
        · cases hstep
          refine ⟨?_, hset.clean, hset.main⟩
          rw [view_setRing, sends_setRing_concat]
          exact hpost
        cases hstep
        refine calm_postAck ?_ hset.clean hset.main
        rw [view_postAck]
        split
        · exact hpost
        · exact hset.ok
      · cases hstep
        exact hidle
    · cases hstep
  | ack sawValid =>
    simp only [System.step] at hstep
    split at hstep
    · rename_i c e acks hmain hacks
      split at hstep
      · cases hstep
        exact h.ack hacks
      cases hstep
      have hdrop : Calm { s with acks := acks } :=
        ⟨(h.ok.drop (sends_acks_tail hacks)).1, h.clean, h.main⟩
      exact hdrop.setStream rfl (h.clean c)
    · cases hstep
  | wakeMain =>
    simp only [System.step] at hstep
    split at hstep
    · rename_i c parent index hmain
      exact absurd hmain (h.main c parent index)
    · cases hstep
  | deliver k =>
    simp only [System.step] at hstep
    split at hstep
    · rename_i hstack
      split at hstep
      · rename_i c d hphase
        cases hstep
        exact h.setPhase hstack (.inr ⟨d, hphase⟩) (.inr ⟨true, rfl⟩)
      · cases hstep
    · cases hstep
  | invalidate c =>
    cases hstep
    exact h.setStream rfl (h.clean c)

/-- The main loop does not wait on itself as long as turns enter above frames of their own lane
only. -/
theorem main_loop_free (h : Reaches System.step (fun s e => s.sameLane e = true) {} s) :
    s.waitsOnItself = false := by
  have hcalm := h.invariant calm_initial fun _ _ _ hs hown hstep => hs.step hown hstep
  unfold waitsOnItself
  split
  · rename_i c e index hmain
    exact absurd hmain (hcalm.main c e index)
  · rfl

/-- Stream 1 sends from its keyboard callback what it may see itself, and its own recursive
callback decides before the Send is acknowledged. -/
def ownSend : List Event :=
  [.lane .keyboard (.start [1]), .lane .keyboard (.turn true), .lane .keyboard (.send true),
    .request 1, .beginPump true [some [1]] true true, .lane .keyboard (.nestedStart true true),
    .lane .keyboard .nestedMember, .lane .keyboard (.turn true), .lane .keyboard (.send true),
    .deliver .keyboard, .lane .keyboard .pop, .lane .keyboard .leave, .lane .keyboard .finish,
    .lane .keyboard (.nestedEnd true), .ack true]

theorem main_loop_free_own_send : ∃ s : System,
    (s.acks == [] && s.nextEventId == 3 && (s.streams 1).ref.callDepth == 1) = true ∧
      s.waitsOnItself = false := by
  obtain ⟨s, hs, hq⟩ := exists_reaches_of_check System.step System.sameLane {} ownSend
    (q := fun s => s.acks == [] && s.nextEventId == 3 && (s.streams 1).ref.callDepth == 1)
    (by decide) (by decide)
  exact ⟨s, hq, main_loop_free hs⟩

end System

end KeysharpInput.Pump
