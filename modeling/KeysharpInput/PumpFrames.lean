import KeysharpInput.Pumps
import KeysharpInput.CallTurns

/-!
The frames of a stream.
The calls of a stream's stack are read as a list, the top first. A turn that enters puts a frame on
top of it, the end of the top call takes it off, and a pump begins and ends at the frame on top. The
slots above the stack stay zeroed, which a turn relies on when it writes only its id.
-/

namespace KeysharpInput

open List Function

namespace Callback

namespace SendRef

variable {ref : SendRef} {frame : CallFrame} {rest : List CallFrame} {e : Nat}

def framesBelow (calls : Nat → CallFrame) : Nat → List CallFrame
  | 0 => []
  | n + 1 => calls n :: framesBelow calls n

def frames (ref : SendRef) : List CallFrame := framesBelow ref.calls ref.callDepth

def Clean (ref : SendRef) : Prop := ∀ i, ref.callDepth ≤ i → ref.calls i = {}

theorem framesBelow_congr {calls calls' : Nat → CallFrame} {n : Nat}
    (h : ∀ i < n, calls i = calls' i) : framesBelow calls n = framesBelow calls' n := by
  induction n with
  | zero => rfl
  | succ n ih =>
    rw [framesBelow, framesBelow, h n (Nat.lt_succ_self n),
      ih fun i hi => h i (Nat.lt_succ_of_lt hi)]

theorem frames_eq_cons (h : ref.frames = frame :: rest) :
    ∃ n, ref.callDepth = n + 1 ∧ ref.calls n = frame ∧ framesBelow ref.calls n = rest := by
  unfold frames at h
  cases hdepth : ref.callDepth with
  | zero =>
    rw [hdepth] at h
    cases h
  | succ n =>
    rw [hdepth, framesBelow, cons.injEq] at h
    exact ⟨n, rfl, h⟩

theorem frames_enter (h : ref.Clean) : (ref.enter e).frames = { eventId := e } :: ref.frames := by
  show framesBelow (ref.enter e).calls (ref.callDepth + 1) = _
  have hself : (ref.enter e).calls ref.callDepth = { eventId := e } := by
    simp [enter, setCall, h ref.callDepth (Nat.le_refl _)]
  rw [framesBelow]
  congr 1
  apply framesBelow_congr
  intro i hi
  simp [enter, setCall, Nat.ne_of_lt hi]

theorem clean_enter (h : ref.Clean) : (ref.enter e).Clean := by
  intro i hi
  have hlt : ref.callDepth < i := hi
  simpa [enter, setCall, Nat.ne_of_gt hlt] using h i (Nat.le_of_lt hlt)

theorem findCall_top (h : ref.frames = frame :: rest) :
    ref.findCall frame.eventId = some (ref.callDepth - 1) := by
  obtain ⟨n, hdepth, hcalls, -⟩ := frames_eq_cons h
  unfold findCall
  rw [hdepth, findBelow, hcalls, if_pos rfl, Nat.add_sub_cancel]

theorem findCall_none (h : e ∉ ref.frames.map (·.eventId)) : ref.findCall e = none := by
  have hbelow : ∀ n, e ∉ (framesBelow ref.calls n).map (·.eventId) →
      findBelow ref.calls e n = none := by
    intro n
    induction n with
    | zero => exact fun _ => rfl
    | succ n ih =>
      intro hnot
      rw [framesBelow, map_cons, mem_cons, not_or] at hnot
      rw [findBelow, if_neg (Ne.symm hnot.1), ih hnot.2]
  exact hbelow ref.callDepth h

theorem frames_completeEvent (h : ref.frames = frame :: rest) (hid : frame.eventId ≠ 0) :
    (ref.completeEvent frame.eventId).frames = rest := by
  obtain ⟨n, hdepth, -, hrest⟩ := frames_eq_cons h
  unfold completeEvent
  rw [if_neg hid, findCall_top h, ← hrest]
  rw [hdepth]
  apply framesBelow_congr
  intro i hi
  have hne : i ≠ n := Nat.ne_of_lt hi
  have hlow : ¬ (n ≤ i ∧ i < n) := by omega
  simp [hne]

theorem clean_completeEvent (h : ref.Clean) : (ref.completeEvent e).Clean := by
  intro i hi
  unfold completeEvent at hi ⊢
  split
  · rename_i hzero
    rw [if_pos hzero] at hi
    exact h i hi
  rename_i hzero
  rw [if_neg hzero] at hi
  split
  · rename_i hfind
    rw [hfind] at hi
    exact h i hi
  rename_i hfind
  rw [hfind] at hi
  have hle : ref.callDepth - 1 ≤ i := hi
  dsimp only
  split
  · rfl
  · split
    · omega
    · exact h i (by omega)

theorem frames_setCall (h : ref.frames = frame :: rest) (f : CallFrame → CallFrame) :
    (ref.setCall (ref.callDepth - 1) f).frames = f frame :: rest := by
  obtain ⟨n, hdepth, hcalls, hrest⟩ := frames_eq_cons h
  show framesBelow (update ref.calls (ref.callDepth - 1) _) ref.callDepth = _
  rw [hdepth, Nat.add_sub_cancel, framesBelow, update_self, hcalls, ← hrest]
  congr 1
  apply framesBelow_congr
  intro i hi
  exact update_of_ne (Nat.ne_of_lt hi) ..

theorem clean_setCall (h : ref.Clean) (hne : ref.callDepth ≠ 0) (f : CallFrame → CallFrame) :
    (ref.setCall (ref.callDepth - 1) f).Clean := by
  intro i hi
  have hle : ref.callDepth ≤ i := hi
  show update ref.calls (ref.callDepth - 1) _ i = _
  rw [update_of_ne (by omega)]
  exact h i hle

theorem beginPump_ok (h : ref.Clean) (hok : (ref.beginPump e).2 = true) :
    ∃ frame rest, ref.frames = frame :: rest ∧ frame.eventId = e ∧ frame.pumping = false ∧
      (ref.beginPump e).1.frames = { frame with pumping := true } :: rest ∧
      (ref.beginPump e).1.Clean := by
  unfold beginPump at hok ⊢
  split at hok
  · rename_i htop
    obtain ⟨hdepth, hid, hpumping⟩ := htop
    rw [if_pos ⟨hdepth, hid, hpumping⟩]
    have hframes : ref.frames = ref.top :: framesBelow ref.calls (ref.callDepth - 1) := by
      obtain ⟨n, hn⟩ := Nat.exists_eq_succ_of_ne_zero hdepth
      unfold frames top
      rw [hn]
      rfl
    rw [Bool.not_eq_true'] at hpumping
    exact ⟨_, _, hframes, hid, hpumping, frames_setCall hframes _, clean_setCall h hdepth _⟩
  · cases hok

end SendRef

namespace Stream

variable {st : Stream} {thread e : Nat} {recursive : Bool}

theorem tryTurn_frames (h : st.ref.Clean) (thread e : Nat) (recursive : Bool) :
    (∃ e' r, (st.tryTurn thread e recursive).returned = some (.turn e' r true) ∧
      (st.tryTurn thread e recursive).ref.frames = { eventId := e } :: st.ref.frames ∧
      (∀ frame rest, st.ref.frames = frame :: rest → recursive = true ∧ frame.pumping = true)) ∨
    ((∀ e' r, (st.tryTurn thread e recursive).returned ≠ some (.turn e' r true)) ∧
      (st.tryTurn thread e recursive).ref.frames = st.ref.frames) := by
  unfold tryTurn
  split
  · exact .inr ⟨by simp [leaveTurn], rfl⟩
  split
  · rename_i henter
    refine .inl ⟨e, recursive, rfl, SendRef.frames_enter h, fun frame rest hframes => ?_⟩
    obtain ⟨n, hdepth, hcalls, -⟩ := SendRef.frames_eq_cons hframes
    rcases canEnter_top henter with hempty | hpump
    · omega
    · rw [SendRef.top, hdepth, Nat.add_sub_cancel, hcalls] at hpump
      exact hpump
  · exact .inr ⟨by simp, rfl⟩

theorem tryTurn_clean (h : st.ref.Clean) (thread e : Nat) (recursive : Bool) :
    (st.tryTurn thread e recursive).ref.Clean := by
  unfold tryTurn
  split
  · exact h
  · split
    · exact SendRef.clean_enter h
    · exact h

theorem endPump_frames (thread : Nat) (h : st.ref.Clean)
    (htop : ∀ f ∈ st.ref.frames, f.eventId = e → st.ref.frames.head? = some f) :
    (st.endPump thread e).returned ≠ none ∧
    (st.endPump thread e).ref.frames.map (·.eventId) = st.ref.frames.map (·.eventId) ∧
    (∀ f ∈ (st.endPump thread e).ref.frames, f.eventId ≠ e → f ∈ st.ref.frames) ∧
    (st.endPump thread e).ref.Clean := by
  by_cases hmem : e ∈ st.ref.frames.map (·.eventId)
  · obtain ⟨frame, hframe, rfl⟩ := mem_map.mp hmem
    obtain ⟨rest, hframes⟩ : ∃ rest, st.ref.frames = frame :: rest := by
      have hhead := htop frame hframe rfl
      cases hlist : st.ref.frames with
      | nil =>
        rw [hlist] at hhead
        cases hhead
      | cons f rest =>
        rw [hlist] at hhead
        exact ⟨rest, by rw [Option.some.inj hhead]⟩
    obtain ⟨n, hdepth, hcalls, -⟩ := SendRef.frames_eq_cons hframes
    unfold endPump
    rw [SendRef.findCall_top hframes]
    dsimp only
    split
    · have hwaits : (st.ref.setCall (st.ref.callDepth - 1) fun f =>
          { f with pumping := false }).pumpWaits frame.eventId (st.ref.callDepth - 1) = false := by
        unfold SendRef.pumpWaits
        have hnot : ¬ (st.ref.callDepth > st.ref.callDepth - 1 + 1) := by omega
        simp [SendRef.setCall, hnot]
      unfold tryEndPump
      rw [if_neg (by rw [hwaits]; exact Bool.false_ne_true)]
      refine ⟨by simp, ?_, fun f hf hne => ?_, SendRef.clean_setCall h (by omega) _⟩
      · rw [SendRef.frames_setCall hframes, hframes]
        rfl
      rw [SendRef.frames_setCall hframes] at hf
      rw [hframes]
      rcases mem_cons.mp hf with rfl | hf
      · exact absurd rfl hne
      · exact mem_cons_of_mem _ hf
    · exact ⟨by simp, rfl, fun f hf _ => hf, h⟩
  · unfold endPump
    rw [SendRef.findCall_none hmem]
    exact ⟨by simp, rfl, fun f hf _ => hf, h⟩

end Stream

end Callback

namespace Pump

open Session (HookType)
open Callback (Stream SendRef CallFrame)

def CallPhase.stream? : CallPhase → Option Nat
  | .between => none
  | .turn c | .entered c | .waiting c _ | .left c => some c

namespace LaneCall

def onStack (c : Nat) (call : LaneCall) : Bool :=
  match call.phase with
  | .between | .turn _ => false
  | .entered c' | .waiting c' _ | .left c' => c' == c

def pending (call : LaneCall) : List Nat :=
  match call.phase with
  | .turn c => c :: call.subscribers
  | _ => call.subscribers

def clients (call : LaneCall) : List Nat := call.phase.stream?.toList ++ call.subscribers

theorem notMem_pending {call : LaneCall} {c : Nat} (hclients : call.clients.Nodup)
    (hstack : call.onStack c = true) : c ∉ call.pending := by
  unfold onStack at hstack
  unfold clients CallPhase.stream? at hclients
  unfold pending
  cases hphase : call.phase with
  | between | turn c' =>
    rw [hphase] at hstack
    cases hstack
  | entered c' | waiting c' delivered | left c' =>
    rw [hphase] at hstack hclients
    obtain rfl := beq_iff_eq.mp hstack
    exact (nodup_cons.mp hclients).1

end LaneCall

def Transaction.token (t : Transaction) : Nat × Nat :=
  (t.originConnectionId, t.parentHookEventId)

end Pump

end KeysharpInput
