import KeysharpInput.Synthesis

/-!
The shares of a completion.
Each part of a batch that is still under way is one share, in the queue, in the main thread's hand,
in a lane or as a transaction. The ledger says that a completion counts exactly its shares, and how
many falls to zero, acknowledgements and replies its request has.
-/

namespace KeysharpInput.Synthesis

open Session (HookType)
open Output (Input)
open List Option Bool Request

def QueueItem.isOf (r : Nat) : QueueItem → Bool
  | .fragment f => f.request == r
  | .release _ => false

def LaneEvent.isOf (r : Nat) : LaneEvent → Bool
  | .synthetic f _ _ => f.request == r
  | .physical => false

def Lane.shares (lane : Lane) (r : Nat) : Nat :=
  lane.queue.countP (·.isOf r) + lane.running.toList.countP (·.isOf r)

def Request.transacts (q : Request) : Bool :=
  q.completion.any fun c => c.ownsAtomicTransaction && c.phase.live

def Settles (invalidated : List Nat) (stream replies : Nat) : Prop :=
  replies = 1 ∨ (replies = 0 ∧ stream ∈ invalidated)

/-- The accounts of one request: how many shares, falls to zero, acknowledgements and replies it
has, by how far its completion is. -/
def Accounted (q : Option Request) (shares zeros acks replies : Nat) (invalidated : List Nat) :
    Prop :=
  match q with
  | none => shares = 0 ∧ zeros = 0 ∧ acks = 0 ∧ replies = 0
  | some ⟨stream, none⟩ => shares = 0 ∧ zeros = 0 ∧ acks = 0 ∧ Settles invalidated stream replies
  | some ⟨stream, some c⟩ =>
    match c.phase with
    | .counting => c.remaining = shares ∧ 0 < shares ∧ zeros = 0 ∧ acks = 0 ∧ replies = 0
    | .ending | .retired => shares = 0 ∧ zeros = 1 ∧ acks = 0 ∧ replies = 0
    | .acked => shares = 0 ∧ zeros = 1 ∧ acks = 1 ∧ replies = 0
    | .gone => shares = 0 ∧ zeros = 1 ∧ acks = 0 ∧ Settles invalidated stream replies

theorem Accounted.mono {q : Option Request} {shares zeros acks replies : Nat}
    {invalidated invalidated' : List Nat} (h : Accounted q shares zeros acks replies invalidated)
    (hmore : ∀ n ∈ invalidated, n ∈ invalidated') :
    Accounted q shares zeros acks replies invalidated' := by
  have hsettles : ∀ stream, Settles invalidated stream replies →
      Settles invalidated' stream replies :=
    fun stream => Or.imp_right fun hended => ⟨hended.1, hmore _ hended.2⟩
  unfold Accounted at h ⊢
  split at h
  · exact h
  · exact ⟨h.1, h.2.1, h.2.2.1, hsettles _ h.2.2.2⟩
  · split at h
    case h_5 => exact ⟨h.1, h.2.1, h.2.2.1, hsettles _ h.2.2.2⟩
    all_goals exact h

namespace System

variable {s t : System} {r : Nat} {pend : List Nat} {pend' : List Nat} {c : Completion}

def shares (s : System) (r : Nat) : Nat :=
  s.queue.countP (·.isOf r) + s.hand.toList.countP (·.isOf r) + (s.lanes .keyboard).shares r +
    (s.lanes .mouse).shares r + s.nested.countP (·.request == r)

/-- The accounts of every request, when the shares of `pend` are in nobody's place. -/
structure Ledger (s : System) (pend : List Nat) : Prop where
  accounted : ∀ r, Accounted s.requests[r]? (s.shares r + pend.count r) (s.zeroed.count r)
    (s.acks.count r) ((s.replies.map (·.1)).count r) s.invalidated
  active : s.activeSyntheticTransactions = s.requests.countP transacts

theorem ledger_initial : Ledger {} [] where
  accounted _ := ⟨rfl, rfl, rfl, rfl⟩
  active := rfl

theorem Ledger.move (h : Ledger s pend) (hrequests : t.requests = s.requests)
    (hzeroed : t.zeroed = s.zeroed) (hacks : t.acks = s.acks) (hreplies : t.replies = s.replies)
    (hinvalidated : t.invalidated = s.invalidated)
    (hactive : t.activeSyntheticTransactions = s.activeSyntheticTransactions)
    (hshares : ∀ r, t.shares r + pend'.count r = s.shares r + pend.count r) : Ledger t pend' where
  accounted r := by
    rw [hrequests, hzeroed, hacks, hreplies, hinvalidated, hshares r]
    exact h.accounted r
  active := by
    rw [hactive, hrequests]
    exact h.active

def books (s : System) : System :=
  { s with
    syntheticInflight := false, physicalHookInflight := 0, output := {}, dispatched := []
    handled := [], batches := [], admitted := [], refusals := [] }

def Quiet (s t : System) : Prop := t.books = s.books

theorem Quiet.field {α : Type} (h : Quiet s t) (f : System → α) : f t.books = f s.books :=
  congrArg f h

section

variable (h : Quiet s t)

include h

theorem Quiet.requests : t.requests = s.requests := h.field System.requests

theorem Quiet.queue : t.queue = s.queue := h.field System.queue

theorem Quiet.hand : t.hand = s.hand := h.field System.hand

theorem Quiet.lanes : t.lanes = s.lanes := h.field System.lanes

theorem Quiet.nested : t.nested = s.nested := h.field System.nested

end

theorem Quiet.shares (h : Quiet s t) (r : Nat) : t.shares r = s.shares r := by
  unfold System.shares
  rw [h.queue, h.hand, h.lanes, h.nested]

theorem Ledger.quiet (h : Ledger s pend) (hquiet : Quiet s t) : Ledger t pend :=
  h.move hquiet.requests (hquiet.field zeroed) (hquiet.field acks)
    (hquiet.field replies) (hquiet.field invalidated)
    (hquiet.field activeSyntheticTransactions) fun r => by rw [hquiet.shares r]

theorem quiet_dispatch (d : Dispatch) : Quiet s (s.dispatch d) := rfl

theorem getElem?_modifyCompletion (f : Completion → Completion) (r' : Nat) :
    (s.modifyCompletion r f).requests[r']? = if r = r' then
      s.requests[r']?.map fun q => { q with completion := q.completion.map f }
    else s.requests[r']? := by
  unfold modifyCompletion
  split <;> simp_all

theorem countP_modifyCompletion {q : Request} {f : Completion → Completion}
    (hq : s.requests[r]? = some q) (hc : q.completion = some c) :
    (s.modifyCompletion r f).requests.countP transacts + q.transacts.toNat =
      s.requests.countP transacts +
        (({ q with completion := some (f c) } : Request).transacts).toNat := by
  obtain ⟨hlt, hat⟩ := List.getElem?_eq_some_iff.mp hq
  unfold modifyCompletion
  have hsplit := List.take_append_drop r s.requests
  rw [List.modify_eq_take_cons_drop hlt, List.countP_append, List.countP_cons, hat]
  have hold : s.requests.countP transacts = (s.requests.take r).countP transacts +
        ((s.requests.drop (r + 1)).countP transacts + q.transacts.toNat) := by
    conv_lhs => rw [← hsplit, List.countP_append, List.drop_eq_getElem_cons hlt, hat,
      List.countP_cons]
    cases q.transacts <;> simp
  rw [hc]
  simp only [map_some]
  by_cases hnew : ({ q with completion := some (f c) } : Request).transacts = true
  · simp only [hnew, if_true, toNat_true]
    omega
  · simp only [hnew, false_eq_true, if_false, toNat_false]
    omega

theorem Ledger.counting (h : Ledger s pend) (hshare : 0 < s.shares r + pend.count r) :
    ∃ stream c, s.requests[r]? = some ⟨stream, some c⟩ ∧ c.phase = .counting ∧
      c.remaining = s.shares r + pend.count r ∧ s.zeroed.count r = 0 ∧
      s.acks.count r = 0 ∧ (s.replies.map (·.1)).count r = 0 := by
  have hr := h.accounted r
  unfold Accounted at hr
  split at hr
  · omega
  · omega
  rename_i stream c hq
  split at hr
  · exact ⟨stream, c, hq, by assumption, hr.1, hr.2.2⟩
  all_goals omega

theorem Ledger.finish (h : Ledger s (r :: pend)) (failure : Option Failure) :
    Ledger (s.finish r failure) pend := by
  obtain ⟨stream, c, hq, hphase, hremaining, hzeros, hacks, hreplies⟩ :=
    h.counting (by rw [count_cons_self]; omega)
  rw [count_cons_self] at hremaining
  have hcompletion : s.completion r = some c := by simp [completion, hq]
  refine ⟨fun r' => ?_, ?_⟩
  · by_cases hrr : r' = r
    · subst hrr
      show Accounted ((s.modifyCompletion r' (Completion.finish failure)).requests[r']?) _ _ _ _ _
      rw [getElem?_modifyCompletion, hq]
      simp only [map_some, System.finish, hcompletion, any_some]
      by_cases hone : c.remaining = 1
      · simp only [Completion.finish, hone, if_true, decide_true]
        refine ⟨?_, ?_, hacks, hreplies⟩
        · show s.shares r' + _ = 0
          omega
        · rw [count_append, hzeros]
          simp
      simp only [Completion.finish, hone, hphase]
      refine ⟨?_, ?_, hzeros, hacks, hreplies⟩
      · show fetchSub c.remaining = s.shares r' + _
        rw [fetchSub, if_neg (by omega)]
        omega
      · show 0 < s.shares r' + _
        omega
    · have hother := h.accounted r'
      rw [count_cons_of_ne (Ne.symm hrr)] at hother
      show Accounted ((s.modifyCompletion r (Completion.finish failure)).requests[r']?) _ _ _ _ _
      rw [getElem?_modifyCompletion, if_neg (Ne.symm hrr)]
      have hzeroed : (s.finish r failure).zeroed.count r' = s.zeroed.count r' := by
        unfold System.finish
        split
        · simp [Ne.symm hrr]
        · rfl
      rw [hzeroed]
      exact hother
  · have hcount := countP_modifyCompletion (f := Completion.finish failure) hq rfl
    have hsame : (({ stream := stream, completion := some (Completion.finish failure c) } :
        Request).transacts) = ({ stream := stream, completion := some c } : Request).transacts := by
      simp only [transacts, any_some, Completion.finish, hphase]
      split <;> rfl
    show s.activeSyntheticTransactions =
      (s.modifyCompletion r (Completion.finish failure)).requests.countP transacts
    rw [h.active]
    rw [hsame] at hcount
    omega

theorem Ledger.beginAtomic (h : Ledger s pend) (hshare : 0 < s.shares r + pend.count r) :
    Ledger (s.beginAtomic r) pend := by
  obtain ⟨_, c, hq, hphase, hremaining, hzeros, hacks, hreplies⟩ := h.counting hshare
  have hcompletion : s.completion r = some c := by simp [completion, hq]
  unfold System.beginAtomic
  split
  swap
  · exact h
  rename_i hfree
  have hfree : c.ownsAtomicTransaction = false := by simpa [hcompletion] using hfree
  refine ⟨fun r' => ?_, ?_⟩
  · by_cases hrr : r' = r
    · subst hrr
      rw [getElem?_modifyCompletion, hq]
      simp only [map_some, hphase]
      exact ⟨hremaining, hshare, hzeros, hacks, hreplies⟩
    · rw [getElem?_modifyCompletion, if_neg (Ne.symm hrr)]
      exact h.accounted r'
  · have hcount := countP_modifyCompletion
      (f := fun c => { c with ownsAtomicTransaction := true }) hq rfl
    simp only [transacts, any_some, hfree, hphase] at hcount
    rw [h.active]
    exact hcount.symm

theorem getElem?_concat_of_ne {l : List Request} (q : Request) (hr : r ≠ l.length) :
    (l ++ [q])[r]? = l[r]? := by
  rcases lt_or_gt_of_ne hr with hlt | hgt
  · exact getElem?_append_left hlt
  · rw [getElem?_eq_none (by simp; omega), getElem?_eq_none (by omega)]

theorem Ledger.answer (h : Ledger s pend) (stream : Nat) (batch : List Input)
    (status : Option Failure) (sent : Bool) :
    Ledger ((s.newRequest stream batch none).reply s.requests.length stream status sent) pend := by
  have hnew := h.accounted s.requests.length
  rw [getElem?_eq_none (le_refl _)] at hnew
  obtain ⟨hshares, hzeros, hacks, hreplies⟩ := hnew
  have hrequests : ((s.newRequest stream batch none).reply s.requests.length stream status
      sent).requests = s.requests ++ [⟨stream, none⟩] := by
    unfold reply
    split <;> rfl
  have hkept : ∀ r, ((s.newRequest stream batch none).reply s.requests.length stream status
      sent).shares r = s.shares r := by
    intro r
    unfold reply
    split <;> rfl
  have hinvalidated : ∀ n ∈ s.invalidated, n ∈ ((s.newRequest stream batch none).reply
      s.requests.length stream status sent).invalidated := by
    unfold reply
    split
    · exact fun _ hn => hn
    · exact fun _ hn => mem_cons_of_mem _ hn
  refine ⟨fun r => ?_, ?_⟩
  · rw [hrequests]
    by_cases hr : r = s.requests.length
    · subst hr
      rw [getElem?_concat_length]
      unfold reply
      split
      · refine ⟨hshares, hzeros, hacks, .inl ?_⟩
        show ((s.replies ++ [(s.requests.length, status)]).map fun p => p.1).count _ = 1
        rw [map_append, count_append, hreplies]
        simp
      · exact ⟨hshares, hzeros, hacks, .inr ⟨hreplies, mem_cons_self⟩⟩
    have hold := h.accounted r
    rw [getElem?_concat_of_ne _ hr]
    have hreply : (((s.newRequest stream batch none).reply s.requests.length stream status
        sent).replies.map (·.1)).count r = (s.replies.map (·.1)).count r := by
      unfold reply
      split
      · show ((s.replies ++ [(s.requests.length, status)]).map fun p => p.1).count r = _
        simp [Ne.symm hr]
      · rfl
    rw [hreply]
    refine Accounted.mono ?_ hinvalidated
    unfold reply
    split <;> exact hold
  · rw [hrequests, countP_append]
    unfold reply
    split <;> exact h.active

theorem Ledger.create (h : Ledger s pend) (stream : Nat) (batch : List Input)
    (hphase : c.phase = .counting) (hpos : 0 < c.remaining)
    (hfree : c.ownsAtomicTransaction = false) :
    Ledger (s.newRequest stream batch (some c))
      (replicate c.remaining s.requests.length ++ pend) := by
  have hnew := h.accounted s.requests.length
  rw [getElem?_eq_none (le_refl _)] at hnew
  obtain ⟨hshares, hzeros, hacks, hreplies⟩ := hnew
  refine ⟨fun r => ?_, ?_⟩
  · show Accounted (s.requests ++ [⟨stream, some c⟩])[r]? (s.shares r + _) _ _ _ _
    rw [count_append]
    by_cases hr : r = s.requests.length
    · subst hr
      rw [getElem?_concat_length, count_replicate_self]
      simp only [Accounted, hphase]
      exact ⟨by omega, by omega, hzeros, hacks, hreplies⟩
    rw [getElem?_concat_of_ne _ hr,
      count_eq_zero_of_not_mem (fun hmem => hr (eq_of_mem_replicate hmem)), Nat.zero_add]
    exact h.accounted r
  · show s.activeSyntheticTransactions =
      (s.requests ++ [(⟨stream, some c⟩ : Request)]).countP transacts
    rw [h.active]
    simp [transacts, hfree]

theorem shares_modifyLane (k : HookType) (f : Lane → Lane) (r : Nat) :
    (s.modifyLane k f).shares r + (s.lanes k).shares r = s.shares r + (f (s.lanes k)).shares r := by
  cases k <;> simp [shares, modifyLane] <;> omega

theorem Ledger.moveLane (h : Ledger s pend) (k : HookType) (f : Lane → Lane)
    (hlane : ∀ r, (f (s.lanes k)).shares r + pend'.count r = (s.lanes k).shares r + pend.count r) :
    Ledger (s.modifyLane k f) pend' := by
  refine h.move rfl rfl rfl rfl rfl rfl fun r => ?_
  have hshares := shares_modifyLane (s := s) k f r
  have hlane := hlane r
  omega

def QueueItem.owed : QueueItem → List Nat
  | .fragment f => [f.request]
  | .release _ => []

def LaneEvent.owed : LaneEvent → List Nat
  | .synthetic f _ _ => [f.request]
  | .physical => []

theorem count_owed_item (r : Nat) (item : QueueItem) :
    (QueueItem.owed item).count r = [item].countP (·.isOf r) := by
  cases item with
  | fragment => simp [QueueItem.owed, QueueItem.isOf, count_singleton]
  | release => rfl

theorem count_owed_event (r : Nat) (e : LaneEvent) :
    (LaneEvent.owed e).count r = [e].countP (·.isOf r) := by
  cases e with
  | synthetic =>
    simp [LaneEvent.owed, LaneEvent.isOf, count_singleton]
  | physical => rfl

theorem countP_fragments (r r' generation connectionId : Nat) (nodes : List Input) :
    (fragments r' generation connectionId nodes).countP (·.isOf r) =
      (replicate nodes.length r').count r := by
  have hall : ∀ item ∈ fragments r' generation connectionId nodes,
      QueueItem.isOf r item = (r' == r) := by
    intro item hitem
    obtain ⟨_, -, rfl⟩ := mem_mapIdx.mp hitem
    rfl
  rw [countP_congr fun item hitem => by rw [hall item hitem], count_replicate]
  cases hrr : (r' == r) <;> simp [fragments]

theorem expandBatch_ne_nil {inputs : List Input} (h : inputs ≠ []) : expandBatch inputs ≠ [] := by
  have hone : ∀ input, expandInput input ≠ [] := by
    intro input
    cases input with
    | keyboard => exact cons_ne_nil _ _
    | mouse input =>
      simp only [expandInput]
      split
      · exact cons_ne_nil _ _
      · rename_i hrows
        simpa using hrows
  cases inputs with
  | nil => exact absurd rfl h
  | cons input =>
    intro hnil
    rw [expandBatch, flatMap_cons, append_eq_nil_iff] at hnil
    exact hone input hnil.1

end System

end KeysharpInput.Synthesis
