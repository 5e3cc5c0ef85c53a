import KeysharpInput.PumpFrames

/-!
Activations, frames and Sends.
This is what the argument about the main loop needs of a state: the activations of the lanes, the
frames of the streams and the Sends that stand in a ring or are acknowledged. While a recursive turn
enters only above frames of its own lane, the frames of a stream are the calls that one lane has
made to it, in the lane's own order. A Send that stands is over for its lane, or not begun, so no
frame is above the callback that sent it.
-/

namespace KeysharpInput.Pump

open List Function

open Session (HookType)
open Callback (CallFrame)

structure View where
  lanes : HookType → List LaneCall
  frames : Nat → List CallFrame
  /-- The Sends in a ring or on the command ring. -/
  sends : Multiset (Nat × Nat)
  next : Nat

structure LaneCall.Ok (next : Nat) (x : LaneCall) : Prop where
  positive : 0 < x.eventId
  fresh : x.eventId < next
  clients : x.clients.Nodup
  running : ∀ tr, x.nested = some tr →
    tr.parentHookEventId = x.eventId ∧ ∃ d, x.phase = .waiting tr.originConnectionId d

def heldIn (c : Nat) (stack : List LaneCall) : List Nat :=
  (stack.filter (·.onStack c)).map (·.eventId)

theorem heldIn_cons (c : Nat) (call : LaneCall) (rest : List LaneCall) : heldIn c (call :: rest) =
      if call.onStack c then call.eventId :: heldIn c rest else heldIn c rest := by
  unfold heldIn
  rw [filter_cons]
  split <;> rfl

theorem mem_heldIn {c e : Nat} {stack : List LaneCall} :
    e ∈ heldIn c stack ↔ ∃ x ∈ stack, x.onStack c = true ∧ x.eventId = e := by
  unfold heldIn
  simp only [mem_map, mem_filter, and_assoc]

namespace View

variable {v : View} {k : HookType} {call call' : LaneCall} {rest : List LaneCall}

def ids (v : View) (c : Nat) : List Nat := (v.frames c).map (·.eventId)

def setStack (v : View) (k : HookType) (stack : List LaneCall) : View :=
  { v with lanes := update v.lanes k stack }

def setFrames (v : View) (c : Nat) (frames : List CallFrame) : View :=
  { v with frames := update v.frames c frames }

def Runs (v : View) (x : Nat × Nat) : Prop :=
  ∃ k, ∃ y ∈ v.lanes k, ∃ tr, y.nested = some tr ∧ tr.token = x

structure Ok (v : View) : Prop where
  positive : 0 < v.next
  call : ∀ k, ∀ x ∈ v.lanes k, x.Ok v.next
  below : ∀ k, ∀ x ∈ (v.lanes k).tail, x.nested.isSome = true
  distinct : ∀ k, ((v.lanes k).map (·.eventId)).Nodup
  apart : ∀ k k', k ≠ k' → ((v.lanes k).map (·.eventId)).Disjoint ((v.lanes k').map (·.eventId))
  held : ∀ c, ∃ k, ∀ k', heldIn c (v.lanes k') = if k' = k then v.ids c else []
  single : v.sends.Nodup
  idle : ∀ x ∈ v.sends, ¬v.Runs x
  pumping : ∀ x, x ∈ v.sends ∨ v.Runs x → ∀ f ∈ v.frames x.1, f.eventId = x.2 → f.pumping = true
  pending : ∀ k, ∀ x ∈ v.lanes k, ∀ c ∈ x.pending, (c, x.eventId) ∉ v.sends
  fresh : ∀ x ∈ v.sends, x.2 < v.next
  top : ∀ x ∈ v.sends, x.2 ∈ v.ids x.1 → (v.ids x.1).head? = some x.2

theorem mem_setStack {stack : List LaneCall} {k' : HookType} {x : LaneCall}
    (hx : x ∈ (v.setStack k stack).lanes k') : k' = k ∧ x ∈ stack ∨ x ∈ v.lanes k' := by
  unfold setStack at hx
  by_cases hk : k' = k
  · subst hk
    exact .inl ⟨rfl, by simpa using hx⟩
  · exact .inr (by simpa [hk] using hx)

namespace Ok

variable {x : LaneCall} {c : Nat} {frames : List CallFrame}

section

variable (h : Ok v)

include h

theorem unique {k' : HookType} {y : LaneCall} (hx : x ∈ v.lanes k) (hy : y ∈ v.lanes k')
    (hid : x.eventId = y.eventId) : k = k' ∧ x = y := by
  by_cases hk : k = k'
  · subst hk
    exact ⟨rfl, inj_on_of_nodup_map (h.distinct k) hx hy hid⟩
  · exact absurd (hid ▸ mem_map_of_mem hy)
      (h.apart k k' hk (mem_map_of_mem hx))

theorem runs_iff (hx : x ∈ v.lanes k) :
    v.Runs (c, x.eventId) ↔ x.nested.isSome = true ∧ x.onStack c = true := by
  constructor
  · rintro ⟨k', y, hy, tr, htr, htoken⟩
    obtain ⟨hparent, d, hphase⟩ := (h.call k' y hy).running tr htr
    obtain ⟨horigin, hid⟩ := Prod.mk.inj htoken
    obtain ⟨-, rfl⟩ := h.unique hy hx (hparent.symm.trans hid)
    refine ⟨by rw [htr]; rfl, ?_⟩
    unfold LaneCall.onStack
    rw [hphase]
    exact beq_iff_eq.mpr horigin
  · rintro ⟨hsome, hon⟩
    obtain ⟨tr, htr⟩ := Option.isSome_iff_exists.mp hsome
    obtain ⟨hparent, d, hphase⟩ := (h.call k x hx).running tr htr
    unfold LaneCall.onStack at hon
    rw [hphase] at hon
    refine ⟨k, x, hx, tr, htr, ?_⟩
    unfold Transaction.token
    rw [beq_iff_eq.mp hon, hparent]

theorem exists_call {e : Nat} (he : e ∈ v.ids c) : ∃ k, v.ids c = heldIn c (v.lanes k) ∧
      ∃ x ∈ v.lanes k, x.onStack c = true ∧ x.eventId = e := by
  obtain ⟨k, hk⟩ := h.held c
  have hheld := hk k
  rw [if_pos rfl] at hheld
  exact ⟨k, hheld.symm, mem_heldIn.mp (hheld ▸ he)⟩

theorem nodup_ids (c : Nat) : (v.ids c).Nodup := by
  obtain ⟨k, hk⟩ := h.held c
  have hheld := hk k
  rw [if_pos rfl] at hheld
  rw [← hheld]
  exact (h.distinct k).sublist (filter_sublist.map _)

theorem head_ids (hstack : v.lanes k = call :: rest) (hon : call.onStack c = true) :
    v.ids c = call.eventId :: heldIn c rest := by
  obtain ⟨_, hk'⟩ := h.held c
  have hheld := hk' k
  rw [hstack, heldIn_cons, if_pos hon] at hheld
  split at hheld
  · exact hheld.symm
  · cases hheld

theorem held_setStack {stack : List LaneCall} (hstack : heldIn c stack = heldIn c (v.lanes k)) :
    ∃ k₀, ∀ k', heldIn c ((v.setStack k stack).lanes k') = if k' = k₀ then v.ids c else [] := by
  obtain ⟨k₀, hk₀⟩ := h.held c
  refine ⟨k₀, fun k' => Eq.trans ?_ (hk₀ k')⟩
  unfold setStack
  by_cases hk : k' = k
  · subst hk
    simpa using hstack
  · simp [hk]

theorem pumping_setFrames (hkept : ∀ f ∈ frames, f.pumping = true ∨ f ∈ v.frames c ∨
      (c, f.eventId) ∉ v.sends ∧ ¬v.Runs (c, f.eventId)) (x : Nat × Nat)
    (hx : x ∈ v.sends ∨ v.Runs x) : ∀ f ∈ (v.setFrames c frames).frames x.1,
      f.eventId = x.2 → f.pumping = true := by
  obtain ⟨c', _⟩ := x
  rintro f hf rfl
  by_cases hc : c' = c
  · subst hc
    rcases hkept f (by simpa [setFrames] using hf) with hpump | hf | hnot
    · exact hpump
    · exact h.pumping _ hx f hf rfl
    · exact absurd hx (not_or.mpr hnot)
  · exact h.pumping _ hx f (by simpa [setFrames, hc] using hf) rfl

theorem change (hstack : v.lanes k = call :: rest) (hok : call'.Ok v.next)
    (hid : call'.eventId = call.eventId) (hon : ∀ c', c' ≠ c → call'.onStack c' = call.onStack c')
    (hpending : ∀ c' ∈ call'.pending, c' ∈ call.pending)
    (hnested : ∀ tr, call'.nested = some tr → v.Runs tr.token ∨ tr.token ∉ v.sends ∧
      ∀ f ∈ (v.setFrames c frames).frames tr.originConnectionId,
        f.eventId = tr.parentHookEventId → f.pumping = true)
    (hheld : ∃ k₀, ∀ k', heldIn c ((v.setStack k (call' :: rest)).lanes k') =
      if k' = k₀ then frames.map (·.eventId) else [])
    (hframes : ∀ f ∈ frames, f ∈ v.frames c ∨ (c, f.eventId) ∉ v.sends ∧ ¬v.Runs (c, f.eventId))
    (htop : ∀ e, (c, e) ∈ v.sends → e ∈ frames.map (·.eventId) →
      (frames.map (·.eventId)).head? = some e) :
    Ok ((v.setStack k (call' :: rest)).setFrames c frames) := by
  have hcall : call ∈ v.lanes k := hstack ▸ mem_cons_self
  have hold : ∀ k' x, x ∈ (v.setStack k (call' :: rest)).lanes k' →
      k' = k ∧ x = call' ∨ x ∈ v.lanes k' := by
    intro k' x hx
    rcases mem_setStack hx with ⟨rfl, hmem⟩ | hmem
    · exact (mem_cons.mp hmem).imp (⟨rfl, ·⟩) (hstack ▸ mem_cons_of_mem _ ·)
    · exact .inr hmem
  have hids : ∀ k', ((v.setStack k (call' :: rest)).lanes k').map (·.eventId) =
      (v.lanes k').map (·.eventId) := by
    intro k'
    unfold setStack
    by_cases hk : k' = k
    · subst hk
      simp [hstack, hid]
    · simp [hk]
  have hruns : ∀ x, (v.setStack k (call' :: rest)).Runs x → v.Runs x ∨ x ∉ v.sends ∧
      ∀ f ∈ (v.setFrames c frames).frames x.1, f.eventId = x.2 → f.pumping = true := by
    rintro x ⟨k', y, hy, tr, htr, rfl⟩
    rcases hold k' y hy with ⟨-, rfl⟩ | hy
    · exact hnested tr htr
    · exact .inl ⟨k', y, hy, tr, htr, rfl⟩
  have hpump := h.pumping_setFrames fun f hf => .inr (hframes f hf)
  refine { h with call := ?_, below := ?_, distinct := ?_, apart := ?_, held := ?_, idle := ?_,
                  pumping := ?_, pending := ?_, top := ?_ }
  · intro k' x hx
    rcases hold k' x hx with ⟨-, rfl⟩ | hx
    · exact hok
    · exact h.call k' x hx
  · intro k' x hx
    refine h.below k' x ?_
    by_cases hk : k' = k
    · subst hk
      simpa [setFrames, setStack, hstack] using hx
    · simpa [setFrames, setStack, hk] using hx
  · exact fun k' => (hids k').symm ▸ h.distinct k'
  · exact fun k₁ k₂ => (hids k₁).symm ▸ (hids k₂).symm ▸ h.apart k₁ k₂
  · intro c'
    by_cases hc : c' = c
    · subst hc
      simpa [ids, setFrames] using hheld
    simpa [ids, setFrames, setStack, hc] using
      h.held_setStack (by simp [hstack, heldIn_cons, hid, hon c' hc])
  · intro x hx hrun
    rcases hruns x hrun with hrun | ⟨hnot, -⟩
    · exact h.idle x hx hrun
    · exact hnot hx
  · rintro x (hx | hrun)
    · exact hpump x (.inl hx)
    · rcases hruns x hrun with hrun | ⟨-, hnew⟩
      · exact hpump x (.inr hrun)
      · exact hnew
  · intro k' x hx c' hc'
    rcases hold k' x hx with ⟨-, rfl⟩ | hx
    · exact hid ▸ h.pending k call hcall c' (hpending c' hc')
    · exact h.pending k' x hx c' hc'
  rintro ⟨c', e⟩ hx he
  by_cases hc : c' = c
  · subst hc
    simp only [ids, setFrames, update_self] at he ⊢
    exact htop e hx he
  · simp only [ids, setFrames, ne_eq, hc, not_false_eq_true, update_of_ne] at he ⊢
    exact h.top (c', e) hx he

theorem setHead (hstack : v.lanes k = call :: rest) (hok : call'.Ok v.next)
    (hid : call'.eventId = call.eventId) (hon : ∀ c, call'.onStack c = call.onStack c)
    (hpending : ∀ c ∈ call'.pending, c ∈ call.pending)
    (hnested : ∀ tr, call'.nested = some tr → v.Runs tr.token ∨ tr.token ∉ v.sends ∧
      ∀ f ∈ v.frames tr.originConnectionId, f.eventId = tr.parentHookEventId →
        f.pumping = true) : Ok (v.setStack k (call' :: rest)) := by
  have hself : v.setFrames 0 (v.frames 0) = v := by simp [setFrames]
  have hset : (v.setStack k (call' :: rest)).setFrames 0 (v.frames 0) =
      v.setStack k (call' :: rest) := by simp [setFrames, setStack]
  rw [← hset]
  refine h.change hstack hok hid (fun c _ => hon c) hpending (hself.symm ▸ hnested) ?_
    (fun f hf => .inl hf) fun e he => h.top (0, e) he
  · exact h.held_setStack (by simp [hstack, heldIn_cons, hid, hon])

theorem push (hbelow : ∀ x ∈ v.lanes k, x.nested.isSome = true)
    (hid : call.eventId = v.next) (hphase : call.phase = .between) (hnested : call.nested = none)
    (hsubscribers : call.subscribers.Nodup) :
    Ok { v.setStack k (call :: v.lanes k) with next := v.next + 1 } := by
  have hnew : ∀ k', call.eventId ∉ (v.lanes k').map (·.eventId) := by
    intro k' hmem
    obtain ⟨x, hx, hxid⟩ := mem_map.mp hmem
    have hlt := (h.call k' x hx).fresh
    omega
  have hold : ∀ k' x, x ∈ (v.setStack k (call :: v.lanes k)).lanes k' →
      x = call ∨ x ∈ v.lanes k' := by
    intro k' x hx
    rcases mem_setStack hx with ⟨rfl, hmem⟩ | hmem
    · exact mem_cons.mp hmem
    · exact .inr hmem
  have hruns : ∀ x, (v.setStack k (call :: v.lanes k)).Runs x → v.Runs x := by
    rintro x ⟨k', y, hy, tr, htr, htoken⟩
    rcases hold k' y hy with rfl | hy
    · cases hnested.symm.trans htr
    · exact ⟨k', y, hy, tr, htr, htoken⟩
  have hpos := h.positive
  refine { h with positive := Nat.succ_pos _, call := ?_, below := ?_, distinct := ?_,
                  apart := ?_, held := ?_, idle := ?_, pumping := ?_, pending := ?_, fresh := ?_ }
  · intro k' x hx
    rcases hold k' x hx with rfl | hx
    · refine ⟨by omega, by show _ < v.next + 1; omega, ?_, fun tr htr => ?_⟩
      · unfold LaneCall.clients
        rw [hphase]
        exact hsubscribers
      · cases hnested.symm.trans htr
    · obtain ⟨hzero, hlt, hclients, hrunning⟩ := h.call k' x hx
      exact ⟨hzero, Nat.lt_succ_of_lt hlt, hclients, hrunning⟩
  · intro k' x hx
    by_cases hk : k' = k
    · subst hk
      exact hbelow x (by simpa [setStack] using hx)
    · exact h.below k' x (by simpa [setStack, hk] using hx)
  · intro k'
    by_cases hk : k' = k
    · subst hk
      simpa [setStack] using ⟨by simpa using hnew k', h.distinct k'⟩
    · simpa [setStack, hk] using h.distinct k'
  · intro k₁ k₂ hne
    have hapart := h.apart k₁ k₂ hne
    by_cases h₁ : k₁ = k
    · subst h₁
      simpa [setStack, Ne.symm hne] using ⟨by simpa using hnew k₂, hapart⟩
    by_cases h₂ : k₂ = k
    · subst h₂
      simpa [setStack, hne] using ⟨by simpa using hnew k₁, hapart⟩
    · simpa [setStack, h₁, h₂] using hapart
  · exact fun c => h.held_setStack (by simp [heldIn_cons, LaneCall.onStack, hphase])
  · exact fun x hx hrun => h.idle x hx (hruns x hrun)
  · exact fun x hx => h.pumping x (hx.imp_right (hruns x))
  · intro k' x hx c hc hmem
    rcases hold k' x hx with rfl | hx
    · have hlt : x.eventId < v.next := h.fresh _ hmem
      omega
    · exact h.pending k' x hx c hc hmem
  · exact fun x hx => Nat.lt_succ_of_lt (h.fresh x hx)

theorem pop (hstack : v.lanes k = call :: rest) (hphase : call.phase = .between) :
    Ok (v.setStack k rest) := by
  have hold : ∀ k' x, x ∈ (v.setStack k rest).lanes k' → x ∈ v.lanes k' := by
    intro k' x hx
    rcases mem_setStack hx with ⟨rfl, hmem⟩ | hmem
    · exact hstack ▸ mem_cons_of_mem _ hmem
    · exact hmem
  have hsub : ∀ k', ((v.setStack k rest).lanes k').Sublist (v.lanes k') := by
    intro k'
    unfold setStack
    by_cases hk : k' = k
    · subst hk
      simp [hstack]
    · simp [hk]
  have hruns : ∀ x, (v.setStack k rest).Runs x → v.Runs x := by
    rintro x ⟨k', y, hy, htr⟩
    exact ⟨k', y, hold k' y hy, htr⟩
  refine { h with call := ?_, below := ?_, distinct := ?_, apart := ?_, held := ?_, idle := ?_,
                  pumping := ?_, pending := ?_ }
  · exact fun k' x hx => h.call k' x (hold k' x hx)
  · exact fun k' x hx => h.below k' x ((hsub k').tail.subset hx)
  · exact fun k' => (h.distinct k').sublist ((hsub k').map _)
  · exact fun k₁ k₂ hne => disjoint_of_subset_left ((hsub k₁).map _).subset
      (disjoint_of_subset_right ((hsub k₂).map _).subset (h.apart k₁ k₂ hne))
  · exact fun c => h.held_setStack (by simp [hstack, heldIn_cons, LaneCall.onStack, hphase])
  · exact fun x hx hrun => h.idle x hx (hruns x hrun)
  · exact fun x hx => h.pumping x (hx.imp_right (hruns x))
  · exact fun k' x hx => h.pending k' x (hold k' x hx)

theorem drop {x : Nat × Nat} {sends : Multiset (Nat × Nat)}
    (hsends : v.sends = x ::ₘ sends) : Ok { v with sends := sends } ∧ x ∉ sends := by
  have hsub : ∀ y ∈ sends, y ∈ v.sends := fun y hy => hsends ▸ Multiset.mem_cons_of_mem hy
  have hnodup := Multiset.nodup_cons.mp (hsends ▸ h.single)
  refine ⟨{ h with single := hnodup.2, idle := ?_, pumping := ?_, pending := ?_, fresh := ?_,
                   top := ?_ }, hnodup.1⟩
  · exact fun y hy => h.idle y (hsub y hy)
  · exact fun y hy => h.pumping y (hy.imp_left (hsub y))
  · exact fun k y hy c hc hmem => h.pending k y hy c hc (hsub _ hmem)
  · exact fun y hy => h.fresh y (hsub y hy)
  · exact fun y hy => h.top y (hsub y hy)

theorem post (hstack : call ∈ v.lanes k) {c : Nat} (hon : call.onStack c = true)
    (hnested : call.nested = none) (hnot : (c, call.eventId) ∉ v.sends)
    (hpumping : ∀ f ∈ v.frames c, f.eventId = call.eventId → f.pumping = true)
    (htop : (v.ids c).head? = some call.eventId) :
    Ok { v with sends := (c, call.eventId) ::ₘ v.sends } := by
  refine { h with single := Multiset.nodup_cons.mpr ⟨hnot, h.single⟩, idle := ?_, pumping := ?_,
                  pending := ?_, fresh := ?_, top := ?_ }
  · intro x hx hrun
    rcases Multiset.mem_cons.mp hx with rfl | hx
    · have hsome := ((h.runs_iff hstack).mp hrun).1
      rw [hnested] at hsome
      cases hsome
    · exact h.idle x hx hrun
  · rintro x (hx | hrun)
    · rcases Multiset.mem_cons.mp hx with rfl | hx
      · exact hpumping
      · exact h.pumping x (.inl hx)
    · exact h.pumping x (.inr hrun)
  · intro k' x hx c' hc' hmem
    rcases Multiset.mem_cons.mp hmem with heq | hmem
    · obtain ⟨rfl, hid⟩ := Prod.mk.inj heq
      obtain ⟨rfl, rfl⟩ := h.unique hx hstack hid
      exact LaneCall.notMem_pending (h.call _ x hx).clients hon hc'
    · exact h.pending k' x hx c' hc' hmem
  · intro x hx
    rcases Multiset.mem_cons.mp hx with rfl | hx
    · exact (h.call k call hstack).fresh
    · exact h.fresh x hx
  · intro x hx
    rcases Multiset.mem_cons.mp hx with rfl | hx
    · exact fun _ => htop
    · exact h.top x hx

theorem setPumping (hids : frames.map (·.eventId) = v.ids c)
    (hkept : ∀ f ∈ frames, f.pumping = true ∨ f ∈ v.frames c ∨
      (c, f.eventId) ∉ v.sends ∧ ¬v.Runs (c, f.eventId)) : Ok (v.setFrames c frames) := by
  have hsame : ∀ c', (v.setFrames c frames).ids c' = v.ids c' := by
    intro c'
    unfold setFrames ids
    by_cases hc : c' = c
    · subst hc
      simpa [ids] using hids
    · simp [hc]
  refine { h with held := ?_, pumping := ?_, top := ?_ }
  · intro c'
    rw [hsame]
    exact h.held c'
  · exact h.pumping_setFrames hkept
  · intro x hx
    rw [hsame]
    exact h.top x hx

theorem enter (hstack : v.lanes k = call :: rest) (hok : call'.Ok v.next)
    (hcall : ∀ c', call.onStack c' = false) (hpending : c ∈ call.pending)
    (hid : call'.eventId = call.eventId) (hon : ∀ c', call'.onStack c' = (c == c'))
    (hpending' : ∀ c' ∈ call'.pending, c' ∈ call.pending) (hnested : call'.nested = none)
    (hown : ∀ frame frames, v.frames c = frame :: frames → frame.eventId ∈ rest.map (·.eventId)) :
    Ok ((v.setStack k (call' :: rest)).setFrames c
      ({ eventId := call.eventId } :: v.frames c)) := by
  have hmem : call ∈ v.lanes k := hstack ▸ mem_cons_self
  -- The top frame's call is in this lane, so all of them are.
  have hlane : ∀ k', heldIn c (v.lanes k') = if k' = k then v.ids c else [] := by
    obtain ⟨k₀, hk₀⟩ := h.held c
    cases hlist : v.frames c with
    | nil => simpa [ids, hlist] using hk₀
    | cons frame frames =>
      obtain ⟨y, hy, hyid⟩ := mem_map.mp (hown frame frames hlist)
      have htop : frame.eventId ∈ v.ids c := by simp [ids, hlist]
      have hheld := hk₀ k₀
      rw [if_pos rfl] at hheld
      obtain ⟨x, hx, -, hxid⟩ := mem_heldIn.mp (hheld ▸ htop)
      obtain ⟨rfl, -⟩ := h.unique hx (hstack ▸ mem_cons_of_mem _ hy) (hxid.trans hyid.symm)
      exact hk₀
  refine h.change hstack hok hid ?_ hpending' ?_ ⟨k, fun k' => ?_⟩ ?_ ?_
  · intro _ hc
    rw [hon, hcall]
    exact beq_false_of_ne (Ne.symm hc)
  · exact fun tr htr => nomatch hnested.symm.trans htr
  · have hheld := hlane k'
    unfold setStack
    by_cases hk : k' = k
    · subst hk
      rw [hstack, heldIn_cons, hcall] at hheld
      simpa [heldIn_cons, hon, hid, ids] using hheld
    · simpa [hk] using hheld
  · intro f hf
    rcases mem_cons.mp hf with rfl | hf
    · refine .inr ⟨h.pending k call hmem c hpending, fun hrun => ?_⟩
      have hon := ((h.runs_iff hmem).mp hrun).2
      rw [hcall] at hon
      cases hon
    · exact .inl hf
  intro e hx he
  rcases mem_cons.mp he with rfl | he
  · rfl
  -- A Send that stands has its frame on top, but this lane runs the Send of that frame.
  have htop : (v.ids c).head? = some e := h.top (c, e) hx he
  cases hlist : v.frames c with
  | nil => simp [ids, hlist] at htop
  | cons frame frames =>
    obtain ⟨y, hy, hyid⟩ := mem_map.mp (hown frame frames hlist)
    have hyk : y ∈ v.lanes k := hstack ▸ mem_cons_of_mem _ hy
    have hye : y.eventId = e := by simpa [ids, hlist, hyid] using htop
    have he : e ∈ heldIn c (v.lanes k) := by
      rw [hlane k, if_pos rfl]
      exact he
    obtain ⟨x, hxk, hxon, hxid⟩ := mem_heldIn.mp he
    obtain ⟨-, rfl⟩ := h.unique hxk hyk (hxid.trans hye.symm)
    have hsome := h.below k x (by rw [hstack]; exact hy)
    exact absurd ((h.runs_iff hxk).mpr ⟨hsome, hxon⟩) (h.idle _ (by rwa [hxid]))

theorem leave (hstack : v.lanes k = call :: rest) {frame : CallFrame}
    (hframes : v.frames c = frame :: frames) (hok : call'.Ok v.next)
    (hid : call'.eventId = call.eventId) (hon : ∀ c', call.onStack c' = (c == c'))
    (hoff : ∀ c', call'.onStack c' = false) (hpending : ∀ c' ∈ call'.pending, c' ∈ call.pending)
    (hnested : call'.nested = none) : Ok ((v.setStack k (call' :: rest)).setFrames c frames) := by
  have hids : v.ids c = call.eventId :: heldIn c rest :=
    h.head_ids hstack (by rw [hon]; exact beq_self_eq_true c)
  have htail : frames.map (·.eventId) = heldIn c rest := by
    unfold ids at hids
    rw [hframes, map_cons, cons.injEq] at hids
    exact hids.2
  refine h.change hstack hok hid ?_ hpending ?_ ⟨k, fun k' => ?_⟩ ?_ ?_
  · intro _ hc
    rw [hon, hoff]
    exact (beq_false_of_ne (Ne.symm hc)).symm
  · exact fun tr htr => nomatch hnested.symm.trans htr
  · unfold setStack
    by_cases hk : k' = k
    · subst hk
      simp [heldIn_cons, hoff, htail]
    obtain ⟨k₀, hk₀⟩ := h.held c
    have hlane := hk₀ k
    rw [hstack, heldIn_cons, hon, beq_self_eq_true] at hlane
    have hk₀k : k = k₀ := by
      by_contra hne
      rw [if_neg hne] at hlane
      cases hlane
    subst hk₀k
    simpa [hk] using hk₀ k'
  · exact fun f hf => .inl (hframes ▸ mem_cons_of_mem _ hf)
  intro e hx he
  -- Only the frame on top may belong to a Send that stands, and it leaves.
  rw [htail] at he
  have htop := h.top (c, e) hx (hids ▸ mem_cons_of_mem _ he)
  have hnodup := h.nodup_ids c
  rw [hids] at htop hnodup
  cases htop
  exact absurd he (nodup_cons.mp hnodup).1

end

end Ok

end View

end KeysharpInput.Pump
