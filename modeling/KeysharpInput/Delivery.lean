import KeysharpInput.LateReplies

/-!
Delivery of decisions to a waiting lane.
While a lane waits for a stream's decision, the main thread may read that stream's reply, check the
responder and fill the slot. If the lane neither gives up nor turns to a recursive Send while such a
reply is under way, the slot only ever holds the decision that its lane waits for, so every push
finds room.
-/

namespace KeysharpInput.Reply

open Session (HookType)
open Transition List Function

namespace System

variable {s t : System} {k : HookType} {frame : LaneFrame} {rest : List LaneFrame} {c id : Nat}

def awaits (s : System) (k : HookType) (c id : Nat) : Bool :=
  (s.lanes k).stack.head?.any fun frame => frame.eventId = id && frame.phase = .waiting c

theorem awaits_iff : s.awaits k c id = true ↔ ∃ frame rest, (s.lanes k).stack = frame :: rest ∧
    frame.eventId = id ∧ frame.phase = .waiting c := by
  unfold awaits
  cases (s.lanes k).stack <;> simp

def quiet (s : System) (k : HookType) : Bool :=
  (s.lanes k).decision = none && match s.main with
    | .idle => true
    | .found k' _ | .checked k' _ | .passing k' _ => k' ≠ k

def withdrawing (s : System) (k : HookType) (c id : Nat) : Bool :=
  (s.lanes k).stack.head?.any fun frame => frame.eventId = id && frame.phase = .expired c

/-- Clients answer the callbacks they were sent, each once and not while it is being withdrawn. A
lane leaves its wait, to give up or for a recursive Send, only when no reply is on its way to it,
and names no stream whose earlier reply the main thread is looking at. -/
def deliveryKept (s : System) : Event → Bool
  | .read m => (m.connectionId, m.requestId) ∈ s.sent &&
      (m.connectionId, m.requestId) ∉ s.answered &&
      !s.withdrawing .keyboard m.connectionId m.requestId &&
      !s.withdrawing .mouse m.connectionId m.requestId
  | .begin k _ _ _ => (s.lanes k).stack.isEmpty || s.quiet k
  | .lane k .giveUp => s.quiet k
  | .lane k .publish =>
    (s.lanes k).stack.head?.all fun frame => frame.subscribers.head?.all fun c => !s.looksFor k c
  | .lane k .finish => (s.lanes k).stack.head?.all fun frame => !s.looksFor k frame.savedResponder
  | _ => true

structure Deliveries (s : System) : Prop where
  contexts : Contexts s
  /-- A decision in the slot is the one that its lane waits for. -/
  slot : ∀ k d, (s.lanes k).decision = some d →
    s.awaits k d.responder d.eventId = true ∧ (d.responder, d.eventId) ∈ s.answered
  decided : ∀ k, ∀ frame ∈ (s.lanes k).stack, ∀ c d, frame.phase = .decided c d →
    (c, frame.eventId) ∈ s.answered
  found : ∀ k m, s.main = .found k m → (m.connectionId, m.requestId) ∈ s.sent ∧
    (m.connectionId, m.requestId) ∉ s.answered ∧
    ((s.lanes k).currentResponder = m.connectionId → s.awaits k m.connectionId m.requestId = true)
  checked : ∀ k m, s.main = .checked k m → (m.connectionId, m.requestId) ∉ s.answered ∧
    s.awaits k m.connectionId m.requestId = true
  room : ∀ k m, s.main ≠ .passing k m

theorem deliveries_initial : Deliveries {} where
  contexts := contexts_initial
  slot _ _ h := by cases h
  decided _ _ h := absurd h not_mem_nil
  found _ _ h := by cases h
  checked _ _ h := by cases h
  room _ _ h := by cases h

theorem awaits_unique {c' id' : Nat} (h : s.awaits k c id = true) (h' : s.awaits k c' id' = true) :
    c' = c ∧ id' = id := by
  obtain ⟨_, _, hstack, hid, hphase⟩ := awaits_iff.mp h
  obtain ⟨_, _, hstack', hid', hphase'⟩ := awaits_iff.mp h'
  obtain ⟨rfl, rfl⟩ := cons.inj (hstack.symm.trans hstack')
  exact ⟨CallPhase.waiting.inj (hphase'.symm.trans hphase), hid'.symm.trans hid⟩

theorem Deliveries.slot_empty (h : Deliveries s) (hawaits : s.awaits k c id = true)
    (hfirst : (c, id) ∉ s.answered) : (s.lanes k).decision = none := by
  cases hslot : (s.lanes k).decision with
  | none => rfl
  | some d =>
    obtain ⟨hd, hanswered⟩ := h.slot k d hslot
    obtain ⟨hc, hid⟩ := awaits_unique hawaits hd
    exact absurd (hid ▸ hc ▸ hanswered) hfirst

theorem Moved.of_awaits {move : LaneMove} (hmoved : Moved s k frame rest move t)
    (hstack : (s.lanes k).stack = frame :: rest) (hawaits : s.awaits k c id = true) :
    move = .pop ∨ move = .giveUp := by
  obtain ⟨frame', rest', hstack', -, hphase⟩ := awaits_iff.mp hawaits
  cases hmoved <;> simp_all

theorem MainStep.awaits (hmain : MainStep s t) : t.awaits k c id = s.awaits k c id := by
  unfold System.awaits
  rcases hmain.lanes k with hk | ⟨d, -, hk⟩ <;> rw [hk]

theorem awaits_of_lanes {j : HookType} (hlanes : t.lanes j = s.lanes j) :
    t.awaits j c id = s.awaits j c id := by
  unfold awaits
  rw [hlanes]

theorem slot_of_quiet (h : s.quiet k = true) : (s.lanes k).decision = none ∧
    (∀ m, s.main ≠ .found k m) ∧ ∀ m, s.main ≠ .checked k m := by
  simp only [quiet, Bool.and_eq_true, decide_eq_true_eq] at h
  refine ⟨h.1, fun m hm => ?_, fun m hm => ?_⟩ <;> simp [hm] at h

theorem awaits_stable (hbusy : s.quiet k = false) (hawaits : s.awaits k c id = true) {e : Event}
    (hguard : s.deliveryKept e = true) (ht : s.step e = some t) (hpop : e ≠ .lane k .pop) :
    t.awaits k c id = true := by
  obtain ⟨j, id', hookType, subs, rfl⟩ | ⟨j, move, rfl⟩ | hserved := step_cases ht
  · by_cases hj : j = k
    · subst hj
      obtain ⟨frame, rest, hstack, -⟩ := awaits_iff.mp hawaits
      simp [deliveryKept, hstack, hbusy] at hguard
    simp only [step] at ht
    split at ht
    · cases ht
    split at ht
    · cases ht
      rw [awaits_of_lanes (s := s) (by simp [setLane, Ne.symm hj])]
      exact hawaits
    · cases ht
  · obtain ⟨_, _, hstack, hmoved⟩ := moved_of_step ht
    by_cases hj : j = k
    · subst hj
      rcases hmoved.of_awaits hstack hawaits with rfl | rfl
      · exact absurd rfl hpop
      · simp [deliveryKept, hbusy] at hguard
    · rw [awaits_of_lanes (hmoved.same.2.2.2.2 k (Ne.symm hj))]
      exact hawaits
  · rw [hserved.mainStep.awaits]
    exact hawaits

section

variable (h : Deliveries s)

include h

theorem Deliveries.moved (hstack : (s.lanes k).stack = frame :: rest)
    {move : LaneMove} (hguard : s.deliveryKept (.lane k move) = true)
    (hmoved : Moved s k frame rest move t) : Deliveries t := by
  obtain ⟨hmain, hanswered, -, -, hlanes⟩ := hmoved.same
  have hcontexts := h.contexts.moved hstack hmoved
  have hsent : ∀ p ∈ s.sent, p ∈ t.sent := by
    cases hmoved with
    | sent => exact fun p hp => mem_cons_of_mem _ hp
    | _ => exact fun p hp => hp
  refine ⟨hcontexts, fun j d hslot => ?_, fun j g hg c d hphase => ?_, fun j m hm => ?_,
    fun j m hm => ?_, fun j m => hmain ▸ h.room j m⟩
  · rw [hanswered]
    by_cases hj : j = k
    · subst hj
      -- A full slot belongs to a lane that waits, and such a lane empties it or gives up.
      have hfull : (s.lanes j).decision = some d ∨ move = .pop := by
        cases hmoved <;> simp_all [setLane]
      rcases hfull with hfull | rfl
      · rcases hmoved.of_awaits hstack (h.slot j d hfull).1 with rfl | rfl
        · cases hmoved <;> simp_all [setLane]
        · have hempty := (slot_of_quiet hguard).1
          rw [hempty] at hfull
          cases hfull
      · cases hmoved <;> simp [setLane] at hslot
    · rw [hlanes j hj] at hslot
      rw [awaits_of_lanes (hlanes j hj)]
      exact h.slot j d hslot
  · rw [hanswered]
    rcases hmoved.frames hstack hg with hold | ⟨rfl, hid, -, -, hdecided⟩
    · exact h.decided j g hold c d hphase
    · obtain ⟨hslot, hevent, hresponder⟩ := hdecided c d hphase
      rw [hid, ← hevent, ← hresponder]
      exact (h.slot j d hslot).2
  · rw [hmain] at hm
    obtain ⟨hmsent, hfirst, hresponder⟩ := h.found j m hm
    refine ⟨hsent _ hmsent, hanswered ▸ hfirst, fun hnow => ?_⟩
    by_cases hj : j = k
    · subst hj
      exfalso
      have hpos : m.connectionId ≠ 0 := (h.contexts.sent _ hmsent).1
      have hlooks : ∀ c, s.looksFor j c = true ↔ m.connectionId = c := by simp [looksFor, hm]
      have hbefore : (s.lanes j).currentResponder = m.connectionId := by
        cases hmoved with
        | publish _ hsubs =>
          simp only [deliveryKept, hstack, head?_cons, Option.all_some, hsubs,
            Bool.not_eq_true', ← Bool.not_eq_true, hlooks] at hguard
          exact absurd (by simpa [setLane] using hnow.symm) hguard
        | finish =>
          simp only [deliveryKept, hstack, head?_cons, Option.all_some,
            Bool.not_eq_true', ← Bool.not_eq_true, hlooks] at hguard
          exact absurd (by simpa [setLane] using hnow.symm) hguard
        | sendFailed _ | clearDecided _ | clearExpired _ =>
          exact absurd (by simpa [setLane] using hnow.symm) hpos
        | _ => simpa [setLane] using hnow
      have hawaits := hresponder hbefore
      rcases hmoved.of_awaits hstack hawaits with rfl | rfl
      · have hempty := h.slot_empty hawaits hfirst
        cases hmoved <;> simp_all
      · exact (slot_of_quiet hguard).2.1 m hm
    · rw [awaits_of_lanes (hlanes j hj)]
      rw [hlanes j hj] at hnow
      exact hresponder hnow
  · rw [hmain] at hm
    obtain ⟨hfirst, hawaits⟩ := h.checked j m hm
    refine ⟨hanswered ▸ hfirst, ?_⟩
    by_cases hj : j = k
    · subst hj
      exfalso
      rcases hmoved.of_awaits hstack hawaits with rfl | rfl
      · have hempty := h.slot_empty hawaits hfirst
        cases hmoved <;> simp_all
      · exact (slot_of_quiet hguard).2.2 m hm
    · rw [awaits_of_lanes (hlanes j hj)]
      exact hawaits

theorem Deliveries.begin {eventId : Nat} {hookType : HookType} {subscribers : List Nat}
    (hguard : s.deliveryKept (.begin k eventId hookType subscribers) = true)
    (ht : s.step (.begin k eventId hookType subscribers) = some t) : Deliveries t := by
  have hcontexts := h.contexts.begin ht
  -- A lane that waits takes a nested event only when no reply is on its way.
  have hquiet : ∀ c id, s.awaits k c id = true → s.quiet k = true := by
    intro c _ hawaits
    obtain ⟨_, _, hstack, -⟩ := awaits_iff.mp hawaits
    simpa [deliveryKept, hstack] using hguard
  simp only [step] at ht
  split at ht
  · cases ht
  split at ht
  swap
  · cases ht
  cases ht
  refine ⟨hcontexts, fun j d hslot => ?_, fun j g hg c d hphase => ?_, fun j m hm => ?_,
    fun j m hm => ?_, h.room⟩
  · by_cases hj : j = k
    · subst hj
      have hfull : (s.lanes j).decision = some d := by simpa [setLane] using hslot
      have hempty := (slot_of_quiet (hquiet _ _ (h.slot j d hfull).1)).1
      rw [hempty] at hfull
      cases hfull
    · rw [awaits_of_lanes (s := s) (by simp [setLane, hj])]
      exact h.slot j d (by simpa [setLane, hj] using hslot)
  · by_cases hj : j = k
    · subst hj
      simp only [setLane, update_self, mem_cons] at hg
      rcases hg with rfl | hg
      · cases hphase
      · exact h.decided j g hg c d hphase
    · exact h.decided j g (by simpa [setLane, hj] using hg) c d hphase
  · obtain ⟨hsent, hfirst, hresponder⟩ := h.found j m hm
    refine ⟨hsent, hfirst, fun hnow => ?_⟩
    by_cases hj : j = k
    · subst hj
      have hbefore : (s.lanes j).currentResponder = m.connectionId := by
        simpa [setLane] using hnow
      exact absurd hm ((slot_of_quiet (hquiet _ _ (hresponder hbefore))).2.1 m)
    · rw [awaits_of_lanes (s := s) (by simp [setLane, hj])]
      exact hresponder (by simpa [setLane, hj] using hnow)
  · obtain ⟨hfirst, hawaits⟩ := h.checked j m hm
    refine ⟨hfirst, ?_⟩
    by_cases hj : j = k
    · subst hj
      exact absurd hm ((slot_of_quiet (hquiet _ _ hawaits)).2.2 m)
    · rw [awaits_of_lanes (s := s) (by simp [setLane, hj])]
      exact hawaits

theorem Deliveries.settle (hmain : MainStep s t) (hlanes : t.lanes = s.lanes)
    (hidle : t.main = .idle) (hanswered : ∀ p ∈ s.answered, p ∈ t.answered) : Deliveries t := by
  refine ⟨hmain.contexts h.contexts, fun j d hslot => ?_, fun j g hg c d hphase => ?_,
    by simp [hidle], by simp [hidle], by simp [hidle]⟩
  · rw [hlanes] at hslot
    rw [hmain.awaits]
    exact ⟨(h.slot j d hslot).1, hanswered _ (h.slot j d hslot).2⟩
  · rw [hlanes] at hg
    exact hanswered _ (h.decided j g hg c d hphase)

theorem Deliveries.push {d : LaneDecision} (hmain : MainStep s t)
    (hlanes : t.lanes = update s.lanes k { s.lanes k with decision := some d })
    (hidle : t.main = .idle) (hawaits : s.awaits k d.responder d.eventId = true)
    (hanswered : t.answered = (d.responder, d.eventId) :: s.answered) : Deliveries t := by
  refine ⟨hmain.contexts h.contexts, fun j d' hslot => ?_, fun j g hg c d' hphase => ?_,
    by simp [hidle], by simp [hidle], by simp [hidle]⟩
  · rw [hmain.awaits, hanswered]
    by_cases hj : j = k
    · subst hj
      obtain rfl : d = d' := by simpa [hlanes] using hslot
      exact ⟨hawaits, mem_cons_self⟩
    · have hold := h.slot j d' (by simpa [hlanes, hj] using hslot)
      exact ⟨hold.1, mem_cons_of_mem _ hold.2⟩
  · have hold : g ∈ (s.lanes j).stack := by
      rcases hmain.lanes j with hj | ⟨_, -, hj⟩ <;> rwa [hj] at hg
    rw [hanswered]
    exact mem_cons_of_mem _ (h.decided j g hold c d' hphase)

theorem Deliveries.unmatched (m : Message) : Deliveries (s.unmatched m) := by
  obtain ⟨hidle, hanswered, -⟩ := unmatched_effect m
  refine h.settle (mainStep_unmatched m) ?_ hidle fun p hp => ?_
  · unfold System.unmatched
    split
    · rfl
    · split <;> rfl
  · rw [hanswered]
    exact mem_cons_of_mem _ hp

end

/-- With an empty slot the main thread always leaves a decision about the reply's own event. -/
theorem deliver_of_empty (m : Message) (rights : Rights) (hempty : (s.lanes k).decision = none) :
    ∃ d, (∀ d', m.accepted rights = some d' → d = d' ∧ (s.deliver k m rights).closed = s.closed) ∧
      d.responder = m.connectionId ∧ d.eventId = m.requestId ∧
      (s.deliver k m rights).main = .idle ∧
      (s.deliver k m rights).answered = (m.connectionId, m.requestId) :: s.answered ∧
      (s.deliver k m rights).lanes = update s.lanes k { s.lanes k with decision := some d } := by
  have hpush : ∀ d, (s.lanes k).push d = some { s.lanes k with decision := some d } :=
    fun d => if_pos hempty
  have hoffer : ∀ d, (s.lanes k).offer d = { s.lanes k with decision := some d } := by
    intro d
    simp [Lane.offer, hpush]
  unfold deliver Message.accepted
  split
  · exact ⟨_, by simp, rfl, rfl, rfl, rfl, by rw [hoffer]; rfl⟩
  · rw [hpush]
    exact ⟨_, fun d' hd => ⟨Option.some.inj hd, rfl⟩, rfl, rfl, rfl, rfl, rfl⟩
  split
  · rw [hpush]
    exact ⟨_, fun d' hd => ⟨Option.some.inj hd, rfl⟩, rfl, rfl, rfl, rfl, rfl⟩
  · exact ⟨_, by simp, rfl, rfl, rfl, rfl, by rw [hoffer]; rfl⟩

theorem Deliveries.awaits_of_read (h : Deliveries s) {m : Message}
    (hguard : s.deliveryKept (.read m) = true) (hfind : s.laneForEventId m.requestId = some k)
    (hresponder : (s.lanes k).currentResponder = m.connectionId) :
    s.awaits k m.connectionId m.requestId = true := by
  simp only [deliveryKept, Bool.and_eq_true, decide_eq_true_eq, Bool.not_eq_true'] at hguard
  obtain ⟨⟨⟨hsent, hfirst⟩, hkeyboard⟩, hmouse⟩ := hguard
  have hkept : s.withdrawing k m.connectionId m.requestId = false := by
    cases k <;> assumption
  obtain ⟨hzero, hid⟩ := currentEventId_of_laneForEventId hfind
  have hpub := h.contexts.published k
  unfold Lane.Published at hpub
  cases hstack : (s.lanes k).stack with
  | nil =>
    simp only [hstack] at hpub
    exact absurd (hid.symm.trans hpub.1) hzero
  | cons frame rest =>
    simp only [hstack] at hpub
    obtain ⟨heq, hnames, -⟩ := hpub
    have hevent : frame.eventId = m.requestId := heq.symm.trans hid
    have htop : frame ∈ (s.lanes k).stack := by rw [hstack]; exact mem_cons_self
    have hcalls := (h.contexts.frames k frame htop).calls
    refine awaits_iff.mpr ⟨frame, rest, hstack, hevent, ?_⟩
    unfold LaneFrame.Names at hnames
    unfold LaneFrame.Calls at hcalls
    rw [hresponder] at hnames
    rw [← hevent] at hsent hfirst
    cases hphase : frame.phase <;> simp only [hphase] at hnames hcalls
    case between =>
      rcases hnames with hzero | hnone
      · exact absurd hzero (h.contexts.sent _ hsent).1
      · exact absurd hsent (hnone _)
    case published => exact absurd (hnames ▸ hsent) hcalls.2.2
    case waiting => rw [hnames]
    case decided c d => exact absurd (hnames ▸ h.decided k frame htop c d hphase) hfirst
    case expired => simp [withdrawing, hstack, hevent, hphase, hnames] at hkept

theorem Deliveries.step (h : Deliveries s) {e : Event} (hguard : s.deliveryKept e = true)
    (ht : s.step e = some t) : Deliveries t := by
  obtain ⟨k, id, hookType, subs, rfl⟩ | ⟨k, move, rfl⟩ | hserved := step_cases ht
  · exact h.begin hguard ht
  · obtain ⟨_, _, hstack, hmoved⟩ := moved_of_step ht
    exact h.moved hstack hguard hmoved
  have hmain := hserved.mainStep
  cases hserved with
  | short => exact h.settle hmain rfl rfl fun p hp => mem_cons_of_mem _ hp
  | unmatched | mismatched => exact h.unmatched _
  | found hfind =>
    refine ⟨hmain.contexts h.contexts, h.slot, h.decided, fun j m' hm => ?_, by simp, by simp⟩
    obtain ⟨rfl, rfl⟩ := MainPhase.found.inj hm
    have hread := hguard
    simp only [deliveryKept, Bool.and_eq_true, decide_eq_true_eq] at hread
    exact ⟨hread.1.1.1, hread.1.1.2, h.awaits_of_read hguard hfind⟩
  | checked hphase hresponder =>
    obtain ⟨-, hfirst, hawaits⟩ := h.found _ _ hphase
    refine ⟨hmain.contexts h.contexts, h.slot, h.decided, by simp, fun j m' hm => ?_, by simp⟩
    obtain ⟨rfl, rfl⟩ := MainPhase.checked.inj hm
    exact ⟨hfirst, hawaits hresponder⟩
  | @delivered k m rights hphase =>
    obtain ⟨hfirst, hawaits⟩ := h.checked k m hphase
    obtain ⟨d, -, hresponder, hevent, hidle, hanswered, hlanes⟩ :=
      deliver_of_empty m rights (h.slot_empty hawaits hfirst)
    refine h.push hmain hlanes hidle ?_ ?_
    · rw [hresponder, hevent]
      exact hawaits
    · rw [hresponder, hevent]
      exact hanswered
  | passed hphase => exact absurd hphase (h.room _ _)
  | quarantine
  | rearm => exact ⟨hmain.contexts h.contexts, h.slot, h.decided, h.found, h.checked, h.room⟩

theorem deliveries_of_reaches (h : Reaches step (fun s e => s.deliveryKept e = true) {} s) :
    Deliveries s :=
  h.invariant deliveries_initial fun _ _ _ hs hguard ht => hs.step hguard ht

theorem Contexts.laneForEventId_of_awaits (h : Contexts s) (hawaits : s.awaits k c id = true) :
    s.laneForEventId id = some k ∧ (s.lanes k).currentResponder = c := by
  obtain ⟨frame, _, hstack, rfl, hphase⟩ := awaits_iff.mp hawaits
  have htop : frame ∈ (s.lanes k).stack := by rw [hstack]; exact mem_cons_self
  have hpub := h.published k
  unfold Lane.Published at hpub
  simp only [hstack, LaneFrame.Names, hphase] at hpub
  have hzero : frame.eventId ≠ 0 := fun h0 => h.nonzero (h0 ▸ (h.frames k frame htop).used)
  refine ⟨?_, hpub.2.1⟩
  unfold laneForEventId
  rw [if_neg hzero]
  cases k with
  | keyboard => rw [if_pos hpub.1]
  | mouse =>
    -- The keyboard lane has another event on top, or none.
    have hother : (s.lanes .keyboard).currentEventId ≠ frame.eventId := by
      have hkeyboard := h.published .keyboard
      unfold Lane.Published at hkeyboard
      cases hstack' : (s.lanes .keyboard).stack with
      | nil =>
        simp only [hstack'] at hkeyboard
        exact fun heq => hzero (heq.symm.trans hkeyboard.1)
      | cons =>
        simp only [hstack'] at hkeyboard
        rw [hkeyboard.1]
        exact h.ne_of_other hstack (by rw [hstack']; exact mem_cons_self) (by simp)
    rw [if_neg hother, if_pos hpub.1]

/-- The reply of the stream that a lane waits for goes through: it is read, its responder is
confirmed and its decision enters the slot, the connection stays at every step, the lane waits on
meanwhile, and what it takes from the slot is the decision about its own event. -/
theorem decision_delivered (h : Reaches step (fun s e => s.deliveryKept e = true) {} s) :
    (∀ k m, s.awaits k m.connectionId m.requestId = true → m.WellFormed → s.main = .idle →
      m.connectionId ∉ s.closed → ∃ t, s.step (.read m) = some t ∧ t.main = .found k m ∧
        t.closed = s.closed ∧ t.awaits k m.connectionId m.requestId = true) ∧
    (∀ k m, s.awaits k m.connectionId m.requestId = true → s.main = .found k m →
      ∃ t, s.step .check = some t ∧ t.main = .checked k m ∧ t.closed = s.closed) ∧
    (∀ k m, s.main = .checked k m → s.awaits k m.connectionId m.requestId = true ∧
      ∀ rights d, m.accepted rights = some d → ∃ t, s.step (.deliver rights) = some t ∧
        (t.lanes k).decision = some d ∧ t.main = .idle ∧ t.closed = s.closed) ∧
    (∀ k d, (s.lanes k).decision = some d → s.awaits k d.responder d.eventId = true ∧
      ∃ t, s.step (.lane k .pop) = some t ∧ (t.lanes k).decision = none ∧
        (t.lanes k).stack.head?.map (·.phase) = some (.decided d.responder d)) ∧
    (∀ k c id, s.quiet k = false → s.awaits k c id = true → ∀ e t, s.deliveryKept e = true →
      s.step e = some t → e ≠ .lane k .pop → t.awaits k c id = true) := by
  have hinv := deliveries_of_reaches h
  refine ⟨fun k m hawaits hwell hmain hopen => ?_, fun k m hawaits hmain => ?_,
    fun k m hmain => ?_, fun k d hslot => ?_,
    fun k c id hbusy hawaits e t hguard ht hpop => awaits_stable hbusy hawaits hguard ht hpop⟩
  · have hlong : m.payload ≠ .short := by
      intro heq
      exact hwell (by rw [heq]; rfl)
    obtain ⟨hfind, -⟩ := hinv.contexts.laneForEventId_of_awaits hawaits
    simp only [step, hmain, hopen, hlong, hfind]
    exact ⟨_, rfl, rfl, rfl, hawaits⟩
  · obtain ⟨-, hresponder⟩ := hinv.contexts.laneForEventId_of_awaits hawaits
    simp only [step, hmain, hresponder]
    exact ⟨_, rfl, rfl, rfl⟩
  · obtain ⟨hfirst, hawaits⟩ := hinv.checked k m hmain
    refine ⟨hawaits, fun rights d haccepted => ?_⟩
    obtain ⟨d', hd, -, -, hidle, -, hlanes⟩ :=
      deliver_of_empty m rights (hinv.slot_empty hawaits hfirst)
    obtain ⟨rfl, hclosed⟩ := hd d haccepted
    simp only [step, hmain]
    exact ⟨_, rfl, by rw [hlanes, update_self], hidle, hclosed⟩
  · obtain ⟨hawaits, -⟩ := hinv.slot k d hslot
    refine ⟨hawaits, ?_⟩
    obtain ⟨_, _, hstack, hid, hphase⟩ := awaits_iff.mp hawaits
    simp only [step, hstack, laneStep, hphase, hslot, hid]
    exact ⟨_, rfl, by simp [setLane], by simp [setLane]⟩

def checkedCall (eventId c : Nat) : List Event :=
  [.begin .keyboard eventId .keyboard [c], .lane .keyboard .publish,
   .lane .keyboard (.send true), .read { passReply eventId with connectionId := c }, .check]

theorem decision_delivered_run : ∃ s t : System, s.main = .checked .keyboard (passReply 1) ∧
    s.step (.deliver {}) = some t ∧ (t.lanes .keyboard).decision = some ⟨1, 5, .pass, []⟩ := by
  obtain ⟨s, hs, hmain⟩ := exists_reaches_of_check step deliveryKept {} (checkedCall 1 5)
    (q := fun s => s.main = .checked .keyboard (passReply 1)) (by decide) (by decide)
  obtain ⟨t, ht, hslot, -⟩ := ((decision_delivered hs).2.2.1 .keyboard (passReply 1) hmain).2 {}
    ⟨1, 5, .pass, []⟩ (by decide)
  exact ⟨s, t, hmain, ht, hslot⟩

/-- The lane gives up on stream 5 between the check and the push of its reply. The decision stays
in the slot, so the reply of stream 6 to the next event is refused and stream 6 is closed. -/
theorem innocent_client_closed : ∃ s : System, Reaches step always {} s ∧
    s.awaits .keyboard 6 2 = true ∧
    s.main = .checked .keyboard ⟨6, 2, .decision 0 0 [] ⟨0, by decide⟩⟩ ∧ 6 ∉ s.closed ∧
    (run step s [.deliver {}, .pass]).any
      (fun t => decide (6 ∈ t.closed) && (t.lanes .keyboard).decision == some ⟨1, 5, .pass, []⟩)
        = true :=
  exists_reaches _ _ (checkedCall 1 5 ++ [.lane .keyboard .giveUp, .lane .keyboard .clear,
    .lane .keyboard .finish, .deliver {}] ++ checkedCall 2 6) (by decide)

end System

end KeysharpInput.Reply
