import KeysharpInput.LaneContexts

/-!
Replies to callbacks that have timed out.
A stream remembers one expired event for each hook type. As long as none is replaced before its
reply has come, the reply finds its event there and is dropped without touching a lane, a
quarantine or the connection. A second callback of the same hook type that expires first takes
the place of the earlier one, whose reply then ends the client.
-/

namespace KeysharpInput.Reply

open Session (HookType)
open Function Transition List Reply.System

variable {expired : HookType → Nat} {eventId : Nat} {t : HookType}

theorem consumeExpiredEvent_keeps {slots : HookType → Nat} {id : Nat}
    (h : consumeExpiredEvent expired eventId = some slots) (hne : id ≠ eventId)
    (ht : expired t = id) : slots t = id := by
  have hupdate : ∀ t', expired t' = eventId → update expired t' 0 t = id := by
    intro t' ht'
    have htt : t ≠ t' := by
      intro heq
      exact hne (ht.symm.trans (heq ▸ ht'))
    rw [update_of_ne htt, ht]
  unfold consumeExpiredEvent at h
  split at h
  · cases h
  split at h
  · rename_i hkeyboard
    cases h
    exact hupdate _ hkeyboard
  split at h
  · rename_i hmouse
    cases h
    exact hupdate _ hmouse
  · cases h

theorem consumeExpiredEvent_isSome (hne : eventId ≠ 0) (ht : expired t = eventId) :
    ∃ slots, consumeExpiredEvent expired eventId = some slots := by
  unfold consumeExpiredEvent
  rw [if_neg hne]
  cases t with
  | keyboard => exact ⟨_, if_pos ht⟩
  | mouse =>
    by_cases hkeyboard : expired .keyboard = eventId
    · exact ⟨_, if_pos hkeyboard⟩
    · rw [if_neg hkeyboard, if_pos ht]
      exact ⟨_, rfl⟩

namespace System

variable {s t : System} {k : HookType} {frame : LaneFrame} {rest : List LaneFrame} {id : Nat}
  {move : LaneMove} {hookType : HookType}

/-- The main thread has found this lane for a reply of this stream and not yet looked at the
responder. -/
def looksFor (s : System) (k : HookType) (c : Nat) : Bool :=
  match s.main with
  | .found k' m => k' = k && m.connectionId = c
  | _ => false

/-- No callback expires in a slot whose event is still unanswered, and no lane makes a stream its
responder while the main thread is between the two reads for an earlier reply of that stream. -/
def expiryKept (s : System) : Event → Bool
  | .lane k move =>
    (s.lanes k).stack.head?.all fun frame =>
      match move, frame.phase with
      | .giveUp, .waiting c => s.expired c frame.hookType = 0
      | .publish, _ => frame.subscribers.head?.all fun c => !s.looksFor k c
      | .finish, _ => !s.looksFor k frame.savedResponder
      | _, _ => true
  | _ => true

structure Expiries (s : System) : Prop where
  contexts : Contexts s
  /-- An unanswered callback that was given up is in a slot of its stream. -/
  kept : ∀ c id, (c, id) ∈ s.gaveUp → (c, id) ∉ s.answered → ∃ hookType, s.expired c hookType = id
  expiring : ∀ k, ∀ frame ∈ (s.lanes k).stack, ∀ c, frame.phase = .expired c →
    (c, frame.eventId) ∉ s.answered → s.expired c frame.hookType = frame.eventId
  found : ∀ k m, s.main = .found k m → m.requestId ∈ s.used ∧
    (∀ j, j ≠ k → m.requestId ∉ (s.lanes j).stack.map (·.eventId)) ∧
    ((m.connectionId, m.requestId) ∈ s.gaveUp → (s.lanes k).currentResponder ≠ m.connectionId)

theorem expiries_initial : Expiries {} where
  contexts := contexts_initial
  kept _ _ h := absurd h not_mem_nil
  expiring _ _ h := absurd h not_mem_nil
  found _ _ h := by cases h

theorem Contexts.responder_ne (h : Contexts s) {c : Nat} (hid : (s.lanes k).currentEventId ≠ 0)
    (hgone : (c, (s.lanes k).currentEventId) ∈ s.gaveUp) : (s.lanes k).currentResponder ≠ c := by
  have hpub := h.published k
  unfold Lane.Published at hpub
  cases hstack : (s.lanes k).stack with
  | nil =>
    simp only [hstack] at hpub
    exact absurd hpub.1 hid
  | cons frame rest =>
    simp only [hstack] at hpub
    obtain ⟨heq, hnames, -⟩ := hpub
    rw [heq] at hgone
    have hsent := h.gaveUp _ hgone
    have hcalls := (h.frames k frame (by rw [hstack]; exact mem_cons_self)).calls
    unfold LaneFrame.Names at hnames
    unfold LaneFrame.Calls at hcalls
    intro hc
    rw [hc] at hnames
    split at hnames <;> rename_i hphase <;> simp only [hphase] at hcalls
    · rcases hnames with hzero | hnone
      · exact (h.sent _ hsent).1 hzero
      · exact hnone c hsent
    · exact hcalls.2.2 (hnames ▸ hsent)
    all_goals exact hcalls.2.2.2 (hnames ▸ hgone)

theorem currentEventId_of_laneForEventId (h : s.laneForEventId id = some k) :
    id ≠ 0 ∧ (s.lanes k).currentEventId = id := by
  unfold laneForEventId at h
  split at h
  · cases h
  rename_i hzero
  split at h
  · cases h
    exact ⟨hzero, by assumption⟩
  split at h
  · cases h
    exact ⟨hzero, by assumption⟩
  · cases h

theorem Contexts.of_laneForEventId (h : Contexts s) (hfind : s.laneForEventId id = some k) :
    id ∈ s.used ∧ ∀ j, j ≠ k → id ∉ (s.lanes j).stack.map (·.eventId) := by
  obtain ⟨hzero, hid⟩ := currentEventId_of_laneForEventId hfind
  have hpub := h.published k
  unfold Lane.Published at hpub
  cases hstack : (s.lanes k).stack with
  | nil =>
    simp only [hstack] at hpub
    exact absurd (hid.symm.trans hpub.1) hzero
  | cons frame =>
    simp only [hstack] at hpub
    have hframe : id = frame.eventId := hid.symm.trans hpub.1
    have hmem : frame ∈ (s.lanes k).stack := by rw [hstack]; exact mem_cons_self
    subst hframe
    exact ⟨(h.frames k frame hmem).used, fun j hj =>
      h.apart k j (Ne.symm hj) _ (mem_map_of_mem hmem)⟩

section

variable (hmoved : Moved s k frame rest move t)

include hmoved

theorem Moved.frames (hstack : (s.lanes k).stack = frame :: rest) {j : HookType} {g : LaneFrame}
    (hg : g ∈ (t.lanes j).stack) : g ∈ (s.lanes j).stack ∨
      (j = k ∧ g.eventId = frame.eventId ∧ g.hookType = frame.hookType ∧
        (∀ c, g.phase = .expired c → move = .giveUp ∧ frame.phase = .waiting c) ∧
        ∀ c d, g.phase = .decided c d → (s.lanes k).decision = some d ∧
          d.eventId = frame.eventId ∧ d.responder = c) := by
  have hrest : ∀ g ∈ rest, g ∈ (s.lanes k).stack := fun g hg => by
    rw [hstack]
    exact mem_cons_of_mem _ hg
  by_cases hj : j = k
  · subst hj
    cases hmoved <;>
      simp only [setLane, update_self, mem_cons] at hg
    case finish => exact .inl (hrest g hg)
    all_goals
      rcases hg with rfl | hg
      · refine .inr ⟨rfl, rfl, rfl, fun c hc => ?_, fun c d hc => ?_⟩ <;> simp_all
      · exact .inl (hrest g hg)
  · cases hmoved <;> simpa [setLane, hj] using hg

theorem Moved.same :
    t.main = s.main ∧ t.answered = s.answered ∧ t.used = s.used ∧ t.closed = s.closed ∧
      ∀ j, j ≠ k → t.lanes j = s.lanes j := by
  cases hmoved <;>
    exact ⟨rfl, rfl, rfl, rfl, fun j hj => by simp [setLane, hj]⟩

theorem Moved.ids (hstack : (s.lanes k).stack = frame :: rest) (j : HookType) :
    ∀ id ∈ (t.lanes j).stack.map (·.eventId), id ∈ (s.lanes j).stack.map (·.eventId) := by
  intro _ hid
  obtain ⟨g, hg, rfl⟩ := mem_map.mp hid
  rcases hmoved.frames hstack hg with hold | ⟨rfl, heq, -⟩
  · exact mem_map_of_mem hold
  · rw [heq, hstack]
    exact mem_cons_self

end

/-- The slots after a lane step: only giving up writes one, and the guard keeps it empty before. -/
theorem expired_moved (hstack : (s.lanes k).stack = frame :: rest)
    (hguard : s.expiryKept (.lane k move) = true) (hmoved : Moved s k frame rest move t) {c : Nat}
    (hid : id ≠ 0) (hslot : s.expired c hookType = id) : t.expired c hookType = id := by
  cases hmoved with
  | giveUp hphase =>
    rename_i d
    simp only [expiryKept, hstack, head?_cons, Option.all_some, hphase, decide_eq_true_eq] at hguard
    by_cases hc : c = d
    · subst hc
      by_cases ht : hookType = frame.hookType
      · exact absurd (hslot.symm.trans (ht ▸ hguard)) hid
      · simpa [ht] using hslot
    · simpa [hc] using hslot
  | _ => exact hslot

theorem Expiries.moved (h : Expiries s) (hstack : (s.lanes k).stack = frame :: rest)
    (hguard : s.expiryKept (.lane k move) = true) (hmoved : Moved s k frame rest move t) :
    Expiries t := by
  obtain ⟨hmain, hanswered, hused, -, hlanes⟩ := hmoved.same
  have hcontexts := h.contexts.moved hstack hmoved
  have htop : frame ∈ (s.lanes k).stack := by rw [hstack]; exact mem_cons_self
  have hne : ∀ {g : LaneFrame} {j : HookType}, g ∈ (s.lanes j).stack → g.eventId ≠ 0 :=
    fun hg h0 => h.contexts.nonzero (h0 ▸ (h.contexts.frames _ _ hg).used)
  refine ⟨hcontexts, fun c id hgone hfirst => ?_, fun j g hg c hphase hfirst => ?_,
    fun j m hm => ?_⟩
  · rw [hanswered] at hfirst
    have hold : (c, id) ∈ s.gaveUp ∨ (frame.phase = .expired c ∧ id = frame.eventId) := by
      cases hmoved with
      | clearExpired hphase =>
        rcases mem_cons.mp hgone with heq | hgone
        · obtain ⟨rfl, rfl⟩ := heq
          exact .inr ⟨hphase, rfl⟩
        · exact .inl hgone
      | _ => exact .inl hgone
    rcases hold with hold | ⟨hphase, rfl⟩
    · obtain ⟨hookType, hslot⟩ := h.kept c id hold hfirst
      have hid : id ≠ 0 := fun h0 => h.contexts.nonzero
        (h0 ▸ (h.contexts.sent _ (h.contexts.gaveUp _ hold)).2)
      exact ⟨hookType, expired_moved hstack hguard hmoved hid hslot⟩
    · exact ⟨frame.hookType, expired_moved hstack hguard hmoved (hne htop)
        (h.expiring k frame htop c hphase hfirst)⟩
  · rw [hanswered] at hfirst
    rcases hmoved.frames hstack hg with hold | ⟨rfl, hid, htype, hexpired, -⟩
    · exact expired_moved hstack hguard hmoved (hne hold) (h.expiring j g hold c hphase hfirst)
    obtain ⟨rfl, hwaiting⟩ := hexpired c hphase
    rw [hid, htype]
    cases hmoved with
    | giveUp hwaiting' =>
      obtain rfl : _ = c := CallPhase.waiting.inj (hwaiting'.symm.trans hwaiting)
      simp
  rw [hmain] at hm
  obtain ⟨hmused, hother, hresponder⟩ := h.found j m hm
  refine ⟨hused ▸ hmused, fun i hi hmem => hother i hi (hmoved.ids hstack i _ hmem),
    fun hgone => ?_⟩
  have hpos : m.connectionId ≠ 0 := (hcontexts.sent _ (hcontexts.gaveUp _ hgone)).1
  by_cases hj : j = k
  · subst hj
    have hlooks : ∀ c, s.looksFor j c = true ↔ m.connectionId = c := by
      simp [looksFor, hm]
    cases hmoved with
    | publish _ hsubs =>
      simp only [expiryKept, hstack, head?_cons, Option.all_some, hsubs,
        Bool.not_eq_true', ← Bool.not_eq_true, hlooks] at hguard
      simpa [setLane] using Ne.symm hguard
    | finish =>
      simp only [expiryKept, hstack, head?_cons, Option.all_some,
        Bool.not_eq_true', ← Bool.not_eq_true, hlooks] at hguard
      simpa [setLane] using Ne.symm hguard
    | sendFailed _ | clearDecided _ | clearExpired _ => simpa [setLane] using Ne.symm hpos
    | _ => simpa [setLane] using hresponder hgone
  · rw [hlanes j hj]
    -- The event of a callback that this step gives up is on the lane of the step.
    refine hresponder ?_
    cases hmoved with
    | clearExpired =>
      rcases mem_cons.mp hgone with heq | hgone
      · rw [Prod.mk.injEq] at heq
        exact absurd (heq.2 ▸ mem_map_of_mem htop) (hother k (Ne.symm hj))
      · exact hgone
    | _ => exact hgone

theorem Expiries.begin (h : Expiries s) {eventId : Nat} {subscribers : List Nat}
    (ht : s.step (.begin k eventId hookType subscribers) = some t) : Expiries t := by
  have hcontexts := h.contexts.begin ht
  simp only [step] at ht
  split at ht
  · cases ht
  rename_i hfresh
  split at ht
  swap
  · cases ht
  cases ht
  simp only [not_or] at hfresh
  refine ⟨hcontexts, h.kept, fun j g hg c hphase => ?_, fun j m hm => ?_⟩
  · by_cases hj : j = k
    · subst hj
      simp only [setLane, update_self, mem_cons] at hg
      rcases hg with rfl | hg
      · cases hphase
      · exact h.expiring j g hg c hphase
    · exact h.expiring j g (by simpa [setLane, hj] using hg) c hphase
  obtain ⟨hused, hother, hresponder⟩ := h.found j m hm
  refine ⟨mem_cons_of_mem _ hused, fun i hi => ?_, fun hgone => ?_⟩
  · by_cases hik : i = k
    · subst hik
      simp only [setLane, update_self, map_cons, mem_cons, not_or]
      exact ⟨fun heq => hfresh.2.1 (heq ▸ hused), hother i hi⟩
    · simpa [setLane, hik] using hother i hi
  · by_cases hj : j = k
    · subst hj
      simpa [setLane] using hresponder hgone
    · simpa [setLane, hj] using hresponder hgone

theorem Expiries.settle (h : Expiries s) (hmain : MainStep s t)
    (hidle : ∀ k m, t.main ≠ .found k m) (hanswered : ∀ p ∈ s.answered, p ∈ t.answered)
    (hkept : ∀ c id hookType, (c, id) ∉ t.answered →
      s.expired c hookType = id → t.expired c hookType = id) : Expiries t := by
  refine ⟨hmain.contexts h.contexts, fun c id hgone hfirst => ?_,
    fun j g hg c hphase hfirst => ?_, fun k m hm => absurd hm (hidle k m)⟩
  · rw [hmain.gaveUp] at hgone
    obtain ⟨hookType, hslot⟩ := h.kept c id hgone fun hmem => hfirst (hanswered _ hmem)
    exact ⟨hookType, hkept c id hookType hfirst hslot⟩
  have hold : g ∈ (s.lanes j).stack := by
    rcases hmain.lanes j with hj | ⟨d, -, hj⟩ <;> rwa [hj] at hg
  exact hkept c _ _ hfirst
    (h.expiring j g hold c hphase fun hmem => hfirst (hanswered _ hmem))

theorem unmatched_effect (m : Message) : (s.unmatched m).main = .idle ∧
    (s.unmatched m).answered = (m.connectionId, m.requestId) :: s.answered ∧
    ∀ c id hookType, (c, id) ≠ (m.connectionId, m.requestId) →
      s.expired c hookType = id → (s.unmatched m).expired c hookType = id := by
  unfold unmatched
  split
  · exact ⟨rfl, rfl, fun _ _ _ _ h => h⟩
  rename_i slots hconsume
  have hkept : ∀ c id hookType, (c, id) ≠ (m.connectionId, m.requestId) →
      s.expired c hookType = id →
      update s.expired m.connectionId slots c hookType = id := by
    intro c _ _ hne hslot
    by_cases hc : c = m.connectionId
    · subst hc
      rw [update_self]
      exact consumeExpiredEvent_keeps hconsume (fun heq => hne (heq ▸ rfl)) hslot
    · rwa [update_of_ne hc]
  split <;> exact ⟨rfl, rfl, hkept⟩

theorem Expiries.unmatched (h : Expiries s) (m : Message) : Expiries (s.unmatched m) := by
  obtain ⟨hidle, hanswered, hkept⟩ := unmatched_effect m
  refine h.settle (mainStep_unmatched m) (fun k m' => by simp [hidle]) (fun p hp => ?_)
    fun c id hookType hfirst => hkept c id hookType fun heq => hfirst ?_
  · rw [hanswered]
    exact mem_cons_of_mem _ hp
  · rw [hanswered, heq]
    exact mem_cons_self

theorem deliver_effect (m : Message) (rights : Rights) :
    ((s.deliver k m rights).main = .idle ∨ (s.deliver k m rights).main = .passing k m) ∧
    (s.deliver k m rights).expired = s.expired ∧
    ∀ p ∈ s.answered, p ∈ (s.deliver k m rights).answered := by
  unfold deliver
  have hcons : ∀ p ∈ s.answered, p ∈ (m.connectionId, m.requestId) :: s.answered :=
    fun p hp => mem_cons_of_mem _ hp
  split
  · exact ⟨.inl rfl, rfl, hcons⟩
  · split <;> exact ⟨.inl rfl, rfl, hcons⟩
  split
  · split
    · exact ⟨.inl rfl, rfl, hcons⟩
    · exact ⟨.inr rfl, rfl, fun _ hp => hp⟩
  · exact ⟨.inl rfl, rfl, hcons⟩

theorem Expiries.step (h : Expiries s) {e : Event} (hguard : s.expiryKept e = true)
    (ht : s.step e = some t) : Expiries t := by
  obtain ⟨k, id, hookType, subs, rfl⟩ | ⟨k, move, rfl⟩ | hserved := step_cases ht
  · exact h.begin ht
  · obtain ⟨_, _, hstack, hmoved⟩ := moved_of_step ht
    exact h.moved hstack hguard hmoved
  have hmain := hserved.mainStep
  cases hserved with
  | short | passed =>
    exact h.settle hmain (by simp [close, done]) (fun p hp => mem_cons_of_mem _ hp)
      fun _ _ _ _ hslot => hslot
  | unmatched | mismatched => exact h.unmatched _
  | found hfind =>
    refine ⟨hmain.contexts h.contexts, h.kept, h.expiring, fun j m' hm => ?_⟩
    obtain ⟨rfl, rfl⟩ := MainPhase.found.inj hm
    obtain ⟨hused, hother⟩ := h.contexts.of_laneForEventId hfind
    obtain ⟨hzero, hid⟩ := currentEventId_of_laneForEventId hfind
    exact ⟨hused, hother, fun hgone => h.contexts.responder_ne (hid ▸ hzero) (hid ▸ hgone)⟩
  | checked => exact h.settle hmain (by simp) (fun _ hp => hp) fun _ _ _ _ hslot => hslot
  | @delivered k m rights =>
    obtain ⟨hidle, hexpired, hanswered⟩ := deliver_effect m rights
    refine h.settle hmain (fun j m' => ?_) hanswered fun _ _ _ _ hslot => hexpired ▸ hslot
    rcases hidle with heq | heq <;> simp [heq]
  | quarantine | rearm => exact ⟨hmain.contexts h.contexts, h.kept, h.expiring, h.found⟩

theorem expiries_of_reaches (h : Reaches step (fun s e => s.expiryKept e = true) {} s) :
    Expiries s :=
  h.invariant expiries_initial fun _ _ _ hs hguard ht => hs.step hguard ht

def Untouched (s t : System) : Prop :=
  t.lanes = s.lanes ∧ t.quarantined = s.quarantined ∧ t.closed = s.closed

theorem unmatched_drops {m : Message} (hwell : m.WellFormed) (hne : m.requestId ≠ 0)
    (hslot : s.expired m.connectionId hookType = m.requestId) : Untouched s (s.unmatched m) := by
  obtain ⟨_, hconsume⟩ := consumeExpiredEvent_isSome hne hslot
  unfold unmatched
  rw [hconsume]
  dsimp only
  rw [if_pos hwell]
  exact ⟨rfl, rfl, rfl⟩

/-- A well-formed late reply, the first to a callback that has timed out, is discarded: reading it
and handling it change no lane, no quarantine and no connection. -/
theorem late_reply_discarded (h : Reaches step (fun s e => s.expiryKept e = true) {} s)
    {m : Message} (hwell : m.WellFormed) (hlate : (m.connectionId, m.requestId) ∈ s.gaveUp)
    (hfirst : (m.connectionId, m.requestId) ∉ s.answered) :
    (s.main = .idle → m.connectionId ∉ s.closed → ∃ t, s.step (.read m) = some t ∧
      Untouched s t ∧ (t.main = .idle ∨ ∃ k, t.main = .found k m)) ∧
    (∀ k, s.main = .found k m → ∃ t, s.step .check = some t ∧ Untouched s t ∧ t.main = .idle) := by
  have hinv := expiries_of_reaches h
  obtain ⟨hookType, hslot⟩ := hinv.kept _ _ hlate hfirst
  have hne : m.requestId ≠ 0 := fun h0 => hinv.contexts.nonzero
    (h0 ▸ (hinv.contexts.sent _ (hinv.contexts.gaveUp _ hlate)).2)
  have hdrops := unmatched_drops hwell hne hslot
  have hidle := (unmatched_effect (s := s) m).1
  refine ⟨fun hmain hopen => ?_, fun k hmain => ?_⟩
  · have hlong : m.payload ≠ .short := by
      intro heq
      exact hwell (by rw [heq]; rfl)
    simp only [step, hmain, hopen, hlong]
    cases hfind : s.laneForEventId m.requestId with
    | none => exact ⟨_, rfl, hdrops, .inl hidle⟩
    | some k => exact ⟨_, rfl, ⟨rfl, rfl, rfl⟩, .inr ⟨k, rfl⟩⟩
  · have hresponder := (hinv.found k m hmain).2.2 hlate
    simp only [step, hmain, hresponder]
    exact ⟨_, rfl, hdrops, hidle⟩

def timedOutCall (eventId : Nat) : List Event :=
  [.begin .keyboard eventId .keyboard [5], .lane .keyboard .publish, .lane .keyboard (.send true),
   .lane .keyboard .giveUp, .lane .keyboard .clear, .lane .keyboard .finish]

def passReply (eventId : Nat) : Message := ⟨5, eventId, .decision 0 0 [] ⟨0, by decide⟩⟩

theorem late_reply_discarded_run : ∃ s t : System, (5, 1) ∈ s.gaveUp ∧
    s.step (.read (passReply 1)) = some t ∧ Untouched s t := by
  obtain ⟨s, hs, hlate, hfirst, hmain, hopen⟩ := exists_reaches_of_check step expiryKept {}
    (timedOutCall 1 ++ [.quarantine 5 .keyboard, .rearm 5 .keyboard])
    (q := fun s => (5, 1) ∈ s.gaveUp ∧ (5, 1) ∉ s.answered ∧ s.main = .idle ∧ 5 ∉ s.closed)
    (by decide) (by decide)
  have hwell : (passReply 1).WellFormed := by decide
  obtain ⟨t, ht, huntouched, -⟩ := (late_reply_discarded hs hwell hlate hfirst).1 hmain hopen
  exact ⟨s, t, hlate, ht, huntouched⟩

/-- Two callbacks of one hook type expire before the first reply comes: that reply ends the
client. -/
theorem late_reply_ends_client : ∃ s : System, Reaches step always {} s ∧
    (passReply 1).WellFormed ∧ (5, 1) ∈ s.gaveUp ∧ (5, 1) ∉ s.answered ∧ s.main = .idle ∧
    5 ∉ s.closed ∧ (s.step (.read (passReply 1))).any (fun t => decide (5 ∈ t.closed)) = true :=
  exists_reaches _ _
    (timedOutCall 1 ++ [.quarantine 5 .keyboard, .rearm 5 .keyboard] ++ timedOutCall 2) (by decide)

end System

end KeysharpInput.Reply
