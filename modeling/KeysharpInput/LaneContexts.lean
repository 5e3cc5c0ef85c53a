import KeysharpInput.Replies

/-!
What a lane has published about its callbacks.
The event id and the responder that the main thread reads belong to the topmost activation, and an
activation below it keeps the values that it will restore. A stream is called once for an event,
so a callback that was sent, has been given up, or is still to come can be told apart by the
history alone. One lemma covers every step that changes only the topmost activation.
-/

namespace KeysharpInput.Reply

open Function List Option LaneFrame

open Session (HookType)

def LaneFrame.Names (frame : LaneFrame) (sent : List (Nat × Nat)) (responder : Nat) : Prop :=
  match frame.phase with
  | .between => responder = 0 ∨ ∀ c, (c, frame.eventId) ∉ sent
  | .published c | .waiting c | .decided c _ | .expired c => responder = c

def LaneFrame.Calls (frame : LaneFrame) (sent gaveUp : List (Nat × Nat)) : Prop :=
  match frame.phase with
  | .between => True
  | .published c => c ≠ 0 ∧ c ∉ frame.subscribers ∧ (c, frame.eventId) ∉ sent
  | .waiting c | .decided c _ | .expired c =>
    c ≠ 0 ∧ c ∉ frame.subscribers ∧ (c, frame.eventId) ∈ sent ∧ (c, frame.eventId) ∉ gaveUp

structure LaneFrame.Ok (frame : LaneFrame) (used : List Nat) (sent gaveUp : List (Nat × Nat)) :
    Prop where
  used : frame.eventId ∈ used
  nodup : frame.subscribers.Nodup
  nonzero : 0 ∉ frame.subscribers
  uncalled : ∀ c ∈ frame.subscribers, (c, frame.eventId) ∉ sent
  calls : frame.Calls sent gaveUp

def Linked : List LaneFrame → Nat → Nat → Prop
  | [], eventId, responder => eventId = 0 ∧ responder = 0
  | frame :: rest, eventId, responder => eventId = frame.eventId ∧
      frame.phase = .waiting responder ∧ Linked rest frame.savedEventId frame.savedResponder

def Lane.Published (lane : Lane) (sent : List (Nat × Nat)) : Prop :=
  match lane.stack with
  | [] => lane.currentEventId = 0 ∧ lane.currentResponder = 0
  | frame :: rest => lane.currentEventId = frame.eventId ∧ frame.Names sent lane.currentResponder ∧
      Linked rest frame.savedEventId frame.savedResponder

theorem LaneFrame.Ok.other {g : LaneFrame} {used : List Nat} {sent gaveUp : List (Nat × Nat)}
    (h : g.Ok used sent gaveUp) {sent' gaveUp' : List (Nat × Nat)}
    (hsent : ∀ c, (c, g.eventId) ∈ sent' ↔ (c, g.eventId) ∈ sent)
    (hgaveUp : ∀ c, (c, g.eventId) ∈ gaveUp' ↔ (c, g.eventId) ∈ gaveUp) :
    g.Ok used sent' gaveUp' where
  used := h.used
  nodup := h.nodup
  nonzero := h.nonzero
  uncalled c hc hmem := h.uncalled c hc ((hsent c).mp hmem)
  calls := by
    have := h.calls
    unfold Calls at this ⊢
    split <;> rename_i hphase <;> simp only [hphase] at this
    · trivial
    · exact ⟨this.1, this.2.1, fun hmem => this.2.2 ((hsent _).mp hmem)⟩
    all_goals
      exact ⟨this.1, this.2.1, (hsent _).mpr this.2.2.1,
        fun hmem => this.2.2.2 ((hgaveUp _).mp hmem)⟩

namespace System

variable {s t : System} {k : HookType} {frame frame' : LaneFrame} {rest : List LaneFrame}
  {move : LaneMove} {d : LaneDecision}

structure Contexts (s : System) : Prop where
  published : ∀ k, (s.lanes k).Published s.sent
  frames : ∀ k, ∀ frame ∈ (s.lanes k).stack, frame.Ok s.used s.sent s.gaveUp
  nodup : ∀ k, ((s.lanes k).stack.map (·.eventId)).Nodup
  apart : ∀ k k', k ≠ k' → ∀ id ∈ (s.lanes k).stack.map (·.eventId),
    id ∉ (s.lanes k').stack.map (·.eventId)
  nonzero : 0 ∉ s.used
  sent : ∀ p ∈ s.sent, p.1 ≠ 0 ∧ p.2 ∈ s.used
  gaveUp : ∀ p ∈ s.gaveUp, p ∈ s.sent

theorem contexts_initial : Contexts {} where
  published _ := ⟨rfl, rfl⟩
  frames _ _ h := absurd h not_mem_nil
  nodup _ := nodup_nil
  apart _ _ _ _ h := absurd h not_mem_nil
  nonzero := not_mem_nil
  sent _ h := absurd h not_mem_nil
  gaveUp _ h := absurd h not_mem_nil

theorem Contexts.congr (h : Contexts s)
    (hlanes : ∀ k, (t.lanes k).currentEventId = (s.lanes k).currentEventId ∧
      (t.lanes k).currentResponder = (s.lanes k).currentResponder ∧
      (t.lanes k).stack = (s.lanes k).stack) (hused : t.used = s.used) (hsent : t.sent = s.sent)
    (hgaveUp : t.gaveUp = s.gaveUp) : Contexts t := by
  refine ⟨fun k => ?_, fun k => ?_, fun k => ?_, fun k k' => ?_, ?_, ?_, ?_⟩
  · obtain ⟨he, hr, hs⟩ := hlanes k
    have := h.published k
    unfold Lane.Published at this ⊢
    rwa [he, hr, hs, hsent]
  · rw [(hlanes k).2.2, hused, hsent, hgaveUp]
    exact h.frames k
  · rw [(hlanes k).2.2]
    exact h.nodup k
  · rw [(hlanes k).2.2, (hlanes k').2.2]
    exact h.apart k k'
  · rw [hused]
    exact h.nonzero
  · rw [hused, hsent]
    exact h.sent
  · rw [hgaveUp, hsent]
    exact h.gaveUp

theorem Contexts.ne_of_other (h : Contexts s) (hstack : (s.lanes k).stack = frame :: rest)
    {k' : HookType} {g : LaneFrame} (hg : g ∈ (s.lanes k').stack) (hother : k' = k → g ∈ rest) :
    g.eventId ≠ frame.eventId := by
  by_cases hk : k' = k
  · have hnodup := h.nodup k
    rw [hstack, map_cons, nodup_cons] at hnodup
    intro heq
    exact hnodup.1 (heq ▸ mem_map_of_mem (hother hk))
  · intro heq
    refine h.apart k k' (Ne.symm hk) frame.eventId ?_ (heq ▸ mem_map_of_mem hg)
    rw [hstack]
    exact mem_cons_self

theorem Contexts.setTop (h : Contexts s) (hstack : (s.lanes k).stack = frame :: rest)
    {responder : Nat} {decision : Option LaneDecision} (hlanes : t.lanes = update s.lanes k
      { s.lanes k with currentResponder := responder, decision := decision,
                       stack := frame' :: rest }) (hid : frame'.eventId = frame.eventId)
    (hsaved : frame'.savedEventId = frame.savedEventId ∧
      frame'.savedResponder = frame.savedResponder) (hused : t.used = s.used)
    (hsent : ∀ c id, id ≠ frame.eventId → ((c, id) ∈ t.sent ↔ (c, id) ∈ s.sent))
    (hgaveUp : ∀ c id, id ≠ frame.eventId → ((c, id) ∈ t.gaveUp ↔ (c, id) ∈ s.gaveUp))
    (hnew : ∀ p ∈ t.sent, p.1 ≠ 0 ∧ p.2 ∈ s.used) (hgone : ∀ p ∈ t.gaveUp, p ∈ t.sent)
    (hok : frame'.Ok s.used t.sent t.gaveUp) (hnames : frame'.Names t.sent responder) :
    Contexts t := by
  have hids : ∀ j, (t.lanes j).stack.map (·.eventId) = (s.lanes j).stack.map (·.eventId) := by
    intro j
    by_cases hj : j = k
    · subst hj
      simp [hlanes, hstack, hid]
    · simp [hlanes, hj]
  refine ⟨fun j => ?_, fun j g hg => ?_, fun j => ?_, fun j j' => ?_, ?_, ?_, hgone⟩
  · by_cases hj : j = k
    · subst hj
      have hpub := h.published j
      unfold Lane.Published at hpub ⊢
      simp only [hlanes, update_self]
      rw [hstack] at hpub
      refine ⟨hpub.1.trans hid.symm, hnames, ?_⟩
      rw [hsaved.1, hsaved.2]
      exact hpub.2.2
    have hpub := h.published j
    unfold Lane.Published at hpub ⊢
    simp only [hlanes, update_of_ne hj]
    split
    · rename_i heq
      rwa [heq] at hpub
    rename_i g _ heq
    rw [heq] at hpub
    refine ⟨hpub.1, ?_, hpub.2.2⟩
    have hne : g.eventId ≠ frame.eventId :=
      h.ne_of_other hstack (by rw [heq]; exact mem_cons_self) (fun hjk => absurd hjk hj)
    have hg := hpub.2.1
    unfold Names at hg ⊢
    split <;> rename_i hphase <;> simp only [hphase] at hg
    · exact hg.imp_right fun hnone c hmem => hnone c ((hsent c _ hne).mp hmem)
    all_goals exact hg
  · rw [hused]
    have hcases : g = frame' ∨ (g ∈ (s.lanes j).stack ∧ (j = k → g ∈ rest)) := by
      by_cases hj : j = k
      · subst hj
        simp only [hlanes, update_self, mem_cons] at hg
        refine hg.imp_right fun hrest => ⟨?_, fun _ => hrest⟩
        rw [hstack]
        exact mem_cons_of_mem _ hrest
      · simp only [hlanes, update_of_ne hj] at hg
        exact .inr ⟨hg, fun hjk => absurd hjk hj⟩
    rcases hcases with rfl | ⟨hold, hother⟩
    · exact hok
    · have hne := h.ne_of_other hstack hold hother
      exact (h.frames j g hold).other (fun c => hsent c _ hne) fun c => hgaveUp c _ hne
  · rw [hids]
    exact h.nodup j
  · rw [hids, hids]
    exact h.apart j j'
  · rw [hused]
    exact h.nonzero
  · rw [hused]
    exact hnew

theorem Contexts.popTop (h : Contexts s) (hstack : (s.lanes k).stack = frame :: rest)
    (hlinked : Linked rest frame.savedEventId frame.savedResponder) :
    Contexts (s.setLane k { s.lanes k with
      currentEventId := frame.savedEventId
      currentResponder := frame.savedResponder
      stack := rest }) := by
  have hmem : ∀ j, ∀ g ∈ ((s.setLane k { s.lanes k with
      currentEventId := frame.savedEventId
      currentResponder := frame.savedResponder
      stack := rest }).lanes j).stack, g ∈ (s.lanes j).stack := by
    intro j g hg
    by_cases hj : j = k
    · subst hj
      rw [hstack]
      exact mem_cons_of_mem _ (by simpa [setLane] using hg)
    · simpa [setLane, hj] using hg
  refine ⟨fun j => ?_, fun j g hg => h.frames j g (hmem j g hg), fun j => ?_,
    fun j j' hne id hid hid' => ?_, h.nonzero, h.sent, h.gaveUp⟩
  · by_cases hj : j = k
    · subst hj
      simp only [Lane.Published, setLane, update_self]
      split
      · exact hlinked
      · exact ⟨hlinked.1, by simp [Names, hlinked.2.1], hlinked.2.2⟩
    · simpa [setLane, hj] using h.published j
  · by_cases hj : j = k
    · subst hj
      have hnodup := h.nodup j
      rw [hstack, map_cons, nodup_cons] at hnodup
      simpa [setLane] using hnodup.2
    · simpa [setLane, hj] using h.nodup j
  · obtain ⟨g, hg, rfl⟩ := mem_map.mp hid
    obtain ⟨g', hg', heq⟩ := mem_map.mp hid'
    exact h.apart j j' hne g.eventId (mem_map_of_mem (hmem j g hg))
      (heq ▸ mem_map_of_mem (hmem j' g' hg'))

inductive Moved (s : System) (k : HookType) (frame : LaneFrame) (rest : List LaneFrame) :
    LaneMove → System → Prop
  | skip {c others} : frame.phase = .between → frame.subscribers = c :: others →
      Moved s k frame rest .skip (s.setLane k { s.lanes k with
        stack := { frame with subscribers := others } :: rest })
  | publish {c others} : frame.phase = .between → frame.subscribers = c :: others →
      Moved s k frame rest .publish (s.setLane k { s.lanes k with
        currentResponder := c
        stack := { frame with subscribers := others, phase := .published c } :: rest })
  | sent {c} : frame.phase = .published c →
      Moved s k frame rest (.send true) { s.setLane k { s.lanes k with
          stack := { frame with phase := .waiting c } :: rest } with
        sent := (c, frame.eventId) :: s.sent }
  | sendFailed {c} : frame.phase = .published c →
      Moved s k frame rest (.send false) (s.setLane k { s.lanes k with
        currentResponder := 0, stack := { frame with phase := .between } :: rest })
  | taken {c d} : frame.phase = .waiting c → (s.lanes k).decision = some d →
      d.eventId = frame.eventId → d.responder = c →
      Moved s k frame rest .pop (s.setLane k { s.lanes k with
        decision := none, stack := { frame with phase := .decided c d } :: rest })
  | dropped {c d} : frame.phase = .waiting c → (s.lanes k).decision = some d →
      ¬ (d.eventId = frame.eventId ∧ d.responder = c) →
      Moved s k frame rest .pop (s.setLane k { s.lanes k with
        decision := none, stack := { frame with phase := .waiting c } :: rest })
  | giveUp {c} : frame.phase = .waiting c →
      Moved s k frame rest .giveUp { s.setLane k { s.lanes k with
          stack := { frame with phase := .expired c } :: rest } with
        expired := update s.expired c
          (update (s.expired c) frame.hookType frame.eventId) }
  | clearDecided {c d} : frame.phase = .decided c d →
      Moved s k frame rest .clear (s.setLane k { s.lanes k with
        currentResponder := 0, stack := { frame with phase := .between } :: rest })
  | clearExpired {c} : frame.phase = .expired c →
      Moved s k frame rest .clear { s.setLane k { s.lanes k with
          currentResponder := 0, stack := { frame with phase := .between } :: rest } with
        gaveUp := (c, frame.eventId) :: s.gaveUp }
  | finish : frame.phase = .between → Moved s k frame rest .finish (s.setLane k { s.lanes k with
        currentEventId := frame.savedEventId
        currentResponder := frame.savedResponder
        stack := rest })

theorem moved_of_laneStep (h : s.laneStep k frame rest move = some t) :
    Moved s k frame rest move t := by
  cases move with
  | skip =>
    simp only [laneStep] at h
    split at h
    · rename_i hphase hsubs
      cases h
      exact .skip hphase hsubs
    · cases h
  | publish =>
    simp only [laneStep] at h
    split at h
    · rename_i hphase hsubs
      cases h
      exact .publish hphase hsubs
    · cases h
  | send ok =>
    simp only [laneStep] at h
    split at h
    · rename_i hphase
      cases ok with
      | true =>
        cases h
        exact .sent hphase
      | false =>
        cases h
        exact .sendFailed hphase
    · cases h
  | pop =>
    simp only [laneStep] at h
    split at h
    · rename_i c d hphase hslot
      cases h
      by_cases hmatch : d.eventId = frame.eventId ∧ d.responder = c
      · rw [if_pos hmatch]
        exact .taken hphase hslot hmatch.1 hmatch.2
      · rw [if_neg hmatch]
        exact .dropped hphase hslot hmatch
    · cases h
  | giveUp =>
    simp only [laneStep] at h
    split at h
    · rename_i hphase
      cases h
      exact .giveUp hphase
    · cases h
  | clear =>
    simp only [laneStep] at h
    split at h
    · rename_i hphase
      cases h
      exact .clearDecided hphase
    · rename_i hphase
      cases h
      exact .clearExpired hphase
    · cases h
  | finish =>
    simp only [laneStep] at h
    split at h
    · rename_i hphase
      cases h
      exact .finish hphase
    · cases h

theorem moved_of_step (h : s.step (.lane k move) = some t) :
    ∃ frame rest, (s.lanes k).stack = frame :: rest ∧ Moved s k frame rest move t := by
  simp only [step] at h
  split at h
  · rename_i frame rest hstack
    exact ⟨frame, rest, hstack, moved_of_laneStep h⟩
  · cases h

theorem Contexts.moved (h : Contexts s) (hstack : (s.lanes k).stack = frame :: rest)
    (hmoved : Moved s k frame rest move t) : Contexts t := by
  have hok := h.frames k frame (by rw [hstack]; exact mem_cons_self)
  have hpub := h.published k
  unfold Lane.Published at hpub
  rw [hstack] at hpub
  obtain ⟨-, hnames, hlinked⟩ := hpub
  have hcalls := hok.calls
  unfold Calls at hcalls
  cases hmoved with
  | skip hphase hsubs =>
    refine h.setTop hstack rfl rfl ⟨rfl, rfl⟩ rfl (fun _ _ _ => .rfl) (fun _ _ _ => .rfl) h.sent
      h.gaveUp ?_ ?_
    · have hmem : ∀ c ∈ _, c ∈ frame.subscribers := fun c hc =>
        hsubs ▸ mem_cons_of_mem _ hc
      refine ⟨hok.used, (nodup_cons.mp (hsubs ▸ hok.nodup)).2,
        fun h0 => hok.nonzero (hmem 0 h0), fun c hc => hok.uncalled c (hmem c hc), ?_⟩
      simp [Calls, hphase]
    · simpa [Names, setLane] using hnames
  | publish hphase hsubs =>
    rename_i c others
    have hmem : ∀ d ∈ others, d ∈ frame.subscribers := fun d hd =>
      hsubs ▸ mem_cons_of_mem _ hd
    have hc : c ∈ frame.subscribers := hsubs ▸ mem_cons_self
    have hnodup := nodup_cons.mp (hsubs ▸ hok.nodup)
    refine h.setTop hstack rfl rfl ⟨rfl, rfl⟩ rfl (fun _ _ _ => .rfl) (fun _ _ _ => .rfl) h.sent
      h.gaveUp ?_ rfl
    exact ⟨hok.used, hnodup.2, fun h0 => hok.nonzero (hmem 0 h0),
      fun d hd => hok.uncalled d (hmem d hd),
      fun h0 => hok.nonzero (h0 ▸ hc), hnodup.1, hok.uncalled c hc⟩
  | sent hphase =>
    rename_i c
    simp only [hphase] at hcalls
    refine h.setTop hstack rfl rfl ⟨rfl, rfl⟩ rfl (fun d id hne => ?_) (fun _ _ _ => .rfl)
      ?_ ?_ ?_ ?_
    · refine ⟨fun hmem => (mem_cons.mp hmem).resolve_left ?_, mem_cons_of_mem _⟩
      intro heq
      exact hne (Prod.ext_iff.mp heq).2
    · intro p hp
      rcases mem_cons.mp hp with rfl | hp
      · exact ⟨hcalls.1, hok.used⟩
      · exact h.sent p hp
    · exact fun p hp => mem_cons_of_mem _ (h.gaveUp p hp)
    · refine ⟨hok.used, hok.nodup, hok.nonzero, fun d hd hmem => ?_, hcalls.1, hcalls.2.1,
        mem_cons_self, fun hgone => hcalls.2.2 (h.gaveUp _ hgone)⟩
      rcases mem_cons.mp hmem with heq | hmem
      · have hdc : d = c := (Prod.ext_iff.mp heq).1
        exact hcalls.2.1 (hdc ▸ hd)
      · exact hok.uncalled d hd hmem
    · simpa [Names, hphase] using hnames
  | sendFailed hphase | clearDecided hphase =>
    exact h.setTop hstack rfl rfl ⟨rfl, rfl⟩ rfl (fun _ _ _ => .rfl) (fun _ _ _ => .rfl) h.sent
      h.gaveUp ⟨hok.used, hok.nodup, hok.nonzero, hok.uncalled, trivial⟩ (.inl rfl)
  | taken hphase hslot hevent hresponder | dropped hphase hslot hmismatch | giveUp hphase =>
    simp only [hphase] at hcalls
    refine h.setTop hstack rfl rfl ⟨rfl, rfl⟩ rfl (fun _ _ _ => .rfl) (fun _ _ _ => .rfl) h.sent
      h.gaveUp ⟨hok.used, hok.nodup, hok.nonzero, hok.uncalled, hcalls⟩ ?_
    simpa [Names, hphase] using hnames
  | clearExpired hphase =>
    simp only [hphase] at hcalls
    refine h.setTop hstack rfl rfl ⟨rfl, rfl⟩ rfl (fun _ _ _ => .rfl) (fun d id hne => ?_) h.sent ?_
      ⟨hok.used, hok.nodup, hok.nonzero, hok.uncalled, trivial⟩ (.inl rfl)
    · refine ⟨fun hmem => (mem_cons.mp hmem).resolve_left ?_, mem_cons_of_mem _⟩
      intro heq
      exact hne (Prod.ext_iff.mp heq).2
    intro p hp
    rcases mem_cons.mp hp with rfl | hp
    · exact hcalls.2.2.1
    · exact h.gaveUp p hp
  | finish => exact h.popTop hstack hlinked

theorem Contexts.begin (h : Contexts s) {eventId : Nat} {hookType : HookType}
    {subscribers : List Nat} (ht : s.step (.begin k eventId hookType subscribers) = some t) :
    Contexts t := by
  simp only [step] at ht
  split at ht
  · cases ht
  rename_i hfresh
  split at ht
  swap
  · cases ht
  rename_i htop
  cases ht
  simp only [not_or, not_not] at hfresh
  obtain ⟨hzero, hunused, hnodup, hnonzero⟩ := hfresh
  have hunsent : ∀ c, (c, eventId) ∉ s.sent := fun c hmem => hunused (h.sent _ hmem).2
  have hnew : ∀ j, eventId ∉ (s.lanes j).stack.map (·.eventId) := by
    intro j hmem
    obtain ⟨g, hg, hid⟩ := mem_map.mp hmem
    exact hunused (hid ▸ (h.frames j g hg).used)
  have hkept : ∀ j, ∀ g ∈ (s.lanes j).stack, g.Ok (eventId :: s.used) s.sent s.gaveUp :=
    fun j g hg => { h.frames j g hg with used := mem_cons_of_mem _ (h.frames j g hg).used }
  refine ⟨fun j => ?_, fun j g hg => ?_, fun j => ?_, fun j j' hne id hid hid' => ?_,
    by simpa [Ne.symm hzero] using h.nonzero,
    fun p hp => ⟨(h.sent p hp).1, mem_cons_of_mem _ (h.sent p hp).2⟩, h.gaveUp⟩
  · by_cases hj : j = k
    · subst hj
      have hpub := h.published j
      simp only [Lane.Published, setLane, update_self]
      refine ⟨trivial, .inr hunsent, ?_⟩
      unfold Lane.Published at hpub
      cases hstack : (s.lanes j).stack with
      | nil => simpa [hstack, Linked] using hpub
      | cons g others =>
        simp only [hstack] at hpub
        simp only [hstack, head?_cons, all_some] at htop
        refine ⟨hpub.1, ?_, hpub.2.2⟩
        have hg := hpub.2.1
        unfold CallPhase.isWaiting at htop
        split at htop
        · rename_i c hphase
          simp only [Names, hphase] at hg
          rw [hphase, hg]
        · cases htop
    · simpa [setLane, hj] using h.published j
  · by_cases hj : j = k
    · subst hj
      simp only [setLane, update_self, mem_cons] at hg
      rcases hg with rfl | hg
      · exact ⟨mem_cons_self, hnodup, hnonzero, fun c _ => hunsent c, trivial⟩
      · exact hkept j g hg
    · exact hkept j g (by simpa [setLane, hj] using hg)
  · by_cases hj : j = k
    · subst hj
      simp only [setLane, update_self, map_cons, nodup_cons]
      exact ⟨hnew j, h.nodup j⟩
    · simpa [setLane, hj] using h.nodup j
  -- The new event is in neither stack, and the old ones stay apart.
  by_cases hj : j = k
  · subst hj
    simp only [setLane, update_self, update_of_ne hne.symm, map_cons, mem_cons] at hid hid'
    rcases hid with rfl | hid
    · exact hnew _ hid'
    · exact h.apart j j' hne id hid hid'
  simp only [setLane, update_of_ne hj] at hid
  by_cases hj' : j' = k
  · subst hj'
    simp only [setLane, update_self, map_cons, mem_cons] at hid'
    rcases hid' with rfl | hid'
    · exact hnew _ hid
    · exact h.apart j j' hne id hid hid'
  · simp only [setLane, update_of_ne hj'] at hid'
    exact h.apart j j' hne id hid hid'

structure MainStep (s t : System) : Prop where
  lanes : ∀ k, t.lanes k = s.lanes k ∨ ∃ d, (s.lanes k).decision = none ∧
    t.lanes k = { s.lanes k with decision := some d }
  used : t.used = s.used
  sent : t.sent = s.sent
  gaveUp : t.gaveUp = s.gaveUp

theorem MainStep.contexts (hmain : MainStep s t) (h : Contexts s) : Contexts t := by
  refine h.congr (fun k => ?_) hmain.used hmain.sent hmain.gaveUp
  rcases hmain.lanes k with hk | ⟨d, -, hk⟩ <;> rw [hk] <;> exact ⟨rfl, rfl, rfl⟩

theorem mainStep_of_lanes (hlanes : t.lanes = s.lanes) (hused : t.used = s.used)
    (hsent : t.sent = s.sent) (hgaveUp : t.gaveUp = s.gaveUp) : MainStep s t :=
  ⟨fun _ => .inl (congrFun hlanes _), hused, hsent, hgaveUp⟩

theorem mainStep_push {lane : Lane} (hpush : (s.lanes k).push d = some lane)
    (hlanes : t.lanes = update s.lanes k lane) (hused : t.used = s.used)
    (hsent : t.sent = s.sent) (hgaveUp : t.gaveUp = s.gaveUp) : MainStep s t := by
  refine ⟨fun j => ?_, hused, hsent, hgaveUp⟩
  by_cases hj : j = k
  · subst hj
    unfold Lane.push at hpush
    split at hpush
    · rename_i hempty
      cases hpush
      exact .inr ⟨d, hempty, by simp [hlanes]⟩
    · cases hpush
  · exact .inl (by simp [hlanes, hj])

theorem mainStep_offer (hlanes : t.lanes = update s.lanes k ((s.lanes k).offer d))
    (hused : t.used = s.used) (hsent : t.sent = s.sent) (hgaveUp : t.gaveUp = s.gaveUp) :
    MainStep s t := by
  unfold Lane.offer at hlanes
  cases hpush : (s.lanes k).push d with
  | none =>
    refine mainStep_of_lanes ?_ hused hsent hgaveUp
    simpa [hpush] using hlanes
  | some => exact mainStep_push hpush (by simpa [hpush] using hlanes) hused hsent hgaveUp

theorem mainStep_unmatched (m : Message) : MainStep s (s.unmatched m) := by
  unfold unmatched
  split
  · exact mainStep_of_lanes rfl rfl rfl rfl
  · split <;> exact mainStep_of_lanes rfl rfl rfl rfl

theorem mainStep_deliver (m : Message) (rights : Rights) : MainStep s (s.deliver k m rights) := by
  unfold deliver
  split
  · exact mainStep_offer rfl rfl rfl rfl
  · split
    · rename_i hpush
      exact mainStep_push hpush rfl rfl rfl rfl
    · exact mainStep_of_lanes rfl rfl rfl rfl
  split
  · split
    · rename_i hpush
      exact mainStep_push hpush rfl rfl rfl rfl
    · exact mainStep_of_lanes rfl rfl rfl rfl
  · exact mainStep_offer rfl rfl rfl rfl

inductive Served (s : System) : Event → System → Prop
  | short {m} : Served s (.read m) (s.close m)
  | unmatched {m} : Served s (.read m) (s.unmatched m)
  | found {k m} : s.laneForEventId m.requestId = some k →
      Served s (.read m) { s with main := .found k m }
  | checked {k m} : s.main = .found k m → (s.lanes k).currentResponder = m.connectionId →
      Served s .check { s with main := .checked k m }
  | mismatched {m} : Served s .check (s.unmatched m)
  | delivered {k m} (rights) : s.main = .checked k m →
      Served s (.deliver rights) (s.deliver k m rights)
  | passed {k m} : s.main = .passing k m →
      Served s .pass ((s.setLane k ((s.lanes k).offer (m.laneDecision .pass []))).close m)
  | quarantine (c t) :
      Served s (.quarantine c t) { s with quarantined := insert (c, t) s.quarantined }
  | rearm (c t) : Served s (.rearm c t) { s with quarantined := s.quarantined.erase (c, t) }

theorem step_cases {e : Event} (ht : s.step e = some t) :
    (∃ k id hookType subscribers, e = .begin k id hookType subscribers) ∨
      (∃ k move, e = .lane k move) ∨ Served s e t := by
  cases e with
  | begin k id hookType subscribers => exact .inl ⟨k, id, hookType, subscribers, rfl⟩
  | lane k move => exact .inr (.inl ⟨k, move, rfl⟩)
  | read m =>
    simp only [step] at ht
    split at ht
    · cases ht
    split at ht
    · exact .inr (.inr (some.inj ht ▸ .short))
    split at ht
    · exact .inr (.inr (some.inj ht ▸ .unmatched))
    · rename_i hfind
      exact .inr (.inr (some.inj ht ▸ .found hfind))
  | check =>
    simp only [step] at ht
    split at ht
    · rename_i hphase
      split at ht
      · rename_i hresponder
        exact .inr (.inr (some.inj ht ▸ .checked hphase hresponder))
      · exact .inr (.inr (some.inj ht ▸ .mismatched))
    · cases ht
  | deliver rights =>
    simp only [step] at ht
    split at ht
    · rename_i hphase
      exact .inr (.inr (some.inj ht ▸ .delivered rights hphase))
    · cases ht
  | pass =>
    simp only [step] at ht
    split at ht
    · rename_i hphase
      exact .inr (.inr (some.inj ht ▸ .passed hphase))
    · cases ht
  | quarantine c hookType => exact .inr (.inr (some.inj ht ▸ .quarantine c hookType))
  | rearm c hookType => exact .inr (.inr (some.inj ht ▸ .rearm c hookType))

theorem Served.mainStep {e : Event} (h : Served s e t) : MainStep s t := by
  cases h with
  | unmatched | mismatched => exact mainStep_unmatched _
  | delivered rights => exact mainStep_deliver _ rights
  | passed => exact mainStep_offer rfl rfl rfl rfl
  | _ => exact mainStep_of_lanes rfl rfl rfl rfl

end System

end KeysharpInput.Reply
