import KeysharpInput.Gaps
import KeysharpInput.Observers

/-!
What an observer hears accounts for every notice it is owed.
The frames written, the frames queued and the pending count condense the notices that were
published for the observer: nothing is out of order, and each loss is counted once, at its
place. A pause turns queued frames into counts, and a flush moves frames from the queue to the
stream, neither of which changes the account.
-/

namespace KeysharpInput.Observers

open Gaps Transition List Option

def ObserverFrame.record : ObserverFrame → Record Notice
  | .notice n => .item n
  | .overflow _ dropped => .gap dropped

theorem ObserverFrame.weight_record (frame : ObserverFrame) : frame.record.weight = frame.lost := by
  cases frame <;> rfl

namespace Observer

variable {c d : Observer} {seat : Seat} {frame : ObserverFrame} {e : Observer} {count : Nat}

def told (c : Observer) : List (Record Notice) :=
  (c.delivered ++ c.queue).map ObserverFrame.record ++ pending c.dropped

structure Account (c : Observer) : Prop where
  condenses : Condenses c.told (c.published.map .item)
  queued : ∀ frame ∈ c.queue, 0 < frame.lost
  idle : c.observerSubscriptions = ∅ → c.queue = [] ∧ c.dropped = 0

structure Counted (c : Observer) : Prop where
  role : c.connectionRole = .observerStream
  valid : c.streamValid = true
  saturated : c.saturated = false
  withdrawn : c.withdrawn = false

structure Sound (c : Observer) : Prop where
  monitoring : c.observerSubscriptions ≠ ∅ → c.monitoring = true
  account : c.Counted → c.Account

structure Same (c d : Observer) : Prop where
  role : d.connectionRole = c.connectionRole
  subscriptions : d.observerSubscriptions = c.observerSubscriptions
  monitoring : d.monitoring = c.monitoring
  withdrawn : d.withdrawn = c.withdrawn

theorem Same.trans (h : Same c d) (h' : Same d e) : Same c e :=
  ⟨h'.role.trans h.role, h'.subscriptions.trans h.subscriptions,
    h'.monitoring.trans h.monitoring, h'.withdrawn.trans h.withdrawn⟩

theorem same_countLost (c : Observer) (count : Nat) : Same c (c.countLost count) := by
  unfold countLost
  split <;> exact ⟨rfl, rfl, rfl, rfl⟩

theorem countLost_eq (h : (c.countLost count).saturated = false) :
    c.countLost count = { c with dropped := c.dropped + count } := by
  unfold countLost at h ⊢
  split
  · rename_i hlt
    simp [hlt] at h
  · rfl

theorem saturated_of_countLost (h : (c.countLost count).saturated = false) :
    c.saturated = false := by
  rw [countLost_eq h] at h
  exact h

theorem foldl_countLost (c : Observer) (frames : List ObserverFrame) :
    Same c (frames.foldl (fun c frame => c.countLost frame.lost) c) ∧
      ((frames.foldl (fun c frame => c.countLost frame.lost) c).saturated = false →
        c.saturated = false ∧ frames.foldl (fun c frame => c.countLost frame.lost) c =
          { c with dropped := c.dropped + total (frames.map ObserverFrame.record) }) := by
  induction frames generalizing c with
  | nil => exact ⟨⟨rfl, rfl, rfl, rfl⟩, fun h => ⟨h, rfl⟩⟩
  | cons frame _ ih =>
    obtain ⟨hsame, heq⟩ := ih (c.countLost frame.lost)
    refine ⟨(same_countLost c frame.lost).trans hsame, fun h => ?_⟩
    obtain ⟨hsaturated, hfold⟩ := heq h
    refine ⟨saturated_of_countLost hsaturated, hfold.trans ?_⟩
    rw [countLost_eq hsaturated, map_cons, total_cons, frame.weight_record]
    simp [Nat.add_assoc]

theorem Sound.of_same (hc : Sound c) (h : Same c d) (haccount : d.Counted → d.Account) :
    Sound d := by
  refine ⟨fun hsubscribed => ?_, haccount⟩
  rw [h.subscriptions] at hsubscribed
  rw [h.monitoring]
  exact hc.monitoring hsubscribed

theorem Account.countLost (ha : c.Account) (hsubscribed : c.observerSubscriptions ≠ ∅) (n : Notice)
    (he : e = { c with dropped := c.dropped + 1, published := c.published ++ [n] }) :
    e.Account := by
  subst he
  refine ⟨?_, ha.queued, fun hidle => absurd hidle hsubscribed⟩
  have hcount := ha.condenses.count_next (r := .item n) Nat.one_pos
  simpa [told, Record.weight] using hcount

theorem enqueue_eq_some (h : c.enqueue frame = some d) :
    d = { c with queue := c.queue ++ [frame] } := by
  unfold enqueue at h
  split at h
  · cases h
  · exact (some.inj h).symm

theorem same_sendNow (c : Observer) (sendOk : ObserverFrame → Bool) (frame : ObserverFrame) :
    Same c (c.sendNow sendOk frame).2 := by
  unfold sendNow
  split <;> exact ⟨rfl, rfl, rfl, rfl⟩

theorem reportLost_cases (hrole : c.connectionRole ≠ .callbackStream)
    (sendOk : ObserverFrame → Bool) (generation : Nat) :
    (c.reportLost sendOk generation).2 = c ∧ (c.dropped = 0 ∨ ∀ frame, c.enqueue frame = none) ∨
      c.dropped ≠ 0 ∧ (c.reportLost sendOk generation).2 =
        { c with queue := c.queue ++ [.overflow generation c.dropped], dropped := 0 } := by
  unfold reportLost
  by_cases hzero : c.dropped = 0
  · exact .inl ⟨by rw [if_pos hzero], .inl hzero⟩
  rw [if_neg hzero]
  cases hrole' : c.connectionRole with
  | callbackStream => exact absurd hrole' hrole
  | rpc | authorizationLease | observerStream =>
    unfold enqueue
    by_cases hfull : (!c.observerQueue || c.queue.length == observerQueueCapacity) = true
    · exact .inl ⟨by simp [hfull], .inr fun _ => by rw [if_pos hfull]⟩
    · exact .inr ⟨hzero, by simp [hfull, hrole']⟩

theorem same_reportLost (c : Observer) (sendOk : ObserverFrame → Bool) (generation : Nat) :
    Same c (c.reportLost sendOk generation).2 := by
  by_cases hrole : c.connectionRole = .callbackStream
  · unfold reportLost
    split
    · exact ⟨rfl, rfl, rfl, rfl⟩
    have hsame := same_sendNow c sendOk (.overflow generation c.dropped)
    rw [hrole]
    dsimp only
    split
    · exact ⟨hsame.role, hsame.subscriptions, hsame.monitoring, hsame.withdrawn⟩
    · exact hsame
  · obtain ⟨heq, -⟩ | ⟨-, heq⟩ := reportLost_cases hrole sendOk generation
    · rw [heq]
      exact ⟨rfl, rfl, rfl, rfl⟩
    · rw [heq]
      exact ⟨rfl, rfl, rfl, rfl⟩

theorem role_ne_callback (h : c.connectionRole = .observerStream) :
    c.connectionRole ≠ .callbackStream := by
  simp [h]

theorem Account.reportLost (ha : c.Account) (hrole : c.connectionRole = .observerStream)
    (sendOk : ObserverFrame → Bool) (generation : Nat) :
    (c.reportLost sendOk generation).2.Account := by
  obtain ⟨heq, -⟩ | ⟨hzero, heq⟩ := reportLost_cases (role_ne_callback hrole) sendOk generation
  · rwa [heq]
  rw [heq]
  refine ⟨?_, fun frame hframe => ?_, fun hidle => absurd (ha.idle hidle).2 hzero⟩
  · have hreport := ha.condenses.report hzero
    simpa [told, ObserverFrame.record] using hreport
  obtain hold | hnew := mem_append.mp hframe
  · exact ha.queued frame hold
  · rw [mem_singleton.mp hnew]
    exact Nat.pos_of_ne_zero hzero

section

variable (hrole : c.connectionRole = .observerStream)

include hrole

theorem dropped_reportLost (sendOk : ObserverFrame → Bool) (generation : Nat) :
    (c.reportLost sendOk generation).2.dropped = 0 ∨
      ∀ frame, (c.reportLost sendOk generation).2.enqueue frame = none := by
  obtain ⟨heq, h⟩ | ⟨-, heq⟩ := reportLost_cases (role_ne_callback hrole) sendOk generation
  · rwa [heq]
  · exact .inl (by rw [heq])

theorem history_reportLost (sendOk : ObserverFrame → Bool) (generation : Nat) :
    (c.reportLost sendOk generation).2.published = c.published ∧
      (c.reportLost sendOk generation).2.saturated = c.saturated ∧
      (c.reportLost sendOk generation).2.streamValid = c.streamValid := by
  obtain ⟨heq, -⟩ | ⟨-, heq⟩ := reportLost_cases (role_ne_callback hrole) sendOk generation
  · rw [heq]
    exact ⟨rfl, rfl, rfl⟩
  · rw [heq]
    exact ⟨rfl, rfl, rfl⟩

theorem offer_eq (sendOk : ObserverFrame → Bool) (n : Notice) : c.offer sendOk n =
      ((c.reportLost sendOk n.generation).2.enqueue (.notice n)).getD
        ((c.reportLost sendOk n.generation).2.countLost 1) := by
  unfold offer
  rw [hrole]

end

theorem Account.next (ha : c.Account) (hsubscribed : c.observerSubscriptions ≠ ∅) {n : Notice}
    (hroom : c.dropped = 0 ∨ ∀ frame, c.enqueue frame = none)
    (hsaturated : ((c.enqueue (.notice n)).getD (c.countLost 1)).saturated = false) :
    Account { (c.enqueue (.notice n)).getD (c.countLost 1) with
      published := c.published ++ [n] } := by
  cases henqueue : c.enqueue (.notice n) with
  | none =>
    rw [henqueue] at hsaturated
    refine ha.countLost hsubscribed n ?_
    rw [Option.getD_none, countLost_eq hsaturated]
  | some d =>
    have hzero : c.dropped = 0 := hroom.resolve_right fun h => by simp [h] at henqueue
    rw [enqueue_eq_some henqueue]
    refine ⟨?_, fun frame hframe => ?_, fun hidle => absurd hidle hsubscribed⟩
    · have hcondenses := ha.condenses
      rw [told, hzero] at hcondenses
      simpa [told, hzero, ObserverFrame.record] using hcondenses.keep_next (.item n)
    obtain hold | hnew := mem_append.mp hframe
    · exact ha.queued frame hold
    · rw [mem_singleton.mp hnew]
      exact Nat.one_pos

theorem same_enqueue_getD (c : Observer) (frame : ObserverFrame) :
    Same c ((c.enqueue frame).getD (c.countLost 1)) := by
  cases henqueue : c.enqueue frame with
  | none => exact same_countLost c 1
  | some =>
    rw [enqueue_eq_some henqueue]
    exact ⟨rfl, rfl, rfl, rfl⟩

theorem saturated_of_enqueue_getD
    (h : ((c.enqueue frame).getD (c.countLost 1)).saturated = false) : c.saturated = false := by
  cases henqueue : c.enqueue frame with
  | none =>
    rw [henqueue] at h
    exact saturated_of_countLost h
  | some => rwa [henqueue, getD_some, enqueue_eq_some henqueue] at h

theorem same_offer (c : Observer) (sendOk : ObserverFrame → Bool) (n : Notice) :
    Same c (c.offer sendOk n) := by
  have hreport := same_reportLost c sendOk n.generation
  unfold offer
  split
  · split
    · exact ⟨rfl, rfl, rfl, rfl⟩
    dsimp only
    split
    · exact hreport.trans (same_sendNow _ _ _)
    · exact hreport
  · exact hreport.trans (same_enqueue_getD _ _)

theorem Same.published {ns : List Notice} (h : Same c d) : Same c { d with published := ns } :=
  ⟨h.role, h.subscriptions, h.monitoring, h.withdrawn⟩

theorem valid_countLost (c : Observer) (count : Nat) :
    (c.countLost count).streamValid = c.streamValid := by
  unfold countLost
  split <;> rfl

theorem valid_enqueue_getD (c : Observer) (frame : ObserverFrame) :
    ((c.enqueue frame).getD (c.countLost 1)).streamValid = c.streamValid := by
  cases henqueue : c.enqueue frame with
  | none => exact valid_countLost c 1
  | some => rw [getD_some, enqueue_eq_some henqueue]

theorem Sound.offer (hc : Sound c) (hactive : c.active seat = true)
    (sendOk : ObserverFrame → Bool) (n : Notice) :
    Sound { c.offer sendOk n with published := c.published ++ [n] } := by
  refine hc.of_same (same_offer c sendOk n).published fun hd => ?_
  have hrole : c.connectionRole = .observerStream :=
    (same_offer c sendOk n).role.symm.trans hd.role
  have hreport := same_reportLost c sendOk n.generation
  obtain ⟨hpublished, hsat, hvalid⟩ := history_reportLost hrole sendOk n.generation
  have hsubscribed : c.observerSubscriptions ≠ ∅ := by
    simp only [active, Bool.and_eq_true, decide_eq_true_eq] at hactive
    exact hactive.1.1.1
  have heq := offer_eq hrole sendOk n
  have hsaturated : (c.offer sendOk n).saturated = false := hd.saturated
  rw [heq] at hsaturated
  have hcounted : c.Counted := by
    refine ⟨hrole, ?_, hsat ▸ saturated_of_enqueue_getD hsaturated, ?_⟩
    · rw [← hvalid, ← valid_enqueue_getD _ (.notice n), ← heq]
      exact hd.valid
    · exact (same_offer c sendOk n).withdrawn.symm.trans hd.withdrawn
  have hnext := Account.next ((hc.account hcounted).reportLost hrole sendOk n.generation)
    (hreport.subscriptions ▸ hsubscribed) (dropped_reportLost hrole sendOk n.generation)
    hsaturated
  rwa [← heq, hpublished] at hnext

theorem Sound.publish (hc : Sound c) (seat : Seat) (sendOk : ObserverFrame → Bool)
    (subscription : Option Session.Observed) (n : Notice) :
    Sound { c.publish seat sendOk subscription n with
      published := c.owed seat subscription n } := by
  cases hactive : c.active seat with
  | false =>
    simp only [Observer.publish, owed, hactive, Bool.not_false, if_true, Bool.false_and,
      Bool.false_or, Bool.true_and, Bool.and_comm (c.paused seat)]
    split
    · rename_i hpaused
      have hsubscribed : c.observerSubscriptions ≠ ∅ := by
        simp only [paused, Bool.and_eq_true, decide_eq_true_eq] at hpaused
        exact hpaused.2.1.1
      refine hc.of_same (same_countLost c 1).published fun hd => ?_
      have hsaturated : (c.countLost 1).saturated = false := hd.saturated
      have heq := countLost_eq hsaturated
      refine Account.countLost (hc.account ⟨?_, ?_, saturated_of_countLost hsaturated, ?_⟩)
        hsubscribed n (by rw [heq])
      · exact (same_countLost c 1).role.symm.trans hd.role
      · exact (valid_countLost c 1).symm.trans hd.valid
      · exact (same_countLost c 1).withdrawn.symm.trans hd.withdrawn
    · exact hc
  | true =>
    simp only [Observer.publish, owed, hactive, Bool.not_true, Bool.false_eq_true, if_false,
      Bool.true_and, Bool.false_and, Bool.or_false]
    cases hmatch : subscription.any (· ∉ c.observerSubscriptions) with
    | true =>
      simp only [if_true, Bool.not_true, Bool.false_eq_true, if_false]
      exact hc
    | false =>
      simp only [Bool.false_eq_true, if_false, Bool.not_false, if_true]
      exact hc.offer hactive sendOk n

theorem Sound.paused_of_not_active (hc : Sound c) (hvalid : c.streamValid = true)
    (hsubscribed : c.observerSubscriptions ≠ ∅) (hactive : c.active seat = false) :
    c.paused seat = true := by
  have hmonitoring := hc.monitoring hsubscribed
  simp only [active, hasScope, hsubscribed, hmonitoring, hvalid, ne_eq, not_false_eq_true,
    decide_true, Bool.true_and, Bool.and_true, Bool.and_eq_false_iff, Bool.not_eq_false'] at hactive
  simp only [paused, hsubscribed, hvalid, ne_eq, not_false_eq_true, decide_true, Bool.true_and,
    Bool.or_eq_true, Bool.not_eq_true']
  exact hactive

theorem Account.discard (ha : c.Account) (he : e = { c with
      dropped := c.dropped + total (c.queue.map ObserverFrame.record), queue := [] }) :
    e.Account := by
  subst he
  refine ⟨?_, fun frame hframe => absurd hframe not_mem_nil, fun hidle => ?_⟩
  · have hcondenses := ha.condenses
    rw [told, map_append] at hcondenses
    have hdiscard := hcondenses.discard fun r hr => by
      obtain ⟨frame, hframe, rfl⟩ := mem_map.mp hr
      rw [frame.weight_record]
      exact ha.queued frame hframe
    simpa [told, Nat.add_comm] using hdiscard
  · obtain ⟨hqueue, hdropped⟩ := ha.idle hidle
    simp [hqueue, hdropped]

theorem Sound.discard (hc : Sound c) (hactive : c.active seat = false) :
    Sound (c.discard seat) := by
  unfold Observer.discard
  by_cases hpaused : c.paused seat = true
  · rw [if_pos hpaused]
    obtain ⟨hsame, heq⟩ := foldl_countLost c c.queue
    refine hc.of_same ⟨hsame.role, hsame.subscriptions, hsame.monitoring, hsame.withdrawn⟩
      fun hd => ?_
    obtain ⟨hsaturated, hfold⟩ := heq hd.saturated
    have hcounted : c.Counted := by
      refine ⟨hsame.role.symm.trans hd.role, ?_, hsaturated,
        hsame.withdrawn.symm.trans hd.withdrawn⟩
      have hvalid := hd.valid
      rwa [hfold] at hvalid
    exact (hc.account hcounted).discard (by rw [hfold])
  · rw [if_neg hpaused]
    refine hc.of_same ⟨rfl, rfl, rfl, rfl⟩ fun hd => ?_
    -- Neither active nor paused: nothing was ever subscribed, so nothing is given up.
    have ha : c.Account := hc.account ⟨hd.role, hd.valid, hd.saturated, hd.withdrawn⟩
    have hidle : c.observerSubscriptions = ∅ := by
      by_contra hsubscribed
      exact hpaused (hc.paused_of_not_active hd.valid hsubscribed hactive)
    obtain ⟨hqueue, hdropped⟩ := ha.idle hidle
    refine ⟨?_, fun frame hframe => absurd hframe not_mem_nil, fun _ => ⟨rfl, rfl⟩⟩
    have hcondenses := ha.condenses
    rwa [told, hqueue, hdropped] at hcondenses

theorem sendQueued_history (budget : Nat) (outcomes : List TrySend) (c : Observer) :
    Same c (sendQueued budget outcomes c) ∧
      (sendQueued budget outcomes c).delivered ++ (sendQueued budget outcomes c).queue =
        c.delivered ++ c.queue ∧
      (sendQueued budget outcomes c).queue <:+ c.queue ∧
      (sendQueued budget outcomes c).dropped = c.dropped ∧
      (sendQueued budget outcomes c).published = c.published ∧
      (sendQueued budget outcomes c).saturated = c.saturated ∧
      ((sendQueued budget outcomes c).streamValid = true → c.streamValid = true) := by
  induction budget generalizing outcomes c with
  | zero => exact ⟨⟨rfl, rfl, rfl, rfl⟩, rfl, suffix_rfl, rfl, rfl, rfl, id⟩
  | succ budget ih =>
    unfold sendQueued
    split
    · rename_i frame queue outcomes hqueue
      obtain ⟨hsame, happend, hsuffix, hrest⟩ :=
        ih outcomes { c with queue := queue, delivered := c.delivered ++ [frame] }
      refine ⟨⟨hsame.role, hsame.subscriptions, hsame.monitoring, hsame.withdrawn⟩, ?_, ?_, hrest⟩
      · rw [happend, hqueue]
        simp
      · rw [hqueue]
        exact hsuffix.trans (suffix_cons frame queue)
    · exact ⟨⟨rfl, rfl, rfl, rfl⟩, rfl, suffix_rfl, rfl, rfl, rfl, fun h => by simp at h⟩
    · exact ⟨⟨rfl, rfl, rfl, rfl⟩, rfl, suffix_rfl, rfl, rfl, rfl, id⟩

theorem Sound.flush (hc : Sound c) (seat : Seat) (sendOk : ObserverFrame → Bool)
    (outcomes : List TrySend) (generation : Nat) :
    Sound (c.flush seat sendOk outcomes generation) := by
  unfold Observer.flush
  split
  · rename_i hactive
    exact hc.discard (by simpa using hactive)
  obtain ⟨hsame, happend, hsuffix, hdropped, hpublished, hsaturated, hvalid⟩ :=
    sendQueued_history flushBudget outcomes c
  generalize sendQueued flushBudget outcomes c = d at *
  have hreport := same_reportLost d sendOk generation
  refine hc.of_same (hsame.trans hreport) fun he => ?_
  have hrole : d.connectionRole = .observerStream := hreport.role.symm.trans he.role
  obtain ⟨-, hsat, hval⟩ := history_reportLost hrole sendOk generation
  have ha : c.Account := hc.account ⟨hsame.role.symm.trans hrole, hvalid (hval ▸ he.valid),
    hsaturated ▸ hsat ▸ he.saturated,
    hsame.withdrawn.symm.trans (hreport.withdrawn.symm.trans he.withdrawn)⟩
  refine Account.reportLost ⟨?_, fun frame hframe => ?_, fun hidle => ?_⟩ hrole sendOk generation
  · rw [told, happend, hdropped, hpublished]
    exact ha.condenses
  · exact ha.queued frame (hsuffix.subset hframe)
  · obtain ⟨hqueue, hzero⟩ := ha.idle (hsame.subscriptions ▸ hidle)
    rw [hqueue] at hsuffix
    exact ⟨suffix_nil.mp hsuffix, hdropped.trans hzero⟩

end Observer

def State.Sound (s : State) : Prop := ∀ c ∈ s.observers, c.Sound

namespace State

open Observer

variable {s t : State} {f : Observer → Observer} {seat : Seat}

section

variable (hs : s.Sound)

include hs

theorem Sound.modify {i : Nat} (hf : ∀ c, c.Sound → (f c).Sound) : (s.modify i f).Sound := by
  intro c hc
  obtain ⟨j, hj⟩ := mem_iff_getElem?.mp hc
  rw [State.modify, getElem?_modify] at hj
  obtain ⟨d, hd, rfl⟩ := map_eq_some_iff.mp hj
  have hsound := hs d (mem_of_getElem? hd)
  split
  · exact hf d hsound
  · exact hsound

theorem Sound.mapIdx {f : Nat → Observer → Observer} (hf : ∀ i c, c.Sound → (f i c).Sound) :
    Sound { seat := seat, observers := s.observers.mapIdx f } := by
  intro c hc
  obtain ⟨i, hi, rfl⟩ := mem_mapIdx.mp hc
  exact hf i _ (hs _ (getElem_mem hi))

theorem Sound.map (hf : ∀ c, c.Sound → (f c).Sound) :
    Sound { seat := seat, observers := s.observers.map f } := by
  intro c hc
  obtain ⟨d, hd, rfl⟩ := mem_map.mp hc
  exact hf d (hs d hd)

theorem Sound.flush (sends : Sends) : (s.flush sends).Sound :=
  hs.mapIdx fun _ _ hc => hc.flush _ _ _ _

theorem Sound.step {e : Event} (h : s.step e = some t) : t.Sound := by
  cases e with
  | accept =>
    cases h
    intro c hc
    obtain hold | hnew := mem_append.mp hc
    · exact hs c hold
    · rw [mem_singleton.mp hnew]
      exact ⟨fun hsubscribed => absurd rfl hsubscribed, fun _ =>
        ⟨.nil, fun frame hframe => absurd hframe not_mem_nil, fun _ => ⟨rfl, rfl⟩⟩⟩
  | remove =>
    cases h
    exact fun c hc => hs c (mem_of_mem_eraseIdx hc)
  | grant =>
    cases h
    exact hs.modify fun c hc => ⟨fun _ => rfl, fun hd =>
      let ha := hc.account ⟨hd.role, hd.valid, hd.saturated, hd.withdrawn⟩
      ⟨ha.condenses, ha.queued, ha.idle⟩⟩
  | revoke =>
    cases h
    exact hs.modify fun c _ => ⟨fun hsubscribed => absurd rfl hsubscribed, fun hd =>
      absurd hd.valid Bool.false_ne_true⟩
  | retire =>
    cases h
    exact hs.modify fun c hc => hc.of_same ⟨rfl, rfl, rfl, rfl⟩ fun hd =>
      absurd hd.valid Bool.false_ne_true
  | subscribe i observed allocOk =>
    cases h
    refine hs.modify fun c hc => ?_
    split
    · exact hc
    rename_i hscope
    split
    · exact hc
    have hmonitoring : c.monitoring = true := by
      simp only [hasScope, Bool.or_eq_true, Bool.not_eq_true', not_or, Bool.not_eq_false,
        Bool.and_eq_true] at hscope
      exact hscope.2.1
    refine ⟨fun _ => hmonitoring, fun hd => ?_⟩
    have ha := hc.account ⟨hd.role, hd.valid, hd.saturated, hd.withdrawn⟩
    exact ⟨ha.condenses, ha.queued, fun hidle => absurd hidle (Finset.insert_ne_empty _ _)⟩
  | unsubscribe i observed =>
    cases h
    refine hs.modify fun c hc => ⟨fun hsubscribed => hc.monitoring fun hempty => ?_, fun hd => ?_⟩
    · simp [hempty] at hsubscribed
    have hwithdrawn := hd.withdrawn
    simp only [Bool.or_eq_false_iff] at hwithdrawn
    have ha := hc.account ⟨hd.role, hd.valid, hd.saturated, hwithdrawn.1⟩
    refine ⟨ha.condenses, ha.queued, fun hidle => ha.idle ?_⟩
    by_contra hsubscribed
    have hidle' : c.observerSubscriptions.erase observed = ∅ := hidle
    simp [hsubscribed, hidle'] at hwithdrawn
  | publish =>
    cases h
    exact hs.mapIdx fun _ _ hc => hc.publish _ _ _ _
  | flush sends =>
    cases h
    exact hs.flush sends
  | releaseSeat =>
    simp only [State.step] at h
    split at h
    · rename_i henforced
      cases h
      refine hs.map fun c hc => hc.discard ?_
      simp [active, Seat.ownerMatchesUid, (Bool.and_eq_true_iff.mp henforced).1]
    · cases h
  | takeSeat uid sends =>
    simp only [State.step] at h
    split at h
    · cases h
      exact Sound.flush (s := { s with seat := { s.seat with activeInputUid := some uid } }) hs
        sends
    · cases h
  | beginRefresh | endRefresh =>
    cases h
    try refine Sound.flush ?_ _
    exact hs.map fun c hc => hc.of_same ⟨rfl, rfl, rfl, rfl⟩ fun hd =>
      let ha := hc.account ⟨hd.role, hd.valid, hd.saturated, hd.withdrawn⟩
      ⟨ha.condenses, ha.queued, ha.idle⟩

end

theorem sound_of_reaches (h : Reaches State.step always { seat := seat } s) : s.Sound :=
  h.invariant (fun _ hc => absurd hc not_mem_nil) fun _ _ _ hs _ hstep => hs.step hstep

end State

def notices (frames : List ObserverFrame) : List Notice := items (frames.map ObserverFrame.record)

def reported (frames : List ObserverFrame) : Nat := gaps (frames.map ObserverFrame.record)

/-- A valid observer stream hears everything it is owed or a count of it: the sums agree, the
notices keep the order of their publication, and every overflow stands before all notices newer
than the gap it reports. -/
theorem observer_account {seat : Seat} {s : State} {c : Observer}
    (h : Reaches State.step always { seat := seat } s) (hc : c ∈ s.observers)
    (hrole : c.connectionRole = .observerStream) (hvalid : c.streamValid = true)
    (hsaturated : c.saturated = false) (hwithdrawn : c.withdrawn = false) :
    (notices c.delivered).length + reported c.delivered + (notices c.queue).length +
        reported c.queue + c.dropped = c.published.length ∧
      (notices (c.delivered ++ c.queue)).Sublist c.published ∧
      ∀ before generation dropped after,
        c.delivered ++ c.queue = before ++ .overflow generation dropped :: after →
        ∃ older lost newer, c.published = older ++ lost ++ newer ∧ lost.length = dropped ∧
          (notices before).Sublist older ∧ (notices after).Sublist newer := by
  have ha := (State.sound_of_reaches h c hc).account ⟨hrole, hvalid, hsaturated, hwithdrawn⟩
  have hcondenses := ha.condenses
  refine ⟨?_, ?_, fun before generation dropped after hsplit => ?_⟩
  · have htotal := hcondenses.total_eq
    simp only [Observer.told, map_append, total_append, total_pending, total_map_item] at htotal
    rw [total_eq, total_eq] at htotal
    unfold notices reported
    omega
  · have hitems := hcondenses.items_sublist
    simp only [Observer.told, items_append, items_map_item] at hitems
    exact (sublist_append_left _ _).trans hitems
  rw [Observer.told, hsplit, map_append, map_cons, append_assoc, cons_append] at hcondenses
  obtain ⟨_, _, _, heq, hlost, holder, hnewer⟩ := hcondenses.around_gap
  obtain ⟨_, newer', hpublished, hrest, rfl⟩ := map_eq_append_iff.mp heq
  obtain ⟨older', lost', rfl, rfl, rfl⟩ := map_eq_append_iff.mp hrest
  refine ⟨older', lost', newer', hpublished, by simpa using hlost, ?_, ?_⟩
  · simpa [notices] using holder.items_sublist
  · have hsub := hnewer.items_sublist
    simp only [items_append, items_map_item] at hsub
    exact (sublist_append_left _ _).trans hsub

def missedNotice : List Event :=
  [.accept 1000 .observerStream, .grant 0, .subscribe 0 .devices true,
    .publish {} none { kind := .deviceAdded }, .beginRefresh,
    .publish {} none { kind := .deviceRemoved },
    .endRefresh { queued := fun _ => [.sent] }, .flush { queued := fun _ => [.sent] },
    .publish {} none { kind := .deviceChanged }, .flush { queued := fun _ => [.sent] }]

theorem observer_account_missedNotice : ∃ s c, Reaches State.step always { seat := {} } s ∧
    c ∈ s.observers ∧ reported c.delivered = 1 ∧
    notices c.delivered = [{ kind := .deviceAdded }, { kind := .deviceChanged }] ∧
    (notices c.delivered).length + reported c.delivered + (notices c.queue).length +
      reported c.queue + c.dropped = c.published.length := by
  obtain ⟨s, hs, c, hc, hrole, hvalid, hsaturated, hwithdrawn, hreported, hnotices⟩ :=
    exists_reaches State.step { seat := {} } missedNotice (q := fun s => ∃ c ∈ s.observers,
      c.connectionRole = .observerStream ∧ c.streamValid = true ∧ c.saturated = false ∧
      c.withdrawn = false ∧ reported c.delivered = 1 ∧
      notices c.delivered = [{ kind := .deviceAdded }, { kind := .deviceChanged }]) (by decide)
  exact ⟨s, c, hs, hc, hreported, hnotices,
    (observer_account hs hc hrole hvalid hsaturated hwithdrawn).1⟩

end KeysharpInput.Observers
