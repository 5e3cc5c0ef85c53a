import KeysharpInput.CallStack
import KeysharpInput.Transition

/-!
The callback stack keeps its discipline whatever the threads do.
Frames below the top are pumping or have been asked to end their pump, so at most one
callback of a stream executes. The invariant also keeps the slots above the stack zero,
which a turn relies on when it writes only the id of its slot, and the ids of frames and
waiting turns distinct. Each operation on the stack has one lemma; the steps follow.
-/
namespace KeysharpInput.Callback

open Transition List Function SendRef Option Nat

namespace SendRef

variable {ref : SendRef} {eventId e i : Nat} {f : CallFrame → CallFrame}

theorem findBelow_eq_some {calls : Nat → CallFrame} {n : Nat}
    (h : findBelow calls eventId n = some i) : i < n ∧ (calls i).eventId = eventId := by
  induction n with
  | zero => simp [findBelow] at h
  | succ n ih =>
    unfold findBelow at h
    split at h
    · obtain rfl : n = i := by simpa using h
      exact ⟨lt_succ_self n, by assumption⟩
    · obtain ⟨hlt, hid⟩ := ih h
      exact ⟨lt_succ_of_lt hlt, hid⟩

theorem findCall_eq_some (h : ref.findCall eventId = some i) :
    i < ref.callDepth ∧ (ref.calls i).eventId = eventId :=
  findBelow_eq_some h

def Has (ref : SendRef) (eventId : Nat) : Prop :=
  ∃ i < ref.callDepth, (ref.calls i).eventId = eventId

theorem has_enter (h : (ref.enter eventId).Has e) : e = eventId ∨ ref.Has e := by
  obtain ⟨i, hi, hid⟩ := h
  by_cases htop : i = ref.callDepth
  · subst htop
    left
    simpa [enter, setCall] using hid.symm
  right
  refine ⟨i, ?_, by simpa [enter, setCall, htop] using hid⟩
  have hlt : i < ref.callDepth + 1 := hi
  omega

theorem eventId_setCall (hf : ∀ frame, (f frame).eventId = frame.eventId) (i j : Nat) :
    ((ref.setCall i f).calls j).eventId = (ref.calls j).eventId := by
  by_cases hj : j = i
  · subst hj
    simp [setCall, hf]
  · simp [setCall, hj]

theorem has_setCall (hf : ∀ frame, (f frame).eventId = frame.eventId)
    (h : (ref.setCall i f).Has e) : ref.Has e := by
  obtain ⟨j, hj, hid⟩ := h
  exact ⟨j, hj, by rwa [eventId_setCall hf] at hid⟩

theorem completeEvent_cases (ref : SendRef) (eventId : Nat) : ref.completeEvent eventId = ref ∨
    ∃ index < ref.callDepth, (ref.completeEvent eventId).callDepth + 1 = ref.callDepth ∧
      ∀ i < (ref.completeEvent eventId).callDepth,
        (ref.completeEvent eventId).calls i = ref.calls (if index ≤ i then i + 1 else i) := by
  unfold completeEvent
  split
  · exact .inl rfl
  split
  · exact .inl rfl
  rename_i index hfind
  obtain ⟨hlt, -⟩ := findCall_eq_some hfind
  refine .inr ⟨index, hlt, ?_, fun i hi => ?_⟩
  · show ref.callDepth - 1 + 1 = ref.callDepth
    omega
  · simp only [Nat.ne_of_lt hi, if_false, hi, and_true]
    split <;> rfl

theorem has_completeEvent (h : (ref.completeEvent eventId).Has e) : ref.Has e := by
  rcases completeEvent_cases ref eventId with heq | ⟨index, -, hdepth, hcalls⟩
  · rwa [heq] at h
  obtain ⟨i, hi, hid⟩ := h
  rw [hcalls i hi] at hid
  refine ⟨_, ?_, hid⟩
  split <;> omega

end SendRef

structure Stacked (ref : SendRef) (asked : Nat → Bool) (requested : List Nat) : Prop where
  zero : ∀ i, ref.callDepth ≤ i → ref.calls i = {}
  below : ∀ i, i + 1 < ref.callDepth →
    (ref.calls i).pumping = true ∨ asked (ref.calls i).eventId = true
  distinct : ∀ i j, i < ref.callDepth → j < ref.callDepth →
    (ref.calls i).eventId = (ref.calls j).eventId → i = j
  requested : ∀ i, i < ref.callDepth → (ref.calls i).eventId ∈ requested

namespace Stacked

variable {ref : SendRef} {asked : Nat → Bool} {requested : List Nat} {eventId index : Nat}

section

variable (h : Stacked ref asked requested)

include h

theorem mono (eventId : Nat) : Stacked ref asked (eventId :: requested) :=
  { h with requested := fun i hi => mem_cons_of_mem _ (h.requested i hi) }

theorem enter (htop : ref.callDepth = 0 ∨ ref.top.pumping = true) (hnew : ¬ ref.Has eventId)
    (hrequested : eventId ∈ requested) : Stacked (ref.enter eventId) asked requested := by
  have hold : ∀ i, i < ref.callDepth → (ref.enter eventId).calls i = ref.calls i := fun i hi => by
    simp [SendRef.enter, SendRef.setCall, Nat.ne_of_lt hi]
  have hself : (ref.enter eventId).calls ref.callDepth = { eventId } := by
    simp [SendRef.enter, SendRef.setCall, h.zero ref.callDepth (Nat.le_refl _)]
  have hdepth : (ref.enter eventId).callDepth = ref.callDepth + 1 := rfl
  have hsplit : ∀ i, i < (ref.enter eventId).callDepth → i < ref.callDepth ∨ i = ref.callDepth :=
    fun i hi => by omega
  refine ⟨fun i hi => ?_, fun i hi => ?_, fun i j hi hj hid => ?_, fun i hi => ?_⟩
  · have hne : i ≠ ref.callDepth := by omega
    simpa [SendRef.enter, SendRef.setCall, hne] using h.zero i (by omega)
  · rw [hold i (by omega)]
    by_cases hlast : i + 1 = ref.callDepth
    · rcases htop with hempty | hpump
      · omega
      · left
        rwa [SendRef.top, ← hlast, Nat.add_sub_cancel] at hpump
    · exact h.below i (by omega)
  · rcases hsplit i hi with hi | rfl
    · rcases hsplit j hj with hj | rfl
      · rw [hold i hi, hold j hj] at hid
        exact h.distinct i j hi hj hid
      · rw [hold i hi, hself] at hid
        exact absurd ⟨i, hi, hid⟩ hnew
    · rcases hsplit j hj with hj | rfl
      · rw [hself, hold j hj] at hid
        exact absurd ⟨j, hj, hid.symm⟩ hnew
      · rfl
  · rcases hsplit i hi with hi | rfl
    · rw [hold i hi]
      exact h.requested i hi
    · rwa [hself]

theorem completeEvent (eventId : Nat) : Stacked (ref.completeEvent eventId) asked requested := by
  have hzero : ∀ i, (ref.completeEvent eventId).callDepth ≤ i →
      (ref.completeEvent eventId).calls i = {} := by
    intro i
    unfold SendRef.completeEvent
    split
    · exact h.zero i
    split
    · exact h.zero i
    intro hi
    have hi : ref.callDepth - 1 ≤ i := hi
    by_cases hlast : i = ref.callDepth - 1
    · simp [hlast]
    · have hpast : ¬ i < ref.callDepth - 1 := by omega
      simpa [hlast, hpast] using h.zero i (by omega)
  rcases ref.completeEvent_cases eventId with heq | ⟨index, hindex, hdepth, hcalls⟩
  · rwa [heq]
  refine ⟨hzero, fun i hi => ?_, fun i j hi hj hid => ?_, fun i hi => ?_⟩
  · rw [hcalls i (by omega)]
    exact h.below _ (by split <;> omega)
  · rw [hcalls i hi, hcalls j hj] at hid
    have hsame := h.distinct _ _ (by split <;> omega) (by split <;> omega) hid
    split at hsame <;> split at hsame <;> omega
  · rw [hcalls i hi]
    exact h.requested _ (by split <;> omega)

theorem setPumping (hindex : index < ref.callDepth) {pumping : Bool} {asked' : Nat → Bool}
    (hself : pumping = true ∨ asked' (ref.calls index).eventId = true)
    (hkept : ∀ e, asked e = true → asked' e = true) :
    Stacked (ref.setCall index fun frame => { frame with pumping }) asked' requested := by
  have hid : ∀ j, ((ref.setCall index fun frame => { frame with pumping }).calls j).eventId =
      (ref.calls j).eventId :=
    eventId_setCall (f := fun frame => { frame with pumping }) (fun _ => rfl) index
  refine ⟨fun i hi => ?_, fun i hi => ?_, fun i j hi hj hsame => ?_, fun i hi => ?_⟩
  · have hne : i ≠ index := by
      have hi : ref.callDepth ≤ i := hi
      omega
    simpa [setCall, hne] using h.zero i hi
  · by_cases hi' : i = index
    · subst hi'
      simpa [setCall] using hself
    have hsame : (ref.setCall index fun frame => { frame with pumping }).calls i =
        ref.calls i := by simp [setCall, hi']
    rw [hsame]
    exact (h.below i hi).imp_right (hkept _)
  · rw [hid, hid] at hsame
    exact h.distinct i j hi hj hsame
  · rw [hid]
    exact h.requested i hi

/-- The frame whose `end_pump` returned is the top, so nothing is asked of it. -/
theorem clearAsked (hended : ref.pumpEnded eventId index = true) :
    Stacked ref (update asked eventId false) requested := by
  simp only [pumpEnded, Bool.and_eq_true, beq_iff_eq] at hended
  refine { h with below := fun i hi => (h.below i hi).imp_right fun hasked => ?_ }
  have hne : (ref.calls i).eventId ≠ eventId := fun heq => by
    have hsame := h.distinct i index (by omega) (by omega) (heq.trans hended.2.symm)
    omega
  simpa [hne] using hasked

end

end Stacked

namespace Stream

variable {s t : Stream} {thread eventId index : Nat} {recursive : Bool} {ref : SendRef}
  {asked : Nat → Bool} {returned : Option Returned} {a : Action} {e : Nat}

structure Turns (s : Stream) : Prop where
  stacked : Stacked s.ref s.asked s.requested
  waiting : ∀ thread eventId recursive, s.blocked thread = some (.turn eventId recursive) →
    eventId ∈ s.requested ∧ ¬ s.ref.Has eventId
  alone : ∀ thread thread' eventId recursive recursive',
    s.blocked thread = some (.turn eventId recursive) →
    s.blocked thread' = some (.turn eventId recursive') → thread = thread'

def distinctIds (s : Stream) : Action → Prop
  | .waitEventTurn _ eventId _ _ => eventId ∉ s.requested
  | _ => True

structure Candidate (s : Stream) (thread eventId : Nat) : Prop where
  requested : eventId ∈ s.requested
  absent : ¬ s.ref.Has eventId
  alone : ∀ thread' recursive, s.blocked thread' = some (.turn eventId recursive) → thread' = thread

theorem Turns.candidate (h : Turns s)
    (hblocked : s.blocked thread = some (.turn eventId recursive)) :
    Candidate s thread eventId where
  requested := (h.waiting _ _ _ hblocked).1
  absent := (h.waiting _ _ _ hblocked).2
  alone := fun _ _ hother => h.alone _ _ _ _ _ hother hblocked

/-- What one thread waits for changes. No frame has come for the other waiting turns, and a turn
that the thread waits for is its own. -/
theorem Turns.block (h : Turns s) {w : Option Blocked} (hstacked : Stacked ref asked s.requested)
    (habsent : ∀ thread' eventId recursive, thread' ≠ thread →
      s.blocked thread' = some (.turn eventId recursive) → ¬ ref.Has eventId)
    (hw : ∀ eventId recursive, w = some (.turn eventId recursive) →
      Candidate { s with ref } thread eventId) :
    Turns { s with ref, asked, returned, blocked := update s.blocked thread w } := by
  refine ⟨hstacked, fun thread' e r hblocked => ?_, fun t₁ t₂ e r r' h₁ h₂ => ?_⟩
  · by_cases hsame : thread' = thread
    · obtain ⟨hrequested, hnot, -⟩ := hw e r (by simpa [hsame] using hblocked)
      exact ⟨hrequested, hnot⟩
    · simp only [ne_eq, hsame, not_false_eq_true, update_of_ne] at hblocked
      exact ⟨(h.waiting _ _ _ hblocked).1, habsent _ _ _ hsame hblocked⟩
  by_cases hsame₁ : t₁ = thread
  · by_cases hsame₂ : t₂ = thread
    · rw [hsame₁, hsame₂]
    · simp only [ne_eq, hsame₂, not_false_eq_true, update_of_ne] at h₂
      exact hsame₁.trans ((hw e r (by simpa [hsame₁] using h₁)).alone _ _ h₂).symm
  simp only [ne_eq, hsame₁, not_false_eq_true, update_of_ne] at h₁
  by_cases hsame₂ : t₂ = thread
  · exact ((hw e r' (by simpa [hsame₂] using h₂)).alone _ _ h₁).trans hsame₂.symm
  · simp only [ne_eq, hsame₂, not_false_eq_true, update_of_ne] at h₂
    exact h.alone _ _ _ _ _ h₁ h₂

theorem Turns.frames (h : Turns s) (hstacked : Stacked ref asked s.requested)
    (hhas : ∀ e, ref.Has e → s.ref.Has e) :
    Turns { s with ref, asked, returned } where
  stacked := hstacked
  waiting := fun _ _ _ hblocked =>
    ⟨(h.waiting _ _ _ hblocked).1, fun hin => (h.waiting _ _ _ hblocked).2 (hhas _ hin)⟩
  alone := h.alone

theorem canEnter_top {waiter : TurnWaiter} (h : ref.waiterCanEnter waiter = true) :
    ref.callDepth = 0 ∨ (waiter.recursive = true ∧ ref.top.pumping = true) := by
  unfold waiterCanEnter at h
  split at h
  · simp at h
  · split at h
    · exact .inl (by assumption)
    · exact .inr (by simpa using h)

section

variable (h : Turns s)

include h

theorem Turns.leaveTurn (hstacked : Stacked ref s.asked s.requested)
    (habsent : ∀ thread' eventId recursive, thread' ≠ thread →
      s.blocked thread' = some (.turn eventId recursive) → ¬ ref.Has eventId) (eventId : Nat)
    (recursive entered : Bool) : Turns (s.leaveTurn thread eventId recursive entered ref) := by
  have hremoved : Stacked (ref.removeWaiter ⟨thread, recursive⟩) s.asked s.requested :=
    { hstacked with }
  exact h.block hremoved habsent nofun

theorem Turns.tryTurn (hturn : Candidate s thread eventId) (recursive : Bool) :
    Turns (s.tryTurn thread eventId recursive) := by
  unfold Stream.tryTurn
  split
  · exact h.leaveTurn h.stacked (fun _ _ _ _ hblocked => (h.waiting _ _ _ hblocked).2) _ _ _
  split
  · rename_i henter
    have htop := (canEnter_top henter).imp_right And.right
    refine h.leaveTurn (h.stacked.enter htop hturn.absent hturn.requested)
      (fun thread' e r hother hblocked hin => ?_) _ _ _
    rcases has_enter hin with rfl | hin
    · exact hother (hturn.alone _ _ hblocked)
    · exact (h.waiting _ _ _ hblocked).2 hin
  · refine h.block h.stacked (fun _ _ _ _ hblocked => (h.waiting _ _ _ hblocked).2) ?_
    rintro e r ⟨rfl, rfl⟩
    exact { hturn with }

/-- One round of `end_pump`. -/
theorem Turns.tryEndPump : Turns (s.tryEndPump thread eventId index) := by
  unfold Stream.tryEndPump
  split
  · exact h.block h.stacked (fun _ _ _ _ hblocked => (h.waiting _ _ _ hblocked).2) nofun
  refine h.block ?_ (fun _ _ _ _ hblocked => (h.waiting _ _ _ hblocked).2) nofun
  split
  · rename_i hended
    exact h.stacked.clearAsked hended
  · exact h.stacked

theorem Turns.endPump : Turns (s.endPump thread eventId) := by
  unfold Stream.endPump
  split
  · exact { h with }
  rename_i hfind
  obtain ⟨hlt, hid⟩ := findCall_eq_some hfind
  split
  · refine Turns.tryEndPump (h.frames (h.stacked.setPumping hlt (.inr ?_) fun e hasked => ?_)
      fun _ => has_setCall fun _ => rfl)
    · simp [hid]
    · by_cases he : e = eventId
      · simp [he]
      · simpa [he] using hasked
  · exact { h with }

theorem Turns.beginPump (eventId : Nat) :
    Turns { s with ref := (s.ref.beginPump eventId).1,
                   returned := some (.beginPump eventId (s.ref.beginPump eventId).2) } := by
  unfold SendRef.beginPump
  split
  · exact h.frames (h.stacked.setPumping (by omega) (.inl rfl) fun _ => id)
      fun _ => SendRef.has_setCall fun _ => rfl
  · exact { h with }

theorem Turns.request (thread : Nat) (hnew : eventId ∉ s.requested) :
    Turns { s with requested := eventId :: s.requested } ∧
      Candidate { s with requested := eventId :: s.requested } thread eventId := by
  refine ⟨⟨h.stacked.mono eventId, fun _ _ _ hblocked => ?_, h.alone⟩,
    mem_cons_self, fun ⟨i, hi, hid⟩ => hnew (hid ▸ h.stacked.requested i hi),
    fun thread' r hblocked => absurd (h.waiting _ _ _ hblocked).1 hnew⟩
  exact ⟨mem_cons_of_mem _ (h.waiting _ _ _ hblocked).1, (h.waiting _ _ _ hblocked).2⟩

theorem Turns.step (hids : distinctIds s a) (hstep : s.step a = some t) :
    Turns t := by
  cases a with
  | waitEventTurn thread _ recursive =>
    simp only [Stream.step, ite_none_left_eq_some] at hstep
    obtain ⟨-, hstep⟩ := hstep
    obtain ⟨hrequest, hturn⟩ := h.request thread hids
    split at hstep
    · cases hstep
      exact { hrequest with }
    cases hstep
    refine Turns.tryTurn ?_ ?_ recursive
    · exact { hrequest with stacked := { hrequest.stacked with } }
    · exact { hturn with }
  | beginPump eventId =>
    simp only [Stream.step] at hstep
    split at hstep
    · cases hstep
      exact { h with }
    · cases hstep
      exact h.beginPump eventId
  | endPump =>
    simp only [Stream.step, ite_none_left_eq_some] at hstep
    obtain ⟨-, hstep⟩ := hstep
    split at hstep
    · cases hstep
      exact { h with }
    · cases hstep
      exact h.endPump
  | completeEvent eventId =>
    cases hstep
    exact h.frames (h.stacked.completeEvent eventId) fun _ => has_completeEvent
  | wake thread =>
    simp only [Stream.step] at hstep
    split at hstep
    · simp at hstep
    · rename_i hblocked
      cases hstep
      exact h.tryTurn (h.candidate hblocked) _
    · cases hstep
      exact h.tryEndPump
  | timeout =>
    simp only [Stream.step] at hstep
    split at hstep
    · cases hstep
      exact h.leaveTurn h.stacked (fun _ _ _ _ hblocked => (h.waiting _ _ _ hblocked).2) _ _ _
    · simp at hstep
  | invalidate =>
    cases hstep
    exact { h with stacked := { h.stacked with } }

end

theorem turns_of_reaches (h : Reaches step distinctIds {} s) : Turns s :=
  h.invariant ⟨⟨fun _ _ => rfl, fun _ hi => absurd hi (not_lt_zero _),
    fun _ _ hi => absurd hi (not_lt_zero _), fun _ hi => absurd hi (not_lt_zero _)⟩,
    fun _ _ _ hblocked => by simp at hblocked, fun _ _ _ _ _ hblocked => by simp at hblocked⟩
    fun _ _ _ hs hids hstep => hs.step hids hstep

theorem tryTurn_entered {r : Bool}
    (h : (s.tryTurn thread eventId recursive).returned = some (.turn e r true)) :
    s.ref.callDepth = 0 ∨ (r = true ∧ s.ref.top.pumping = true) := by
  unfold Stream.tryTurn at h
  split at h
  · simp [Stream.leaveTurn] at h
  split at h
  · rename_i henter
    obtain ⟨-, rfl⟩ : eventId = e ∧ recursive = r := by simpa [Stream.leaveTurn] using h
    exact canEnter_top henter
  · simp at h

theorem tryEndPump_ended
    (h : (s.tryEndPump thread eventId index).returned = some (.endPump e true)) :
    0 < (s.tryEndPump thread eventId index).ref.callDepth ∧
      (s.tryEndPump thread eventId index).ref.top.eventId = e := by
  unfold Stream.tryEndPump at h ⊢
  split at h
  · simp at h
  rename_i hwaits
  rw [if_neg hwaits]
  obtain ⟨rfl, hended⟩ : eventId = e ∧ s.ref.pumpEnded eventId index = true := by simpa using h
  simp only [pumpEnded, Bool.and_eq_true, beq_iff_eq] at hended
  obtain ⟨⟨-, hdepth⟩, hid⟩ := hended
  refine ⟨by show 0 < s.ref.callDepth; omega, ?_⟩
  rw [top, hdepth]
  exact hid

/-- A step is one round of a turn, one round of an `end_pump`, or returns neither an
entered turn nor an ended pump. -/
theorem step_cases (hstep : s.step a = some t) :
    (∃ u : Stream, ∃ thread eventId recursive, u.ref.callDepth = s.ref.callDepth ∧
      u.ref.top = s.ref.top ∧ t = u.tryTurn thread eventId recursive) ∨
    (∃ u : Stream, ∃ thread eventId index, t = u.tryEndPump thread eventId index) ∨
    (∀ e r, t.returned ≠ some (.turn e r true)) ∧ ∀ e, t.returned ≠ some (.endPump e true) := by
  cases a with
  | waitEventTurn thread eventId recursive =>
    simp only [Stream.step, ite_none_left_eq_some] at hstep
    obtain ⟨-, hstep⟩ := hstep
    split at hstep
    · cases hstep
      exact .inr (.inr (by simp))
    · refine .inl ⟨_, thread, eventId, recursive, ?_, ?_, (some.inj hstep).symm⟩ <;> rfl
  | wake =>
    simp only [Stream.step] at hstep
    split at hstep
    · simp at hstep
    · exact .inl ⟨s, _, _, _, rfl, rfl, (some.inj hstep).symm⟩
    · exact .inr (.inl ⟨s, _, _, _, (some.inj hstep).symm⟩)
  | endPump =>
    simp only [Stream.step, ite_none_left_eq_some] at hstep
    obtain ⟨-, hstep⟩ := hstep
    split at hstep
    · cases hstep
      exact .inr (.inr (by simp))
    cases hstep
    unfold Stream.endPump
    split
    · exact .inr (.inr (by simp))
    · split
      · exact .inr (.inl ⟨_, _, _, _, rfl⟩)
      · exact .inr (.inr (by simp))
  | beginPump =>
    simp only [Stream.step] at hstep
    split at hstep
    all_goals
      cases hstep
      exact .inr (.inr (by simp))
  | timeout =>
    simp only [Stream.step] at hstep
    split at hstep
    · cases hstep
      exact .inr (.inr (by simp [Stream.leaveTurn]))
    · simp at hstep
  | completeEvent eventId | invalidate =>
    cases hstep
    exact .inr (.inr (by simp))

theorem step_entered (hstep : s.step a = some t) {r : Bool}
    (h : t.returned = some (.turn e r true)) :
    s.ref.callDepth = 0 ∨ (r = true ∧ s.ref.top.pumping = true) := by
  rcases step_cases hstep with ⟨u, _, _, _, hdepth, htop, rfl⟩ | ⟨u, _, _, _, rfl⟩ | hother
  · rw [← hdepth, ← htop]
    exact tryTurn_entered h
  · unfold Stream.tryEndPump at h
    split at h <;> simp at h
  · exact absurd h (hother.1 e r)

/-- `end_pump` returns true only for the frame on top. -/
theorem step_ended (hstep : s.step a = some t) (h : t.returned = some (.endPump e true)) :
    0 < t.ref.callDepth ∧ t.ref.top.eventId = e := by
  rcases step_cases hstep with ⟨u, _, _, _, -, -, rfl⟩ | ⟨u, _, _, _, rfl⟩ | hother
  · unfold Stream.tryTurn at h
    split at h
    · simp [Stream.leaveTurn] at h
    · split at h <;> simp [Stream.leaveTurn] at h
  · exact tryEndPump_ended h
  · exact absurd h (hother.2 e)

def Executing (s : Stream) (i : Nat) : Prop :=
  i < s.ref.callDepth ∧ (s.ref.calls i).pumping = false ∧ s.asked (s.ref.calls i).eventId = false

theorem Turns.executing_top (h : Turns s) {i : Nat} (hi : Executing s i) :
    i + 1 = s.ref.callDepth := by
  obtain ⟨hlt, hpump, hasked⟩ := hi
  by_contra hne
  rcases h.stacked.below i (by omega) with hpump' | hasked'
  · simp [hpump] at hpump'
  · simp [hasked] at hasked'

/-- The discipline of the callback stack, in every run with distinct event ids. -/
theorem call_stack_discipline (h : Reaches step distinctIds {} s) :
    (∀ a t, distinctIds s a → s.step a = some t → (∀ e r, t.returned = some (.turn e r true) →
        s.ref.callDepth = 0 ∨ (r = true ∧ s.ref.top.pumping = true)) ∧
      ∀ e, t.returned = some (.endPump e true) → 0 < t.ref.callDepth ∧ t.ref.top.eventId = e) ∧
    (∀ i, i + 1 < s.ref.callDepth →
      (s.ref.calls i).pumping = true ∨ s.asked (s.ref.calls i).eventId = true) ∧
    (∀ i j, Executing s i → Executing s j → i = j) ∧
    ∀ i, s.ref.callDepth ≤ i → s.ref.calls i = {} := by
  have hturns := turns_of_reaches h
  refine ⟨fun a t _ hstep => ⟨fun e r => step_entered hstep, fun e => step_ended hstep⟩,
    hturns.stacked.below, fun i j hi hj => ?_, hturns.stacked.zero⟩
  have hi := hturns.executing_top hi
  have hj := hturns.executing_top hj
  omega

instance (s : Stream) : ∀ a, Decidable (distinctIds s a)
  | .waitEventTurn _ eventId _ _ => inferInstanceAs (Decidable (eventId ∉ s.requested))
  | .beginPump .. | .endPump .. | .completeEvent .. | .wake .. | .timeout .. | .invalidate =>
    inferInstanceAs (Decidable True)

/-- A callback pumps, a recursive one enters above it, and the pump waits for it to end. -/
theorem call_stack_discipline_run : ∃ s : Stream,
    (s.ref.callDepth == 2 && s.blocked 3 == some (.pump 7 0)) = true ∧
      ((s.ref.calls 0).pumping = true ∨ s.asked (s.ref.calls 0).eventId = true) := by
  have hguard : GuardedRun step distinctIds ({} : Stream)
      [.waitEventTurn 1 7 false true, .beginPump 7 true, .waitEventTurn 2 8 true true,
        .endPump 3 7 true] :=
    guardedRun_of_check (fun s a => (of_decide_eq_true : decide (distinctIds s a) = true → _))
      (by decide)
  obtain ⟨s, hs, hq⟩ := Reaches.exists_of_run
    (q := fun s => s.ref.callDepth == 2 && s.blocked 3 == some (.pump 7 0)) hguard (by decide)
  refine ⟨s, hq, (call_stack_discipline hs).2.1 0 ?_⟩
  simp only [Bool.and_eq_true, beq_iff_eq] at hq
  omega

end Stream

end KeysharpInput.Callback
