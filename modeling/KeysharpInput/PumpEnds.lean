import KeysharpInput.CallTurns

/-!
The end of a pump.
`hook_send_ref_end_pump` finds its frame once and then waits at that place of the stack for the
frames above to leave. A frame that leaves from above or enters there does not move it. One that
leaves from below does: the place then holds another frame, and the call returns false while its
own frame is still on the stack.
-/

namespace KeysharpInput.Callback

open Transition

variable {thread e index : Nat}

namespace SendRef

variable {ref : SendRef}

def Stands (e index : Nat) (ref : SendRef) : Prop :=
  ref.valid = true ∧ index < ref.callDepth ∧ (ref.calls index).eventId = e

section

variable (h : ref.Stands e index)

include h

theorem Stands.setPumping (i : Nat) (pumping : Bool) :
    (ref.setCall i fun frame => { frame with pumping }).Stands e index := by
  refine ⟨h.1, h.2.1, Eq.trans ?_ h.2.2⟩
  exact eventId_setCall (f := fun frame => { frame with pumping }) (fun _ => rfl) i index

theorem Stands.enter (eventId : Nat) : (ref.enter eventId).Stands e index := by
  refine ⟨h.1, Nat.lt_succ_of_lt h.2.1, ?_⟩
  simpa [SendRef.enter, SendRef.setCall, Nat.ne_of_lt h.2.1] using h.2.2

theorem Stands.beginPump (eventId : Nat) : (ref.beginPump eventId).1.Stands e index := by
  unfold SendRef.beginPump
  split
  · exact h.setPumping _ true
  · exact h

theorem Stands.completeEvent {eventId : Nat}
    (habove : ∀ i, ref.findCall eventId = some i → index < i) :
    (ref.completeEvent eventId).Stands e index := by
  obtain ⟨hvalid, hlt, hid⟩ := h
  unfold SendRef.completeEvent
  split
  · exact ⟨hvalid, hlt, hid⟩
  split
  · exact ⟨hvalid, hlt, hid⟩
  rename_i i hfind
  have hi := (findCall_eq_some hfind).1
  have hindex := habove i hfind
  refine ⟨hvalid, show index < ref.callDepth - 1 by omega, ?_⟩
  have hne : index ≠ ref.callDepth - 1 := by omega
  have hlow : ¬ (i ≤ index ∧ index < ref.callDepth - 1) := by omega
  simpa [hne, hlow] using hid

end

end SendRef

open SendRef

namespace Stream

variable {s t : Stream}

theorem stands_tryTurn (h : s.ref.Stands e index) (thread' eventId : Nat) (recursive : Bool) :
    (s.tryTurn thread' eventId recursive).ref.Stands e index := by
  unfold tryTurn
  split
  · exact h
  split
  · exact h.enter eventId
  · exact h

theorem stands_tryEndPump (h : s.ref.Stands e index) (thread' eventId i : Nat) :
    (s.tryEndPump thread' eventId i).ref.Stands e index := by
  unfold tryEndPump
  split <;> exact h

theorem stands_endPump (h : s.ref.Stands e index) (thread' eventId : Nat) :
    (s.endPump thread' eventId).ref.Stands e index := by
  unfold endPump
  split
  · exact h
  split
  · exact stands_tryEndPump (by exact h.setPumping _ false) ..
  · exact h

def Spares (thread e index : Nat) (s : Stream) (action : Action) : Prop :=
  s.blocked thread = some (.pump e index) ∧ action ≠ .invalidate ∧
    ∀ eventId, action = .completeEvent eventId → ∀ i, s.ref.findCall eventId = some i → index < i

theorem stands_step {action : Action} (h : s.ref.Stands e index)
    (hspares : Spares thread e index s action) (hstep : s.step action = some t) :
    t.ref.Stands e index := by
  obtain ⟨-, hvalid, habove⟩ := hspares
  cases action with
  | waitEventTurn =>
    simp only [step] at hstep
    split at hstep
    · cases hstep
    split at hstep
    · cases hstep
      exact h
    · cases hstep
      exact stands_tryTurn (by exact h) ..
  | beginPump eventId =>
    simp only [step] at hstep
    split at hstep
    · cases hstep
      exact h
    · cases hstep
      exact h.beginPump eventId
  | endPump =>
    simp only [step] at hstep
    split at hstep
    · cases hstep
    split at hstep
    · cases hstep
      exact h
    · cases hstep
      exact stands_endPump h ..
  | completeEvent eventId =>
    cases hstep
    exact h.completeEvent (habove eventId rfl)
  | wake =>
    simp only [step] at hstep
    split at hstep
    · cases hstep
    · cases hstep
      exact stands_tryTurn h ..
    · cases hstep
      exact stands_tryEndPump h ..
  | timeout =>
    simp only [step] at hstep
    split at hstep
    · cases hstep
      exact h
    · cases hstep
  | invalidate => exact absurd rfl hvalid

theorem tryEndPump_of_stands (h : s.ref.Stands e index) (thread : Nat) :
    if s.ref.callDepth = index + 1 then
      (s.tryEndPump thread e index).returned = some (.endPump e true)
    else (s.tryEndPump thread e index).blocked thread = some (.pump e index) := by
  obtain ⟨hvalid, hlt, hid⟩ := h
  unfold tryEndPump pumpWaits pumpEnded
  split
  · rename_i hdepth
    simp [hvalid, hid, hdepth]
  · have habove : index + 1 < s.ref.callDepth := by omega
    simp [hvalid, hid, habove]

/-- `end_pump` of a pumping frame waits, now and at every later wake-up, if frames stand above and
otherwise returns true. -/
theorem endPump_waits (thread : Nat) (hvalid : s.ref.valid = true)
    (hfind : s.ref.findCall e = some index) (hpumping : (s.ref.calls index).pumping = true) :
    (if s.ref.callDepth = index + 1 then
      (s.endPump thread e).returned = some (.endPump e true)
    else (s.endPump thread e).blocked thread = some (.pump e index)) ∧
    ∀ t, Reaches step (Spares thread e index) (s.endPump thread e) t →
      t.blocked thread = some (.pump e index) → ∃ t', t.step (.wake thread) = some t' ∧
        if t.ref.callDepth = index + 1 then t'.returned = some (.endPump e true)
        else t'.blocked thread = some (.pump e index) := by
  have hstands : s.ref.Stands e index := ⟨hvalid, findCall_eq_some hfind⟩
  refine ⟨?_, fun t ht hblocked => ?_⟩
  · unfold endPump
    rw [hfind]
    dsimp only
    rw [if_pos hpumping]
    exact tryEndPump_of_stands (s := { s with
      ref := s.ref.setCall index fun frame => { frame with pumping := false }
      asked := Function.update s.asked e true }) (hstands.setPumping index false) thread
  · have hstands : t.ref.Stands e index := ht.invariant
      (stands_endPump hstands thread e) fun _ _ _ h hspares hstep => stands_step h hspares hstep
    refine ⟨_, ?_, tryEndPump_of_stands hstands thread⟩
    simp only [step, hblocked]

def nestedPumps : List Action :=
  [.waitEventTurn 1 1 false true, .beginPump 1 true, .waitEventTurn 2 2 true true,
    .beginPump 2 true, .waitEventTurn 3 3 true true]

theorem endPump_waits_nested : ∃ s : Stream, Reaches step always {} s ∧
    (s.endPump 4 2).blocked 4 = some (.pump 2 1) := by
  obtain ⟨s, hs, hvalid, hdepth, hfind, hpumping⟩ := exists_reaches step ({} : Stream) nestedPumps
    (q := fun s => s.ref.valid ∧ s.ref.callDepth = 3 ∧ s.ref.findCall 2 = some 1 ∧
      (s.ref.calls 1).pumping) (by decide)
  have hwaits := (endPump_waits 4 hvalid hfind hpumping).1
  rw [if_neg (by omega)] at hwaits
  exact ⟨s, hs, hwaits⟩

/-- The frame below completes: the call returns false, with its frame and the one above on the
stack. -/
theorem endPump_false_on_stack : ∃ s : Stream, Reaches step always {} s ∧
    (s.returned == some (.endPump 2 false) && s.ref.valid && s.ref.callDepth == 2 &&
      s.ref.findCall 2 == some 0 && s.ref.findCall 3 == some 1) = true :=
  exists_reaches _ _ (nestedPumps ++ [.endPump 4 2 true, .completeEvent 1, .wake 4])
    (by decide)

end Stream

end KeysharpInput.Callback
