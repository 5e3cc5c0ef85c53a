import KeysharpInput.Releases
import KeysharpInput.DrainedViews

/-!
What sources and their holds keep along whole runs.
A synthetic release displaces a forwarded key only while its source holds the key, and forgets the
displacement once the source lets go, so that a later press restores nothing that is not held. The
epoch of the forwarding table moves whenever a grab ends, in either view, and a table that has not
seen the move is swept before anything else is held there; so the holds of an ended grab do not
outlast the next sweep.
-/

namespace KeysharpInput.Output

open Forward SynthHolds Transition List Finset Backend Nat Bool OutputAction

namespace OutputState

variable {s t : OutputState} {outcome : Nat → Option Nat} {absOpens : Bool}

def Issued (s : OutputState) : OutputEvent → Prop
  | .pushEndGrab target => target < s.backend.forward.nextSerial * 256
  | _ => True

structure Tended (s : OutputState) : Prop where
  wellFormed : WellFormed s.backend.forward
  ends : ∀ next, .endGrab next ∈ s.lifetimes → next < s.backend.forward.nextSerial * 256
  counted : ∀ v, (s.backend.holds v).Counted
  swept : ∀ v, s.backend.Swept v

theorem tended_start (outcome : Nat → Option Nat) (absOpens : Bool) :
    Tended (start outcome absOpens) := by
  have hlined := lined_start outcome absOpens
  refine ⟨hlined.wellFormed, hlined.ends, fun _ => counted_default, fun _ => ?_⟩
  exact ⟨fun _ => zero_le _, fun _ _ o _ => owned_clear {} o⟩

section

variable (hs : Tended s)

include hs

theorem Tended.mono (hf : WellFormed t.backend.forward)
    (hserial : s.backend.forward.nextSerial ≤ t.backend.forward.nextSerial)
    (htends : s.backend.Tends t.backend)
    (hends : ∀ next, .endGrab next ∈ t.lifetimes → .endGrab next ∈ s.lifetimes ∨
      next < t.backend.forward.nextSerial * 256) : Tended t := by
  refine ⟨hf, fun next hmem => ?_, fun v => (htends v (hs.counted v)).1,
    fun v => (htends v (hs.counted v)).2 (hs.swept v)⟩
  rcases hends next hmem with hold | hnew
  · exact lt_of_lt_of_le (hs.ends next hold) (mul_le_mul_right 256 hserial)
  · exact hnew

theorem Tended.pushEndGrab {target : Nat} (htarget : target < s.backend.forward.nextSerial * 256) :
    Tended (s.pushEndGrab target).2.2 := by
  obtain ⟨hf, houtlives, hserial, hnext⟩ := forwardEndGrab_issued hs.wellFormed htarget
  unfold OutputState.pushEndGrab
  generalize s.backend.forward.forwardEndGrab target = r at *
  obtain ⟨next, kept, f⟩ := r
  dsimp only at hf houtlives hserial hnext ⊢
  split
  · have hlasts := lasts_forwardApplyEndGrab hf hnext (some kept) (fun _ => False) fun _ => False
    exact hs.mono hlasts.wellFormed (hserial.trans hlasts.serial)
      (tends_forward _ (houtlives.trans hlasts.outlives)) fun _ hmem => .inl hmem
  refine hs.mono hf hserial (tends_forward _ houtlives) fun next' hmem => ?_
  rw [lifetimes_admitAction, mem_append] at hmem
  refine hmem.imp_right fun hmem => ?_
  obtain rfl : next' = next := by simpa [isLifetime] using hmem
  exact hnext

theorem Tended.pushClose (target now : Nat) : Tended (s.pushClose target now) := by
  obtain ⟨hf, houtlives, hserial⟩ := wellFormed_forwardClose hs.wellFormed target
  unfold OutputState.pushClose
  split
  · have hlasts := lasts_forwardApplyClose hf target now (fun _ => False) fun _ => False
    exact hs.mono hlasts.wellFormed (hserial.ge.trans hlasts.serial)
      (tends_forward _ (houtlives.trans hlasts.outlives)) fun _ hmem => .inl hmem
  · refine hs.mono hf hserial.ge (tends_forward _ houtlives) fun next hmem => .inl ?_
    rw [lifetimes_admitAction, mem_append] at hmem
    exact hmem.resolve_right (by simp [isLifetime])

theorem Tended.openSource (info : SourceInfo) : Tended (s.openSource info) := by
  rcases resettles_openSource hs.wellFormed info with h | ⟨i, -, -, -, hresettles, -⟩
  · unfold OutputState.openSource
    rw [h]
    exact hs
  · exact hs.mono hresettles.wellFormed hresettles.serial
      (tends_forward _ hresettles.outlives) fun _ hmem => .inl hmem

theorem Tended.step {e : OutputEvent} (he : Issued s e) (hstep : s.step e = some t) : Tended t := by
  by_cases hsource : isSourceEvent e = true
  · cases e with
    | openSource info =>
      cases hstep
      exact hs.openSource info
    | pushEndGrab =>
      cases hstep
      exact hs.pushEndGrab he
    | pushClose target now =>
      cases hstep
      exact hs.pushClose target now
    | _ => exact absurd hsource false_ne_true
  by_cases hdrain : ∃ now opens absOpens, e = .drain now opens absOpens
  · obtain ⟨now, opens, absOpens, rfl⟩ := hdrain
    obtain ⟨entry, queue, hqueue, rfl⟩ := exists_of_drain hstep
    have hends : ∀ next, entry.action = .endGrab next →
        next < s.backend.forward.nextSerial * 256 := by
      intro next haction
      refine hs.ends next ?_
      simp [lifetimes, hqueue, haction, isLifetime]
    obtain ⟨htends, hf, hserial⟩ := applyOutputAction_spec hs.wellFormed hends
    refine hs.mono hf hserial htends fun next hmem => .inl ?_
    unfold lifetimes at hmem ⊢
    rw [hqueue]
    exact (((sublist_cons_self entry queue).map _).filter _).subset hmem
  · have hcarries := carries_admission hs.wellFormed (eq_false_iff.mpr hsource)
      (fun now opens absOpens heq => hdrain ⟨now, opens, absOpens, heq⟩) hstep
    exact hs.mono hcarries.lasts.wellFormed hcarries.lasts.serial hcarries.tends
      fun _ hmem => .inl (hcarries.lifetimes.subset hmem)

end

theorem Tended.of_reaches (h : Reaches OutputState.step Issued (start outcome absOpens) s) :
    Tended s :=
  h.invariant (tended_start outcome absOpens) fun _ _ _ hs he hstep => hs.step he hstep

/-- What is displaced in a view is held by its source there, so whatever is played or admitted
forwards again only keys that their source holds. -/
theorem displaced_keys_are_held (h : Reaches step Issued (start outcome absOpens) s) (i : Nat) :
    (∀ v, ((s.backend.forward.device i).views v).displaced ⊆
      ((s.backend.forward.device i).views v).source) ∧
    ∀ inputs flags owner,
      (((s.backend.sendInput inputs flags owner).2.forward.device i).views .applied).output ⊆
        ((s.backend.forward.device i).views .applied).output ∪
          ((s.backend.forward.device i).views .applied).source ∧
      (((s.backend.noteEnqueuedSynth inputs owner).forward.device i).views .enqueued).output ⊆
        ((s.backend.forward.device i).views .enqueued).output ∪
          ((s.backend.forward.device i).views .enqueued).source := by
  have hheld := ((Tended.of_reaches h).wellFormed.device i).restorable
  refine ⟨hheld, fun inputs flags owner => ⟨?_, ?_⟩⟩
  · exact ((performs_sendInput s.backend inputs flags owner).forward.views i).output.trans
      (union_subset_union_right (hheld .applied))
  · exact ((performs_noteEnqueuedSynth s.backend inputs owner).forward.views i).output.trans
      (union_subset_union_right (hheld .enqueued))

theorem guardedRun_of_issued (es : List OutputEvent) (h : checkRun step (fun s e => match e with
      | .pushEndGrab target => decide (target < s.backend.forward.nextSerial * 256)
      | _ => true) s es = true) : GuardedRun step Issued s es := by
  refine guardedRun_of_check (fun s e he => ?_) h
  cases e with
  | pushEndGrab target =>
    exact of_decide_eq_true (p := target < s.backend.forward.nextSerial * 256) he
  | _ => trivial

def displacingRun : List OutputEvent :=
  [.openSource { keyboard := true, hasCodes := true },
    .pushPacket true { target := 257, events := [keyEvent 30 1] } 0,
    .pushPacket false { target := 257, events := [keyEvent 30 1], reportEnd := true } 0,
    .pushOwnedSynth [.keyboard { vk := 0x41, flags := {.up} }] {} 0 {} false]

theorem displaced_keys_are_held_of_run : ∃ s, Reaches step Issued (start (fun _ => none) true) s ∧
    (30 : Code) ∈ ((s.backend.forward.device 0).views .enqueued).displaced ∧
    (30 : Code) ∈ ((s.backend.forward.device 0).views .enqueued).source := by
  obtain ⟨s, hs, hmem⟩ := Reaches.exists_of_run
    (q := fun s : OutputState =>
      (30 : Code) ∈ ((s.backend.forward.device 0).views .enqueued).displaced)
    (guardedRun_of_issued (s := start (fun _ => none) true) displacingRun
      (by decide +kernel)) (by decide +kernel)
  exact ⟨s, hs, hmem, (displaced_keys_are_held hs 0).1 .enqueued hmem⟩

end OutputState

end KeysharpInput.Output
