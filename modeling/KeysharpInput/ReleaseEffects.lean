import KeysharpInput.HoldTable
import KeysharpInput.PacketEffects

/-!
What the key releases of a packet take from the owners of synthesis.
The release of a source's key ends the holds that derive from that key, and unless the release was
suppressed it ends every hold of the key itself.
-/

namespace KeysharpInput.Output

open SynthHolds ForwardPacket

def ForwardPacket.releaseHolds (packet : ForwardPacket) (e : InputEvent) (o : SynthOwner)
    (keys : Set Code) : Set Code :=
  match e.key with
  | none => keys
  | some code =>
    if e.value ≠ 0 then keys
    else if packet.target ≠ 0 ∧
        o.matchesFilter { target := packet.target, sourceType := 1, sourceCode := code.val } then ∅
    else if packet.suppressed then keys
    else keys \ {canonicalButton code}

theorem ForwardPacket.releaseHolds_subset (packet : ForwardPacket) (e : InputEvent) (o : SynthOwner)
    (keys : Set Code) : packet.releaseHolds e o keys ⊆ keys := by
  unfold releaseHolds
  split
  · exact subset_rfl
  split
  · exact subset_rfl
  split
  · exact Set.empty_subset keys
  split
  · exact subset_rfl
  · exact Set.sdiff_subset

namespace Backend

theorem releaseEvent_spec (packet : ForwardPacket) {acc : SynthHolds × KeyBits}
    (hc : acc.1.Counted) (e : InputEvent) :
    (releaseEvent packet acc e).1.Counted ∧ (releaseEvent packet acc e).1.epoch = acc.1.epoch ∧
      (releaseEvent packet acc e).1.overflowed = acc.1.overflowed ∧
      ∀ o, (releaseEvent packet acc e).1.owned o = packet.releaseHolds e o (acc.1.owned o) := by
  unfold releaseEvent releaseHolds
  cases hkey : e.key with
  | none => exact ⟨hc, rfl, rfl, fun _ => rfl⟩
  | some code =>
    by_cases hvalue : e.value = 0
    · simp only [hvalue, ne_eq, not_true_eq_false, if_false]
      set derived : SynthOwner :=
        { target := packet.target, sourceType := 1, sourceCode := code.val } with hderived
      -- The holds that derive from the key go first, then those of the key itself.
      have hdrop : ∃ r : SynthHolds × KeyBits,
          (if packet.target ≠ 0 then acc.1.dropClaims (·.matchesFilter derived) acc.2
            else acc) = r ∧
          r.1.Counted ∧ r.1.epoch = acc.1.epoch ∧ r.1.overflowed = acc.1.overflowed ∧
          ∀ o, r.1.owned o =
            if packet.target ≠ 0 ∧ o.matchesFilter derived = true then ∅ else acc.1.owned o := by
        refine ⟨_, rfl, ?_⟩
        split
        · rename_i htarget
          obtain ⟨hcounted, hepoch, hover, howned⟩ := hc.dropClaims (·.matchesFilter derived) acc.2
          exact ⟨hcounted, hepoch, hover, fun o => by simp [howned o, htarget]⟩
        · rename_i htarget
          exact ⟨hc, rfl, rfl, fun o => by simp [not_not.mp htarget]⟩
      obtain ⟨r, hr, hcounted, hepoch, hover, howned⟩ := hdrop
      rw [hr]
      split
      · exact ⟨hcounted, hepoch, hover, howned⟩
      obtain ⟨hepoch', hover'⟩ := releaseCodeFrom_frame (canonicalButton code)
        r.1.claims.length r.1
      refine ⟨hcounted.releaseCode _, hepoch'.trans hepoch, hover'.trans hover, fun o => ?_⟩
      rw [hcounted.owned_releaseCode, howned o]
      split
      · exact Set.empty_sdiff _
      · rfl
    · simp only [hvalue, ne_eq, not_false_eq_true, if_true]
      exact ⟨hc, trivial, trivial, fun _ => trivial⟩

theorem foldl_releaseEvent (packet : ForwardPacket) (events : List InputEvent)
    (acc : SynthHolds × KeyBits) (hc : acc.1.Counted) :
    (events.foldl (releaseEvent packet) acc).1.Counted ∧
      (events.foldl (releaseEvent packet) acc).1.epoch = acc.1.epoch ∧
      (events.foldl (releaseEvent packet) acc).1.overflowed = acc.1.overflowed ∧
      ∀ o, (events.foldl (releaseEvent packet) acc).1.owned o =
        events.foldl (fun keys e => packet.releaseHolds e o keys) (acc.1.owned o) := by
  induction events generalizing acc with
  | nil => exact ⟨hc, rfl, rfl, fun _ => rfl⟩
  | cons e _ ih =>
    obtain ⟨hcounted, hepoch, hover, howned⟩ := releaseEvent_spec packet hc e
    obtain ⟨hcounted', hepoch', hover', howned'⟩ := ih _ hcounted
    refine ⟨hcounted', hepoch'.trans hepoch, hover'.trans hover, fun o => ?_⟩
    rw [List.foldl_cons, howned', howned, List.foldl_cons]

end Backend

end KeysharpInput.Output
