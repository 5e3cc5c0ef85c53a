import KeysharpInput.SourceTables
import KeysharpInput.SynthWrites

/-!
What synthesis may change, whatever becomes of its writes.
A batch gives new holds to its own owner only, and to nobody once the owner's source has ended.
It may displace holds of sources and give them back, and it may end holds of other owners, but it
never touches what a source physically holds. Everything else that synthesis does is writing.
-/

namespace KeysharpInput.Output.Backend

open Forward SynthHolds

variable {b b' b'' : Backend} {v w : View} {owner o : SynthOwner} {presses : Bool} {code : Code}

structure Stays (b b' : Backend) : Prop where
  forward : Still b.forward b'.forward
  holds : b'.holds = b.holds

namespace Stays

theorem refl (b : Backend) : Stays b b := ⟨.refl _, rfl⟩

theorem trans (h : Stays b b') (g : Stays b' b'') : Stays b b'' :=
  ⟨h.forward.trans g.forward, g.holds.trans h.holds⟩

theorem of_forward {f : Forward} (b : Backend) (h : Still b.forward f) :
    Stays b { b with forward := f } := ⟨h, rfl⟩

end Stays

theorem stays_emitEventTo (b : Backend) (device : OutputDevice) (event : InputEvent) :
    Stays b (b.emitEventTo device event).2 := by
  unfold emitEventTo
  split
  · exact .refl b
  · exact ⟨still_outputWrite .., rfl⟩

theorem stays_sinkKey (b : Backend) (code : Code) (held : Bool) :
    Stays b (b.sinkKey code held).2 := .of_forward b (still_sinkKey ..)

theorem stays_tapSinkKey (b : Backend) (code : Code) : Stays b (b.tapSinkKey code).2 :=
  .of_forward b (still_tap ..)

theorem stays_rule (b₀ : Backend) : OutputRule (Stays b₀) where
  emit := fun h device _ _ => h.trans (stays_emitEventTo _ device _)
  sinkKey := fun h code held => h.trans (stays_sinkKey _ code held)
  tapSinkKey := fun h code => h.trans (stays_tapSinkKey _ code)
  flags := fun h _ => ⟨h.forward, h.holds⟩

theorem stays_releaseUnheld (b : Backend) (released : KeyBits) :
    Stays b (b.releaseUnheld released) :=
  (stays_rule b).foldl_updateGenericKey (.refl b) _

theorem stays_releaseFor (b : Backend) (view : View) (released : KeyBits) :
    Stays b (b.releaseFor view released) := by
  unfold releaseFor
  split
  · exact stays_releaseUnheld ..
  · exact .refl b

def Gone (f : Forward) (target : Nat) (v : View) : Prop :=
  target ≠ 0 ∧ f.findDevice target v = none

def Early (f : Forward) : Prop := f.targetEpoch < 2 ^ 32

theorem forwardEpoch_of_early {f : Forward} (h : Early f) : f.forwardEpoch = f.targetEpoch :=
  Nat.mod_eq_of_lt h

structure Swept (v : View) (b : Backend) : Prop where
  epoch : Early b.forward → (b.holds v).epoch ≤ b.forward.targetEpoch
  owned : Early b.forward → (b.holds v).epoch = b.forward.targetEpoch →
    ∀ o, Gone b.forward o.target v → (b.holds v).owned o = ∅

theorem Swept.mono (h : Swept v b) (hf : Outlives b.forward b'.forward)
    (hepoch : (b'.holds v).epoch = (b.holds v).epoch)
    (howned : ∀ o, Gone b.forward o.target v → (b'.holds v).owned o ⊆ (b.holds v).owned o) :
    Swept v b' := by
  have hle' := hf.epoch
  have hearly : Early b'.forward → Early b.forward := hle'.trans_lt
  refine ⟨fun he => ?_, fun he heq o hgone => ?_⟩
  · have hle := h.epoch (hearly he)
    omega
  have hle := h.epoch (hearly he)
  have hgone' : Gone b.forward o.target v := ⟨hgone.1, hf.find (by omega) _ v hgone.2⟩
  rw [← Set.subset_empty_iff, ← h.owned (hearly he) (by omega) o hgone']
  exact howned o hgone'

def Tends (b b' : Backend) : Prop :=
  ∀ v, (b.holds v).Counted → (b'.holds v).Counted ∧ (Swept v b → Swept v b')

theorem Tends.refl (b : Backend) : Tends b b := fun _ hc => ⟨hc, id⟩

theorem Tends.trans (h : Tends b b') (g : Tends b' b'') : Tends b b'' := by
  intro v hc
  obtain ⟨hc', hs⟩ := h v hc
  obtain ⟨hc'', hs'⟩ := g v hc'
  exact ⟨hc'', fun h => hs' (hs h)⟩

theorem tends_forward {f : Forward} (b : Backend) (h : Outlives b.forward f) :
    Tends b { b with forward := f } :=
  fun _ hc => ⟨hc, fun hs => hs.mono h rfl fun _ _ => subset_rfl⟩

theorem ownerIsDead_of_gone (h : Gone b.forward o.target v) : b.ownerIsDead o v = true := by
  simp [ownerIsDead, forwardFailed, h.1, h.2]

structure Performs (v : View) (owner : SynthOwner) (presses : Bool) (b b' : Backend) : Prop where
  forward : Shifts v b.forward b'.forward
  others : ∀ w, w ≠ v → b'.holds w = b.holds w
  claims : (b.holds v).Counted → (b'.holds v).Counted ∧
    ∀ o, (o = owner → presses = false) → (b'.holds v).owned o ⊆ (b.holds v).owned o
  swept : (b.holds v).Counted → (presses = true → ¬ Gone b.forward owner.target v) →
    Swept v b → Swept v b'

namespace Performs

theorem trans (h : Performs v owner presses b b') (g : Performs v owner presses b' b'') :
    Performs v owner presses b b'' := by
  refine ⟨h.forward.trans g.forward, fun w hw => (g.others w hw).trans (h.others w hw),
    fun hc => ?_, fun hc hlive hs => ?_⟩
  · obtain ⟨hc', hsub⟩ := h.claims hc
    obtain ⟨hc'', hsub'⟩ := g.claims hc'
    exact ⟨hc'', fun o ho => (hsub' o ho).trans (hsub o ho)⟩
  · refine g.swept (h.claims hc).1 (fun hpresses hgone => hlive hpresses ⟨hgone.1, ?_⟩)
      (h.swept hc hlive hs)
    exact (h.forward.findDevice _ v).symm.trans hgone.2

theorem tends (h : Performs v owner presses b b')
    (hlive : presses = true → b.ownerIsDead owner v = false) : Tends b b' := by
  intro w hc
  by_cases hw : w = v
  · subst hw
    refine ⟨(h.claims hc).1, h.swept hc fun hpresses hgone => ?_⟩
    exact absurd ((hlive hpresses).symm.trans (ownerIsDead_of_gone hgone)) Bool.false_ne_true
  rw [h.others w hw]
  refine ⟨hc, fun hs => hs.mono h.forward.outlives ?_ fun o _ => ?_⟩ <;> rw [h.others w hw]

theorem mono (h : Performs v owner false b b') : Performs v owner presses b b' :=
  ⟨h.forward, h.others, fun hc => ⟨(h.claims hc).1, fun o _ => (h.claims hc).2 o fun _ => rfl⟩,
    fun hc _ hs => h.swept hc nofun hs⟩

end Performs

theorem Stays.performs (h : Stays b b') (v : View) (owner : SynthOwner) (presses : Bool) :
    Performs v owner presses b b' :=
  ⟨h.forward.shifts v, fun w _ => by rw [h.holds],
    fun hc => ⟨by rwa [h.holds], fun _ _ => by rw [h.holds]⟩,
    fun _ _ hs => hs.mono (h.forward.shifts v).outlives (by rw [h.holds])
      fun _ _ => by rw [h.holds]⟩

theorem performs_setHolds (b : Backend) (v : View) {h : SynthHolds}
    (hclaims : (b.holds v).Counted → h.Counted ∧ h.epoch = (b.holds v).epoch ∧
      ∀ o, (o = owner → presses = false) → h.owned o ⊆ (b.holds v).owned o) :
    Performs v owner presses b (b.setHolds v h) := by
  have hholds : (b.setHolds v h).holds v = h := by simp [setHolds]
  refine ⟨.refl v _, fun w hw => by simp [setHolds, hw], fun hc => ?_, fun hc hlive hs => ?_⟩
  · obtain ⟨hcounted, -, hsub⟩ := hclaims hc
    rw [hholds]
    exact ⟨hcounted, hsub⟩
  obtain ⟨-, hepoch, hsub⟩ := hclaims hc
  refine hs.mono (.refl _) (by rw [hholds, hepoch]) fun o hgone => ?_
  rw [hholds]
  refine hsub o fun howner => Bool.eq_false_iff.mpr fun hpresses => ?_
  exact hlive hpresses (howner ▸ hgone)

theorem performs_forward {f : Forward} (b : Backend) (h : Shifts v b.forward f) :
    Performs v owner presses b { b with forward := f } :=
  ⟨h, fun _ _ => rfl, fun hc => ⟨hc, fun _ _ => subset_rfl⟩,
    fun _ _ hs => hs.mono h.outlives rfl fun _ _ => subset_rfl⟩

theorem claims_holdKey (h : SynthHolds) (owner : SynthOwner) (code : Code) (hc : h.Counted) :
    (h.holdKey owner code).2.Counted ∧ (h.holdKey owner code).2.epoch = h.epoch ∧
      ∀ o, (o = owner → true = false) → (h.holdKey owner code).2.owned o ⊆ h.owned o := by
  obtain ⟨hcounted, hepoch, -, howned⟩ := hc.holdKey owner code
  refine ⟨hcounted, hepoch, fun o ho => ?_⟩
  rw [howned, if_neg fun hboth => Bool.noConfusion (ho hboth.2)]

theorem claims_dropKey (h : SynthHolds) (i : Nat) (code : Code) (hc : h.Counted)
    (hown : h.findClaim owner = some i) (hkey : h.ownerHolds owner code = true) :
    (h.dropKey i code).Counted ∧ (h.dropKey i code).epoch = h.epoch ∧
      ∀ o, (h.dropKey i code).owned o ⊆ h.owned o := by
  obtain ⟨hlt, -, -⟩ := List.findIdx?_eq_some_iff_getElem.mp hown
  have hi := List.getElem?_eq_getElem hlt
  have hmem : code ∈ h.claims[i].keys := by
    simpa [SynthHolds.ownerHolds, hown, hi] using hkey
  refine ⟨hc.dropKey hi hmem, (dropKey_frame h i code).1, fun o => ?_⟩
  rw [hc.owned_dropKey hi]
  split
  · exact Set.sdiff_subset
  · exact subset_rfl

theorem claims_releaseCode (h : SynthHolds) (code : Code) (hc : h.Counted) :
    (h.releaseCode code).Counted ∧ (h.releaseCode code).epoch = h.epoch ∧
      ∀ o, (h.releaseCode code).owned o ⊆ h.owned o := by
  refine ⟨hc.releaseCode code, (releaseCodeFrom_frame code _ h).1, fun o => ?_⟩
  rw [hc.owned_releaseCode]
  exact Set.sdiff_subset

theorem performs_applyKey (b : Backend) (v : View) (code : Code) (down restore : Bool)
    (owner : SynthOwner) (hdown : presses = false → down = false) :
    Performs v owner presses b (b.applyKey v code down restore owner).2 := by
  unfold applyKey
  cases down with
  | true =>
    obtain rfl : presses = true := by
      cases presses with
      | true => rfl
      | false => exact absurd (hdown rfl) Bool.noConfusion
    have hrestore : Shifts v b.forward
        (if restore then b.forward.restoreKey code v else (false, b.forward)).2 := by
      split
      · exact shifts_shiftKey b.forward code v true
      · exact .refl v _
    generalize (if restore then _ else _) = r at *
    dsimp only
    rw [if_pos rfl]
    split
    · exact performs_forward b hrestore
    · exact (performs_forward b hrestore).trans
        (performs_setHolds _ v fun hc => claims_holdKey _ owner code hc)
  | false =>
    refine Performs.mono ?_
    rw [if_neg Bool.false_ne_true]
    split
    · rename_i hkey
      split
      · rename_i i hown
        refine performs_setHolds b v fun hc => ?_
        obtain ⟨hcounted, hepoch, hsub⟩ := claims_dropKey _ i code hc hown hkey
        exact ⟨hcounted, hepoch, fun o _ => hsub o⟩
      · exact (Stays.refl b).performs v owner false
    · refine (performs_forward b (shifts_shiftKey b.forward code v false)).trans
        (performs_setHolds _ v fun hc => ?_)
      obtain ⟨hcounted, hepoch, hsub⟩ := claims_releaseCode _ code hc
      exact ⟨hcounted, hepoch, fun o _ => hsub o⟩

theorem performs_keyRule (b₀ : Backend) (owner : SynthOwner) (presses : Bool) :
    KeyRule (Performs .applied owner presses b₀) owner presses where
  emit := fun h device _ _ => h.trans ((stays_emitEventTo _ device _).performs ..)
  sinkKey := fun h code held => h.trans ((stays_sinkKey _ code held).performs ..)
  tapSinkKey := fun h code => h.trans ((stays_tapSinkKey _ code).performs ..)
  flags := fun h _ => by
    refine h.trans (Stays.performs ?_ ..)
    exact ⟨.refl _, rfl⟩
  applyKey := fun h code _ restore hup =>
    h.trans (performs_applyKey _ .applied code _ restore owner hup)
  sinkRepress := fun h code =>
    h.trans ((Stays.of_forward _ (still_sinkRepress _ code)).performs ..)

theorem performs_playRule (b₀ : Backend) (owner : SynthOwner) (presses : Bool) :
    PlayRule (Performs .applied owner presses b₀) owner presses := by
  refine (performs_keyRule b₀ owner presses).play (fun h _ _ => ?_) fun h _ => ?_
  all_goals
    refine h.trans (Stays.performs ?_ ..)
    exact ⟨.refl _, rfl⟩

theorem performs_sendInput (b : Backend) (inputs : List Input) (flags : SynthFlags)
    (owner : SynthOwner) :
    Performs .applied owner (!b.ownerIsDead owner .applied) b
      (b.sendInput inputs flags owner).2 :=
  (performs_playRule b owner _).sendInput (by simp) ((Stays.refl b).performs ..) inputs flags

theorem performs_sweepDeadTargets (b : Backend) (v : View) (owner : SynthOwner)
    (released : KeyBits) : Performs v owner false b (b.sweepDeadTargets v released).1 := by
  have hholds : (b.sweepDeadTargets v released).1.holds v =
      ((b.holds v).sweepDeadTargets b.forward.forwardEpoch (b.ownerIsDead · v) released).1 := by
    simp [sweepDeadTargets, setHolds]
  refine ⟨.refl v _, fun w hw => by simp [sweepDeadTargets, setHolds, hw], fun hc => ?_,
    fun hc _ hs => ?_⟩
  all_goals
    obtain ⟨hcounted, hepoch, -, howned⟩ := hc.sweepDeadTargets b.forward.forwardEpoch
      (b.ownerIsDead · v) released
    rw [← hholds] at hcounted hepoch howned
  · refine ⟨hcounted, fun o _ => (howned o).subset.trans ?_⟩
    split
    · exact Set.empty_subset _
    · exact subset_rfl
  · refine ⟨fun he => hepoch.le.trans (Nat.mod_le _ _), fun he _ o hgone => (howned o).trans ?_⟩
    split_ifs with hdrops
    · rfl
    · have hsame : (b.holds v).epoch = b.forward.forwardEpoch :=
        by_contra fun hne => hdrops ⟨hne, ownerIsDead_of_gone hgone⟩
      exact hs.owned he (hsame.trans (forwardEpoch_of_early he)) o hgone

theorem performs_noteEnqueuedSynth (b : Backend) (inputs : List Input) (owner : SynthOwner) :
    Performs .enqueued owner (!b.ownerIsDead owner .enqueued) b
      (b.noteEnqueuedSynth inputs owner) := by
  have hrule : NoteRule (Performs .enqueued owner (!b.ownerIsDead owner .enqueued) b) owner
      (!b.ownerIsDead owner .enqueued) :=
    ⟨fun h code _ restore hup =>
      h.trans (performs_applyKey _ .enqueued code _ restore owner hup)⟩
  exact hrule.noteEnqueuedSynth (by simp) (performs_sweepDeadTargets b .enqueued owner ∅).mono
    inputs

abbrev Drops (v : View) (b b' : Backend) : Prop := Performs v {} false b b'

theorem drops_releaseOwner (b : Backend) (filter : SynthOwner) (v : View) :
    Drops v b (b.releaseOwner filter v) := by
  have hdrop : Drops v b
      (b.setHolds v ((b.holds v).dropClaims (·.matchesFilter filter) ∅).1) := by
    refine performs_setHolds b v fun hc => ?_
    obtain ⟨hcounted, hepoch, -, howned⟩ := hc.dropClaims (·.matchesFilter filter) ∅
    refine ⟨hcounted, hepoch, fun o _ => (howned o).subset.trans ?_⟩
    split
    · exact Set.empty_subset _
    · exact subset_rfl
  exact hdrop.trans ((stays_releaseFor ..).performs ..)

theorem physicalRelease_spec (b : Backend) (packet : ForwardPacket) (v : View) :
    Still b.forward (b.physicalRelease packet v).forward ∧
      (∀ w, w ≠ v → (b.physicalRelease packet v).holds w = b.holds w) ∧
      ((b.holds v).Counted → ((b.physicalRelease packet v).holds v).Counted ∧
        ((b.physicalRelease packet v).holds v).epoch = (b.holds v).epoch ∧
        ∀ o, ((b.physicalRelease packet v).holds v).owned o =
          if packet.keyUp then (packet.events.take packetEvents).foldl
            (fun keys e => packet.releaseHolds e o keys) ((b.holds v).owned o)
          else (b.holds v).owned o) := by
  unfold physicalRelease
  cases hup : packet.keyUp with
  | false => exact ⟨.refl _, fun _ _ => rfl, fun hc => ⟨hc, rfl, fun _ => rfl⟩⟩
  | true =>
    simp only [Bool.not_true, Bool.false_eq_true, if_false]
    have hspec := foldl_releaseEvent packet (packet.events.take packetEvents) (b.holds v, ∅)
    generalize List.foldl (releaseEvent packet) (b.holds v, ∅) _ = r at *
    have hstays := stays_releaseFor (b.setHolds v r.1) v r.2
    refine ⟨hstays.forward, fun w hw => ?_, fun hc => ?_⟩
    · rw [hstays.holds]
      simp [setHolds, hw]
    obtain ⟨hcounted, hepoch, -, howned⟩ := hspec hc
    have hholds : ((b.setHolds v r.1).releaseFor v r.2).holds v = r.1 := by
      rw [hstays.holds]
      simp [setHolds]
    rw [hholds]
    exact ⟨hcounted, hepoch, howned⟩

theorem foldl_releaseHolds_subset (packet : ForwardPacket) (o : SynthOwner)
    (events : List InputEvent) (keys : Set Code) :
    events.foldl (fun keys e => packet.releaseHolds e o keys) keys ⊆ keys := by
  induction events generalizing keys with
  | nil => exact subset_rfl
  | cons e _ ih => exact (ih _).trans (packet.releaseHolds_subset e o keys)

theorem drops_physicalRelease (b : Backend) (packet : ForwardPacket) (v : View) :
    Drops v b (b.physicalRelease packet v) := by
  obtain ⟨hforward, hothers, hclaims⟩ := physicalRelease_spec b packet v
  have hsub : (b.holds v).Counted → ∀ o,
      ((b.physicalRelease packet v).holds v).owned o ⊆ (b.holds v).owned o := by
    intro hc o
    rw [(hclaims hc).2.2 o]
    split
    · exact foldl_releaseHolds_subset ..
    · exact subset_rfl
  exact ⟨hforward.shifts v, hothers, fun hc => ⟨(hclaims hc).1, fun o _ => hsub hc o⟩,
    fun hc _ hs => hs.mono (hforward.shifts v).outlives (hclaims hc).2.1 fun o _ => hsub hc o⟩

theorem drops_clear (b : Backend) (v : View) : Drops v b (b.setHolds v (b.holds v).clear) := by
  refine performs_setHolds b v fun _ => ⟨counted_clear _, rfl, fun o _ => ?_⟩
  rw [owned_clear]
  exact Set.empty_subset _

theorem drops_releaseAll (b : Backend) : Drops .applied b b.releaseAll := by
  have hbuttons : Stays (b.setHolds .applied (b.holds .applied).clear)
      ((setBits b.buttonHeldOnAbs).foldl (fun b code => (b.updateGenericKey code).2)
        (b.setHolds .applied (b.holds .applied).clear)) :=
    (stays_rule _).foldl_updateGenericKey (.refl _) _
  exact (drops_clear b .applied).trans
    ((hbuttons.trans (.of_forward _ (still_sinkClearSynth _))).performs ..)

theorem drops_recreate (b : Backend) (opens absOpens : Bool) :
    Drops .applied b (b.recreate opens absOpens) := by
  have hrelease := drops_releaseAll b
  unfold recreate
  generalize b.releaseAll = b' at *
  refine hrelease.trans (Stays.performs ?_ ..)
  split
  · exact ⟨(still_attachSink _ false).trans (still_attachSink _ true), rfl⟩
  · exact ⟨still_attachSink _ false, rfl⟩

/-- What `ksi_linux_synth_maintain_output` does once retired sources are forgotten. -/
theorem drops_maintainOutput (b : Backend) (now : Nat) :
    Drops .applied { b with forward := b.forward.forwardCollect now } (b.maintainOutput now) := by
  unfold maintainOutput
  dsimp only
  split
  · exact (Stays.refl _).performs ..
  · exact (performs_sweepDeadTargets _ .applied {} ∅).trans ((stays_releaseUnheld ..).performs ..)

end KeysharpInput.Output.Backend
