import KeysharpInput.GenericWrites
import KeysharpInput.HoldRuns

/-!
A written batch leaves the generic devices in line with the hold table.
Each transition changes the table for its own key only, and the write that follows settles that
key. A hold that is refused for lack of room changes nothing. The modifiers of a Unicode entry are
told to the sink without a hold, and both are settled before the digits are typed.
-/

namespace KeysharpInput.Output.Backend

open Forward SynthHolds List Finset Bool Keys

variable {b b' : Backend} {pending pending' : KeyBits} {code : Code} {owner : SynthOwner}
  {h : SynthHolds} {c : Code}

section

variable (hc : h.Counted)

include hc

theorem mem_held_iff : c ∈ h.held ↔ ∃ o, c ∈ h.owned o := by
  constructor
  · intro hheld
    obtain ⟨claim, hclaim, hkey⟩ := hc.exists_of_held hheld
    exact ⟨claim.owner, mem_owned.mpr ⟨claim, hclaim, rfl, hkey⟩⟩
  · rintro ⟨o, howned⟩
    obtain ⟨_, hclaim, -, hkey⟩ := mem_owned.mp howned
    exact hc.held_of_claim hclaim hkey

theorem held_of_owned {h' : SynthHolds} (hc' : h'.Counted)
    (howned : ∀ o, c ∈ h'.owned o ↔ c ∈ h.owned o) : c ∈ h'.held ↔ c ∈ h.held := by
  rw [mem_held_iff hc, mem_held_iff hc']
  exact exists_congr howned

theorem held_holdKey (owner : SynthOwner) (code : Code)
    (hc' : c ≠ code ∨ (h.holdKey owner code).1 = false) :
    c ∈ (h.holdKey owner code).2.held ↔ c ∈ h.held := by
  have hspec := hc.holdKey owner code
  refine held_of_owned hc hspec.counted fun o => ?_
  rw [hspec.owned]
  split
  · rename_i hboth
    have hne := hc'.resolve_right fun hfalse => absurd (hboth.1.symm.trans hfalse) nofun
    exact ⟨fun hmem => hmem.resolve_left hne, Or.inr⟩
  · rfl

theorem held_releaseCode (code : Code) :
    c ∈ (h.releaseCode code).held ↔ c ∈ h.held ∧ c ≠ code := by
  rw [mem_held_iff hc, mem_held_iff (hc.releaseCode code)]
  simp only [hc.owned_releaseCode]
  exact exists_and_right

theorem held_dropKey {i : Nat} {claim : SynthClaim}
    (hi : h.claims[i]? = some claim) (hc' : (h.dropKey i code).Counted) (hne : c ≠ code) :
    c ∈ (h.dropKey i code).held ↔ c ∈ h.held := by
  refine held_of_owned hc hc' fun o => ?_
  rw [hc.owned_dropKey hi]
  split
  · exact ⟨fun hmem => hmem.1, fun hmem => ⟨hmem, hne⟩⟩
  · rfl

end

structure Applied (pending : KeyBits) (code : Code) (b : Backend) (ok : Bool) (b' : Backend) :
    Prop where
  settled : Settled (insert code pending) b'
  refused : ok = false → Settled pending b'
  flags : b'.buttonHeldOnAbs = b.buttonHeldOnAbs
  synth : b'.forward.sink.synth = b.forward.sink.synth
  absFd : b'.uinputAbsFd = b.uinputAbsFd

theorem Settled.widen (hb : Settled pending b) (h : pending ⊆ pending') : Settled pending' b :=
  { hb with
    synth := fun c hc => hb.synth c fun hmem => hc (h hmem)
    held := fun c hflag hc => hb.held c hflag fun hmem => hc (h hmem) }

theorem Settled.applyKey (hb : Settled pending b) (code : Code) (down restore : Bool)
    (owner : SynthOwner) :
    Applied pending code b (b.applyKey .applied code down restore owner).1
      (b.applyKey .applied code down restore owner).2 := by
  have hsub : pending ⊆ insert code pending := Finset.subset_insert code pending
  unfold Backend.applyKey
  split
  · have hrestored : Steady b.forward (if restore then b.forward.restoreKey code .applied
        else (false, b.forward)).2 := by
      split
      · exact hb.live.rule.shiftKey (.refl _) code .applied true
      · exact .refl _
    dsimp only
    generalize (if restore then _ else _) = r
      at hrestored ⊢
    have hforward := hb.forward hrestored
    split
    · exact ⟨hforward.widen hsub, nofun, rfl, hrestored.synth, rfl⟩
    have hspec := hb.counted.holdKey owner code
    refine ⟨hforward.setHolds hspec.counted hsub fun c hc => ?_, fun hok => ?_, rfl,
      hrestored.synth, rfl⟩
    · exact held_holdKey hb.counted owner code
        (.inl fun heq => hc (heq ▸ Finset.mem_insert_self code pending))
    · exact hforward.setHolds hspec.counted subset_rfl fun c _ =>
        held_holdKey hb.counted owner code (.inr hok)
  split
  · rename_i howns
    split
    · rename_i i hfind
      obtain ⟨claim, hi⟩ : ∃ claim, (b.holds .applied).claims[i]? = some claim := by
        obtain ⟨hlt, -⟩ := List.findIdx?_eq_some_iff_getElem.mp hfind
        exact ⟨_, List.getElem?_eq_getElem hlt⟩
      have hkey : code ∈ claim.keys := by
        rw [ownerHolds, hfind, Option.bind_some, hi] at howns
        simpa using howns
      have hcounted := hb.counted.dropKey hi hkey
      refine ⟨hb.setHolds hcounted hsub fun c hc => ?_, nofun, rfl, rfl, rfl⟩
      exact held_dropKey hb.counted hi hcounted
        fun heq => hc (heq ▸ Finset.mem_insert_self code pending)
    · exact ⟨hb.widen hsub, nofun, rfl, rfl, rfl⟩
  · have hshift := hb.live.rule.shiftKey (.refl _) code .applied false
    refine ⟨(hb.forward hshift).setHolds (hb.counted.releaseCode code) hsub fun c hc => ?_, nofun,
      rfl, hshift.synth, rfl⟩
    exact (held_releaseCode hb.counted code).trans (and_iff_left
      fun heq => hc (heq ▸ Finset.mem_insert_self code pending))

theorem erase_insert_empty (code : Code) : (insert code (∅ : KeyBits)).erase code = ∅ := by
  simp

theorem Settled.sendKeyCode (hb : Settled ∅ b) (keyCode : Code) (down : Bool)
    (owner : SynthOwner) : Settled ∅ (b.sendKeyCode keyCode down owner).2 := by
  unfold Backend.sendKeyCode
  dsimp only
  have hrepressed : Settled ∅
      (if down && !(b.holds .applied).ownerHolds owner (canonicalButton keyCode) then
        ((b.forward.sinkRepress (canonicalButton keyCode)).1.isSome,
          { b with forward := (b.forward.sinkRepress (canonicalButton keyCode)).2 })
      else (true, b)).2 := by
    split
    · exact hb.forward (hb.live.steady_sinkRepress _)
    · exact hb
  generalize (if down && _ then _ else _) = r at hrepressed ⊢
  have happlied := hrepressed.applyKey (canonicalButton keyCode) down true owner
  split
  · have hwritten := happlied.settled.updateGenericKey (canonicalButton keyCode)
    rw [erase_insert_empty] at hwritten
    exact hwritten
  · rename_i hok
    exact happlied.refused (eq_false_iff.mpr hok)

theorem Settled.not_flagged (hb : Settled pending b) (hcode : isKeyboard code = true) :
    code ∉ b.buttonHeldOnAbs := by
  intro hmem
  have htracked := (hb.tracked code hmem).1
  simp only [isTrackedButton, isKeyboard, decide_eq_true_eq] at htracked hcode
  omega

theorem Settled.sinkKey_modifier (hb : Settled pending b) (code : Code)
    (hcode : isKeyboard code = true) (held : Bool) :
    Settled (insert code pending) (b.sinkKey code held).2 :=
  hb.sinkKey (hb.not_flagged hcode) held
    (fun _ hc _ hmem => hc (mem_insert_of_mem hmem))
    fun hnot => absurd (mem_insert_self code pending) hnot

theorem isKeyboard_hexDigitToKey (digit : Nat) : isKeyboard (hexDigitToKey digit) = true := by
  have hall : ∀ code ∈ ([11, 2, 3, 4, 5, 6, 7, 8, 9, 10, 30, 48, 46, 32, 18, 33] : List Code),
      isKeyboard code = true := by decide +kernel
  unfold hexDigitToKey
  rw [getD_eq_getElem?_getD]
  cases hdigit : ([11, 2, 3, 4, 5, 6, 7, 8, 9, 10, 30, 48, 46, 32, 18, 33] : List Code)[digit]? with
  | none => decide
  | some code => exact hall code (mem_of_getElem? hdigit)

theorem Settled.sendUnicodeInput (hb : Settled ∅ b) (codepoint : Nat) :
    Settled ∅ (b.sendUnicodeInput codepoint).2 := by
  have hstarted : Settled {leftShift, leftCtrl} b.startUnicodeEntry.2 := by
    have hctrl := hb.sinkKey_modifier leftCtrl (by decide) true
    unfold startUnicodeEntry
    dsimp only
    generalize b.sinkKey leftCtrl true = r at hctrl ⊢
    split
    · exact hctrl.widen (by simp)
    have hshift := hctrl.sinkKey_modifier leftShift (by decide) true
    split
    · exact hshift.widen (by simp)
    · exact (hshift.idle (hshift.toFit.idle_tapSinkKey (by decide))).widen (by simp)
  unfold Backend.sendUnicodeInput
  dsimp only
  split
  · exact hb
  have hended := (hstarted.updateGenericKey leftShift).updateGenericKey leftCtrl
  split
  · refine hended.idle (hended.toFit.idle_tapKeys fun code hcode => ?_)
    rcases List.mem_append.mp hcode with hcode | hcode
    · obtain ⟨digit, -, rfl⟩ := List.mem_map.mp hcode
      exact isKeyboard_hexDigitToKey digit
    · rw [List.mem_singleton.mp hcode]
      decide
  · exact hended

theorem Settled.routeMouseButton (hb : Settled ∅ b) (button : Code)
    (down movedAbsolutely absActive : Bool) (habs : absActive = true → b.uinputAbsFd = true)
    (reports : OpenReports) (owner : SynthOwner) :
    Settled ∅
      (b.routeMouseButton button down movedAbsolutely absActive reports owner).2.2 := by
  have happlied := hb.applyKey button down (!movedAbsolutely) owner
  unfold Backend.routeMouseButton
  dsimp only
  generalize b.applyKey .applied button down (!movedAbsolutely) owner = r at happlied ⊢
  have hpending : ∀ c ∉ (∅ : KeyBits), c ≠ button → c ∉ insert button (∅ : KeyBits) := by
    intro c _ hne hmem
    simp [hne] at hmem
  split
  · rename_i hok
    exact happlied.refused (by simpa using hok)
  split
  · -- The first press after an absolute move.
    rename_i hfirst
    simp only [and_eq_true, not_eq_true', bne_iff_ne, bne_eq_false_iff_eq]
      at hfirst
    obtain ⟨⟨⟨hunheld, hheld⟩, hactive⟩, htracked⟩ := hfirst
    have hnot : button ∉ (b.holds .applied).held := fun hmem =>
      (hb.counted.held button).mp hmem hunheld
    have hsynth : button ∉ r.2.forward.sink.synth := by
      rw [happlied.synth, hb.synth button (Finset.notMem_empty _)]
      exact fun hboth => hnot hboth.1
    have hpressed := happlied.settled.writeAbsolute true htracked
      (happlied.absFd.trans (habs hactive)) hsynth
      (fun _ => (happlied.settled.counted.held button).mpr hheld) nofun hpending
    simp only [emitEventTo, happlied.settled.failed, false_eq_true]
    rw [happlied.settled.live.outputWrite_eq] at hpressed ⊢
    exact hpressed.idle ⟨.refl _, rfl, rfl, happlied.settled.failed.symm, rfl⟩
  · have hwritten := happlied.settled.updateGenericKey button
    rw [erase_insert_empty] at hwritten
    exact hwritten

theorem settled_playRule (owner : SynthOwner) : PlayRule (Settled ∅) owner true where
  emit := fun hb device _ hkey => hb.idle (hb.toFit.idle_emitEventTo device hkey)
  wheels := fun hb _ _ => hb.idle ⟨.refl _, rfl, rfl, rfl, rfl⟩
  routeMouseButton := fun hb button _ moved _ reports habs _ =>
    hb.routeMouseButton button _ moved _ habs reports owner
  surrogate := fun hb _ => hb.idle ⟨.refl _, rfl, rfl, rfl, rfl⟩
  sendUnicodeInput := fun hb codepoint => hb.sendUnicodeInput codepoint
  sendKeyCode := fun hb keyCode _ _ => hb.sendKeyCode keyCode _ owner

end KeysharpInput.Output.Backend
