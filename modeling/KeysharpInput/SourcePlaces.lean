import KeysharpInput.GrabActs

/-!
Where the reader's targets stand.
A target that the reader keeps for a device is the current one of a source in the enqueued view,
and no two devices share one. Opening, ending a grab and closing change the source of one device
and spare the others.
-/

namespace KeysharpInput.Grabs

open Function Output OutputState Forward LaneOrder Nat

variable {s t : Reader} {i j : Nat} {f : Forward} {d : ForwardingDevice} {E C : Nat → Prop}

structure Placed (s : Reader) : Prop where
  lined : s.lanes.output.Lined
  place : ∀ i, (s.devices i).forwardingTarget ≠ 0 →
    ∃ j, s.forward.findDevice (s.devices i).forwardingTarget .enqueued = some j
  distinct : ∀ i j, (s.devices i).forwardingTarget ≠ 0 →
    (s.devices i).forwardingTarget = (s.devices j).forwardingTarget → i = j

theorem placed_start (outcome : Nat → Option Nat) (absOpens : Bool) :
    Placed (start outcome absOpens) :=
  ⟨lined_start outcome absOpens, fun _ h => absurd rfl h, fun _ _ h => absurd rfl h⟩

def Spares (i : Nat) (s : Reader) (f : Forward) : Prop :=
  ∀ i' ≠ i, ∀ j, s.forward.findDevice (s.devices i').forwardingTarget .enqueued = some j →
    f.findDevice (s.devices i').forwardingTarget .enqueued = some j ∧
      Within ((s.forward.device j).views .enqueued) ((f.device j).views .enqueued)

theorem Spares.refl (i : Nat) (s : Reader) : Spares i s s.forward :=
  fun _ _ _ hfind => ⟨hfind, .refl _⟩

section

variable (hs : Placed s)

include hs

theorem Placed.target_lt (i : Nat) :
    (s.devices i).forwardingTarget < s.forward.nextSerial * 256 := by
  have hf := hs.lined.wellFormed
  by_cases hzero : (s.devices i).forwardingTarget = 0
  · have hserial : 0 < s.forward.nextSerial := hf.serial
    omega
  · obtain ⟨j, hfind⟩ := hs.place i hzero
    obtain ⟨-, htarget, -⟩ := findDevice_eq_some hfind
    exact htarget ▸ (hf.device j).issued .enqueued

theorem Placed.spares
    (hfind : s.forward.findDevice (s.devices i).forwardingTarget .enqueued = some j)
    (h : Resettles j d E C s.forward f) : Spares i s f := by
  intro i' hi' _ hfind'
  refine h.find_of_ne hfind' ?_
  rintro rfl
  have htarget := findDevice_inj hfind' hfind
  obtain ⟨hslot, -, -⟩ := findDevice_eq_some hfind'
  exact hi' (hs.distinct i' i (ne_zero_of_slotOf hslot) htarget)

theorem Placed.spares_of_closed (hclosed : (s.forward.device j).isOpen = false)
    (h : Resettles j d E C s.forward f) (i : Nat) : Spares i s f := by
  intro _ _ j' hfind'
  refine h.find_of_ne hfind' ?_
  rintro rfl
  have hopen : (s.forward.device j').isOpen = true :=
    (Bool.and_eq_true_iff.mp (hs.lined.wellFormed.live_of_find hfind')).1
  exact Bool.false_ne_true (hclosed.symm.trans hopen)

theorem Placed.replace {d : TrackedDevice} (hlined : t.lanes.output.Lined)
    (hdevices : t.devices = update s.devices i d) (hspares : Spares i s t.forward)
    (hplace : d.forwardingTarget ≠ 0 →
      ∃ j, t.forward.findDevice d.forwardingTarget .enqueued = some j)
    (hfresh : d.forwardingTarget ≠ 0 → ∀ i' ≠ i, (s.devices i').forwardingTarget ≠
      d.forwardingTarget) : Placed t := by
  refine ⟨hlined, fun i' htarget => ?_, fun i' j' htarget hsame => ?_⟩
  · rw [hdevices] at htarget ⊢
    by_cases hi' : i' = i
    · subst hi'
      rw [update_self] at htarget ⊢
      exact hplace htarget
    · rw [update_of_ne hi'] at htarget ⊢
      obtain ⟨j, hfind⟩ := hs.place i' htarget
      exact ⟨j, (hspares i' hi' j hfind).1⟩
  rw [hdevices] at htarget hsame
  by_cases hi' : i' = i
  · by_cases hj' : j' = i
    · exact hi'.trans hj'.symm
    · rw [hi', update_self] at htarget hsame
      rw [update_of_ne hj'] at hsame
      exact absurd hsame.symm (hfresh htarget j' hj')
  rw [update_of_ne hi'] at htarget hsame
  by_cases hj' : j' = i
  · rw [hj', update_self] at hsame
    exact absurd hsame (hfresh (hsame ▸ htarget) i' hi')
  · rw [update_of_ne hj'] at hsame
    exact hs.distinct i' j' htarget hsame

theorem Placed.setDevice {d : TrackedDevice}
    (hdevices : t.devices = update s.devices i d) (hlanes : t.lanes = s.lanes)
    (htarget : d.forwardingTarget = (s.devices i).forwardingTarget) : Placed t := by
  have hforward : t.forward = s.forward := by
    unfold Reader.forward
    rw [hlanes]
  refine hs.replace (hlanes ▸ hs.lined) hdevices (hforward ▸ .refl i s) (fun hne => ?_)
    fun hne i' hi' hsame => ?_
  · rw [htarget] at hne ⊢
    rw [hforward]
    exact hs.place i hne
  · rw [htarget] at hne hsame
    exact hi' (hs.distinct i i' hne hsame.symm).symm

theorem Placed.moves {P : Nat → Prop} {lanes : LaneOrder.State}
    (h : Moves P s.lanes lanes) : Placed { s with lanes := lanes } := by
  refine ⟨h.carries.lined hs.lined, fun i htarget => ?_, hs.distinct⟩
  obtain ⟨j, hfind⟩ := hs.place i htarget
  exact ⟨j, h.carries.lasts.find _ j hfind⟩

theorem Placed.closeForwardingDevice (i now : Nat) : Placed (s.closeForwardingDevice i now) ∧
      Spares i s (s.closeForwardingDevice i now).forward ∧
      s.forward.nextSerial ≤ (s.closeForwardingDevice i now).forward.nextSerial := by
  have hdevices := s.closeForwardingDevice_devices i now
  by_cases htarget : (s.devices i).forwardingTarget = 0
  · rw [s.closeForwardingDevice_of_zero now htarget] at hdevices ⊢
    exact ⟨hs.setDevice hdevices rfl htarget.symm, .refl i s, le_refl _⟩
  obtain ⟨j, hfind⟩ := hs.place i htarget
  obtain ⟨hresettles, -⟩ := resettles_pushClose hs.lined hfind now
  have hlined := hs.lined.pushClose hfind now
  have hspares := hs.spares hfind hresettles
  rw [s.closeForwardingDevice_of_ne now htarget] at hdevices ⊢
  exact ⟨hs.replace hlined hdevices hspares (fun h => absurd rfl h) fun h => absurd rfl h,
    hspares, hresettles.serial⟩

theorem Placed.endGrab (htarget : (s.devices i).forwardingTarget ≠ 0) :
    Placed (s.endGrab i) ∧ Spares i s (s.endGrab i).forward ∧
      s.forward.nextSerial < (s.endGrab i).forward.nextSerial ∧
      s.forward.nextSerial * 256 ≤ ((s.endGrab i).devices i).forwardingTarget ∧
      ∃ j, (s.endGrab i).forward.findDevice ((s.endGrab i).devices i).forwardingTarget .enqueued =
          some j ∧
        ((s.endGrab i).devices i).ungrabHeldKeys = ((s.forward.device j).views .enqueued).source ∧
        Within (endedKeys none ((s.forward.device j).views .enqueued))
          (((s.endGrab i).forward.device j).views .enqueued) := by
  obtain ⟨j, hfind⟩ := hs.place i htarget
  obtain ⟨hnext, hkept, hresettles, hserial, -⟩ := resettles_pushEndGrab hs.lined hfind
  have hlined := hs.lined.pushEndGrab hfind
  obtain ⟨hslot, -, hretiring⟩ := findDevice_eq_some hfind
  have hlt := slotOf_lt hslot
  have hspares := hs.spares hfind hresettles
  obtain ⟨hfound, hkeys⟩ :=
    hresettles.find_self (ended_target_self ..) (slotOf_newTarget _ hlt) hretiring
  have hdevices : (s.endGrab i).devices = update s.devices i { s.devices i with
      grabbed := false, foreignGrab := false
      forwardingTarget := s.forward.newTarget j
      ungrabHeldKeys := ((s.forward.device j).views .enqueued).source } := by
    unfold Reader.endGrab
    dsimp only
    rw [hnext, hkept]
    rfl
  have hself := congrFun hdevices i
  rw [update_self] at hself
  rw [hself]
  have hfresh : s.forward.nextSerial * 256 ≤ s.forward.newTarget j := le_add_right _ _
  refine ⟨hs.replace hlined hdevices hspares (fun _ => ⟨j, hfound⟩) fun _ i' _ => ?_, hspares,
    hserial, hfresh, j, hfound, rfl, hkeys⟩
  exact ((hs.target_lt i').trans_le hfresh).ne

/-- A device whose forwarding opens gets a fresh target and a source without keys, or none. -/
theorem Placed.openForwarding (i : Nat) (info : SourceInfo) :
    Placed (s.openForwarding i info) ∧ Spares i s (s.openForwarding i info).forward ∧
      s.forward.nextSerial ≤ (s.openForwarding i info).forward.nextSerial ∧
      (((s.openForwarding i info).devices i).forwardingTarget = 0 ∨
        s.forward.nextSerial * 256 ≤ ((s.openForwarding i info).devices i).forwardingTarget ∧
          ∃ j, (s.openForwarding i info).forward.findDevice
              ((s.openForwarding i info).devices i).forwardingTarget .enqueued = some j ∧
            ((s.openForwarding i info).forward.device j).views .enqueued = {}) := by
  obtain ⟨full, hfull⟩ : ∃ full : SourceInfo,
      full = { info with keyboard := (s.devices i).keyboardCandidate } := ⟨_, rfl⟩
  have houtput : (s.openForwarding i info).lanes.output = s.lanes.output.openSource full := by
    unfold Reader.openForwarding
    dsimp only
    rw [← hfull]
    split <;> rfl
  have hself : ((s.openForwarding i info).devices i).forwardingTarget =
      (s.forward.forwardOpen full).1 := by
    unfold Reader.openForwarding
    dsimp only
    rw [← hfull]
    split <;> simp
  obtain ⟨_, _, hdevices⟩ := s.openForwarding_devices i info
  have hd := congrArg TrackedDevice.forwardingTarget (congrFun hdevices i)
  rw [update_self, hself] at hd
  have hforward : (s.openForwarding i info).forward =
      (s.lanes.output.openSource full).backend.forward := by
    unfold Reader.forward
    rw [houtput]
  have hlined : (s.openForwarding i info).lanes.output.Lined :=
    houtput ▸ hs.lined.openSource full
  rw [hself]
  rcases resettles_openSource hs.lined.wellFormed full with
    hnone | ⟨j, hlt, hclosed, hnew, hresettles, -⟩
  · have hsame : (s.openForwarding i info).forward = s.forward :=
      hforward.trans (congrArg Prod.snd hnone)
    have hzero : (s.forward.forwardOpen full).1 = 0 := congrArg Prod.fst hnone
    have hspares : Spares i s (s.openForwarding i info).forward := hsame ▸ .refl i s
    rw [hzero] at hd ⊢
    exact ⟨hs.replace hlined hdevices hspares (fun h => absurd hd.symm h)
      fun h => absurd hd.symm h, hspares, hsame.symm ▸ le_refl _, .inl rfl⟩
  have htarget : (s.forward.forwardOpen full).1 = s.forward.newTarget j := hnew
  rw [← hforward] at hresettles
  rw [htarget] at hd ⊢
  have hspares := hs.spares_of_closed hclosed hresettles i
  obtain ⟨hfound, hkeys⟩ := hresettles.find_self rfl (slotOf_newTarget _ hlt) rfl
  have hfresh : s.forward.nextSerial * 256 ≤ s.forward.newTarget j := le_add_right _ _
  refine ⟨hs.replace hlined hdevices hspares (fun _ => ⟨j, ?_⟩) fun _ i' _ => ?_, hspares,
    hresettles.serial, .inr ⟨hfresh, j, hfound, hkeys.empty⟩⟩
  · exact hd ▸ hfound
  · exact hd ▸ ((hs.target_lt i').trans_le hfresh).ne

end

end KeysharpInput.Grabs
