import KeysharpInput.ReleaseEffects

/-!
Source lifetimes.
A source opens in both views at once; its grab ends and it closes first in the enqueued view and
later, when the action drains, in the applied view. Throughout, a target names the slot it was
issued for, and a slot that is closed has no target and no key state.
-/

namespace KeysharpInput.Output

open Forward ForwardingDevice List Function ForwardKeys Option Nat Bool

variable {d : ForwardingDevice}

def ForwardKeys.Restorable (keys : ForwardKeys) : Prop := keys.displaced ⊆ keys.source

theorem ForwardKeys.restorable_empty : ForwardKeys.Restorable {} := Finset.Subset.refl _

/-- A device in slot `i` when `n` is the next serial. -/
structure ForwardingDevice.Ok (n i : Nat) (d : ForwardingDevice) : Prop where
  closed : d.isOpen = false → ∀ v, d.target v = 0
  slot : ∀ v, d.target v ≠ 0 → slotOf (d.target v) = some i
  issued : ∀ v, d.target v < n * 256
  absent : ∀ v, d.target v = 0 → d.views v = {}
  applied : d.isOpen = true → d.target .applied ≠ 0
  enqueued : d.isOpen = true → (d.target .enqueued = 0 ↔ d.closing = true)
  retiring : d.retiring = true → d.closing = true
  restorable : ∀ v, (d.views v).Restorable

namespace Forward

structure WellFormed (f : Forward) : Prop where
  serial : 0 < f.nextSerial
  length : f.devices.length ≤ maxForwardingDevices
  device : ∀ i, (f.device i).Ok f.nextSerial i

theorem ne_zero_of_slotOf {target i : Nat} (h : slotOf target = some i) : target ≠ 0 := by
  rintro rfl
  simp [slotOf] at h

end Forward

theorem ForwardingDevice.Ok.mono {n m i : Nat} (h : d.Ok n i) (hm : n ≤ m) : d.Ok m i :=
  { h with issued := fun v => lt_of_lt_of_le (h.issued v) (mul_le_mul_right 256 hm) }

def ForwardingDevice.retarget (d : ForwardingDevice) (v : View) (target : Nat) : ForwardingDevice :=
  { d with target := update d.target v target }

theorem ForwardingDevice.Ok.retarget {n i next : Nat} {v : View} (h : d.Ok n i)
    (hopen : d.isOpen = true) (hslot : slotOf next = some i) (hnext : next < n * 256)
    (hv : v = .enqueued → d.closing = false) : (d.retarget v next).Ok n i := by
  have hne := ne_zero_of_slotOf hslot
  refine ⟨fun hclosed => ?_, fun w => ?_, fun w => ?_, fun w => ?_, fun _ => ?_, fun _ => ?_,
    h.retiring, h.restorable⟩
  · exact absurd (hclosed.symm.trans hopen) Bool.false_ne_true
  · by_cases hw : w = v
    · simpa [ForwardingDevice.retarget, hw] using fun _ => hslot
    · simpa [ForwardingDevice.retarget, hw] using h.slot w
  · by_cases hw : w = v
    · simpa [ForwardingDevice.retarget, hw] using hnext
    · simpa [ForwardingDevice.retarget, hw] using h.issued w
  · by_cases hw : w = v
    · simp [ForwardingDevice.retarget, hw, hne]
    · simpa [ForwardingDevice.retarget, hw] using h.absent w
  · cases v with
    | applied => simpa [ForwardingDevice.retarget] using hne
    | enqueued => simpa [ForwardingDevice.retarget] using h.applied hopen
  · cases v with
    | applied => simpa [ForwardingDevice.retarget] using h.enqueued hopen
    | enqueued => simp [ForwardingDevice.retarget, hne, hv rfl]

namespace Forward

variable {f : Forward} {v w : View} {i j target now : Nat} {d : ForwardingDevice} {n : Nat}

theorem device_congr {g : ForwardingDevice → ForwardingDevice} (hi : i < f.devices.length)
    (j : Nat) : (f.modifyDevice i g).device j = if j = i then g (f.device i) else f.device j := by
  rw [device_modifyDevice]
  by_cases hj : j = i
  · simp [hj, hi]
  · simp [hj]

theorem device_setTarget (hi : i < f.devices.length) (v : View) (target j : Nat) :
    (f.setTarget i v target).device j =
      if j = i then (f.device i).retarget v target else f.device j :=
  device_congr hi j

theorem findDevice_eq_some (h : f.findDevice target v = some i) :
    slotOf target = some i ∧ (f.device i).target v = target ∧ (f.device i).retiring = false := by
  obtain ⟨hslot, hmatch⟩ := filter_eq_some_iff.mp h
  simp only [and_eq_true, beq_iff_eq, not_eq_true'] at hmatch
  exact ⟨hslot, hmatch.1, hmatch.2⟩

theorem lt_length_of_target (h : (f.device i).target v ≠ 0) : i < f.devices.length := by
  by_contra hge
  rw [device_of_length_le (Nat.le_of_not_lt hge)] at h
  exact h rfl

theorem WellFormed.live_of_find (hf : WellFormed f) (h : f.findDevice target v = some i) :
    (f.device i).live = true := by
  obtain ⟨hslot, htarget, hretiring⟩ := findDevice_eq_some h
  have hopen : (f.device i).isOpen = true := by
    by_contra hclosed
    exact ne_zero_of_slotOf hslot (htarget ▸ (hf.device i).closed (by simpa using hclosed) v)
  simp [live, hopen, hretiring]

theorem slotOf_newTarget (f : Forward) (hi : i < maxForwardingDevices) :
    slotOf (f.newTarget i) = some i := by
  have hmod : f.newTarget i % 256 = i + 1 := by
    unfold newTarget maxForwardingDevices at *
    omega
  unfold maxForwardingDevices at hi
  simp only [slotOf, hmod, maxForwardingDevices]
  rw [if_neg (by omega)]
  simp

theorem newTarget_lt (f : Forward) (hi : i < maxForwardingDevices) :
    f.newTarget i < (f.nextSerial + 1) * 256 := by
  unfold newTarget maxForwardingDevices at *
  omega

theorem slotOf_lt (h : slotOf target = some i) : i < maxForwardingDevices := by
  have hslot : ¬ (target % 256 = 0 ∨ maxForwardingDevices < target % 256) ∧
      target % 256 - 1 = i := by
    simpa only [slotOf, ite_none_left_eq_some, some.injEq] using h
  omega

def closes (f : Forward) (i : Nat) : Bool := (f.device i).closing && (f.device i).live

structure Replaces (i : Nat) (d : ForwardingDevice) (f f' : Forward) : Prop where
  device : ∀ j, f'.device j = if j = i then d else f.device j
  outcome : f'.uinput.outcome = f.uinput.outcome
  attached : f'.sink.attached = f.sink.attached
  sinkFailed : f'.sink.failed = f.sink.failed
  length : f'.devices.length ≤ maxForwardingDevices

def closed (d : ForwardingDevice) : ForwardingDevice :=
  { d.mapKeys .enqueued fun _ => {} with
    target := update d.target .enqueued 0, closing := true }

theorem ok_closed (hn : 0 < n) (hd : d.Ok n i) (hopen : d.isOpen = true) : (closed d).Ok n i := by
  refine ⟨fun hclosed => ?_, fun w => ?_, fun w => ?_, fun w => ?_, ?_, ?_, fun _ => rfl,
    fun w => ?_⟩
  · exact absurd (hclosed.symm.trans hopen) false_ne_true
  · cases w with
    | applied => simpa [closed] using hd.slot .applied
    | enqueued => simp [closed]
  · cases w with
    | applied => simpa [closed] using hd.issued .applied
    | enqueued => simpa [closed] using hn
  · cases w with
    | applied => simpa [closed, mapKeys] using hd.absent .applied
    | enqueued => simp [closed, mapKeys]
  · simpa [closed, mapKeys] using hd.applied
  · simp [closed]
  · cases w with
    | applied => simpa [closed, mapKeys] using hd.restorable .applied
    | enqueued => simpa [closed, mapKeys] using restorable_empty

theorem ok_default (hn : 0 < n) (i : Nat) : ForwardingDevice.Ok n i {} := by
  refine ⟨fun _ _ => rfl, fun _ h => absurd rfl h, fun _ => ?_, fun _ _ => rfl, ?_, ?_, ?_,
    fun _ => restorable_empty⟩
  · show 0 < n * 256
    omega
  · exact fun h => absurd h false_ne_true
  · exact fun h => absurd h false_ne_true
  · exact fun h => absurd h false_ne_true

def retired (d : ForwardingDevice) (now : Nat) : ForwardingDevice :=
  if d.output then { d with views := fun _ => {}, retiring := true, retireMs := now } else {}

theorem ok_retired (hn : 0 < n) (hd : d.Ok n i) (hclosing : d.closing = true) (now : Nat) :
    (retired d now).Ok n i := by
  unfold retired
  split
  · exact { hd with absent := fun _ _ => rfl, retiring := fun _ => hclosing,
                    restorable := fun _ => restorable_empty }
  · exact ok_default hn i

theorem forwardCollect_cases (f : Forward) (now j : Nat) :
    (f.forwardCollect now).device j = f.device j ∨
      ((f.forwardCollect now).device j = {} ∧ (f.device j).retiring = true) := by
  have hdevice : (f.forwardCollect now).device j =
      if (f.device j).retiring && !(now - (f.device j).retireMs < forwardDrainMs) then {}
      else f.device j := by
    by_cases hj : j < f.devices.length
    · simp [forwardCollect, device, getElem?_eq_getElem hj]
    have hnone := device_of_length_le (Nat.le_of_not_lt hj)
    have hlength : (f.forwardCollect now).devices.length = f.devices.length := by
      simp [forwardCollect]
    rw [device_of_length_le (hlength ▸ Nat.le_of_not_lt hj), hnone]
    rfl
  rw [hdevice]
  split
  · rename_i hgone
    exact .inr ⟨rfl, (Bool.and_eq_true_iff.mp hgone).1⟩
  · exact .inl rfl

theorem WellFormed.forwardCollect (hw : WellFormed f) (now : Nat) :
    WellFormed (f.forwardCollect now) := by
  refine ⟨hw.serial, by simpa [Forward.forwardCollect] using hw.length, fun j => ?_⟩
  rcases forwardCollect_cases f now j with h | ⟨h, -⟩
  · rw [h]
    exact hw.device j
  · rw [h]
    exact ok_default hw.serial j

def opened (info : SourceInfo) (target : Nat) : ForwardingDevice :=
  { isOpen := true, keyboard := info.keyboard, output := info.hasCodes
    wheel := info.wheel, horizontalWheel := info.horizontalWheel
    target := fun _ => target }

theorem ok_opened (f : Forward) (info : SourceInfo) (hlt : i < maxForwardingDevices) :
    (opened info (f.newTarget i)).Ok (f.nextSerial + 1) i := by
  have hne : f.newTarget i ≠ 0 := ne_zero_of_slotOf (slotOf_newTarget f hlt)
  refine ⟨fun h => absurd h.symm false_ne_true, fun _ _ => slotOf_newTarget f hlt,
    fun _ => newTarget_lt f hlt, fun _ _ => rfl, fun _ => hne, fun _ => ?_,
    fun h => absurd h false_ne_true, fun _ => restorable_empty⟩
  exact ⟨fun h => absurd h hne, fun h => absurd h false_ne_true⟩

theorem forwardOpen_cases (hw : WellFormed f) (info : SourceInfo) :
    f.forwardOpen info = (0, f) ∨ ∃ i, i < maxForwardingDevices ∧
      (f.device i).isOpen = false ∧ (f.forwardOpen info).1 = f.newTarget i ∧
      Replaces i (opened info (f.newTarget i)) f (f.forwardOpen info).2 ∧
      (f.forwardOpen info).2.nextSerial = f.nextSerial + 1 ∧
      (f.forwardOpen info).2.targetEpoch = f.targetEpoch := by
  unfold forwardOpen
  cases hfind : (range maxForwardingDevices).find? fun i => !(f.device i).isOpen with
  | none => exact .inl rfl
  | some i =>
    dsimp only
    split
    · exact .inl rfl
    obtain ⟨hopen, hmem, hbefore⟩ := find?_range_eq_some.mp hfind
    have hlt : i < maxForwardingDevices := mem_range.mp hmem
    have hle : i ≤ f.devices.length := by
      by_contra hgt
      have hfull := hbefore f.devices.length (Nat.lt_of_not_le hgt)
      rw [device_of_length_le (le_refl _)] at hfull
      exact Bool.noConfusion hfull
    refine .inr ⟨i, hlt, by simpa using hopen, rfl, ⟨fun j => ?_, rfl, rfl, rfl, ?_⟩, rfl, rfl⟩
    · unfold device
      split
      · rename_i hi
        by_cases hj : j = i
        · simp [hj, hi, opened]
        · simp [hj, getElem?_set_ne (Ne.symm hj)]
      obtain rfl : i = f.devices.length := by omega
      by_cases hj : j = f.devices.length
      · simp [hj, opened]
      rcases lt_or_gt_of_ne hj with hlt | hgt
      · simp [hj, getElem?_append_left hlt]
      · rw [if_neg hj, getElem?_eq_none (by simpa using succ_le_of_lt hgt),
          getElem?_eq_none (le_of_lt hgt)]
    · split
      · simpa using hw.length
      · simp only [length_append, length_singleton]
        omega

end Forward

end KeysharpInput.Output
