import KeysharpInput.OutputQueue

/-!
Key state of single sources.
The forwarding functions change a source's key state in one view by setting a held key, by moving
a key between the held and the displaced set, or by keeping only some of the holds. What they do
to the table of sources shows in the device of one slot.
-/

namespace KeysharpInput.Output

namespace ForwardKeys

def shift (restore : Bool) (keys : ForwardKeys) (code : Code) : ForwardKeys :=
  if code ∉ (if restore then keys.displaced else keys.output) then keys
  else
    { keys with
      displaced := setKeyBit keys.displaced code (!restore && code ∈ keys.source)
      output := setKeyBit keys.output code restore }

/-- Keeps only the downstream holds in `keep`. -/
def keepOnly (keep : KeyBits) (keys : ForwardKeys) : ForwardKeys :=
  { keys with output := keys.output ∩ keep, displaced := keys.displaced ∩ keep }

end ForwardKeys

/-- Only the key state in `v` and the state of open reports and wheels differ. -/
structure ForwardingDevice.Rekeyed (v : View) (g : ForwardKeys → ForwardKeys)
    (d d' : ForwardingDevice) : Prop where
  target : d'.target = d.target
  isOpen : d'.isOpen = d.isOpen
  closing : d'.closing = d.closing
  keyboard : d'.keyboard = d.keyboard
  output : d'.output = d.output
  failed : d'.failed = d.failed
  retiring : d'.retiring = d.retiring
  self : d'.views v = g (d.views v)
  other : ∀ w, w ≠ v → d'.views w = d.views w

namespace ForwardingDevice.Rekeyed

variable {v : View} {g h : ForwardKeys → ForwardKeys} {d d' d'' : ForwardingDevice}

theorem refl (v : View) (d : ForwardingDevice) : Rekeyed v id d d := by
  constructor <;> simp

theorem trans (h₁ : Rekeyed v g d d') (h₂ : Rekeyed v h d' d'') : Rekeyed v (h ∘ g) d d'' where
  target := h₂.target.trans h₁.target
  isOpen := h₂.isOpen.trans h₁.isOpen
  closing := h₂.closing.trans h₁.closing
  keyboard := h₂.keyboard.trans h₁.keyboard
  output := h₂.output.trans h₁.output
  failed := h₂.failed.trans h₁.failed
  retiring := h₂.retiring.trans h₁.retiring
  self := by rw [h₂.self, h₁.self, Function.comp_apply]
  other := fun w hw => (h₂.other w hw).trans (h₁.other w hw)

end ForwardingDevice.Rekeyed

namespace Forward

variable {f : Forward} {i : Nat} {code : Code}

theorem device_of_length_le (h : f.devices.length ≤ i) : f.device i = {} := by
  simp [device, List.getElem?_eq_none h]

theorem lt_length_of_live (h : (f.device i).live = true) : i < f.devices.length := by
  by_contra hge
  rw [device_of_length_le (Nat.le_of_not_lt hge)] at h
  simp [ForwardingDevice.live] at h

theorem device_modifyDevice (f : Forward) (i : Nat) (g : ForwardingDevice → ForwardingDevice)
    (j : Nat) :
    (f.modifyDevice i g).device j =
      if j = i ∧ j < f.devices.length then g (f.device j) else f.device j := by
  unfold device modifyDevice
  by_cases hj : j < f.devices.length
  · by_cases hi : i = j
    · subst hi
      simp [hj]
    · simp [hi, Ne.symm hi]
  · simp [hj]

def setOutputBit (code : Code) (held : Bool) (keys : ForwardKeys) : ForwardKeys :=
  { keys with output := setKeyBit keys.output code held }

def shiftable (restore : Bool) (keys : ForwardKeys) : KeyBits :=
  if restore then keys.displaced else keys.output

theorem shiftable_shift_of_notMem {restore : Bool} {keys : ForwardKeys}
    (h : code ∉ shiftable restore keys) : ForwardKeys.shift restore keys code = keys := by
  unfold shiftable at h
  simp [ForwardKeys.shift, h]

end Forward

end KeysharpInput.Output
