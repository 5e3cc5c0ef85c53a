import KeysharpInput.DeviceRoundTrip

/-!
Gamepad states on the wire.
Every byte of an encoding belongs to a word that the decoder reads or requires to be zero. So the
decoder takes a byte string exactly when it is the encoding of the state that it returns.
-/

namespace KeysharpInput.Devices

open List

/-- `ksi_gamepad_axis_state`, with the bits of the signed value. -/
structure GamepadAxis where
  code : Nat
  value : Nat

/-- `ksi_gamepad_state`, its axes up to their count. Bit `i` of the buttons is bit `i % 8` of byte
`i / 8` of the bitmap. -/
structure GamepadState where
  deviceId : Nat
  buttonCount : Nat
  deviceGeneration : Nat
  buttons : Nat
  axes : List GamepadAxis

def gamepadAxisBytes (axis : GamepadAxis) : List UInt8 := le 4 axis.code ++ le 4 axis.value

def gamepadStateEncode (state : GamepadState) : List UInt8 :=
  let axes := state.axes.take deviceAxisCapacity
  le 4 state.deviceId ++ (le 4 state.buttonCount ++ (le 8 state.deviceGeneration ++
    (le 4 axes.length ++ (le 4 0 ++ (le 16 state.buttons ++ axes.flatMap gamepadAxisBytes)))))

def decodeGamepadAxes (b : Buffer) : Nat → Nat → Option Nat → Option (List GamepadAxis)
  | _, 0, _ => some []
  | i, n + 1, previous =>
    let entry : GamepadAxis := ⟨b.read (40 + i * 8) 4, b.read (40 + i * 8 + 4) 4⟩
    if deviceAxisCapacity ≤ entry.code ∨ previous.any (entry.code ≤ ·) then none
    else (decodeGamepadAxes b (i + 1) n (some entry.code)).map (entry :: ·)

def gamepadStateDecode (bytes : List UInt8) : Option GamepadState :=
  let b : Buffer := fun i => bytes.getD i 0
  if bytes.length < 40 ∨ b.read 0 4 = 0 ∨ b.read 20 4 ≠ 0 then none
  else if deviceButtonCapacity < b.read 4 4 ∨ deviceAxisCapacity < b.read 16 4 ∨
      bytes.length ≠ 40 + b.read 16 4 * 8 then none
  else (decodeGamepadAxes b 0 (b.read 16 4) none).bind fun axes =>
    if ∃ bit < deviceButtonCapacity, b.read 4 4 ≤ bit ∧ (b.read 24 16).testBit bit then none
    else some ⟨b.read 0 4, b.read 4 4, b.read 8 8, b.read 24 16, axes⟩

structure GamepadState.Valid (state : GamepadState) : Prop where
  deviceId : state.deviceId ≠ 0
  words : state.deviceId < 256 ^ 4 ∧ state.deviceGeneration < 256 ^ 8 ∧ state.buttons < 256 ^ 16
  buttonCount : state.buttonCount ≤ deviceButtonCapacity
  buttons : ∀ bit < deviceButtonCapacity, state.buttonCount ≤ bit →
    state.buttons.testBit bit = false
  axisCount : state.axes.length ≤ deviceAxisCapacity
  codes : (state.axes.map (·.code)).IsChain (· < ·)
  axes : ∀ axis ∈ state.axes, axis.code < deviceAxisCapacity ∧ axis.value < 256 ^ 4

variable {b : Buffer} {offset m n value i : Nat} {previous : Option Nat}

theorem read_lt (b : Buffer) (offset n : Nat) : b.read offset n < 256 ^ n := by
  induction n generalizing offset with
  | zero => exact Nat.one_pos
  | succ n ih =>
    have hbyte := (b offset).toNat_lt
    have hrest := ih (offset + 1)
    rw [Buffer.read, Nat.pow_succ']
    omega

theorem le_read (b : Buffer) (offset n : Nat) : le n (b.read offset n) = b.slice offset n := by
  induction n generalizing offset with
  | zero => rfl
  | succ n ih =>
    have hbyte := (b offset).toNat_lt
    have hrest : ((b offset).toNat + 256 * b.read (offset + 1) n) / 256 =
        b.read (offset + 1) n := by omega
    have hfirst : UInt8.ofNat ((b offset).toNat + 256 * b.read (offset + 1) n) = b offset := by
      apply UInt8.toNat_inj.mp
      simp
    rw [Buffer.read, le, slice_succ, hrest, hfirst, ih]

theorem slice_eq_le_append_iff {rest : List UInt8} (hvalue : value < 256 ^ m) :
    b.slice offset (m + n) = le m value ++ rest ↔
      b.read offset m = value ∧ b.slice (offset + m) n = rest := by
  have hsplit : b.slice offset (m + n) = b.slice offset m ++ b.slice (offset + m) n := by
    simp [Buffer.slice, range_add, Nat.add_assoc]
  rw [hsplit]
  constructor
  · intro h
    obtain ⟨hword, hrest⟩ := append_inj h (by simp [Buffer.slice])
    exact ⟨read_of_slice hword hvalue, hrest⟩
  · rintro ⟨rfl, rfl⟩
    rw [le_read]

theorem decodeGamepadAxes_eq_some_iff {axes : List GamepadAxis} :
    decodeGamepadAxes b i n previous = some axes ↔
      axes.length = n ∧ b.slice (40 + i * 8) (n * 8) = axes.flatMap gamepadAxisBytes ∧
        (previous.toList ++ axes.map (·.code)).IsChain (· < ·) ∧
        ∀ axis ∈ axes, axis.code < deviceAxisCapacity ∧ axis.value < 256 ^ 4 := by
  induction n generalizing i previous axes with
  | zero => cases axes <;> cases previous <;> simp [decodeGamepadAxes, Buffer.slice]
  | succ n ih =>
    have hnext : 40 + i * 8 + 4 + 4 = 40 + (i + 1) * 8 := by omega
    have hsize : (n + 1) * 8 = 4 + (4 + n * 8) := by omega
    rw [hsize]
    constructor
    · intro h
      unfold decodeGamepadAxes at h
      dsimp only at h
      split at h
      · cases h
      obtain ⟨rest, hrest, rfl⟩ := Option.map_eq_some_iff.mp h
      obtain ⟨hlength, hslice, hchain, haxes⟩ := ih.mp hrest
      refine ⟨congrArg (· + 1) hlength, ?_, by cases previous <;> grind, ?_⟩
      · rw [flatMap_cons, gamepadAxisBytes, append_assoc, slice_eq_le_append_iff (read_lt ..),
          slice_eq_le_append_iff (read_lt ..), hnext]
        exact ⟨rfl, rfl, hslice⟩
      · exact forall_mem_cons.mpr ⟨⟨by grind, read_lt ..⟩, haxes⟩
    · rintro ⟨hlength, hslice, hchain, haxes⟩
      obtain ⟨axis, axes, rfl⟩ := exists_cons_of_length_eq_add_one hlength
      obtain ⟨⟨hcode, hvalue⟩, haxes⟩ := forall_mem_cons.mp haxes
      rw [flatMap_cons, gamepadAxisBytes, append_assoc,
        slice_eq_le_append_iff (Nat.lt_trans hcode (by decide)), slice_eq_le_append_iff hvalue,
        hnext] at hslice
      have hrest : decodeGamepadAxes b (i + 1) n (some axis.code) = some axes :=
        ih.mpr ⟨Nat.succ.inj hlength, hslice.2.2, by cases previous <;> grind, haxes⟩
      unfold decodeGamepadAxes
      simp only [hslice.1, hslice.2.1, hrest]
      rw [if_neg (by cases previous <;> grind)]
      rfl

theorem eq_gamepadStateEncode_iff {bytes : List UInt8} {state : GamepadState}
    (hid : state.deviceId < 256 ^ 4) (hcount : state.buttonCount < 256 ^ 4)
    (hgeneration : state.deviceGeneration < 256 ^ 8) (hbuttons : state.buttons < 256 ^ 16)
    (haxes : state.axes.length ≤ deviceAxisCapacity) (hb : b = fun i => bytes.getD i 0) :
    bytes = gamepadStateEncode state ↔
      bytes.length = 40 + state.axes.length * 8 ∧ b.read 0 4 = state.deviceId ∧
        b.read 4 4 = state.buttonCount ∧ b.read 8 8 = state.deviceGeneration ∧
        b.read 16 4 = state.axes.length ∧ b.read 20 4 = 0 ∧ b.read 24 16 = state.buttons ∧
        b.slice 40 (state.axes.length * 8) = state.axes.flatMap gamepadAxisBytes := by
  have hbytes : b.slice 0 bytes.length = bytes := by
    simpa [hb] using slice_append [] bytes []
  have hsize : 40 + state.axes.length * 8 =
      4 + (4 + (8 + (4 + (4 + (16 + state.axes.length * 8))))) := by omega
  have hlength : (gamepadStateEncode state).length = 40 + state.axes.length * 8 := by
    rw [gamepadStateEncode, take_of_length_le haxes]
    simp [gamepadAxisBytes]
    omega
  have hwhole : bytes = gamepadStateEncode state ↔ bytes.length = 40 + state.axes.length * 8 ∧
      b.slice 0 (40 + state.axes.length * 8) = gamepadStateEncode state := by
    constructor
    · rintro heq
      rw [← hlength, ← heq]
      exact ⟨rfl, hbytes⟩
    · rintro ⟨hlen, hslice⟩
      rw [← hslice, ← hlen, hbytes]
  rw [hwhole, hsize, gamepadStateEncode, take_of_length_le haxes, slice_eq_le_append_iff hid,
    slice_eq_le_append_iff hcount, slice_eq_le_append_iff hgeneration,
    slice_eq_le_append_iff (Nat.lt_of_le_of_lt haxes (by decide)),
    slice_eq_le_append_iff (by decide), slice_eq_le_append_iff hbuttons]

/-- The decoder takes a byte string as a state exactly when it is the encoding of that state. -/
theorem gamepadStateDecode_eq_some_iff {bytes : List UInt8} {state : GamepadState} :
    gamepadStateDecode bytes = some state ↔ state.Valid ∧ bytes = gamepadStateEncode state := by
  constructor
  · intro h
    unfold gamepadStateDecode at h
    dsimp only at h
    generalize hb : (fun i => bytes.getD i 0) = b at h
    split at h
    · cases h
    split at h
    · cases h
    rename_i hfields hcounts
    simp only [not_or, not_not, Nat.not_lt] at hfields hcounts
    obtain ⟨axes, haxes, h⟩ := Option.bind_eq_some_iff.mp h
    obtain ⟨hlength, hslice, hchain, hcodes⟩ := decodeGamepadAxes_eq_some_iff.mp haxes
    split at h
    · cases h
    rename_i hset
    cases h
    have hcapacity : axes.length ≤ deviceAxisCapacity := hlength.symm ▸ hcounts.2.1
    refine ⟨⟨hfields.2.1, ⟨read_lt .., read_lt .., read_lt ..⟩, hcounts.1, by simpa using hset,
      hcapacity, hchain, hcodes⟩, ?_⟩
    rw [eq_gamepadStateEncode_iff (read_lt ..) (read_lt ..) (read_lt ..) (read_lt ..) hcapacity
      hb.symm, hlength]
    exact ⟨hcounts.2.2, rfl, rfl, rfl, rfl, hfields.2.2, rfl, hslice⟩
  · rintro ⟨hvalid, hencode⟩
    have hcount := hvalid.buttonCount
    rw [eq_gamepadStateEncode_iff hvalid.words.1 (Nat.lt_of_le_of_lt hcount (by decide))
      hvalid.words.2.1 hvalid.words.2.2 hvalid.axisCount rfl] at hencode
    obtain ⟨hlength, hid, hbc, hgeneration, haxes, hzero, hbits, hslice⟩ := hencode
    have hdecoded : decodeGamepadAxes _ 0 state.axes.length none = some state.axes :=
      decodeGamepadAxes_eq_some_iff.mpr ⟨rfl, hslice, hvalid.codes, hvalid.axes⟩
    unfold gamepadStateDecode
    simp only [hid, hbc, hgeneration, haxes, hzero, hbits, hdecoded]
    rw [if_neg, if_neg]
    · have hbuttons := hvalid.buttons
      simpa using hbuttons
    · simp [hlength, hvalid.axisCount, hcount]
    · simp [hlength, hvalid.deviceId]

end KeysharpInput.Devices
