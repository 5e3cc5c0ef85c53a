import Mathlib

/-!
The device records that a client decodes.
A record has a fixed layout with two lists of variable length, the axes in the order of their codes
and the buttons in the order that joydev numbers them. The decoder checks the buttons one by one
with the code before, the first code and whether the codes have descended. It compares a code with
the first one only where they descend, so the codes after the descent may still pass the first.
-/

namespace KeysharpInput.Devices

open List Option

abbrev Buffer := Nat → UInt8

/-- `ksi_device_read`: a little-endian word. -/
def Buffer.read (b : Buffer) (offset : Nat) : Nat → Nat
  | 0 => 0
  | count + 1 => (b offset).toNat + 256 * b.read (offset + 1) count

def Buffer.readInt (b : Buffer) (offset : Nat) : Int := (b.read offset 4 : Int).bmod (2 ^ 32)

def Buffer.slice (b : Buffer) (offset count : Nat) : List UInt8 :=
  (range count).map fun i => b (offset + i)

structure AxisInfo where
  code : Nat
  minimum : Int
  maximum : Int
  fuzz : Int
  flat : Int
  resolution : Int
  deriving DecidableEq

/-- `ksi_device_info`, its arrays up to their counts. -/
structure DeviceRecord where
  deviceId : Nat
  capabilities : Nat
  busType : Nat
  vendor : Nat
  product : Nat
  version : Nat
  name : List UInt8
  path : List UInt8
  physical : List UInt8
  unique : List UInt8
  axes : List AxisInfo
  buttonCodes : List Nat
  deriving DecidableEq

def deviceInfoWireSize : Nat := 2984
def deviceAxisCapacity : Nat := 64
def deviceButtonCapacity : Nat := 128

def readAxis (b : Buffer) (offset : Nat) : AxisInfo where
  code := b.read offset 4
  minimum := b.readInt (offset + 4)
  maximum := b.readInt (offset + 8)
  fuzz := b.readInt (offset + 12)
  flat := b.readInt (offset + 16)
  resolution := b.readInt (offset + 20)

def decodeAxes (b : Buffer) : Nat → Nat → Option Nat → Option (List AxisInfo)
  | _, 0, _ => some []
  | i, n + 1, previous =>
    let info := readAxis b (1184 + i * 24)
    if deviceAxisCapacity ≤ info.code ∨ previous.any (info.code ≤ ·) then none
    else (decodeAxes b (i + 1) n (some info.code)).map (info :: ·)

def decodeButtons (b : Buffer) (first : Nat) : Nat → Nat → Option Nat → Bool → Option (List Nat)
  | _, 0, _, _ => some []
  | i, n + 1, previous, descended =>
    let code := b.read (2728 + i * 2) 2
    if code = 0 then none
    else if previous.any (code ≤ ·) then
      if descended ∨ first ≤ code then none
      else (decodeButtons b first (i + 1) n (some code) true).map (code :: ·)
    else (decodeButtons b first (i + 1) n (some code) descended).map (code :: ·)

def deviceDecode (b : Buffer) (size : Nat) : Option DeviceRecord :=
  if size ≠ deviceInfoWireSize ∨ b.read 0 4 = 0 ∨ b.read 16 4 ≠ 0 ∨ b.read 20 4 ≠ 0 ∨
      0 ∉ b.slice 24 256 ∨ 0 ∉ b.slice 280 512 ∨ 0 ∉ b.slice 792 256 ∨
      0 ∉ b.slice 1048 128 then none
  else if deviceAxisCapacity < b.read 1176 4 ∨ b.read 1180 4 ≠ 0 ∨
      deviceButtonCapacity < b.read 2720 4 ∨ b.read 2724 4 ≠ 0 then none
  else
    match decodeAxes b 0 (b.read 1176 4) none,
      decodeButtons b (b.read 2728 2) 0 (b.read 2720 4) none false with
    | some axes, some buttonCodes => some {
        deviceId := b.read 0 4, capabilities := b.read 4 4, busType := b.read 8 2
        vendor := b.read 10 2, product := b.read 12 2, version := b.read 14 2
        name := b.slice 24 256, path := b.slice 280 512
        physical := b.slice 792 256, unique := b.slice 1048 128
        axes := axes, buttonCodes := buttonCodes }
    | _, _ => none

def JoydevOrder (codes : List Nat) : Prop :=
  ∃ high low, codes = high ++ low ∧ high.Pairwise (· < ·) ∧ low.Pairwise (· < ·) ∧
    ∀ c ∈ low, ∀ first ∈ codes.head?, c < first

variable {codes : List Nat}

theorem JoydevOrder.nodup (h : JoydevOrder codes) : codes.Nodup := by
  obtain ⟨high, _, rfl, hhigh, hlow, hbelow⟩ := h
  refine nodup_append.mpr ⟨hhigh.imp Nat.ne_of_lt, hlow.imp Nat.ne_of_lt, ?_⟩
  cases high with
  | nil => nofun
  | cons first =>
    intro c hc c' hc'
    have hfirst : c' < first := hbelow c' hc' first rfl
    rcases mem_cons.mp hc with rfl | hc
    · exact Nat.ne_of_gt hfirst
    · exact Nat.ne_of_gt (Nat.lt_trans hfirst (rel_of_pairwise_cons hhigh hc))

structure RecordRules (b : Buffer) (d : DeviceRecord) : Prop where
  deviceId : d.deviceId ≠ 0
  reserved : ∀ offset ∈ [16, 20, 1180, 2724], b.read offset 4 = 0
  terminated : ∀ s ∈ [d.name, d.path, d.physical, d.unique], 0 ∈ s
  axes : (d.axes.map (·.code)).Pairwise (· < ·)
  axisCodes : ∀ axis ∈ d.axes, axis.code < deviceAxisCapacity
  buttons : 0 ∉ d.buttonCodes
  order : JoydevOrder d.buttonCodes

variable {b : Buffer} {first i n : Nat} {previous : Option Nat} {descended : Bool}

theorem decodeAxes_spec {axes : List AxisInfo} (h : decodeAxes b i n previous = some axes) :
    (previous.toList ++ axes.map (·.code)).IsChain (· < ·) ∧
      ∀ axis ∈ axes, axis.code < deviceAxisCapacity := by
  induction n generalizing i previous axes with
  | zero =>
    cases h
    cases previous <;> simp
  | succ =>
    unfold decodeAxes at h
    dsimp only at h
    split at h
    · simp at h
    · obtain ⟨rest, hrest, rfl⟩ := map_eq_some_iff.mp h
      cases previous <;> grind

theorem decodeButtons_spec (h : decodeButtons b first i n previous descended = some codes) :
    0 ∉ codes ∧ ∃ high low, codes = high ++ low ∧ (previous.toList ++ high).IsChain (· < ·) ∧
      low.IsChain (· < ·) ∧ (descended = true → low = []) := by
  induction n generalizing i previous descended codes with
  | zero =>
    cases h
    cases previous <;> simp
  | succ n ih =>
    unfold decodeButtons at h
    dsimp only at h
    split at h
    · simp at h
    split at h
    · split at h
      · simp at h
      obtain ⟨rest, hrest, rfl⟩ := map_eq_some_iff.mp h
      obtain ⟨hrest, high, low, rfl, hhigh, -, hlow⟩ := ih hrest
      obtain rfl := hlow rfl
      refine ⟨by grind, [], _, rfl, by cases previous <;> simp, by simpa using hhigh, by grind⟩
    · obtain ⟨_, hrest, rfl⟩ := map_eq_some_iff.mp h
      obtain ⟨hrest, high, low, rfl, hhigh, hlow, hdesc⟩ := ih hrest
      refine ⟨by grind, _ :: high, low, rfl, ?_, hlow, hdesc⟩
      cases previous <;> grind

theorem decodeButtons_eq (h : decodeButtons b first i n previous descended = some codes) :
    codes = (range n).map fun k => b.read (2728 + (i + k) * 2) 2 := by
  induction n generalizing i previous descended codes with
  | zero =>
    cases h
    rfl
  | succ n ih =>
    have hnext : ∀ {p d}, (decodeButtons b first (i + 1) n p d).map
        (b.read (2728 + i * 2) 2 :: ·) = some codes →
        codes = (range (n + 1)).map fun k => b.read (2728 + (i + k) * 2) 2 := by
      intro p d hmap
      obtain ⟨rest, hrest, rfl⟩ := map_eq_some_iff.mp hmap
      simp [ih hrest, range_succ_eq_map, Nat.add_assoc, Nat.add_comm 1]
    unfold decodeButtons at h
    dsimp only at h
    split_ifs at h
    · exact hnext h
    · exact hnext h

theorem joydevOrder_of_getLast {high low : List Nat} (h : codes = high ++ low)
    (hhigh : high.Pairwise (· < ·)) (hlow : low.Pairwise (· < ·))
    (hlast : ∀ first ∈ codes.head?, ∀ last ∈ codes.getLast?, last < first) : JoydevOrder codes := by
  refine ⟨high, low, h, hhigh, hlow, fun c hc first hfirst => ?_⟩
  rcases eq_nil_or_concat' low with rfl | ⟨_, last, rfl⟩
  · simp at hc
  have hlt : last < first := hlast first hfirst last (by simp [h])
  rcases mem_append.mp hc with hc | hc
  · exact Nat.lt_trans ((pairwise_append.mp hlow).2.2 c hc last (by simp)) hlt
  · simp only [mem_singleton] at hc
    exact hc ▸ hlt

theorem joydevOrder_iff {high low : List Nat} (h : codes = high ++ low)
    (hhigh : high.Pairwise (· < ·)) (hlow : low.Pairwise (· < ·)) :
    JoydevOrder codes ↔ codes.Pairwise (· < ·) ∨
      ∀ first ∈ codes.head?, ∀ last ∈ codes.getLast?, last < first := by
  constructor
  · rintro ⟨high, low, rfl, hhigh, -, hbelow⟩
    rcases eq_nil_or_concat' low with rfl | ⟨low, last, rfl⟩
    · left
      simpa using hhigh
    · right
      intro first hfirst last' hlast
      have heq : last' = last := by simpa using hlast.symm
      exact heq ▸ hbelow last (by simp) first hfirst
  · rintro (hascends | hlast)
    · exact ⟨codes, [], by simp, hascends, .nil, by simp⟩
    · exact joydevOrder_of_getLast h hhigh hlow hlast

def wireCodes (b : Buffer) : List Nat :=
  (range (b.read 2720 4)).map fun i => b.read (2728 + i * 2) 2

/-- An accepted record keeps the rules, and names no button twice, exactly if its button codes
ascend or the last of them is below the first. -/
theorem deviceDecode_rules {size : Nat} {d : DeviceRecord} (h : deviceDecode b size = some d) :
    size = deviceInfoWireSize ∧ d.buttonCodes = wireCodes b ∧
      (RecordRules b d ∧ d.buttonCodes.Nodup ↔ (wireCodes b).Pairwise (· < ·) ∨
        ∀ first ∈ (wireCodes b).head?, ∀ last ∈ (wireCodes b).getLast?, last < first) := by
  unfold deviceDecode at h
  split at h
  · simp at h
  rename_i hfields
  split at h
  · simp at h
  rename_i hcounts
  split at h
  · rename_i codes haxes hcodes
    obtain ⟨hchain, haxisCodes⟩ := decodeAxes_spec haxes
    obtain ⟨hzero, high, low, hsplit, hhigh, hlow, -⟩ := decodeButtons_spec hcodes
    have hwire : codes = wireCodes b := by
      rw [decodeButtons_eq hcodes, wireCodes]
      simp
    cases h
    simp only [not_or, not_not] at hfields hcounts
    refine ⟨hfields.1, hwire, ?_⟩
    rw [← hwire, ← joydevOrder_iff hsplit hhigh.pairwise hlow.pairwise]
    constructor
    · intro hrules
      exact hrules.1.order
    · intro horder
      refine ⟨⟨hfields.2.1, ?_, ?_, hchain.pairwise, haxisCodes, hzero, horder⟩, horder.nodup⟩
      · simp [hfields, hcounts]
      · simp [hfields]
  · simp at h

def fourButtons (codes : Nat → UInt8) : Buffer := fun i =>
  if i = 0 then 1 else if i = 2720 then 4 else if 2728 ≤ i ∧ i < 2736 ∧ i % 2 = 0 then
    codes ((i - 2728) / 2) else 0

theorem deviceDecode_rules_four : ∃ d, deviceDecode (fourButtons fun i => [5, 7, 3, 4].getD i 0)
    2984 = some d ∧ RecordRules (fourButtons fun i => [5, 7, 3, 4].getD i 0) d := by
  have hsome : (deviceDecode (fourButtons fun i => [5, 7, 3, 4].getD i 0) 2984).isSome = true := by
    decide +kernel
  have hwire : wireCodes (fourButtons fun i => [5, 7, 3, 4].getD i 0) = [5, 7, 3, 4] := by
    decide +kernel
  obtain ⟨d, hd⟩ := isSome_iff_exists.mp hsome
  exact ⟨d, hd, ((deviceDecode_rules hd).2.2.mpr (.inr (by rw [hwire]; simp))).1⟩

/-- A button counted twice is accepted. -/
theorem deviceDecode_repeated :
    (deviceDecode (fourButtons fun i => [5, 7, 3, 5].getD i 0) 2984).map (·.buttonCodes) =
      some [5, 7, 3, 5] := by
  decide +kernel

end KeysharpInput.Devices
