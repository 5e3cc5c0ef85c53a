import KeysharpInput.DeviceCodec

/-!
Device records from the daemon to a client.
The daemon scans the bits of a node for its axes and buttons, and the client's decoder checks their
order. The scans go up through the codes, the buttons in two of them with the lower codes last, so
the decoder takes what they find.
-/

namespace KeysharpInput.Devices

open List

/-- `ksi_device_write`: the bytes of a little-endian word. -/
def le : Nat → Nat → List UInt8
  | 0, _ => []
  | count + 1, value => UInt8.ofNat value :: le count (value / 256)

def Buffer.Holds (b : Buffer) : Nat → List (List UInt8) → Prop
  | _, [] => True
  | offset, part :: parts =>
    b.slice offset part.length = part ∧ b.Holds (offset + part.length) parts

variable {b : Buffer} {offset n value i : Nat} {previous : Option Nat} {codes : List Nat}

@[simp]
theorem length_le (n value : Nat) : (le n value).length = n := by
  induction n generalizing value with
  | zero => rfl
  | succ n ih => simp [le, ih]

theorem slice_succ (b : Buffer) (offset n : Nat) :
    b.slice offset (n + 1) = b offset :: b.slice (offset + 1) n := by
  simp [Buffer.slice, range_succ_eq_map, Nat.add_left_comm, Nat.add_comm]

theorem read_of_slice (h : b.slice offset n = le n value) (hvalue : value < 256 ^ n) :
    b.read offset n = value := by
  induction n generalizing offset value with
  | zero => exact (Nat.lt_one_iff.mp hvalue).symm
  | succ n ih =>
    rw [slice_succ] at h
    obtain ⟨hfirst, hrest⟩ := cons.inj h
    rw [Nat.pow_succ'] at hvalue
    rw [Buffer.read, hfirst, ih hrest (Nat.div_lt_of_lt_mul hvalue)]
    exact Nat.mod_add_div value 256

theorem slice_append (before part after : List UInt8) :
    Buffer.slice (fun i => (before ++ (part ++ after)).getD i 0) before.length part.length =
      part := by
  refine ext_getElem (by simp [Buffer.slice]) fun i _ hi => ?_
  simp [Buffer.slice, getElem?_append_right, getElem?_append_left hi, hi]

theorem holds_flatten (before : List UInt8) (parts : List (List UInt8)) :
    Buffer.Holds (fun i => (before ++ parts.flatten).getD i 0) before.length parts := by
  induction parts generalizing before with
  | nil => trivial
  | cons part parts ih =>
    have hrest := ih (before ++ part)
    rw [append_assoc, length_append] at hrest
    exact ⟨slice_append before part parts.flatten, hrest⟩

theorem holds_append {parts parts' : List (List UInt8)} : b.Holds offset (parts ++ parts') ↔
      b.Holds offset parts ∧ b.Holds (offset + parts.flatten.length) parts' := by
  induction parts generalizing offset with
  | nil => simp [Buffer.Holds]
  | cons _ _ ih => simp [Buffer.Holds, ih, and_assoc, Nat.add_assoc]

def word (x : Int) : Nat := (x % (2 ^ 32 : Nat)).toNat

def axisParts (info : AxisInfo) : List (List UInt8) :=
  [le 4 info.code, le 4 (word info.minimum), le 4 (word info.maximum), le 4 (word info.fuzz),
    le 4 (word info.flat), le 4 (word info.resolution)]

def recordParts (d : DeviceRecord) : List (List UInt8) :=
  [le 4 d.deviceId, le 4 d.capabilities, le 2 d.busType, le 2 d.vendor, le 2 d.product,
    le 2 d.version, le 4 0, le 4 0, d.name, d.path, d.physical, d.unique,
    le 4 d.axes.length, le 4 0] ++
  (d.axes.flatMap axisParts ++
  ([replicate (1536 - d.axes.length * 24) 0, le 4 d.buttonCodes.length, le 4 0] ++
  d.buttonCodes.map (le 2)))

def deviceEncode (d : DeviceRecord) : Buffer := fun i => (recordParts d).flatten.getD i 0

def AxisInfo.Fits (info : AxisInfo) : Prop :=
  ∀ x ∈ [info.minimum, info.maximum, info.fuzz, info.flat, info.resolution], x.bmod (2 ^ 32) = x

theorem cast_word (x : Int) : (word x : Int) = x % (2 ^ 32 : Nat) :=
  Int.toNat_of_nonneg (Int.emod_nonneg x (by simp))

theorem readInt_of_slice {x : Int} (h : b.slice offset 4 = le 4 (word x))
    (hx : x.bmod (2 ^ 32) = x) : b.readInt offset = x := by
  have hlt : (word x : Int) < (2 ^ 32 : Nat) := by
    rw [cast_word]
    exact Int.emod_lt_of_pos x (by simp)
  have hread := read_of_slice h (Int.ofNat_lt.mp hlt)
  unfold Buffer.readInt
  rw [hread, cast_word, Int.emod_bmod, hx]

theorem readAxis_of_holds {info : AxisInfo} (h : b.Holds offset (axisParts info))
    (hcode : info.code < deviceAxisCapacity) (hwords : info.Fits) : readAxis b offset = info := by
  unfold deviceAxisCapacity at hcode
  simp only [axisParts, Buffer.Holds, length_le] at h
  obtain ⟨h0, h4, h8, h12, h16, h20, -⟩ := h
  simp only [AxisInfo.Fits, forall_mem_cons] at hwords
  unfold readAxis
  rw [read_of_slice h0 (by omega), readInt_of_slice h4 hwords.1, readInt_of_slice h8 hwords.2.1,
    readInt_of_slice h12 hwords.2.2.1, readInt_of_slice h16 hwords.2.2.2.1,
    readInt_of_slice h20 hwords.2.2.2.2.1]

theorem decodeAxes_of_holds {axes : List AxisInfo}
    (h : b.Holds (1184 + i * 24) (axes.flatMap axisParts))
    (hchain : (previous.toList ++ axes.map (·.code)).IsChain (· < ·))
    (hcodes : ∀ info ∈ axes, info.code < deviceAxisCapacity ∧ info.Fits) :
    decodeAxes b i axes.length previous = some axes := by
  induction axes generalizing i previous with
  | nil => rfl
  | cons info axes ih =>
    rw [flatMap_cons, holds_append] at h
    obtain ⟨⟨hcode, hwords⟩, hcodes⟩ := forall_mem_cons.mp hcodes
    have hnext : 1184 + i * 24 + (axisParts info).flatten.length = 1184 + (i + 1) * 24 := by
      simp [axisParts]
      omega
    rw [hnext] at h
    have hrest : decodeAxes b (i + 1) axes.length (some info.code) = some axes :=
      ih h.2 (by cases previous <;> grind) hcodes
    rw [length_cons, decodeAxes]
    simp only [readAxis_of_holds h.1 hcode hwords]
    rw [if_neg (by cases previous <;> grind), hrest]
    rfl

theorem readButton {code : Nat}
    (h : b.Holds (2728 + i * 2) ((code :: codes).map (le 2)))
    (hcodes : ∀ c ∈ code :: codes, 0 < c ∧ c < 256 ^ 2) :
    b.read (2728 + i * 2) 2 = code ∧ b.Holds (2728 + (i + 1) * 2) (codes.map (le 2)) ∧ 0 < code ∧
      ∀ c ∈ codes, 0 < c ∧ c < 256 ^ 2 := by
  obtain ⟨hcode, hcodes⟩ := forall_mem_cons.mp hcodes
  obtain ⟨hread, hrest⟩ := h
  refine ⟨?_, ?_, hcode.1, hcodes⟩
  · exact read_of_slice hread hcode.2
  · rwa [Nat.add_mul, ← Nat.add_assoc]

theorem decodeButtons_of_chains {first : Nat} {descended : Bool} {high low : List Nat}
    (hsplit : codes = high ++ low)
    (h : b.Holds (2728 + i * 2) (codes.map (le 2))) (hcodes : ∀ c ∈ codes, 0 < c ∧ c < 256 ^ 2)
    (hhigh : (previous.toList ++ high).IsChain (· < ·)) (hlow : low.IsChain (· < ·))
    (hfirst : ∀ c ∈ low, c < first) (hdescended : descended = true → low = []) :
    decodeButtons b first i codes.length previous descended = some codes := by
  induction codes generalizing i previous descended high low with
  | nil => rfl
  | cons code codes ih =>
    obtain ⟨hread, hrest, hcode, hcodes⟩ := readButton h hcodes
    rw [length_cons, decodeButtons]
    simp only [hread]
    rw [if_neg (Nat.ne_of_gt hcode)]
    cases high with
    | cons =>
      obtain ⟨rfl, rfl⟩ := cons.inj hsplit
      rw [if_neg (by cases previous <;> grind),
        ih rfl hrest hcodes (by cases previous <;> grind) hlow hfirst hdescended]
      rfl
    | nil =>
      obtain rfl : code :: codes = low := hsplit
      have htaken : ∀ descended,
          decodeButtons b first (i + 1) codes.length (some code) descended = some codes :=
        fun _ => ih (append_nil codes).symm hrest hcodes hlow .nil nofun fun _ => rfl
      have hstarts : ¬ (descended = true ∨ first ≤ code) := by grind
      rw [htaken, htaken, if_neg hstarts]
      exact ite_self _

theorem decodeButtons_of_order (h : b.Holds 2728 (codes.map (le 2)))
    (hcodes : ∀ c ∈ codes, 0 < c ∧ c < 256 ^ 2) (horder : JoydevOrder codes) :
    decodeButtons b (b.read 2728 2) 0 codes.length none false = some codes := by
  obtain ⟨high, low, hsplit, hhigh, hlow, hbelow⟩ := horder
  refine decodeButtons_of_chains hsplit h hcodes hhigh.isChain hlow.isChain (fun c hc => ?_) nofun
  cases codes with
  | nil => simp_all
  | cons first =>
    rw [(readButton (i := 0) h hcodes).1]
    exact hbelow c hc first rfl

structure DeviceRecord.Built (d : DeviceRecord) : Prop where
  words : ∀ x ∈ [d.deviceId, d.capabilities], x < 256 ^ 4
  halves : ∀ x ∈ [d.busType, d.vendor, d.product, d.version], x < 256 ^ 2
  lengths : [d.name, d.path, d.physical, d.unique].map (·.length) = [256, 512, 256, 128]
  terminated : ∀ s ∈ [d.name, d.path, d.physical, d.unique], 0 ∈ s
  axes : (d.axes.map (·.code)).Pairwise (· < ·)
  axisCodes : ∀ info ∈ d.axes, info.code < deviceAxisCapacity ∧ info.Fits
  axisCount : d.axes.length ≤ deviceAxisCapacity
  buttons : JoydevOrder d.buttonCodes
  buttonCodes : ∀ c ∈ d.buttonCodes, 0 < c ∧ c < 256 ^ 2
  buttonCount : d.buttonCodes.length ≤ deviceButtonCapacity

theorem length_axisParts (axes : List AxisInfo) :
    (axes.flatMap axisParts).flatten.length = axes.length * 24 := by
  induction axes with
  | nil => rfl
  | cons _ _ ih =>
    simp [axisParts, ih]
    omega

theorem deviceDecode_of_holds {d : DeviceRecord} (hd : d.Built) (h : b.Holds 0 (recordParts d)) :
    deviceDecode b deviceInfoWireSize = if d.deviceId = 0 then none else some d := by
  have hlengths := hd.lengths
  simp only [map_cons, cons.injEq] at hlengths
  have haxes : d.axes.length ≤ 64 := hd.axisCount
  have hbuttons : d.buttonCodes.length ≤ 128 := hd.buttonCount
  have hpad : 1184 + (d.axes.length * 24 + (1536 - d.axes.length * 24)) = 2720 := by omega
  have hpad' : 1184 + (d.axes.length * 24 + (1536 - d.axes.length * 24 + 8)) = 2728 := by omega
  simp only [recordParts, holds_append, Buffer.Holds, length_le, hlengths, flatten_cons,
    flatten_nil, length_append, length_nil, length_replicate,
    length_axisParts, Nat.reduceAdd, Nat.add_assoc, hpad, hpad'] at h
  obtain ⟨⟨h0, h4, h8, h10, h12, h14, h16, h20, h24, h280, h792, h1048, h1176, h1180, -⟩, h1184,
    ⟨-, h2720, h2724, -⟩, h2728⟩ := h
  have hdecoded : decodeAxes b 0 d.axes.length none = some d.axes :=
    decodeAxes_of_holds h1184 hd.axes.isChain hd.axisCodes
  have hdecoded' := decodeButtons_of_order h2728 hd.buttonCodes hd.buttons
  have hwords := hd.words
  have hhalves := hd.halves
  have hterminated := hd.terminated
  simp only [forall_mem_cons] at hwords hhalves hterminated
  unfold deviceDecode
  simp only [read_of_slice h0 hwords.1, read_of_slice h4 hwords.2.1, read_of_slice h8 hhalves.1,
    read_of_slice h10 hhalves.2.1, read_of_slice h12 hhalves.2.2.1,
    read_of_slice h14 hhalves.2.2.2.1, read_of_slice h16 (by simp), read_of_slice h20 (by simp),
    h24, h280, h792, h1048, read_of_slice h1176 (by omega), read_of_slice h1180 (by simp),
    read_of_slice h2720 (by omega), read_of_slice h2724 (by simp), hdecoded, hdecoded',
    hterminated]
  by_cases hid : d.deviceId = 0
  · simp [hid]
  · have hcounts := And.intro (Nat.not_lt.mpr hd.axisCount) (Nat.not_lt.mpr hd.buttonCount)
    simp [hcounts]

/-- What a node answers. Its capability bits give it a word and tell whether it is a gamepad, and
`EVIOCGABS` answers with minimum, maximum, fuzz, flat and resolution of an axis. -/
structure Scan where
  capabilities : BitVec 32
  isGamepad : Bool
  busType : BitVec 16
  vendor : BitVec 16
  product : BitVec 16
  version : BitVec 16
  name : List UInt8
  path : List UInt8
  physical : List UInt8
  unique : List UInt8
  keyBits : Nat → Bool
  absBits : Nat → Bool
  absInfo : Nat → Option (Fin 5 → BitVec 32)

def collectGamepadButtons (keyBits : Nat → Bool) : List Nat :=
  ((range' 0x120 0x1e0 ++ range' 0x100 0x20).filter keyBits).take deviceButtonCapacity

def cString (s : List UInt8) : List UInt8 := s.takeWhile (· != 0)

def field (capacity : Nat) (s : List UInt8) : List UInt8 :=
  (s.take (capacity - 1)).rightpad capacity 0

def Scan.axis (scan : Scan) (code : Nat) : Option AxisInfo :=
  if scan.absBits code then (scan.absInfo code).map fun abs =>
    ⟨code, (abs 0).toInt, (abs 1).toInt, (abs 2).toInt, (abs 3).toInt, (abs 4).toInt⟩
  else none

/-- `read_device_info`: the public record, with the id that it is published under. -/
def readDeviceInfo (scan : Scan) (deviceId : BitVec 32) : DeviceRecord where
  deviceId := deviceId.toNat
  capabilities := scan.capabilities.toNat
  busType := scan.busType.toNat
  vendor := scan.vendor.toNat
  product := scan.product.toNat
  version := scan.version.toNat
  name := field 256 (cString scan.name)
  path := field 512 (cString scan.path)
  physical := field 256 scan.physical
  unique := field 128 scan.unique
  axes := (range deviceAxisCapacity).filterMap scan.axis
  buttonCodes := if scan.isGamepad then collectGamepadButtons scan.keyBits else []

theorem joydevOrder_collectGamepadButtons (keyBits : Nat → Bool) :
    JoydevOrder (collectGamepadButtons keyBits) := by
  unfold collectGamepadButtons
  rw [filter_append, take_append]
  have hascends : ∀ start length count,
      (((range' start length).filter keyBits).take count).Pairwise (· < ·) := by
    intro start length count
    have hrange : (range' start length).Pairwise (· < ·) := pairwise_lt_range'
    exact (hrange.filter _).sublist (take_sublist count _)
  have hbounds : ∀ {start length count c},
      c ∈ ((range' start length).filter keyBits).take count → start ≤ c ∧ c < start + length :=
    fun hc => mem_range'_1.mp (mem_filter.mp (mem_of_mem_take hc)).1
  cases hhigh : ((range' 0x120 0x1e0).filter keyBits).take deviceButtonCapacity with
  | nil => exact ⟨_, [], (append_nil _).symm, hascends .., .nil, nofun⟩
  | cons first high =>
    refine ⟨first :: high, _, rfl, hhigh ▸ hascends .., hascends .., fun c hc code hcode => ?_⟩
    obtain rfl : first = code := by simpa using hcode
    have hfirst := hbounds (hhigh ▸ mem_cons_self)
    have hlow := hbounds hc
    omega

theorem field_spec (capacity : Nat) (s : List UInt8) :
    (field (capacity + 1) s).length = capacity + 1 ∧ 0 ∈ field (capacity + 1) s := by
  simp [field]
  omega

theorem Scan.axis_spec {scan : Scan} {code : Nat} {info : AxisInfo}
    (h : scan.axis code = some info) : info.code = code ∧ info.Fits := by
  unfold Scan.axis at h
  split at h
  · obtain ⟨_, -, rfl⟩ := Option.map_eq_some_iff.mp h
    simp only [AxisInfo.Fits, forall_mem_cons, BitVec.toInt_bmod_cancel, true_and,
      not_mem_nil, false_imp_iff, implies_true]
  · cases h

theorem built_readDeviceInfo (scan : Scan) (deviceId : BitVec 32) :
    (readDeviceInfo scan deviceId).Built where
  words := by
    simp [readDeviceInfo]
    omega
  halves := by
    simp [readDeviceInfo]
    omega
  lengths := by simp [readDeviceInfo, field_spec]
  terminated := by simp [readDeviceInfo, field_spec]
  axes := by
    rw [pairwise_map]
    refine pairwise_filterMap.mpr (pairwise_lt_range.imp ?_)
    intro code _ hlt info hinfo _ hinfo'
    rw [(Scan.axis_spec hinfo).1, (Scan.axis_spec hinfo').1]
    exact hlt
  axisCodes := by
    intro _ hinfo
    obtain ⟨_, hcode, hinfo⟩ := mem_filterMap.mp hinfo
    obtain ⟨rfl, hwords⟩ := Scan.axis_spec hinfo
    exact ⟨mem_range.mp hcode, hwords⟩
  axisCount := Nat.le_trans (length_filterMap_le ..) (by simp)
  buttons := by
    unfold readDeviceInfo
    split
    · exact joydevOrder_collectGamepadButtons scan.keyBits
    · exact ⟨[], [], rfl, .nil, .nil, nofun⟩
  buttonCodes := by
    unfold readDeviceInfo
    split
    · intro c hc
      have hmem := (mem_filter.mp (mem_of_mem_take hc)).1
      simp only [mem_append, mem_range'_1] at hmem
      omega
    · nofun
  buttonCount := by
    unfold readDeviceInfo
    split
    · exact length_take_le ..
    · exact Nat.zero_le _

/-- Every record that the daemon builds decodes to itself, unless its id is zero. -/
theorem deviceDecode_deviceEncode (scan : Scan) (deviceId : BitVec 32) :
    deviceDecode (deviceEncode (readDeviceInfo scan deviceId)) deviceInfoWireSize =
      if deviceId.toNat = 0 then none else some (readDeviceInfo scan deviceId) :=
  deviceDecode_of_holds (built_readDeviceInfo scan deviceId)
    (holds_flatten [] (recordParts (readDeviceInfo scan deviceId)))

end KeysharpInput.Devices
