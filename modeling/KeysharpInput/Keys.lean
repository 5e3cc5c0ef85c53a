import Mathlib

/-!
Key codes, key bitmaps and forwarding packets.
A key bitmap has one bit for each code up to `KEY_MAX`; it is a finite set here, walked in the
order of the source's loops. A packet carries raw events of one grabbed source to its outputs.
Key state is kept at two queue positions, the written one and the admitted one.
-/

namespace KeysharpInput.Output

/-- A key or button code up to `KEY_MAX`. -/
abbrev Code := Fin 768

instance neZero_codes : NeZero 768 := ⟨by decide⟩

abbrev KeyBits := Finset Code

inductive View
  | applied
  | enqueued
  deriving DecidableEq

def setKeyBit (keys : KeyBits) (code : Code) (down : Bool) : KeyBits :=
  if down then insert code keys else keys.erase code

def setBits (keys : KeyBits) : List Code :=
  (List.finRange 768).filter (· ∈ keys)

@[simp] theorem mem_setBits {keys : KeyBits} {code : Code} : code ∈ setBits keys ↔ code ∈ keys := by
  simp [setBits]

theorem nodup_setBits (keys : KeyBits) : (setBits keys).Nodup := by
  exact List.Nodup.filter _ (List.nodup_finRange _)

theorem mem_setKeyBit {keys : KeyBits} {code c : Code} {down : Bool} :
    c ∈ setKeyBit keys code down ↔ if c = code then down = true else c ∈ keys := by
  unfold setKeyBit
  by_cases hc : c = code <;> cases down <;> simp [hc]

namespace Keys

def leftCtrl : Code := 29
def leftShift : Code := 42
def u : Code := 22
def space : Code := 57
def left : Code := 0x110
def right : Code := 0x111
def middle : Code := 0x112
def side : Code := 0x113
def extra : Code := 0x114
def forward : Code := 0x115
def back : Code := 0x116

end Keys

def isKeyboard (code : Code) : Bool :=
  decide ((0 < code.val ∧ code.val < 0x100) ∨ (0x160 ≤ code.val ∧ code.val < 0x220) ∨
    (0x230 ≤ code.val ∧ code.val < 0x2c0))

def canonicalButton (code : Code) : Code :=
  if code = Keys.back then Keys.side else if code = Keys.forward then Keys.extra else code

def buttonAlias (code : Code) : Code :=
  if code = Keys.side then Keys.back
  else if code = Keys.extra then Keys.forward
  else canonicalButton code

def isModifierOrLock (code : Code) : Bool :=
  decide (code.val ∈ [29, 97, 42, 54, 56, 100, 125, 126, 58, 69, 70])

inductive EventType
  | syn
  | key
  | rel
  | abs
  | msc
  | sw
  deriving DecidableEq

structure InputEvent where
  type : EventType
  code : Nat
  value : Int
  deriving DecidableEq

def synReport : InputEvent := ⟨.syn, 0, 0⟩

def InputEvent.isSynReport (e : InputEvent) : Bool := e.type == .syn && e.code == 0

/-- The key bitmap's index of an `EV_KEY` event. -/
def InputEvent.key (e : InputEvent) : Option Code :=
  if h : e.type = .key ∧ e.code < 768 then some ⟨e.code, h.2⟩ else none

def keyEvent (code : Code) (value : Int) : InputEvent := ⟨.key, code.val, value⟩

/-- `KSI_FORWARD_PACKET_EVENTS`. -/
def packetEvents : Nat := 2

structure ForwardPacket where
  target : Nat
  events : List InputEvent
  reportEnd : Bool := false
  suppressed : Bool := false
  ungrabbed : Bool := false
  clone : Bool := false
  deriving DecidableEq

/-- Whether `ksi_forward_key_values` sets the bit of this key value. -/
def ForwardPacket.keyValue (packet : ForwardPacket) (value : Int) : Bool :=
  (packet.events.take packetEvents).any fun e => e.type == .key && e.value == value

def ForwardPacket.keyUp (packet : ForwardPacket) : Bool := packet.keyValue 0

def ForwardPacket.transition (packet : ForwardPacket) : Bool :=
  packet.keyValue 0 || packet.keyValue 1

def ForwardPacket.key (packet : ForwardPacket) : Option (Code × Int) :=
  packet.events.getLast?.bind fun e => e.key.map fun code => (code, e.value)

/-- Key bits after the transitions of a write; repeats change nothing, and a failed write may
still have applied a press. -/
def noteWrittenKeys (keys : KeyBits) (events : List InputEvent) (ok : Bool) : KeyBits :=
  events.foldl (fun keys e =>
    match e.key with
    | some code =>
      if e.value ≠ 2 ∧ (ok = true ∨ e.value ≠ 0) then setKeyBit keys code (e.value != 0) else keys
    | none => keys) keys

/-- What the reader puts in a packet: at most one key event, which stands last and carries a
value of the kernel, after an optional scan code. -/
structure ForwardPacket.Built (packet : ForwardPacket) : Prop where
  count : packet.events.length ≤ packetEvents
  others : ∀ e ∈ packet.events.dropLast, e.type ≠ .key
  last : ∀ e ∈ packet.events.getLast?, e.type = .key → e.code < 768 ∧ e.value ∈ [0, 1, 2]

instance (packet : ForwardPacket) : Decidable packet.Built :=
  decidable_of_iff (packet.events.length ≤ packetEvents ∧
    (∀ e ∈ packet.events.dropLast, e.type ≠ .key) ∧
    ∀ e ∈ packet.events.getLast?, e.type = .key → e.code < 768 ∧ e.value ∈ [0, 1, 2])
    ⟨fun h => ⟨h.1, h.2.1, h.2.2⟩, fun h => ⟨h.count, h.others, h.last⟩⟩

end KeysharpInput.Output
