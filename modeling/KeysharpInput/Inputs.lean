import KeysharpInput.Keys

/-!
Synthesis inputs and the keys they toggle.
An input is a keyboard transition, named by a virtual key or a scan code, or a mouse record that
may carry motion, wheel steps and button transitions at once. Admission and output resolve an
input to key codes with the same functions.
-/

namespace KeysharpInput.Output

open Keys

inductive KeyFlag
  | extended
  | up
  | unicode
  | scancode
  deriving DecidableEq

structure KeyboardInput where
  vk : Nat := 0
  scan : Nat := 0
  flags : Finset KeyFlag := ∅
  time : Nat := 0
  extraInfo : Nat := 0
  deriving DecidableEq

inductive MouseFlag
  | move
  | leftDown
  | leftUp
  | rightDown
  | rightUp
  | middleDown
  | middleUp
  | xDown
  | xUp
  | wheel
  | horizontalWheel
  | moveNoCoalesce
  | virtualDesktop
  | absolute
  deriving DecidableEq

structure MouseInput where
  dx : Int := 0
  dy : Int := 0
  mouseData : Nat := 0
  flags : Finset MouseFlag := ∅
  time : Nat := 0
  extraInfo : Nat := 0
  deriving DecidableEq

inductive Input
  | keyboard (input : KeyboardInput)
  | mouse (input : MouseInput)
  deriving DecidableEq

/-- `sizeof(ksi_input)`. -/
def inputSize : Nat := 40

/-- `ksi_vk_evdev_table`: virtual keys with their evdev codes. -/
def vkEvdevTable : List (Nat × Code) :=
  [(0x41, 30), (0x42, 48), (0x43, 46), (0x44, 32), (0x45, 18), (0x46, 33), (0x47, 34),
    (0x48, 35), (0x49, 23), (0x4a, 36), (0x4b, 37), (0x4c, 38), (0x4d, 50), (0x4e, 49),
    (0x4f, 24), (0x50, 25), (0x51, 16), (0x52, 19), (0x53, 31), (0x54, 20), (0x55, 22),
    (0x56, 47), (0x57, 17), (0x58, 45), (0x59, 21), (0x5a, 44), (0x30, 11), (0x31, 2), (0x32, 3),
    (0x33, 4), (0x34, 5), (0x35, 6), (0x36, 7), (0x37, 8), (0x38, 9), (0x39, 10), (0x03, 223),
    (0x08, 14), (0x09, 15), (0x0c, 355), (0x0d, 28), (0x0d, 96), (0x1b, 1), (0x20, 57),
    (0x21, 104), (0x22, 109), (0x23, 107), (0x24, 102), (0x25, 105), (0x26, 103), (0x27, 106),
    (0x28, 108), (0x2d, 110), (0x2e, 111), (0x29, 353), (0x2a, 210), (0x2b, 134), (0x2c, 99),
    (0x2f, 138), (0x13, 119), (0x14, 58), (0x90, 69), (0x91, 70), (0x15, 93), (0x15, 90),
    (0x15, 91), (0x15, 122), (0x19, 123), (0x1c, 92), (0x1d, 94), (0x1f, 373), (0x10, 42),
    (0x11, 29), (0x12, 56), (0xa0, 42), (0xa1, 54), (0xa2, 29), (0xa3, 97), (0xa4, 56),
    (0xa5, 100), (0x5b, 125), (0x5c, 126), (0x5d, 127), (0x5d, 139), (0x5f, 142), (0x70, 59),
    (0x71, 60), (0x72, 61), (0x73, 62), (0x74, 63), (0x75, 64), (0x76, 65), (0x77, 66),
    (0x78, 67), (0x79, 68), (0x7a, 87), (0x7b, 88), (0x7c, 183), (0x7d, 184), (0x7e, 185),
    (0x7f, 186), (0x80, 187), (0x81, 188), (0x82, 189), (0x83, 190), (0x84, 191), (0x85, 192),
    (0x86, 193), (0x87, 194), (0x60, 82), (0x61, 79), (0x62, 80), (0x63, 81), (0x64, 75),
    (0x65, 76), (0x66, 77), (0x67, 71), (0x68, 72), (0x69, 73), (0x6a, 55), (0x6b, 78),
    (0x6c, 121), (0x6c, 95), (0x6d, 74), (0x6e, 83), (0x6f, 98), (0xa6, 158), (0xa7, 159),
    (0xa8, 173), (0xa9, 128), (0xaa, 217), (0xab, 156), (0xab, 364), (0xac, 172), (0xac, 150),
    (0xad, 113), (0xae, 114), (0xaf, 115), (0xb0, 163), (0xb1, 165), (0xb2, 166), (0xb3, 164),
    (0xb3, 200), (0xb3, 201), (0xb3, 207), (0xb4, 155), (0xb4, 215), (0xb5, 226), (0xb6, 148),
    (0xb7, 149), (0xba, 39), (0xbb, 13), (0xbb, 117), (0xbc, 51), (0xbd, 12), (0xbe, 52),
    (0xbf, 53), (0xc0, 41), (0xdb, 26), (0xdc, 43), (0xdc, 124), (0xdd, 27), (0xde, 40),
    (0xe2, 86), (0xe2, 89)]

def vkToEvdev (vk : Nat) : Option Code :=
  (vkEvdevTable.find? (·.1 == vk)).map (·.2)

def extendedScanCodes : List (Nat × Code) :=
  [(0x1c, 96), (0x1d, 97), (0x35, 98), (0x37, 99), (0x38, 100), (0x47, 102), (0x48, 103),
    (0x49, 104), (0x4b, 105), (0x4d, 106), (0x4f, 107), (0x50, 108), (0x51, 109), (0x52, 110),
    (0x53, 111), (0x5b, 125), (0x5c, 126), (0x5d, 127)]

def scanToEvdevKey (scan : Nat) (extended : Bool) : Option Code :=
  if scan = 0 then none
  else if extended then (extendedScanCodes.find? (·.1 == scan)).map (·.2)
  else if h : scan < 768 then some ⟨scan, h⟩
  else none

def resolveSynthKeyCode (input : KeyboardInput) : Option Code :=
  if .unicode ∈ input.flags then none
  else
    let scanned :=
      if .scancode ∈ input.flags then scanToEvdevKey input.scan (.extended ∈ input.flags) else none
    match scanned with
    | some code => some code
    | none =>
      if input.vk = 0x0d ∧ .extended ∈ input.flags then some 96 else vkToEvdev input.vk

def KeyboardInput.down (input : KeyboardInput) : Bool := .up ∉ input.flags

def mouseDataToXbutton (mouseData : Nat) : Option Code :=
  let xbutton := mouseData / 2 ^ 16
  if xbutton = 1 then some side else if xbutton = 2 then some extra else none

def movesAbsolutely (input : MouseInput) : Bool :=
  .move ∈ input.flags && .absolute ∈ input.flags

/-- The buttons in the order in which an input presses and releases them; an X button is named
by the mouse data. -/
def buttonTable : List (MouseFlag × Option Code × Bool) :=
  [(.leftDown, some left, true), (.leftUp, some left, false),
    (.rightDown, some right, true), (.rightUp, some right, false),
    (.middleDown, some middle, true), (.middleUp, some middle, false),
    (.xDown, none, true), (.xUp, none, false)]

def buttonTransitions (input : MouseInput) : List (Option Code × Bool) :=
  (buttonTable.filter (·.1 ∈ input.flags)).map fun (_, button, down) =>
    ((button <|> mouseDataToXbutton input.mouseData), down)

def keepRelease : Input → Option Input
  | .keyboard input =>
    if .up ∈ input.flags ∧ .unicode ∉ input.flags then some (.keyboard input) else none
  | .mouse input =>
    let flags := input.flags ∩ {.leftUp, .rightUp, .middleUp, .xUp}
    if flags ≠ ∅ then some (.mouse { input with flags := flags }) else none

def playable (dead : Bool) (input : Input) : Option Input :=
  if dead then keepRelease input else some input

def synthBatchIsCleanup (inputs : List Input) : Bool :=
  inputs ≠ [] && inputs.all fun input =>
    match input with
    | .keyboard input => decide (.up ∈ input.flags)
    | .mouse input =>
      decide (input.flags ∩ {.leftDown, .rightDown, .middleDown, .xDown} = ∅ ∧
        input.flags ∩ {.leftUp, .rightUp, .middleUp, .xUp} ≠ ∅)

/-- `ksi_linux_wheel_steps`: legacy steps of a high-resolution delta and the new remainder. -/
def wheelSteps (delta remainder : Int) : Int × Int :=
  ((delta + remainder).tdiv 120, (delta + remainder).tmod 120)

end KeysharpInput.Output
