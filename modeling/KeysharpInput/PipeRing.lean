import KeysharpInput.Ring

/-!
The ring of `pipe_ring.c`.
Elements of one size are copied into a byte buffer and out of it. Its slots are the parts of the
buffer at the multiples of that size, so a copy to one slot leaves the bytes of the others.
-/

namespace KeysharpInput.Pipe

/-- `ksi_pipe_ring_implementation`. -/
structure PipeRing where
  buffer : Nat → UInt8 := fun _ => 0
  elementSize : Nat
  capacity : Nat
  head : Nat := 0
  count : Nat := 0

/-- A copy of `size` bytes to an offset. -/
def copyTo (buffer : Nat → UInt8) (offset size : Nat) (item : Nat → UInt8) : Nat → UInt8 :=
  fun j => if offset ≤ j ∧ j < offset + size then item (j - offset) else buffer j

def bytes (size : Nat) (item : Nat → UInt8) : List UInt8 := (List.range size).map item

def slot (size : Nat) (buffer : Nat → UInt8) (i : Nat) : List UInt8 :=
  bytes size fun k => buffer (i * size + k)

inductive Op
  | push (item : Nat → UInt8) (reserve : Nat)
  | pop

inductive Answer
  | pushed (accepted : Bool)
  | popped (item : Option (List UInt8))

/-- `ksi_pipe_ring_push_reserved`, of which `ksi_pipe_ring_push` is the case without a reserve.
The sum of count and reserve is one of 64-bit words. -/
def PipeRing.pushReserved (r : PipeRing) (item : Nat → UInt8) (reserve : Nat) :
    PipeRing × Answer :=
  if (r.count + reserve) % 2 ^ 64 < r.capacity then
    let tail := (r.head + r.count) % r.capacity
    ({ r with
      buffer := copyTo r.buffer (tail * r.elementSize) r.elementSize item
      count := r.count + 1 }, .pushed true)
  else (r, .pushed false)

def PipeRing.pop (r : PipeRing) : PipeRing × Answer :=
  if r.count = 0 then (r, .popped none)
  else
    ({ r with
      buffer := copyTo r.buffer (r.head * r.elementSize) r.elementSize fun _ => 0
      head := (r.head + 1) % r.capacity
      count := r.count - 1 }, .popped (some (slot r.elementSize r.buffer r.head)))

def PipeRing.step (r : PipeRing) : Op → PipeRing × Answer
  | .push item reserve => r.pushReserved item reserve
  | .pop => r.pop

def fifo (size capacity : Nat) : List (List UInt8) → Op → List (List UInt8) × Answer
  | q, .push item reserve =>
    if q.length + reserve < capacity then (q ++ [bytes size item], .pushed true)
    else (q, .pushed false)
  | [], .pop => ([], .popped none)
  | item :: q, .pop => (q, .popped (some item))

def run {σ : Type} (step : σ → Op → σ × Answer) : σ → List Op → σ × List Answer
  | s, [] => (s, [])
  | s, op :: ops =>
    ((run step (step s op).1 ops).1, (step s op).2 :: (run step (step s op).1 ops).2)

def NoWrap : PipeRing → List Op → Prop
  | _, [] => True
  | r, op :: ops =>
    (∀ item reserve, op = .push item reserve → r.count + reserve < 2 ^ 64) ∧
      NoWrap (r.step op).1 ops

variable {buffer item : Nat → UInt8} {size i j : Nat}

theorem slot_copyTo_self : slot size (copyTo buffer (i * size) size item) i = bytes size item := by
  refine List.map_congr_left fun k hk => ?_
  have hk' : k < size := List.mem_range.mp hk
  simp [copyTo, hk']

theorem slot_copyTo_ne (hj : j ≠ i) :
    slot size (copyTo buffer (i * size) size item) j = slot size buffer j := by
  refine List.map_congr_left fun k hk => if_neg ?_
  have hk' : k < size := List.mem_range.mp hk
  rintro ⟨hle, hlt⟩
  rcases Nat.lt_or_gt_of_ne hj with hji | hij
  · have hslot : (j + 1) * size ≤ i * size := Nat.mul_le_mul_right size hji
    rw [Nat.succ_mul] at hslot
    omega
  · have hslot : (i + 1) * size ≤ j * size := Nat.mul_le_mul_right size hij
    rw [Nat.succ_mul] at hslot
    omega

namespace PipeRing

def elements (r : PipeRing) : List (List UInt8) :=
  Ring.contents r.capacity (slot r.elementSize r.buffer) r.head r.count

structure Valid (size capacity : Nat) (r : PipeRing) : Prop where
  shape : r.elementSize = size ∧ r.capacity = capacity
  head_lt : r.head < capacity
  count_le : r.count ≤ capacity

variable {r : PipeRing} {capacity reserve : Nat} {op : Op}

section

variable (h : r.Valid size capacity)

include h

theorem Valid.push (item : Nat → UInt8) (hwrap : r.count + reserve < 2 ^ 64) :
    (r.pushReserved item reserve).1.Valid size capacity ∧
      ((r.pushReserved item reserve).1.elements, (r.pushReserved item reserve).2) =
        fifo size capacity r.elements (.push item reserve) := by
  obtain ⟨⟨rfl, rfl⟩, hhead, hcount⟩ := h
  have hlength : r.elements.length = r.count := Ring.length_contents
  rw [fifo, hlength, pushReserved, Nat.mod_eq_of_lt hwrap]
  split
  · have hroom : r.count < r.capacity := by omega
    refine ⟨⟨⟨rfl, rfl⟩, hhead, hroom⟩, ?_⟩
    refine congrArg (·, Answer.pushed true) ?_
    refine (Ring.contents_push hroom fun j hj => slot_copyTo_ne hj).trans ?_
    rw [slot_copyTo_self]
    rfl
  · exact ⟨⟨⟨rfl, rfl⟩, hhead, hcount⟩, rfl⟩

theorem Valid.pop :
    r.pop.1.Valid size capacity ∧
      (r.pop.1.elements, r.pop.2) = fifo size capacity r.elements .pop := by
  obtain ⟨⟨rfl, rfl⟩, hhead, hcount⟩ := h
  unfold PipeRing.pop elements
  cases hn : r.count with
  | zero => exact ⟨⟨⟨rfl, rfl⟩, hhead, hcount⟩, by simp [hn, Ring.contents, fifo]⟩
  | succ n =>
    have hroom : n < r.capacity := by omega
    rw [if_neg (Nat.succ_ne_zero n)]
    refine ⟨⟨⟨rfl, rfl⟩, Nat.mod_lt _ (by omega), hroom.le⟩, ?_⟩
    have hsame : ∀ j, j ≠ r.head % r.capacity →
        slot r.elementSize (copyTo r.buffer (r.head * r.elementSize) r.elementSize fun _ => 0) j =
          slot r.elementSize r.buffer j := by
      rw [Nat.mod_eq_of_lt hhead]
      exact fun j hj => slot_copyTo_ne hj
    rw [Ring.contents_pop hroom hsame, Nat.mod_eq_of_lt hhead]
    rfl

theorem Valid.step (hwrap : ∀ item reserve, op = .push item reserve → r.count + reserve < 2 ^ 64) :
    (r.step op).1.Valid size capacity ∧
      ((r.step op).1.elements, (r.step op).2) = fifo size capacity r.elements op := by
  cases op with
  | push item reserve => exact h.push item (hwrap item reserve rfl)
  | pop => exact h.pop

theorem Valid.run {ops : List Op} (hwrap : NoWrap r ops) :
    ((Pipe.run PipeRing.step r ops).1.elements, (Pipe.run PipeRing.step r ops).2) =
      Pipe.run (fifo size capacity) r.elements ops := by
  induction ops generalizing r with
  | nil => rfl
  | cons _ _ ih =>
    obtain ⟨hvalid, hstep⟩ := h.step hwrap.1
    have hrest := ih hvalid hwrap.2
    rw [Pipe.run, Pipe.run, ← hstep, ← hrest]

end

end PipeRing

/-- A ring answers as a bounded queue does, element by element and byte by byte. -/
theorem pipeRing_refines (elementSize : Nat) {capacity : Nat} (hcapacity : 0 < capacity)
    {ops : List Op} (hwrap : NoWrap { elementSize, capacity } ops) :
    (run PipeRing.step { elementSize, capacity } ops).2 =
        (run (fifo elementSize capacity) [] ops).2 ∧
      (run PipeRing.step { elementSize, capacity } ops).1.elements =
        (run (fifo elementSize capacity) [] ops).1 := by
  have hvalid : PipeRing.Valid elementSize capacity { elementSize, capacity } :=
    ⟨⟨rfl, rfl⟩, hcapacity, Nat.zero_le _⟩
  have hrun := hvalid.run hwrap
  exact ⟨congrArg Prod.snd hrun, congrArg Prod.fst hrun⟩

/-- Three elements through a ring of two: the third is refused until one is popped. -/
theorem pipeRing_refines_two :
    let ops : List Op := [.push (fun _ => 7) 0, .push (fun _ => 8) 0, .push (fun _ => 9) 0, .pop,
      .push (fun _ => 9) 0, .pop, .pop]
    (run PipeRing.step { elementSize := 1, capacity := 2 } ops).2 =
      [.pushed true, .pushed true, .pushed false, .popped (some [7]), .pushed true,
        .popped (some [8]), .popped (some [9])] := by
  intro ops
  have hwrap : NoWrap { elementSize := 1, capacity := 2 } ops := by
    simp [ops, NoWrap, PipeRing.step, PipeRing.pushReserved, PipeRing.pop]
  exact (pipeRing_refines 1 Nat.two_pos hwrap).1

end KeysharpInput.Pipe
