import Mathlib

/-!
Frames on a byte stream.
A frame is a header of fixed size and a payload whose size the header gives. The frames of a
stream are found from its front, up to the first header that is not valid or the first frame
that is not complete. A reader that stops anywhere and resumes finds the same frames as long as
it keeps what it has read of the frame in progress.
Nothing in this module speaks about a particular program.
-/

namespace KeysharpInput.Framing

open List Option

variable {β : Type*}

structure Format (β : Type*) where
  headerSize : Nat
  headerSize_pos : 0 < headerSize
  /-- The size of the payload, or none for a header that is not valid. -/
  payloadSize : List β → Option Nat

abbrev Frame (β : Type*) := List β × List β

def Frame.bytes (frame : Frame β) : List β := frame.1 ++ frame.2

namespace Format

variable (fmt : Format β) {frame : Frame β}

def Valid (frame : Frame β) : Prop :=
  frame.1.length = fmt.headerSize ∧ fmt.payloadSize frame.1 = some frame.2.length

def next (bytes : List β) : Option (Frame β × List β) :=
  if bytes.length < fmt.headerSize then none
  else
    let header := bytes.take fmt.headerSize
    let rest := bytes.drop fmt.headerSize
    (fmt.payloadSize header).bind fun size =>
      if rest.length < size then none else some ((header, rest.take size), rest.drop size)

theorem length_of_next {bytes rest : List β} (h : fmt.next bytes = some (frame, rest)) :
    rest.length < bytes.length := by
  unfold next at h
  split at h
  · cases h
  obtain ⟨_, -, h⟩ := bind_eq_some_iff.mp h
  split at h
  · cases h
  obtain ⟨-, rfl⟩ := Prod.mk.inj (some.inj h)
  have hpos := fmt.headerSize_pos
  simp only [length_drop]
  omega

def parse (bytes : List β) : List (Frame β) :=
  match _h : fmt.next bytes with
  | none => []
  | some (frame, rest) => frame :: parse rest
termination_by bytes.length
decreasing_by exact fmt.length_of_next _h

variable {fmt}

theorem next_append (h : fmt.Valid frame) (rest : List β) :
    fmt.next (frame.bytes ++ rest) = some (frame, rest) := by
  obtain ⟨header, payload⟩ := frame
  obtain ⟨hheader, hpayload⟩ := h
  dsimp only at hheader hpayload
  have hlong : ¬ (Frame.bytes (header, payload) ++ rest).length < fmt.headerSize := by
    simp only [Frame.bytes, length_append]
    omega
  unfold next
  rw [Frame.bytes, ← hheader]
  simp [hpayload]

theorem parse_append (h : fmt.Valid frame) (rest : List β) :
    fmt.parse (frame.bytes ++ rest) = frame :: fmt.parse rest := by
  rw [parse]
  split
  · rename_i hnone
    rw [next_append h] at hnone
    cases hnone
  rename_i hsome
  rw [next_append h] at hsome
  obtain ⟨rfl, rfl⟩ := Prod.mk.inj (some.inj hsome)
  rfl

theorem parse_flatMap_append {frames : List (Frame β)} (h : ∀ frame ∈ frames, fmt.Valid frame)
    (rest : List β) :
    fmt.parse (frames.flatMap Frame.bytes ++ rest) = frames ++ fmt.parse rest := by
  induction frames with
  | nil => rfl
  | cons _ _ ih =>
    rw [forall_mem_cons] at h
    rw [flatMap_cons, append_assoc, parse_append h.1, ih h.2, cons_append]

theorem parse_of_invalid {header : List β} (hlength : header.length = fmt.headerSize)
    (hinvalid : fmt.payloadSize header = none) (rest : List β) :
    fmt.parse (header ++ rest) = [] := by
  rw [parse]
  split
  · rfl
  rename_i hsome
  unfold next at hsome
  split at hsome
  · cases hsome
  · rw [← hlength] at hsome
    simp [hinvalid] at hsome

end Format

/-- Where a reader stands in a stream: the frames it has found, what it keeps of the next one
and what it has not read. -/
structure Resumes (fmt : Format β) (total : List β) (found : List (Frame β))
    (header payload rest : List β) : Prop where
  stream : found.flatMap Frame.bytes ++ header ++ payload ++ rest = total
  valid : ∀ frame ∈ found, fmt.Valid frame

namespace Resumes

variable {fmt : Format β} {total header payload rest : List β} {found : List (Frame β)}
  {rest' : List β}

theorem start (fmt : Format β) (total : List β) : Resumes fmt total [] [] [] total :=
  ⟨rfl, fun _ h => absurd h not_mem_nil⟩

theorem readHeader (h : Resumes fmt total found header [] rest) {header' : List β}
    (hread : header' ++ rest' = header ++ rest) : Resumes fmt total found header' [] rest' := by
  refine ⟨?_, h.valid⟩
  rw [← h.stream]
  simp only [append_nil, append_assoc, hread]

section

variable (h : Resumes fmt total found header payload rest)

include h

theorem readPayload {payload' : List β} (hread : payload' ++ rest' = payload ++ rest) :
    Resumes fmt total found header payload' rest' := by
  refine ⟨?_, h.valid⟩
  rw [← h.stream]
  simp only [append_assoc, hread]

theorem complete (hframe : fmt.Valid (header, payload)) :
    Resumes fmt total (found ++ [(header, payload)]) [] [] rest := by
  refine ⟨?_, fun frame hmem => ?_⟩
  · rw [← h.stream]
    simp [Frame.bytes]
  · obtain hold | hnew := mem_append.mp hmem
    · exact h.valid frame hold
    · rwa [mem_singleton.mp hnew]

theorem parse_eq : fmt.parse total = found ++ fmt.parse (header ++ payload ++ rest) := by
  rw [← h.stream, append_assoc, append_assoc, Format.parse_flatMap_append h.valid, append_assoc]

end

end Resumes

inductive Drained (β : Type*)
  | stopped (found : List (Frame β))
  | waiting (found : List (Frame β)) (rest : List β)

def Drained.found : Drained β → List (Frame β)
  | .stopped found => found
  | .waiting found _ => found

namespace Format

variable (fmt : Format β) (accepts : List (Frame β) → Frame β → Bool)

/-- Takes frames from the front of the bytes until one is not complete. A header that is not
valid and a frame that is not accepted stop it. -/
def drain (found : List (Frame β)) (bytes : List β) : Drained β :=
  if _h : bytes.length < fmt.headerSize then .waiting found bytes
  else
    let header := bytes.take fmt.headerSize
    let rest := bytes.drop fmt.headerSize
    match fmt.payloadSize header with
    | none => .stopped found
    | some size =>
      if rest.length < size then .waiting found bytes
      else
        let frame := (header, rest.take size)
        if accepts found frame then drain (found ++ [frame]) (rest.drop size)
        else .stopped (found ++ [frame])
termination_by bytes.length
decreasing_by
  have hpos := fmt.headerSize_pos
  simp only [length_drop]
  omega

variable {fmt accepts} {found found' : List (Frame β)} {bytes rest : List β}

theorem drain_of_short (h : bytes.length < fmt.headerSize) :
    fmt.drain accepts found bytes = .waiting found bytes := by
  rw [drain, dif_pos h]

section

variable (h : ¬ bytes.length < fmt.headerSize)

include h

theorem drain_of_invalid (hsize : fmt.payloadSize (bytes.take fmt.headerSize) = none) :
    fmt.drain accepts found bytes = .stopped found := by
  rw [drain, dif_neg h]
  simp only [hsize]

theorem drain_of_incomplete {size : Nat}
    (hsize : fmt.payloadSize (bytes.take fmt.headerSize) = some size)
    (hshort : (bytes.drop fmt.headerSize).length < size) :
    fmt.drain accepts found bytes = .waiting found bytes := by
  rw [drain, dif_neg h]
  simp only [hsize, if_pos hshort]

theorem drain_of_complete {size : Nat}
    (hsize : fmt.payloadSize (bytes.take fmt.headerSize) = some size)
    (hlong : ¬ (bytes.drop fmt.headerSize).length < size) {frame : Frame β}
    (hframe : frame = (bytes.take fmt.headerSize, (bytes.drop fmt.headerSize).take size)) :
    fmt.drain accepts found bytes = if accepts found frame then
        fmt.drain accepts (found ++ [frame]) ((bytes.drop fmt.headerSize).drop size)
      else .stopped (found ++ [frame]) := by
  subst hframe
  rw [drain, dif_neg h]
  simp only [hsize, if_neg hlong]

end

theorem drain_append (found : List (Frame β)) (bytes more : List β) :
    fmt.drain accepts found (bytes ++ more) = match fmt.drain accepts found bytes with
      | .stopped found => .stopped found
      | .waiting found rest => fmt.drain accepts found (rest ++ more) := by
  induction hn : bytes.length using Nat.strongRecOn generalizing found bytes with
  | ind n ih =>
    by_cases hshort : bytes.length < fmt.headerSize
    · rw [drain_of_short hshort]
    have hlong : ¬ (bytes ++ more).length < fmt.headerSize := by
      rw [length_append]
      omega
    have htake : (bytes ++ more).take fmt.headerSize = bytes.take fmt.headerSize :=
      take_append_of_le_length (by omega)
    have hdrop : (bytes ++ more).drop fmt.headerSize = bytes.drop fmt.headerSize ++ more :=
      drop_append_of_le_length (by omega)
    cases hsize : fmt.payloadSize (bytes.take fmt.headerSize) with
    | none =>
      rw [drain_of_invalid hshort hsize]
      exact drain_of_invalid hlong (by rw [htake, hsize])
    | some size =>
      by_cases hpart : (bytes.drop fmt.headerSize).length < size
      · rw [drain_of_incomplete hshort hsize hpart]
      obtain ⟨frame, hframe⟩ : ∃ frame : Frame β,
          frame = (bytes.take fmt.headerSize, (bytes.drop fmt.headerSize).take size) := ⟨_, rfl⟩
      have hframe' : frame = ((bytes ++ more).take fmt.headerSize,
          ((bytes ++ more).drop fmt.headerSize).take size) := by
        rw [htake, hdrop, take_append_of_le_length (by omega), hframe]
      have hwhole : ¬ ((bytes ++ more).drop fmt.headerSize).length < size := by
        rw [hdrop, length_append]
        omega
      rw [drain_of_complete hshort hsize hpart hframe,
        drain_of_complete hlong (by rw [htake, hsize]) hwhole hframe']
      split
      · rw [hdrop, drop_append_of_le_length (by omega)]
        refine ih _ ?_ _ _ rfl
        have hpos := fmt.headerSize_pos
        simp only [length_drop]
        omega
      · rfl

theorem prefix_found_drain (found : List (Frame β)) (bytes : List β) :
    found <+: (fmt.drain accepts found bytes).found := by
  fun_induction drain fmt accepts found bytes with
  | case1 | case2 | case3 => exact prefix_rfl
  | case4 _ _ _ _ _ _ _ _ _ _ ih => exact (prefix_append _ _).trans ih
  | case5 => exact prefix_append _ _

theorem length_of_drain (bound : Nat)
    (hbound : ∀ header size, fmt.payloadSize header = some size → size ≤ bound)
    (h : fmt.drain accepts found bytes = .waiting found' rest) :
    rest.length < fmt.headerSize + bound := by
  fun_induction drain fmt accepts found bytes with
  | case1 =>
    obtain ⟨-, rfl⟩ := Drained.waiting.inj h
    omega
  | case2 | case5 => cases h
  | case3 _ _ _ _ _ _ hsize hpart =>
    obtain ⟨-, rfl⟩ := Drained.waiting.inj h
    have hle := hbound _ _ hsize
    rw [length_drop] at hpart
    omega
  | case4 _ _ _ _ _ _ _ _ _ _ ih => exact ih h

end Format

end KeysharpInput.Framing
