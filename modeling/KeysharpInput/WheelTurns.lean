import KeysharpInput.Synth

/-!
Legacy wheel steps.
A high-resolution delta is written together with the whole detents it completes, and what is left of
it waits for the next one. Synthesis keeps one remainder for each wheel, and so does every forwarded
source. Nothing is lost between them: the detents written and the remainder make up the deltas.
-/

namespace KeysharpInput.Output

open List Backend

open Backend (wheelEvents)

variable {remainder : Int} {hiRes legacy : Nat} {e : InputEvent}

/-- The signed values of `w + 1` bits. -/
def Fits (w : Nat) (x : Int) : Prop := -2 ^ w ≤ x ∧ x < 2 ^ w

def turn : Int → List Int → Int × Int
  | remainder, [] => (0, remainder)
  | remainder, delta :: deltas =>
    let rest := turn (wheelSteps delta remainder).2 deltas
    ((wheelSteps delta remainder).1 + rest.1, rest.2)

theorem turn_append (deltas deltas' : List Int) (remainder : Int) :
    turn remainder (deltas ++ deltas') =
      ((turn remainder deltas).1 + (turn (turn remainder deltas).2 deltas').1,
        (turn (turn remainder deltas).2 deltas').2) := by
  induction deltas generalizing remainder with
  | nil => simp [turn]
  | cons _ _ ih => simp [turn, ih, Int.add_assoc]

def axis (code : Nat) (events : List InputEvent) : List Int :=
  (events.filter fun e => e.type == .rel && e.code == code).map (·.value)

theorem axis_append (code : Nat) (events events' : List InputEvent) :
    axis code (events ++ events') = axis code events ++ axis code events' := by
  simp [axis]

/-- One wheel turns by the deltas: they are written as they are, with the steps that they complete
besides steps of another origin, and what remains is kept. -/
def Writes (hiRes legacy : Nat) (before after : Int) (deltas : List Int) (own : Int)
    (out : List InputEvent) : Prop :=
  after = (turn before deltas).2 ∧ axis hiRes out = deltas ∧
    (axis legacy out).sum = own + (turn before deltas).1

theorem Writes.append {before middle after own own' : Int} {deltas deltas' : List Int}
    {out out' : List InputEvent} (h : Writes hiRes legacy before middle deltas own out)
    (h' : Writes hiRes legacy middle after deltas' own' out') :
    Writes hiRes legacy before after (deltas ++ deltas') (own + own') (out ++ out') := by
  obtain ⟨rfl, haxis, hsum⟩ := h
  obtain ⟨rfl, haxis', hsum'⟩ := h'
  unfold Writes
  rw [turn_append, axis_append, axis_append, haxis, haxis', sum_append]
  exact ⟨rfl, rfl, by dsimp only; omega⟩

namespace Backend

def sinkEvents (b : Backend) : List InputEvent :=
  (b.forward.uinput.written.filter (·.device == .sink)).flatMap (·.events)

def Working (b : Backend) : Prop :=
  b.synthWriteFailed = false ∧ ∀ n, b.forward.uinput.outcome n = none

variable {b : Backend}

theorem Working.emitEvents (h : b.Working) (events : List InputEvent) :
    (b.emitEvents .sink events).1 = true ∧ (b.emitEvents .sink events).2.Working ∧
      (b.emitEvents .sink events).2.sinkEvents = b.sinkEvents ++ events ∧
      (b.emitEvents .sink events).2.wheelRemainder = b.wheelRemainder ∧
      (b.emitEvents .sink events).2.horizontalWheelRemainder = b.horizontalWheelRemainder := by
  induction events generalizing b with
  | nil => simp [emitEvents, h]
  | cons e _ ih =>
    have hfirst : (b.emitEventTo .sink e).1 = true ∧ (b.emitEventTo .sink e).2.Working ∧
        (b.emitEventTo .sink e).2.sinkEvents = b.sinkEvents ++ [e] ∧
        (b.emitEventTo .sink e).2.wheelRemainder = b.wheelRemainder ∧
        (b.emitEventTo .sink e).2.horizontalWheelRemainder = b.horizontalWheelRemainder := by
      simp [emitEventTo, Forward.outputWrite, Working, sinkEvents, h.1, h.2]
    obtain ⟨hok, hworking, hsink, hvertical, hhorizontal⟩ := hfirst
    have hrest := ih hworking
    unfold emitEvents
    dsimp only
    rw [if_pos hok]
    rw [hsink, hvertical, hhorizontal] at hrest
    simpa using hrest

def deltas (flag : MouseFlag) (inputs : List MouseInput) : List Int :=
  (inputs.filter (flag ∈ ·.flags)).map fun input => toInt32 input.mouseData

structure Part (vertical horizontal : List Int) (b : Backend) (r : Bool × Backend) : Prop where
  ok : r.1 = true
  working : r.2.Working
  out : ∃ out, r.2.sinkEvents = b.sinkEvents ++ out ∧
    Writes 11 8 b.wheelRemainder r.2.wheelRemainder vertical 0 out ∧
    Writes 12 6 b.horizontalWheelRemainder r.2.horizontalWheelRemainder horizontal 0 out

theorem Part.refl (h : b.Working) : Part [] [] b (true, b) :=
  ⟨rfl, h, [], (append_nil _).symm, ⟨rfl, rfl, rfl⟩, ⟨rfl, rfl, rfl⟩⟩

theorem Part.trans {v v' w w' : List Int} {r r' : Bool × Backend} (h : Part v w b r)
    (h' : Part v' w' r.2 r') : Part (v ++ v') (w ++ w') b r' := by
  obtain ⟨out, hout, hvertical, hhorizontal⟩ := h.out
  obtain ⟨out', hout', hvertical', hhorizontal'⟩ := h'.out
  refine ⟨h'.ok, h'.working, out ++ out', ?_, hvertical.append hvertical',
    hhorizontal.append hhorizontal'⟩
  rw [hout', hout, append_assoc]

end Backend

end KeysharpInput.Output
