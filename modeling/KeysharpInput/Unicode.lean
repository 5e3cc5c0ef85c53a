import KeysharpInput.SynthWrites
import KeysharpInput.Synthesis

/-!
Text that is synthesized as UTF-16 units.
A unit comes with an input of its own, and a batch that hooks see is written one input at a time,
so a surrogate pair may be spread over two actions of the output queue. The high half waits in the
backend meanwhile, in one place for all batches. As long as nothing that touches this place falls
between the actions of one batch, what is typed for the batch depends on its units alone.
-/

namespace KeysharpInput.Output

open Function Transition List Nat Bool

def readUnit (pending unit : Nat) : Nat × Option Nat :=
  if 0xd800 ≤ unit ∧ unit ≤ 0xdbff then (unit, none)
  else if 0xdc00 ≤ unit ∧ unit ≤ 0xdfff then
    (0, if pending < 0xd800 ∨ 0xdbff < pending then none
      else some (0x10000 + ((pending - 0xd800) * 2 ^ 10 + (unit - 0xdc00))))
  else (0, some unit)

def readUnits (pending : Nat) : List Nat → Nat × List Nat
  | [] => (pending, [])
  | unit :: units =>
    let (pending, codepoint) := readUnit pending unit
    let (pending, codepoints) := readUnits pending units
    (pending, codepoint.toList ++ codepoints)

theorem readUnits_append (pending : Nat) (units units' : List Nat) :
    readUnits pending (units ++ units') = ((readUnits (readUnits pending units).1 units').1,
        (readUnits pending units).2 ++ (readUnits (readUnits pending units).1 units').2) := by
  induction units generalizing pending with
  | nil => rfl
  | cons _ _ ih => simp [readUnits, ih]

def Input.unit : Input → Option Nat
  | .keyboard input => if .unicode ∈ input.flags ∧ .up ∉ input.flags then some input.scan else none
  | .mouse _ => none

def unitsOf (inputs : List Input) : List Nat := inputs.filterMap Input.unit

namespace Backend

variable (b : Backend)

@[simp] theorem pending_setHolds (view : View) (holds : SynthHolds) :
    (b.setHolds view holds).pendingHighSurrogate = b.pendingHighSurrogate := rfl

@[simp] theorem pending_applyKey (view : View) (code : Code) (down restore : Bool)
    (owner : SynthOwner) : (b.applyKey view code down restore owner).2.pendingHighSurrogate =
      b.pendingHighSurrogate := congrArg Prod.fst (fixed_applyKey ..)

@[simp] theorem pending_updateGenericKey (code : Code) :
    (b.updateGenericKey code).2.pendingHighSurrogate = b.pendingHighSurrogate :=
  congrArg Prod.fst ((fixed_keyRule b {}).updateGenericKey rfl code)

@[simp] theorem pending_sendKeyCode (keyCode : Code) (down : Bool) (owner : SynthOwner) :
    (b.sendKeyCode keyCode down owner).2.pendingHighSurrogate = b.pendingHighSurrogate :=
  congrArg Prod.fst ((fixed_keyRule b owner).sendKeyCode rfl keyCode nofun)

@[simp] theorem pending_sendUnicodeInput (codepoint : Nat) :
    (b.sendUnicodeInput codepoint).2.pendingHighSurrogate = b.pendingHighSurrogate :=
  congrArg Prod.fst ((fixed_keyRule b {}).entries.sendUnicodeInput rfl codepoint)

@[simp] theorem pending_sendMouseInput (input : MouseInput) (moved : Bool) (owner : SynthOwner) :
    (b.sendMouseInput input moved owner).2.pendingHighSurrogate = b.pendingHighSurrogate := by
  have hrule : MouseRule (·.pendingHighSurrogate = b.pendingHighSurrogate) owner true :=
    { emit := fun h _ _ _ => (congrArg Prod.fst (fixed_emitEventTo ..)).trans h
      wheels := fun h _ _ => h
      routeMouseButton := fun {c} h button _ moved active reports _ _ => (congrArg Prod.fst
        ((fixed_keyRule c owner).routeMouseButton rfl button moved active reports nofun)).trans h }
  exact hrule.sendMouseInput rfl input moved nofun

theorem pending_foldl_update (b : Backend) (codes : List Code) :
    (codes.foldl (fun b code => (b.updateGenericKey code).2) b).pendingHighSurrogate =
      b.pendingHighSurrogate := by
  induction codes generalizing b with
  | nil => rfl
  | cons _ _ ih => rw [foldl_cons, ih, pending_updateGenericKey]

@[simp] theorem pending_releaseFor (view : View) (released : KeyBits) :
    (b.releaseFor view released).pendingHighSurrogate = b.pendingHighSurrogate := by
  cases view with
  | applied => exact pending_foldl_update b _
  | enqueued => rfl

@[simp] theorem pending_releaseOwner (filter : SynthOwner) (view : View) :
    (b.releaseOwner filter view).pendingHighSurrogate = b.pendingHighSurrogate :=
  pending_releaseFor _ _ _

@[simp] theorem pending_physicalRelease (packet : ForwardPacket) (view : View) :
    (b.physicalRelease packet view).pendingHighSurrogate = b.pendingHighSurrogate := by
  unfold physicalRelease
  split
  · rfl
  · exact pending_releaseFor _ _ _

@[simp] theorem pending_maintainOutput (now : Nat) :
    (b.maintainOutput now).pendingHighSurrogate = b.pendingHighSurrogate := by
  unfold maintainOutput
  dsimp only
  split
  · rfl
  · exact pending_foldl_update _ _

@[simp] theorem pending_releaseAll :
    b.releaseAll.pendingHighSurrogate = b.pendingHighSurrogate := by
  unfold releaseAll
  rw [pending_foldl_update, pending_setHolds]

@[simp] theorem pending_recreate (opens absOpens : Bool) :
    (b.recreate opens absOpens).pendingHighSurrogate = b.pendingHighSurrogate := by
  unfold recreate
  split <;> simp

@[simp] theorem pending_noteEnqueuedSynth (inputs : List Input) (owner : SynthOwner) :
    (b.noteEnqueuedSynth inputs owner).pendingHighSurrogate = b.pendingHighSurrogate := by
  have hrule : NoteRule (·.pendingHighSurrogate = b.pendingHighSurrogate) owner true :=
    ⟨fun h _ _ _ _ => (pending_applyKey ..).trans h⟩
  exact hrule.noteEnqueuedSynth nofun rfl inputs

theorem sendUnicodeUtf16Unit_eq (unit : Nat) :
    b.sendUnicodeUtf16Unit unit = match readUnit b.pendingHighSurrogate unit with
      | (pending, some codepoint) =>
        { b with pendingHighSurrogate := pending }.sendUnicodeInput codepoint
      | (pending, none) =>
        (decide (0xd800 ≤ unit ∧ unit ≤ 0xdbff), { b with pendingHighSurrogate := pending }) := by
  unfold sendUnicodeUtf16Unit readUnit
  split
  · rename_i hhigh
    simp [hhigh]
  rename_i hhigh
  split
  · dsimp only
    split
    · simp [hhigh]
    · rfl
  · rfl

/-- The code points that `sendOne` types. -/
def typedOne (dead : Bool) (input : Input) : List Nat :=
  match (playable dead input).bind Input.unit with
  | some unit => (readUnit b.pendingHighSurrogate unit).2.toList
  | none => []

def typedAll (dead : Bool) (owner : SynthOwner) (acc : Bool × Bool × Backend) :
    List Input → List Nat
  | [] => []
  | input :: inputs =>
    acc.2.2.typedOne dead input ++ typedAll dead owner (sendOne dead owner acc input) inputs

def resets (flags : SynthFlags) : Bool := !flags.fragment || flags.batchStart

def prepared (flags : SynthFlags) : Backend :=
  if resets flags then { b with pendingHighSurrogate := 0 } else b

def played (flags : SynthFlags) (owner : SynthOwner) (inputs : List Input) :
    Bool × Bool × Backend :=
  inputs.foldl (sendOne ((b.prepared flags).ownerIsDead owner .applied) owner)
    (false, false, b.prepared flags)

theorem sendInput_played (inputs : List Input) (flags : SynthFlags) (owner : SynthOwner)
    (hopen : b.uinputFd = true) :
    (b.sendInput inputs flags owner).2 = (b.played flags owner inputs).2.2 := by
  unfold sendInput
  rw [if_neg (by simp [hopen])]
  rfl

/-- The code points that `sendInput` types. -/
def typed (inputs : List Input) (flags : SynthFlags) (owner : SynthOwner) : List Nat :=
  if !b.uinputFd then []
  else typedAll ((b.prepared flags).ownerIsDead owner .applied) owner
    (false, false, b.prepared flags) inputs

/-- A unit that is played is read, and the code points that it completes are typed: these are the
calls that `sendUnicodeInput` gets from an input. -/
theorem sendOne_unit (dead : Bool) (owner : SynthOwner) (acc : Bool × Bool × Backend)
    {input : Input} {unit : Nat} (hunit : (playable dead input).bind Input.unit = some unit) :
    (sendOne dead owner acc input).2.2 = (acc.2.2.typedOne dead input).foldl
      (fun b codepoint => (b.sendUnicodeInput codepoint).2)
      { acc.2.2 with pendingHighSurrogate := (readUnit acc.2.2.pendingHighSurrogate unit).1 } := by
  obtain ⟨record, hrecord, hread⟩ := Option.bind_eq_some_iff.mp hunit
  obtain ⟨_, _, b⟩ := acc
  unfold typedOne sendOne
  rw [hunit, hrecord]
  cases record with
  | mouse => cases hread
  | keyboard record =>
    obtain ⟨⟨hunicode, hup⟩, rfl⟩ : (.unicode ∈ record.flags ∧ .up ∉ record.flags) ∧
        record.scan = unit := by simpa [Input.unit] using hread
    dsimp only
    rw [sendKeyboardInput, if_pos hunicode, if_neg hup, sendUnicodeUtf16Unit_eq]
    cases hread : readUnit b.pendingHighSurrogate record.scan with
    | mk pending codepoint => cases codepoint <;> rfl

theorem pending_sendOne (owner : SynthOwner) (acc : Bool × Bool × Backend) (input : Input) :
    (sendOne false owner acc input).2.2.pendingHighSurrogate =
      (readUnits acc.2.2.pendingHighSurrogate input.unit.toList).1 := by
  cases hunit : input.unit with
  | some unit =>
    have hbind : (playable false input).bind Input.unit = some unit := hunit
    rw [sendOne_unit false owner acc hbind, typedOne, hbind]
    cases hread : readUnit acc.2.2.pendingHighSurrogate unit with
    | mk pending codepoint => cases codepoint <;> simp [readUnits, hread]
  | none =>
    obtain ⟨_, _, b⟩ := acc
    cases input with
    | keyboard input =>
      show (b.sendKeyboardInput input owner).2.pendingHighSurrogate = _
      unfold sendKeyboardInput
      split
      · rename_i hunicode
        rw [if_pos (by simpa [Input.unit, hunicode] using hunit)]
        rfl
      · split
        · rfl
        · exact pending_sendKeyCode b _ _ _
    | mouse input => exact pending_sendMouseInput b input _ owner

theorem typedOne_eq (input : Input) :
    b.typedOne false input = (readUnits b.pendingHighSurrogate input.unit.toList).2 := by
  have hplayable : playable false input = some input := rfl
  unfold typedOne
  rw [hplayable, Option.bind_some]
  cases input.unit with
  | none => rfl
  | some => simp [readUnits]

/-- What a live batch types, and what it leaves waiting, depends on what waits before it and on
its units. -/
theorem sendAll_eq (owner : SynthOwner) (acc : Bool × Bool × Backend) (inputs : List Input) :
    ((inputs.foldl (sendOne false owner) acc).2.2.pendingHighSurrogate,
      typedAll false owner acc inputs) =
      readUnits acc.2.2.pendingHighSurrogate (unitsOf inputs) := by
  induction inputs generalizing acc with
  | nil => rfl
  | cons input inputs ih =>
    have hunits : unitsOf (input :: inputs) = input.unit.toList ++ unitsOf inputs := by
      cases hunit : input.unit <;> simp [unitsOf, hunit]
    obtain ⟨hpending, htyped⟩ := Prod.mk.inj (ih (sendOne false owner acc input))
    rw [hunits, readUnits_append, ← pending_sendOne owner acc input, ← typedOne_eq, ← hpending,
      ← htyped]
    rfl

def waiting (flags : SynthFlags) : Nat := if resets flags then 0 else b.pendingHighSurrogate

theorem pending_prepared (flags : SynthFlags) :
    (b.prepared flags).pendingHighSurrogate = b.waiting flags := by
  unfold prepared waiting
  split <;> rfl

theorem ownerIsDead_prepared (flags : SynthFlags) (owner : SynthOwner) (view : View) :
    (b.prepared flags).ownerIsDead owner view = b.ownerIsDead owner view := by
  unfold prepared
  split <;> rfl

theorem sendInput_eq (inputs : List Input) (flags : SynthFlags) {owner : SynthOwner}
    (hopen : b.uinputFd = true) (hlive : b.ownerIsDead owner .applied = false) :
    ((b.sendInput inputs flags owner).2.pendingHighSurrogate, b.typed inputs flags owner) =
      readUnits (b.waiting flags) (unitsOf inputs) := by
  have htyped : b.typed inputs flags owner =
      typedAll ((b.prepared flags).ownerIsDead owner .applied) owner
        (false, false, b.prepared flags) inputs := by
    unfold typed
    rw [if_neg (by simp [hopen])]
  rw [b.sendInput_played inputs flags owner hopen, played, htyped, ownerIsDead_prepared, hlive,
    ← pending_prepared]
  exact sendAll_eq owner _ inputs

end Backend

/-- The output queue with the batch that each queued action is part of. History: the batch whose
action touched what waits last, and for each batch the units written and the code points typed. -/
structure TextQueue where
  output : OutputState
  labels : List Nat := []
  last : Option Nat := none
  given : Nat → List Nat := fun _ => []
  typed : Nat → List Nat := fun _ => []

namespace TextQueue

variable (q : TextQueue)

def touches (inputs : List Input) (flags : SynthFlags) : Bool :=
  Backend.resets flags || unitsOf inputs ≠ []

def written (label : Nat) (entry : QueuedAction) : TextQueue :=
  match entry.action with
  | .synth inputs flags owner =>
    if q.output.isStale entry.inputGeneration then q
    else { q with
      last := if touches inputs flags then some label else q.last
      given := update q.given label (q.given label ++ unitsOf inputs)
      typed := update q.typed label
        (q.typed label ++ q.output.backend.typed inputs flags owner) }
  | _ => q

def step (x : OutputEvent × Nat) : Option TextQueue :=
  (q.output.step x.1).map fun output =>
    match x.1 with
    | .drain .. =>
      match q.output.queue, q.labels with
      | entry :: _, label :: labels =>
        { q.written label entry with output := output, labels := labels }
      | _, labels => { q with output := output, labels := labels }
    | .discardStale generation =>
      { q with
        output := output
        labels := ((q.output.queue.zip q.labels).filter fun x =>
          x.1.inputGeneration == 0 || x.1.inputGeneration == generation).map Prod.snd }
    | _ =>
      { q with
        output := output
        labels := q.labels ++ replicate (output.queue.length - q.output.queue.length) x.2 }

/-- An action that goes on with what waits finds there what its own batch left, or nothing if the
batch begins with it. -/
def ownPairs (x : OutputEvent × Nat) : Bool :=
  match x.1, q.output.queue, q.labels with
  | .drain .., ⟨.synth inputs flags owner, generation⟩ :: _, label :: _ =>
    q.output.isStale generation ||
      (q.output.backend.uinputFd && !q.output.backend.ownerIsDead owner .applied &&
        (!touches inputs flags || if Backend.resets flags then (q.given label).isEmpty
          else q.last == some label ||
            ((q.given label).isEmpty && q.output.backend.pendingHighSurrogate == 0)))
  | _, _, _ => true

structure Paired (q : TextQueue) : Prop where
  labels : q.labels.length = q.output.queue.length
  typed : ∀ r, q.typed r = (readUnits 0 (q.given r)).2
  waiting : ∀ r, q.last = some r →
    q.output.backend.pendingHighSurrogate = (readUnits 0 (q.given r)).1

end TextQueue

namespace OutputState

variable {s t : OutputState}

structure Admits (s t : OutputState) : Prop where
  pending : t.backend.pendingHighSurrogate = s.backend.pendingHighSurrogate
  queue : s.queue.length ≤ t.queue.length

theorem Admits.refl (s : OutputState) : Admits s s := ⟨rfl, le_refl _⟩

theorem admits_of_append {entry : QueuedAction}
    (hpending : t.backend.pendingHighSurrogate = s.backend.pendingHighSurrogate)
    (hqueue : t.queue = s.queue ++ [entry]) : Admits s t :=
  ⟨hpending, by simp [hqueue]⟩

theorem Admits.trans {u : OutputState} (h : Admits s t) (h' : Admits t u) : Admits s u :=
  ⟨h'.pending.trans h.pending, le_trans h.queue h'.queue⟩

theorem admits_pushPacket (s : OutputState) (sourceState : Bool) (packet : ForwardPacket)
    (generation : Nat) : Admits s (s.pushPacket sourceState packet generation).2 := by
  unfold pushPacket
  dsimp only
  generalize s.isFull _ = full
  split_ifs
  · exact .refl s
  · exact .refl s
  · exact .refl s
  · exact .refl s
  · exact admits_of_append rfl rfl
  · exact admits_of_append (Backend.pending_physicalRelease _ _ _) rfl

theorem admits_pushOwnedSynth (s : OutputState) (inputs : List Input) (flags : SynthFlags)
    (generation : Nat) (owner : SynthOwner) (flushed : Bool) :
    Admits s (s.pushOwnedSynth inputs flags generation owner flushed).2 := by
  have hnote : Admits s (s.admitAction (.synth inputs flags owner) generation
      (·.noteEnqueuedSynth inputs owner)) :=
    admits_of_append (Backend.pending_noteEnqueuedSynth _ _ _) rfl
  unfold pushOwnedSynth
  dsimp only
  generalize (flushed || _ || _ || _) = refused
  split_ifs
  · exact .refl s
  · exact .refl s
  · exact .refl s
  · exact hnote.trans (admits_of_append (Backend.pending_releaseOwner _ _ _) rfl)
  · exact hnote

theorem admits_step {e : OutputEvent} (h : s.step e = some t)
    (hdrain : ∀ now opens absOpens, e ≠ .drain now opens absOpens)
    (hdiscard : ∀ generation, e ≠ .discardStale generation) : Admits s t := by
  cases e with
  | pushPacket sourceState packet generation =>
    cases h
    exact admits_pushPacket s sourceState packet generation
  | pushOwnedSynth inputs flags generation owner flushed =>
    cases h
    exact admits_pushOwnedSynth s inputs flags generation owner flushed
  | pushReleaseOwner =>
    cases h
    unfold pushReleaseOwner
    split
    · exact .refl s
    split
    · exact .refl s
    · exact admits_of_append (Backend.pending_releaseOwner _ _ _) rfl
  | pushReleaseAll =>
    cases h
    unfold pushReleaseAll
    split
    · exact .refl s
    · exact admits_of_append rfl rfl
  | pushReleaseGeneric =>
    cases h
    unfold pushReleaseGeneric
    split
    · exact .refl s
    · exact admits_of_append rfl rfl
  | pushRecreateSynth =>
    cases h
    unfold pushRecreateSynth
    split
    · exact .refl s
    · exact admits_of_append rfl rfl
  | openSource info | syncOwners owners | advanceGeneration =>
    cases h
    exact ⟨rfl, le_refl _⟩
  | pushEndGrab =>
    cases h
    unfold pushEndGrab
    dsimp only
    split
    · exact ⟨rfl, le_refl _⟩
    · exact admits_of_append rfl rfl
  | pushClose =>
    cases h
    unfold pushClose
    split
    · exact ⟨rfl, le_refl _⟩
    · exact admits_of_append rfl rfl
  | discardStale generation => exact absurd rfl (hdiscard generation)
  | drain now opens absOpens => exact absurd rfl (hdrain now opens absOpens)
  | maintain =>
    cases h
    exact ⟨Backend.pending_maintainOutput _ _, le_refl _⟩

theorem pending_applyOutputAction (s : OutputState) (entry : QueuedAction) (now : Nat)
    (opens absOpens : Bool) :
    (s.applyOutputAction entry now opens absOpens).pendingHighSurrogate = match entry.action with
      | .synth inputs flags owner =>
        if s.isStale entry.inputGeneration then s.backend.pendingHighSurrogate
        else (s.backend.sendInput inputs flags owner).2.pendingHighSurrogate
      | _ => s.backend.pendingHighSurrogate := by
  unfold applyOutputAction
  split
  · split <;> rfl
  · unfold writeAction
    cases entry.action <;> simp

end OutputState

namespace TextQueue

variable {q q' : TextQueue}

theorem Paired.admits {output : OutputState} (h : q.Paired)
    (hadmits : q.output.Admits output) (label : Nat) :
    Paired { q with
      output := output
      labels := q.labels ++ replicate (output.queue.length - q.output.queue.length) label } where
  labels := by
    have hlength := h.labels
    have hgrows := hadmits.queue
    simp only [length_append, length_replicate]
    omega
  typed := h.typed
  waiting := fun r hr => hadmits.pending.trans (h.waiting r hr)

theorem Paired.written {inputs : List Input} {flags : SynthFlags} {owner : SynthOwner}
    {backend : Backend} {label : Nat} (h : q.Paired) (hpending : backend.pendingHighSurrogate =
      (q.output.backend.sendInput inputs flags owner).2.pendingHighSurrogate)
    (hopen : q.output.backend.uinputFd = true)
    (hlive : q.output.backend.ownerIsDead owner .applied = false)
    (hwaiting : touches inputs flags = true →
      q.output.backend.waiting flags = (readUnits 0 (q.given label)).1) :
    (∀ r, (update q.typed label
        (q.typed label ++ q.output.backend.typed inputs flags owner)) r =
      (readUnits 0 (update q.given label (q.given label ++ unitsOf inputs) r)).2) ∧
    ∀ r, (if touches inputs flags then some label else q.last) = some r →
      backend.pendingHighSurrogate =
        (readUnits 0 (update q.given label (q.given label ++ unitsOf inputs) r)).1 := by
  obtain ⟨hafter, htyped⟩ := Prod.mk.inj (q.output.backend.sendInput_eq inputs flags hopen
    hlive)
  cases htouches : touches inputs flags with
  | true =>
    have hstart := hwaiting htouches
    refine ⟨fun r => ?_, fun r hr => ?_⟩
    · by_cases hlabel : r = label
      · subst hlabel
        rw [update_self, update_self, h.typed, htyped, hstart, readUnits_append]
      · rw [update_of_ne hlabel, update_of_ne hlabel]
        exact h.typed r
    · cases hr
      rw [update_self, readUnits_append, hpending, hafter, hstart]
  | false =>
    have hunits : unitsOf inputs = [] := by
      by_contra hne
      simp [touches, hne] at htouches
    have hresets : Backend.resets flags = false := by
      simp only [touches, or_eq_false_iff] at htouches
      exact htouches.1
    rw [hunits, readUnits] at hafter htyped
    rw [hunits, htyped, List.append_nil, List.append_nil, update_eq_self, update_eq_self]
    refine ⟨h.typed, fun r hr => ?_⟩
    rw [hpending, hafter]
    rw [Backend.waiting, if_neg (by simp [hresets])]
    exact h.waiting r hr

theorem length_discard (queue : List QueuedAction) (labels : List Nat)
    (h : labels.length = queue.length) (keeps : QueuedAction → Bool) :
    (((queue.zip labels).filter fun x => keeps x.1).map Prod.snd).length =
      (queue.filter keeps).length := by
  induction queue generalizing labels with
  | nil => simp
  | cons _ _ ih =>
    cases labels with
    | nil => simp at h
    | cons _ labels =>
      have htail := ih labels (succ.inj h)
      rw [length_map] at htail ⊢
      rw [zip_cons_cons, filter_cons, filter_cons]
      split
      · rw [length_cons, length_cons, htail]
      · exact htail

theorem Paired.drain {label : Nat} {entry : QueuedAction} {labels : List Nat}
    {queue : List QueuedAction} {now batch : Nat} {opens absOpens : Bool} (h : q.Paired)
    (hguard : q.ownPairs (.drain now opens absOpens, batch) = true)
    (hqueue : q.output.queue = entry :: queue) (hlabels : q.labels = label :: labels) :
    Paired { q.written label entry with
      output := { q.output with
        queue := queue, backend := q.output.applyOutputAction entry now opens absOpens }
      labels := labels } := by
  have hlength : labels.length = queue.length := by
    have hboth := h.labels
    rw [hqueue, hlabels] at hboth
    exact Nat.succ.inj hboth
  have hpending := q.output.pending_applyOutputAction entry now opens absOpens
  obtain ⟨action, _⟩ := entry
  unfold ownPairs at hguard
  rw [hqueue, hlabels] at hguard
  cases action with
  | synth inputs flags owner =>
    dsimp only at hpending hguard
    unfold TextQueue.written
    dsimp only
    split at hpending
    · rename_i hstale
      rw [if_pos hstale]
      exact ⟨hlength, h.typed, fun r hr => hpending.trans (h.waiting r hr)⟩
    rename_i hstale
    rw [if_neg hstale]
    simp only [hstale, Bool.false_or, Bool.and_eq_true, Bool.not_eq_true'] at hguard
    obtain ⟨⟨hopen, hlive⟩, hown⟩ := hguard
    have hbefore : touches inputs flags = true →
        q.output.backend.waiting flags = (readUnits 0 (q.given label)).1 := by
      intro htouches
      rw [htouches] at hown
      cases hresets : Backend.resets flags with
      | true =>
        simp only [hresets, Bool.not_true, Bool.false_or, if_true, List.isEmpty_iff] at hown
        rw [Backend.waiting, if_pos hresets, hown, readUnits]
      | false =>
        rw [Backend.waiting, if_neg (by simp [hresets])]
        simp only [hresets, Bool.not_true, Bool.false_or, Bool.false_eq_true, if_false,
          Bool.or_eq_true, Bool.and_eq_true, beq_iff_eq, List.isEmpty_iff] at hown
        obtain hlast | ⟨hnew, hzero⟩ := hown
        · exact h.waiting label hlast
        · rw [hnew, hzero, readUnits]
    obtain ⟨htyped, hwaiting⟩ := h.written hpending hopen hlive hbefore
    exact ⟨hlength, htyped, hwaiting⟩
  | replay | sourceState | releaseSynthOwner | releaseAll | releaseGeneric | recreateSynth
  | endGrab | closeSource => exact ⟨hlength, h.typed, fun r hr => hpending.trans (h.waiting r hr)⟩

theorem Paired.step {x : OutputEvent × Nat} (h : q.Paired) (hguard : q.ownPairs x = true)
    (hstep : q.step x = some q') : q'.Paired := by
  obtain ⟨e, batch⟩ := x
  obtain ⟨_, houtput, rfl⟩ := Option.map_eq_some_iff.mp hstep
  dsimp only at houtput ⊢
  split
  · unfold OutputState.step at houtput
    dsimp only at houtput
    split at houtput
    · cases houtput
    rename_i entry _ hqueue
    cases houtput
    cases hlabels : q.labels with
    | nil =>
      have hlength := h.labels
      rw [hqueue, hlabels] at hlength
      cases hlength
    | cons =>
      rw [hqueue]
      exact h.drain hguard hqueue hlabels
  · rename_i generation
    cases houtput
    refine ⟨length_discard q.output.queue q.labels h.labels fun entry =>
      entry.inputGeneration == 0 || entry.inputGeneration == generation, h.typed, h.waiting⟩
  · rename_i hdrain hdiscard
    exact h.admits (OutputState.admits_step houtput hdrain hdiscard) batch

end TextQueue

def textStart (outcome : Nat → Option Nat) (absOpens : Bool) : TextQueue :=
  { output := OutputState.start outcome absOpens }

/-- As long as every action that goes on with a surrogate finds the one of its own batch, the code
points typed for a batch are those of its own units. -/
theorem text_of_own_units {outcome : Nat → Option Nat} {absOpens : Bool} {q : TextQueue}
    (h : Reaches TextQueue.step (fun q x => q.ownPairs x = true) (textStart outcome absOpens) q)
    (batch : Nat) : q.typed batch = (readUnits 0 (q.given batch)).2 := by
  have hpaired : q.Paired := by
    refine h.invariant ⟨rfl, fun _ => rfl, ?_⟩
      fun _ _ _ hq hguard hstep => hq.step hguard hstep
    exact fun r hr => by cases hr
  exact hpaired.typed batch

def textInput (unit : Nat) : Input := .keyboard { scan := unit, flags := {.unicode} }

def unitAction (units : List Nat) (flags : SynthFlags) (connectionId : Nat) : OutputEvent :=
  .pushOwnedSynth (units.map textInput) flags 1 { connectionId := connectionId } false

def pairRun : List (OutputEvent × Nat) :=
  [(.syncOwners [⟨1, []⟩, ⟨2, []⟩], 0),
    (unitAction [0xd83d] { fragment := true, batchStart := true } 1, 1),
    (unitAction [0xde00] { fragment := true } 1, 1), (.drain 0 true true, 0),
    (.drain 0 true true, 0)]

theorem text_of_own_units_pair : ∃ q,
    Reaches TextQueue.step (fun q x => q.ownPairs x = true) (textStart (fun _ => none) true) q ∧
      q.given 1 = [0xd83d, 0xde00] ∧ q.typed 1 = [0x1f600] := by
  obtain ⟨q, hq, hgiven⟩ := exists_reaches_of_check TextQueue.step TextQueue.ownPairs
    (textStart (fun _ => none) true) pairRun (q := fun q => q.given 1 = [0xd83d, 0xde00])
    (by decide +kernel) (by decide +kernel)
  refine ⟨q, hq, hgiven, ?_⟩
  rw [text_of_own_units hq 1, hgiven]
  decide

def crossingRequests : List Synthesis.Event :=
  [.output (.syncOwners [⟨1, []⟩, ⟨2, []⟩]),
    .request 1 [textInput 0xd83d, textInput 0xde00] .hooked true true,
    .pop, .handle (.lane .keyboard) false, .take .keyboard, .finish .keyboard .pass,
    .request 2 [textInput 0x78] .direct true true,
    .pop, .handle (.lane .keyboard) false, .take .keyboard, .finish .keyboard .pass]

def crossedActions : List OutputAction :=
  [.synth [textInput 0xd83d] { fragment := true, batchStart := true } { connectionId := 1 },
    .synth [textInput 0x78] {} { connectionId := 2 },
    .synth [textInput 0xde00] { fragment := true } { connectionId := 1 }]

def crossedRun : List (OutputEvent × Nat) :=
  [(.syncOwners [⟨1, []⟩, ⟨2, []⟩], 0),
    (unitAction [0xd83d] { fragment := true, batchStart := true } 1, 1),
    (unitAction [0x78] {} 2, 2), (unitAction [0xde00] { fragment := true } 1, 1),
    (.drain 0 true true, 0), (.drain 0 true true, 0), (.drain 0 true true, 0)]

/-- The two requests put three actions in the queue, and the pair between which the other batch
stands is not typed. -/
theorem direct_batch_breaks_pair : (∃ s, Reaches Synthesis.System.step always {} s ∧
      s.output.queue.map (·.action) = crossedActions) ∧
    ∃ q, Reaches TextQueue.step always (textStart (fun _ => none) true) q ∧
      q.given 1 = [0xd83d, 0xde00] ∧ q.typed 1 = [] ∧ (readUnits 0 (q.given 1)).2 = [0x1f600] := by
  constructor
  · exact exists_reaches _ _ crossingRequests (by decide +kernel)
  obtain ⟨q, hq, hgiven, htyped⟩ := exists_reaches TextQueue.step (textStart (fun _ => none) true)
    crossedRun (q := fun q => q.given 1 = [0xd83d, 0xde00] ∧ q.typed 1 = []) (by decide +kernel)
  refine ⟨q, hq, hgiven, htyped, ?_⟩
  rw [hgiven]
  decide

end KeysharpInput.Output
