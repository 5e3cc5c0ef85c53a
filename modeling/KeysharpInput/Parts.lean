import KeysharpInput.Completions

/-!
The parts of a batch, in order.
Every part of an accepted batch is either handled or still under way: in a lane, in the main
thread's hand, in the queue, or as a member of a transaction. What is handled, followed by what is
under way, is the batch in its order, unless a part was refused; and what was admitted for a request
is what its handled parts leave.
-/

namespace KeysharpInput.Synthesis

open Session (HookType)
open Output (Input OutputState)
open List

def Handling.leaves (input : Option Input) : Handling → List Input
  | .decided (.modify inputs _ _) => inputs
  | .decided .pass | .unchanged => input.toList
  | .decided .block | .refused => []

def Handled.left (batch : List Input) (x : Handled) : List Input :=
  x.handling.leaves batch[x.place]?

structure Balanced (left : List (Nat × Input)) (handled : List Handled)
    (admitted : List Admission) (batch : List Input) : Prop where
  inputs : ∀ p ∈ left, batch[p.1]? = some p.2
  order : (∃ x ∈ handled, x.handling = .refused) ∨
    handled.map (·.place) ++ left.map (·.1) = range batch.length
  admissions : admitted.flatMap (·.inputs) = handled.flatMap (Handled.left batch)

section Accounts

variable {left parts : List (Nat × Input)} {handled hs : List Handled}
  {admitted adm : List Admission} {batch : List Input}

theorem balanced_new (batch : List Input) :
    Balanced (batch.mapIdx fun place input => (place, input)) [] [] batch where
  inputs p hp := by
    obtain ⟨_, hplace, rfl⟩ := mem_mapIdx.mp hp
    exact getElem?_eq_getElem hplace
  order := .inr (by
    apply ext_getElem
    · simp
    · intro _ _ _
      simp)
  admissions := rfl

theorem Balanced.settle (h : Balanced (parts ++ left) handled admitted batch)
    (hplaces : hs.map (·.place) = parts.map (·.1))
    (hadm : adm.flatMap (·.inputs) = hs.flatMap (Handled.left batch)) :
    Balanced left (handled ++ hs) (admitted ++ adm) batch where
  inputs p hp := h.inputs p (mem_append_right _ hp)
  order := by
    rcases h.order with ⟨x, hx, hrefused⟩ | horder
    · exact .inl ⟨x, mem_append_left _ hx, hrefused⟩
    · refine .inr ?_
      rw [map_append, hplaces, append_assoc, ← map_append]
      exact horder
  admissions := by rw [flatMap_append, flatMap_append, h.admissions, hadm]

end Accounts

def QueueItem.fragment? : QueueItem → Option Fragment
  | .fragment f => some f
  | .release _ => none

def LaneEvent.fragment? : LaneEvent → Option Fragment
  | .synthetic f _ _ => some f
  | .physical => none

def Lane.fragments (lane : Lane) : List Fragment :=
  (lane.running.toList ++ lane.queue).filterMap LaneEvent.fragment?

def Fragment.part (f : Fragment) : Nat × Input := (f.place, f.input)

def Member.part (m : Member) : Nat × Input := (m.place, m.input)

namespace System

variable {s t u : System} {r : Nat} {generation : Nat}

def inLanes (s : System) : List Fragment :=
  (s.lanes .keyboard).fragments ++ (s.lanes .mouse).fragments

def waitingFragments (s : System) : List Fragment :=
  (s.hand.toList ++ s.queue).filterMap QueueItem.fragment?

def underWay (s : System) : List Fragment := s.inLanes ++ s.waitingFragments

def left (s : System) (r : Nat) : List (Nat × Input) :=
  (s.underWay.filter (·.request == r)).map Fragment.part ++
    (s.nested.filter (·.request == r)).flatMap fun tr => tr.members.map Member.part

def handledOf (s : System) (r : Nat) : List Handled := s.handled.filter (·.request == r)

def admittedOf (s : System) (r : Nat) : List Admission := s.admitted.filter (·.request == r)

def ofRequest (s : System) (r : Nat) : List Transaction := s.nested.filter (·.request == r)

def traces (s : System) : System :=
  { s with
    requests := [], syntheticInflight := false, physicalHookInflight := 0
    activeSyntheticTransactions := 0, acks := [], output := {}, replies := [], invalidated := []
    zeroed := [], dispatched := [], batches := [] }

def Silent (s t : System) : Prop :=
  t.traces = s.traces ∧ t.requests.length = s.requests.length ∧
    t.output.inputGeneration = s.output.inputGeneration

theorem Silent.field {α : Type} (h : Silent s t) (f : System → α) : f t.traces = f s.traces :=
  congrArg f h.1

theorem Silent.trans (hst : Silent s t) (htu : Silent t u) : Silent s u :=
  ⟨htu.1.trans hst.1, htu.2.1.trans hst.2.1, htu.2.2.trans hst.2.2⟩

theorem silent_finish (r : Nat) (failure : Option Failure) : Silent s (s.finish r failure) :=
  ⟨rfl, length_modify .., rfl⟩

theorem silent_beginAtomic (r : Nat) : Silent s (s.beginAtomic r) := by
  unfold System.beginAtomic
  split
  · exact ⟨rfl, length_modify .., rfl⟩
  · exact ⟨rfl, rfl, rfl⟩

theorem silent_reply (r stream : Nat) (status : Option Failure) (sent : Bool) :
    Silent s (s.reply r stream status sent) := by
  unfold System.reply
  split <;> exact ⟨rfl, rfl, rfl⟩

def besideOutput (s : System) : System :=
  { s with output := {}, dispatched := [], admitted := [], refusals := [] }

structure Emits (s t : System) (r : Nat) (out : List Input) (refused : Prop) : Prop where
  beside : t.besideOutput = s.besideOutput
  generation : t.output.inputGeneration = s.output.inputGeneration
  refusals : ∀ r' ∈ s.refusals, r' ∈ t.refusals
  admitted : ∃ adm, t.admitted = s.admitted ++ adm ∧ (∀ a ∈ adm, a.request = r) ∧
    adm.flatMap (·.inputs) = out
  remembered : refused → r ∈ t.refusals

section Emits

variable {out out' : List Input} {refused refused' : Prop}

theorem Emits.field {α : Type} (h : Emits s t r out refused) (f : System → α) :
    f t.besideOutput = f s.besideOutput :=
  congrArg f h.beside

theorem Emits.trans (hst : Emits s t r out refused) (htu : Emits t u r out' refused') :
    Emits s u r (out ++ out') refused' := by
  obtain ⟨adm, hadm, hof, rfl⟩ := hst.admitted
  obtain ⟨adm', hadm', hof', rfl⟩ := htu.admitted
  refine ⟨htu.beside.trans hst.beside, htu.generation.trans hst.generation,
    fun r' hr' => htu.refusals r' (hst.refusals r' hr'), ⟨adm ++ adm', ?_, ?_, ?_⟩,
    htu.remembered⟩
  · rw [hadm', hadm, append_assoc]
  · intro a ha
    rcases mem_append.mp ha with ha | ha
    · exact hof a ha
    · exact hof' a ha
  · exact flatMap_append

theorem Emits.imp (h : Emits s t r out refused) (himp : refused' → refused) :
    Emits s t r out refused' :=
  { h with remembered := fun hrefused => h.remembered (himp hrefused) }

theorem Emits.of_eq (h : Emits s t r out refused) (heq : out' = out) :
    Emits s t r out' refused := by
  rw [heq]
  exact h

theorem emits_nothing (s : System) (r : Nat) (hnot : ¬ refused) : Emits s s r [] refused :=
  ⟨rfl, rfl, fun _ h => h, ⟨[], by simp, nofun, rfl⟩, fun h => absurd h hnot⟩

end Emits

theorem emits_push (r : Nat) (inputs : List Input) (flags : Output.SynthFlags)
    (owner : Output.SynthOwner) (flushed : Bool) (hcurrent : s.isStale generation = false) :
    Emits s (s.push r inputs flags generation owner flushed).2 r
      (if (s.push r inputs flags generation owner flushed).1 then inputs else [])
      ((s.push r inputs flags generation owner flushed).1 = false ∧ owner.hookType = 0) := by
  have hgeneration := inputGeneration_pushOwnedSynth s.output inputs flags generation owner flushed
  rcases hpush : s.output.pushOwnedSynth inputs flags generation owner flushed with ⟨ok, _⟩
  rw [hpush] at hgeneration
  unfold push
  rw [hpush]
  cases ok with
  | false =>
    refine ⟨rfl, hgeneration, fun r' hr' => ?_, ⟨[], by simp, nofun, rfl⟩, ?_⟩
    · dsimp only
      split
      · exact hr'
      · exact mem_cons_of_mem _ hr'
    · rintro ⟨-, howner⟩
      simp [howner]
  | true =>
    refine ⟨rfl, hgeneration, fun r' hr' => hr', ⟨[⟨r, inputs, owner⟩], ?_, ?_, ?_⟩,
      fun h => nomatch h.1⟩
    · simp [hcurrent]
    · intro a ha
      rw [mem_singleton.mp ha]
    · simp

theorem emits_pushInput (r : Nat) (input : Input) (batchStart : Bool) (connectionId : Nat)
    (hcurrent : s.isStale generation = false) :
    Emits s (s.pushInput r input batchStart generation connectionId).2 r
      (Handling.leaves (some input) (if (s.pushInput r input batchStart generation connectionId).1
        then .unchanged else .refused))
      ((if (s.pushInput r input batchStart generation connectionId).1 then Handling.unchanged
        else .refused) = .refused) := by
  have hpush := emits_push r [input] { fragment := true, batchStart := batchStart }
    { connectionId := connectionId } false hcurrent
  unfold pushInput
  cases hok : (s.push r [input] { fragment := true, batchStart := batchStart } generation
    { connectionId := connectionId } false).1 with
  | false =>
    rw [hok] at hpush
    exact hpush.imp fun _ => ⟨rfl, rfl⟩
  | true =>
    rw [hok] at hpush
    exact hpush.imp nofun

theorem isStale_push (r : Nat) (inputs : List Input) (flags : Output.SynthFlags)
    (generation : Nat) (owner : Output.SynthOwner) (flushed : Bool) (generation' : Nat) :
    (s.push r inputs flags generation owner flushed).2.isStale generation' =
      s.isStale generation' := by
  show (s.output.pushOwnedSynth inputs flags generation owner flushed).2.isStale generation' = _
  unfold Output.OutputState.isStale
  rw [inputGeneration_pushOwnedSynth]
  rfl

/-- What `lane_emit_output` admits is what its handling leaves. -/
theorem emits_emitOutput (r : Nat) (input : Input) (batchStart : Bool) (connectionId : Nat)
    (hookType : HookType) (outcome : Outcome) (hcurrent : s.isStale generation = false) :
    Emits s (s.emitOutput r input batchStart generation connectionId hookType outcome).2 r
      ((s.emitOutput r input batchStart generation connectionId hookType outcome).1.leaves
        (some input))
      ((s.emitOutput r input batchStart generation connectionId hookType outcome).1 =
        .refused) := by
  have hnothing := emits_nothing s r (show ¬ Handling.decided .block = .refused by simp)
  cases outcome with
  | block => exact hnothing
  | pass => exact emits_pushInput r input batchStart connectionId hcurrent
  | modify inputs responder flushed =>
    simp only [emitOutput]
    split
    · exact hnothing
    have hpush := emits_push r inputs { fragment := true }
      { connectionId := responder, hookType := hookTypeValue hookType } flushed hcurrent
    split
    · rename_i hok
      rw [hok] at hpush
      exact hpush.imp (by simp)
    rename_i hok
    rw [Bool.not_eq_true] at hok
    rw [hok] at hpush
    rw [← isStale_push r inputs { fragment := true } generation
      { connectionId := responder, hookType := hookTypeValue hookType } flushed] at hcurrent
    exact hpush.trans (emits_pushInput r input batchStart connectionId hcurrent)

end System

end KeysharpInput.Synthesis
