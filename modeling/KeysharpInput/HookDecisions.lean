import KeysharpInput.ClientWire
import KeysharpInput.Delivery

/-!
Which replies block or modify an event.
A reply is read from its bytes: the status, the decision, the number of inputs and one record for
each. It reaches the lane as Block or Modify only in this form, from the seat's owner with Input
Control, and with every operation that its inputs need. Anything else gives the event at most a
Pass. The bytes that follow a Block are read as inputs too.
-/

namespace KeysharpInput.Reply

open List Function Nat

open Session (HookType)
open Output (Input KeyFlag MouseFlag)
open Client (readU16 readU32 readU64)

def flagsOf {α : Type} [DecidableEq α] (table : List (α × Nat)) (word : Nat) : Finset α :=
  ((table.filter fun entry => word.testBit entry.2).map (·.1)).toFinset

def keyFlagBits : List (KeyFlag × Nat) :=
  [(.extended, 0), (.up, 1), (.unicode, 2), (.scancode, 3)]

def mouseFlagBits : List (MouseFlag × Nat) :=
  [(.move, 0), (.leftDown, 1), (.leftUp, 2), (.rightDown, 3), (.rightUp, 4), (.middleDown, 5),
    (.middleUp, 6), (.xDown, 7), (.xUp, 8), (.wheel, 11), (.horizontalWheel, 12),
    (.moveNoCoalesce, 13), (.virtualDesktop, 14), (.absolute, 15)]

def readI32 (bytes : List Nat) (offset : Nat) : Int :=
  let word := readU32 bytes offset
  if word < 2 ^ 31 then word else word - 2 ^ 32

/-- `ksi_protocol_decode_input`: the reserved fields of a record must be zero. -/
def decodeInput (source : List Nat) : Option Input :=
  if readU32 source 4 ≠ 0 then none
  else if readU32 source 0 = 1 then
    if readU32 source 20 ≠ 0 ∨ readU64 source 32 ≠ 0 then none
    else some (.keyboard
      { vk := readU16 source 8, scan := readU16 source 10
        flags := flagsOf keyFlagBits (readU32 source 12)
        time := readU32 source 16, extraInfo := readU64 source 24 })
  else if readU32 source 0 = 0 then
    if readU32 source 28 ≠ 0 then none
    else some (.mouse
      { dx := readI32 source 8, dy := readI32 source 12, mouseData := readU32 source 16
        flags := flagsOf mouseFlagBits (readU32 source 20)
        time := readU32 source 24, extraInfo := readU64 source 32 })
  else none

def decodeRecords (wire : List Nat) (count : Nat) : List (Option Input) :=
  (range count).map fun i => decodeInput (wire.drop (16 + i * inputWireSize))

/-- The bytes of a reply as `handle_hook_decision` reads them. -/
def decodeReply (wire : List Nat) : ReplyPayload :=
  if wire.length < 8 then .short
  else if readU32 wire 0 ≠ 0 then .failure (wire.length - 8) (readU32 wire 8)
  else if wire.length < 16 then .truncated
  else .decision (readU32 wire 8) (readU32 wire 12)
    (decodeRecords wire ((wire.length - 16) / inputWireSize))
    ⟨(wire.length - 16) % inputWireSize, mod_lt _ (by decide)⟩

structure Carries (wire : List Nat) (decision : HookDecision) (inputs : List Input) : Prop where
  status : readU32 wire 0 = 0
  value : decodeDecision (readU32 wire 8) = some decision
  count : readU32 wire 12 = inputs.length
  size : wire.length = 16 + inputs.length * inputWireSize
  records : decodeRecords wire inputs.length = inputs.map some

structure Documented (wire : List Nat) (decision : HookDecision) (inputs : List Input) : Prop
    extends Carries wire decision inputs where
  grammar : decision = .block ∧ inputs = [] ∨
    decision = .modify ∧ inputs ≠ [] ∧ inputs.length ≤ maxModifyInputs

theorem mapM_id_eq_some {α : Type} {l : List (Option α)} {l' : List α} :
    l.mapM id = some l' ↔ l = l'.map some := by
  induction l generalizing l' with
  | nil => cases l' <;> simp
  | cons a l ih =>
    cases a with
    | none => cases l' <;> simp
    | some =>
      cases l' with
      | nil => cases hrest : l.mapM id <;> simp [hrest]
      | cons =>
        simp only [mapM_cons, map_cons, cons.injEq, ← ih]
        cases hrest : l.mapM id <;> simp

theorem length_decodeRecords (wire : List Nat) (count : Nat) :
    (decodeRecords wire count).length = count := by
  simp [decodeRecords]

theorem carries_of_verdict {wire : List Nat} {decision : HookDecision} {inputs : List Input}
    (h : (decodeReply wire).verdict = .decided decision inputs) :
    Carries wire decision inputs ∧ inputs.length ≤ maxModifyInputs ∧
      (decision = .modify → inputs ≠ []) := by
  unfold decodeReply at h
  split at h
  · cases h
  split at h
  · simp only [ReplyPayload.verdict] at h
    split at h <;> cases h
  split at h
  · cases h
  rename_i hstatus _
  simp only [ReplyPayload.verdict, length_decodeRecords] at h
  split at h
  · cases h
  rename_i hcount
  obtain ⟨hmax, hsize⟩ := not_or.mp hcount
  rw [not_not, Nat.mul_comm, Nat.div_add_mod] at hsize
  have hrecords : (wire.length - 16) / inputWireSize = readU32 wire 12 := by
    rw [hsize]
    exact Nat.mul_div_cancel _ (by decide)
  rw [hrecords] at h
  cases hvalue : decodeDecision (readU32 wire 8) with
  | none => simp [hvalue] at h
  | some d =>
    cases hinputs : (decodeRecords wire (readU32 wire 12)).mapM id with
    | none => simp [hinputs] at h
    | some is =>
      simp only [hvalue, hinputs] at h
      split at h
      · cases h
      rename_i hmodify
      injection h with hd his
      subst hd his
      have hmap := mapM_id_eq_some.mp hinputs
      have hlength : readU32 wire 12 = is.length := by
        simpa [length_decodeRecords] using congrArg length hmap
      refine ⟨⟨not_not.mp hstatus, hvalue, hlength, ?_, hlength ▸ hmap⟩, ?_, ?_⟩
      · rw [← hlength]
        omega
      · omega
      · intro hd hnil
        exact hmodify ⟨hd, by rw [hlength, hnil]; rfl⟩

theorem verdict_of_carries {wire : List Nat} {decision : HookDecision} {inputs : List Input}
    (h : Carries wire decision inputs) (hmax : inputs.length ≤ maxModifyInputs)
    (hmodify : decision = .modify → inputs ≠ []) :
    (decodeReply wire).verdict = .decided decision inputs := by
  obtain ⟨hstatus, hvalue, hcount, hsize, hrecords⟩ := h
  have hrest : wire.length - 16 = inputs.length * inputWireSize := by omega
  have hplaces : (wire.length - 16) / inputWireSize = inputs.length := by
    rw [hrest]
    exact Nat.mul_div_cancel _ (by decide)
  unfold decodeReply
  rw [if_neg (by omega), if_neg (not_not.mpr hstatus), if_neg (by omega), hplaces]
  simp only [ReplyPayload.verdict, length_decodeRecords]
  rw [if_neg, hvalue, mapM_id_eq_some.mpr hrecords]
  · dsimp only
    rw [if_neg]
    rintro ⟨hd, hzero⟩
    exact hmodify hd (length_eq_zero_iff.mp (hcount ▸ hzero))
  · rw [not_or, not_lt, hcount]
    refine ⟨hmax, ?_⟩
    rw [hrest]
    simp

theorem verdict_decodeReply (wire : List Nat) (decision : HookDecision) (inputs : List Input) :
    (decodeReply wire).verdict = .decided decision inputs ↔
      Carries wire decision inputs ∧ inputs.length ≤ maxModifyInputs ∧
        (decision = .modify → inputs ≠ []) := by
  constructor
  · exact carries_of_verdict
  · rintro ⟨h, hmax, hmodify⟩
    exact verdict_of_carries h hmax hmodify

/-- Of the replies that the daemon reads as Block or Modify, all but a Block with inputs have the
documented form. -/
theorem documented_iff {wire : List Nat} {decision : HookDecision} (hdecision : decision ≠ .pass)
    (inputs : List Input) : Documented wire decision inputs ↔
      (decodeReply wire).verdict = .decided decision inputs ∧
        (decision = .block → inputs = []) := by
  rw [verdict_decodeReply]
  constructor
  · rintro ⟨hcarries, ⟨rfl, rfl⟩ | ⟨rfl, hne, hmax⟩⟩
    · exact ⟨⟨hcarries, zero_le _, by simp⟩, fun _ => rfl⟩
    · exact ⟨⟨hcarries, hmax, fun _ => hne⟩, by simp⟩
  · rintro ⟨⟨hcarries, hmax, hmodify⟩, hblock⟩
    refine ⟨hcarries, ?_⟩
    cases decision with
    | pass => exact absurd rfl hdecision
    | block => exact .inl ⟨rfl, hblock rfl⟩
    | modify => exact .inr ⟨rfl, hmodify rfl, hmax⟩

def Rights.Permit (rights : Rights) (inputs : List Input) : Prop :=
  rights.ownerMatches = true ∧ rights.inputControl = true ∧ rights.ready inputs = true

theorem Rights.permit_iff {rights : Rights} {decision : HookDecision} {inputs : List Input}
    (hdecision : decision ≠ .pass) :
    (rights.allow decision && rights.ready inputs) = true ↔ rights.Permit inputs := by
  simp [Rights.allow, Rights.Permit, hdecision, and_assoc]

namespace System

variable {s t : System} {k : HookType} {m : Message} {wire : List Nat}

theorem slot_deliver (hfree : (s.lanes k).decision = none) (rights : Rights) :
    ((s.deliver k m rights).lanes k).decision =
      some ((m.accepted rights).getD (m.laneDecision .pass [])) := by
  unfold deliver Message.accepted
  have hslot : ∀ d, (s.lanes k).push d = some { s.lanes k with decision := some d } :=
    fun d => if_pos hfree
  cases m.payload.verdict with
  | invalid => simp [close, done, setLane, Lane.offer, hslot]
  | failed => simp [done, setLane, hslot]
  | decided =>
    dsimp only
    split
    · simp [done, setLane, hslot]
    · simp [close, done, setLane, Lane.offer, hslot]

theorem slot_setLane {j : HookType} {lane : Lane} {d : LaneDecision}
    (hd : ((s.setLane j lane).lanes k).decision = some d)
    (hlane : lane.decision = (s.lanes j).decision ∨ lane.decision = none) :
    (s.lanes k).decision = some d := by
  by_cases hk : k = j
  · subst hk
    simp only [setLane, update_self] at hd
    rcases hlane with hsame | hnone
    · exact hsame ▸ hd
    · cases hnone.symm.trans hd
  · simpa [setLane, hk] using hd

theorem lanes_unmatched (s : System) (m : Message) : (s.unmatched m).lanes = s.lanes := by
  unfold unmatched
  split
  · rfl
  · split <;> rfl

theorem slot_step {e : Event} (he : ∀ rights, e ≠ .deliver rights) (hstep : s.step e = some t)
    {d : LaneDecision} (hd : (t.lanes k).decision = some d) :
    (s.lanes k).decision = some d ∨ d.decision = .pass := by
  obtain ⟨j, id, hookType, subscribers, rfl⟩ | ⟨j, move, rfl⟩ | hserved := step_cases hstep
  · simp only [step] at hstep
    split at hstep
    · cases hstep
    split at hstep
    · cases hstep
      exact .inl (slot_setLane hd (.inl rfl))
    · cases hstep
  · obtain ⟨_, _, -, hmoved⟩ := moved_of_step hstep
    apply Or.inl
    cases hmoved with
    | taken | dropped => exact slot_setLane hd (.inr rfl)
    | _ => exact slot_setLane hd (.inl rfl)
  cases hserved with
  | unmatched | mismatched => exact .inl (lanes_unmatched s _ ▸ hd)
  | delivered rights => exact absurd rfl (he rights)
  | @passed j =>
    by_cases hk : k = j
    · subst hk
      simp only [close, done, setLane, update_self, Lane.offer, Lane.push] at hd
      split at hd
      · exact .inr (Option.some.inj hd ▸ rfl)
      · exact .inl hd
    · exact .inl (by simpa [close, done, setLane, hk] using hd)
  | _ => exact .inl hd

def Delivered (s t : System) (k : HookType) (d : LaneDecision) : Prop :=
  (s.lanes k).decision = none ∧ (t.lanes k).decision = some d

theorem delivered_iff (hwire : m.payload = decodeReply wire) (rights : Rights)
    {d : HookDecision} (hd : d ≠ .pass) (inputs : List Input) :
    Delivered s (s.deliver k m rights) k (m.laneDecision d inputs) ↔
      (s.lanes k).decision = none ∧ (decodeReply wire).verdict = .decided d inputs ∧
        rights.Permit inputs := by
  have hinj : ∀ {d' is}, m.laneDecision d' is = m.laneDecision d inputs ↔ d' = d ∧ is = inputs := by
    simp [Message.laneDecision]
  refine and_congr_right fun hfree => ?_
  rw [slot_deliver hfree, Message.accepted, hwire, Option.some.injEq]
  cases hverdict : (decodeReply wire).verdict with
  | invalid | failed => simp [hinj, hd.symm]
  | decided decision is =>
    dsimp only
    split
    · rename_i hrights
      rw [Option.getD_some, hinj, Verdict.decided.injEq]
      constructor
      · rintro ⟨rfl, rfl⟩
        exact ⟨⟨rfl, rfl⟩, (Rights.permit_iff hd).mp hrights⟩
      · intro h
        exact h.1
    · rename_i hrights
      rw [Option.getD_none, hinj, Verdict.decided.injEq]
      constructor
      · intro h
        exact absurd h.1.symm hd
      · rintro ⟨⟨rfl, rfl⟩, hpermit⟩
        exact absurd ((Rights.permit_iff hd).mpr hpermit) hrights

theorem slot_deliver_eq {j : HookType} (h : j ≠ k ∨ (s.lanes k).decision ≠ none)
    (rights : Rights) : ((s.deliver k m rights).lanes j).decision = (s.lanes j).decision := by
  have hset : ∀ {lane d}, (s.lanes k).push d = some lane →
      ((s.setLane k lane).lanes j).decision = (s.lanes j).decision := by
    intro lane d hpush
    rcases h with hj | hfull
    · simp [setLane, hj]
    · simp [Lane.push, hfull] at hpush
  have hoffer : ∀ d, ((s.setLane k ((s.lanes k).offer d)).lanes j).decision =
      (s.lanes j).decision := by
    intro d
    unfold Lane.offer
    cases hpush : (s.lanes k).push d with
    | some lane => exact hset hpush
    | none => by_cases hj : j = k <;> simp [setLane, hj]
  unfold deliver
  cases m.payload.verdict with
  | invalid => exact hoffer _
  | failed =>
    dsimp only
    split
    · exact hset ‹_›
    · rfl
  | decided =>
    dsimp only
    split
    · split
      · exact hset ‹_›
      · rfl
    · exact hoffer _

/-- The grammar holds for a reply exactly if the daemon does not take it for a Block with inputs
from a sender that may decide and, where the lane's slot still holds an earlier reply, it is not
one that should be delivered. Whatever the reply, a free slot gets a decision and nothing else
changes, and no other step gives a lane a Block or Modify. -/
theorem decision_grammar (hmain : s.main = .checked k m) (hwire : m.payload = decodeReply wire)
    (rights : Rights) :
    (∃ t, s.step (.deliver rights) = some t ∧
      ((∀ d is, d ≠ .pass → (Delivered s t k (m.laneDecision d is) ↔
          Documented wire d is ∧ rights.Permit is)) ↔
        ((s.lanes k).decision = none → ∀ is, Carries wire .block is →
          is.length ≤ maxModifyInputs → rights.Permit is → is = []) ∧
        ((s.lanes k).decision ≠ none → ∀ d is, Documented wire d is → ¬ rights.Permit is)) ∧
      ((s.lanes k).decision = none → ∃ d is, Delivered s t k (m.laneDecision d is)) ∧
      ∀ j, (j ≠ k ∨ (s.lanes k).decision ≠ none) →
        (t.lanes j).decision = (s.lanes j).decision) ∧
    ∀ e t j d, (∀ rights, e ≠ .deliver rights) → s.step e = some t →
      (t.lanes j).decision = some d → (s.lanes j).decision = some d ∨ d.decision = .pass := by
  refine ⟨⟨s.deliver k m rights, by simp [step, hmain], ?_, fun hfree => ?_, fun j hj => ?_⟩,
    fun e t j d he hstep hd => slot_step he hstep hd⟩
  · constructor
    · intro hgrammar
      refine ⟨fun hfree is hcarries hmax hpermit => ?_, fun hfull d is hform hpermit => ?_⟩
      · have hverdict := (verdict_decodeReply wire .block is).mpr ⟨hcarries, hmax, by simp⟩
        have hform := ((hgrammar .block is (by decide)).mp
          ((delivered_iff hwire rights (by decide) is).mpr ⟨hfree, hverdict, hpermit⟩)).1
        exact ((documented_iff (by decide) is).mp hform).2 rfl
      · have hd : d ≠ .pass := by
          rcases hform.grammar with h | h <;> simp [h.1]
        exact hfull ((hgrammar d is hd).mpr ⟨hform, hpermit⟩).1
    · rintro ⟨hblock, hfull⟩ d is hd
      rw [delivered_iff hwire rights hd, documented_iff hd]
      constructor
      · rintro ⟨hfree, hverdict, hpermit⟩
        refine ⟨⟨hverdict, ?_⟩, hpermit⟩
        rintro rfl
        obtain ⟨hcarries, hmax, -⟩ := (verdict_decodeReply wire .block is).mp hverdict
        exact hblock hfree is hcarries hmax hpermit
      · rintro ⟨hform, hpermit⟩
        refine ⟨?_, hform.1, hpermit⟩
        by_contra hslot
        exact hfull hslot d is ((documented_iff hd is).mpr hform) hpermit
  · unfold Delivered
    rw [slot_deliver hfree, Message.accepted]
    cases m.payload.verdict with
    | invalid | failed => exact ⟨.pass, [], hfree, rfl⟩
    | decided d is =>
      dsimp only
      split
      · exact ⟨d, is, hfree, rfl⟩
      · exact ⟨.pass, [], hfree, rfl⟩
  · exact slot_deliver_eq hj rights

def releaseOfA : Input := .keyboard { vk := 0x41, flags := {.up} }

def modifyWire : List Nat :=
  [0, 0, 0, 0, 0, 0, 0, 0, 2, 0, 0, 0, 1, 0, 0, 0] ++
    [1, 0, 0, 0, 0, 0, 0, 0, 0x41, 0, 0, 0, 2, 0, 0, 0] ++ replicate 24 0

def checkedReply (wire : List Nat) (slot : Option LaneDecision) : System :=
  { lanes := fun _ => { currentEventId := 1, currentResponder := 5, decision := slot }
    main := .checked .keyboard { connectionId := 5, requestId := 1, payload := decodeReply wire } }

theorem decision_grammar_modify : ∃ t, (checkedReply modifyWire none).step (.deliver {}) = some t ∧
    Delivered (checkedReply modifyWire none) t .keyboard
      { eventId := 1, responder := 5, decision := .modify, inputs := [releaseOfA] } ∧
    ∀ d is, d ≠ .pass → (Delivered (checkedReply modifyWire none) t .keyboard
      { eventId := 1, responder := 5, decision := d, inputs := is } ↔
        Documented modifyWire d is ∧ Rights.Permit {} is) := by
  have hmain : (checkedReply modifyWire none).main = .checked .keyboard
    { connectionId := 5, requestId := 1, payload := decodeReply modifyWire } := rfl
  obtain ⟨⟨t, ht, hiff, -⟩, -⟩ :=
    decision_grammar hmain (show _ = decodeReply modifyWire from rfl) {}
  have hgrammar := hiff.mpr
    ⟨fun _ is hcarries => absurd hcarries.value (by decide), fun hfull => absurd rfl hfull⟩
  have hform : Documented modifyWire .modify [releaseOfA] :=
    ⟨⟨by decide, by decide, by decide, by decide, by decide⟩, .inr ⟨rfl, by simp, by decide⟩⟩
  exact ⟨t, ht, (hgrammar .modify _ (by decide)).mpr ⟨hform, rfl, rfl, by decide⟩, hgrammar⟩

/-- A Block that carries an input is delivered, although only a Block without inputs is
documented. A documented Block is not delivered while an earlier reply waits in the slot. -/
theorem undocumented_block_delivered :
    (∃ wire t inputs, (checkedReply wire none).step (.deliver {}) = some t ∧
      (t.lanes .keyboard).decision.map (·.decision) = some .block ∧
      Carries wire .block inputs ∧ ∀ is, ¬ Documented wire .block is) ∧
    ∃ wire slot t, Documented wire .block [] ∧
      (checkedReply wire (some slot)).step (.deliver {}) = some t ∧
      (t.lanes .keyboard).decision = some slot ∧ slot.decision = .pass := by
  refine ⟨⟨[0, 0, 0, 0, 0, 0, 0, 0, 1, 0, 0, 0, 1, 0, 0, 0] ++ replicate 40 0, _,
    [.mouse {}], rfl, by decide +kernel, ⟨by decide, by decide, by decide, by decide, by decide⟩,
    ?_⟩, ?_⟩
  · rintro _ ⟨hcarries, hgrammar⟩
    obtain ⟨-, rfl⟩ | ⟨hmodify, -⟩ := hgrammar
    · exact absurd hcarries.count (by decide)
    · cases hmodify
  · refine ⟨[0, 0, 0, 0, 0, 0, 0, 0, 1, 0, 0, 0, 0, 0, 0, 0], ⟨1, 5, .pass, []⟩, _,
      ⟨⟨by decide, by decide, by decide, by decide, by decide⟩, .inl ⟨rfl, rfl⟩⟩, rfl, ?_, rfl⟩
    decide +kernel

end System

end KeysharpInput.Reply
