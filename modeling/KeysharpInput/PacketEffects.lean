import KeysharpInput.ForwardEffects

/-!
What a packet does to the keys of its source.
A packet as the reader builds it has at most one key, so writing it and noting it come to the
same key state, whether the write goes to the clone or to the sink and whether anything had to
be written at all.
-/

namespace KeysharpInput.Output

open List

namespace ForwardKeys

theorem note_of_key_eq_none {e : InputEvent} (source : Bool) (keys : ForwardKeys)
    (h : e.key = none) : keys.note source e = keys := by
  simp [note, h]

theorem key_eq_none_of_type_ne {e : InputEvent} (h : e.type ≠ .key) : e.key = none := by
  simp [InputEvent.key, h]

theorem keyEvent_key (code : Code) (value : Int) : (keyEvent code value).key = some code := by
  simp [InputEvent.key, keyEvent]

theorem note_keyEvent (source : Bool) (keys : ForwardKeys) (code : Code) (value : Int) :
    keys.note source (keyEvent code value) = if value = 2 then keys
      else if source then
        { keys with
          source := setKeyBit keys.source code (value != 0)
          displaced := if value = 0 then keys.displaced.erase code else keys.displaced }
      else { keys with output := setKeyBit keys.output code (value != 0) } := by
  simp only [note, keyEvent_key]
  rfl

theorem foldl_note_false (events : List InputEvent) (keys : ForwardKeys) :
    events.foldl (note false) keys =
      { keys with output := noteWrittenKeys keys.output events true } := by
  induction events generalizing keys with
  | nil => rfl
  | cons e _ ih =>
    rw [foldl_cons, ih]
    unfold noteWrittenKeys
    cases hkey : e.key with
    | none => simp [note, hkey]
    | some => by_cases hvalue : e.value = 2 <;> simp [note, hkey, hvalue]

end ForwardKeys

namespace ForwardPacket

open ForwardKeys

variable {packet : ForwardPacket}

theorem foldl_note_of_type_ne (source : Bool) (events : List InputEvent)
    (h : ∀ e ∈ events, e.type ≠ .key) (keys : ForwardKeys) :
    events.foldl (note source) keys = keys := by
  induction events generalizing keys with
  | nil => rfl
  | cons _ _ ih =>
    rw [forall_mem_cons] at h
    rw [foldl_cons, note_of_key_eq_none _ _ (key_eq_none_of_type_ne h.1), ih h.2]

theorem Built.foldl_note (h : packet.Built) (source : Bool) (keys : ForwardKeys) :
    packet.events.foldl (note source) keys = match packet.key with
      | none => keys
      | some (code, value) => keys.note source (keyEvent code value) := by
  unfold ForwardPacket.key
  have hothers := h.others
  rcases eq_nil_or_concat packet.events with hnil | ⟨init, e, hevents⟩
  · simp [hnil]
  rw [concat_eq_append] at hevents
  rw [hevents, dropLast_concat] at hothers
  rw [hevents, foldl_append, foldl_note_of_type_ne source init hothers]
  simp only [foldl_cons, getLast?_concat, Option.bind_some]
  cases hkey : e.key with
  | none => exact note_of_key_eq_none source keys hkey
  | some =>
    simp only [note, hkey, keyEvent_key]
    rfl

end ForwardPacket

namespace Forward

open ForwardKeys

variable {v : View}

theorem expandWheel_rekeyed (v : View) (d : ForwardingDevice) (events : List InputEvent) :
    d.Rekeyed v id (expandWheel d events).1 := by
  induction events generalizing d with
  | nil => exact .refl v d
  | cons _ _ ih =>
    unfold expandWheel
    refine ForwardingDevice.Rekeyed.trans ?_ (ih _)
    split
    · exact ⟨rfl, rfl, rfl, rfl, rfl, rfl, rfl, rfl, fun _ _ => rfl⟩
    · split
      · exact ⟨rfl, rfl, rfl, rfl, rfl, rfl, rfl, rfl, fun _ _ => rfl⟩
      · exact .refl v d

theorem noteWrittenKeys_cons (keys : KeyBits) (e : InputEvent) (events : List InputEvent)
    (ok : Bool) :
    noteWrittenKeys keys (e :: events) ok =
      noteWrittenKeys (noteWrittenKeys keys [e] ok) events ok :=
  rfl

theorem noteWrittenKeys_append (keys : KeyBits) (l l' : List InputEvent) (ok : Bool) :
    noteWrittenKeys keys (l ++ l') ok = noteWrittenKeys (noteWrittenKeys keys l ok) l' ok := by
  simp [noteWrittenKeys]

theorem noteWrittenKeys_of_type_ne (keys : KeyBits) (events : List InputEvent) (ok : Bool)
    (h : ∀ e ∈ events, e.type ≠ .key) : noteWrittenKeys keys events ok = keys := by
  induction events generalizing keys with
  | nil => rfl
  | cons _ _ ih =>
    rw [forall_mem_cons] at h
    rw [noteWrittenKeys_cons, ih _ h.2]
    simp [noteWrittenKeys, key_eq_none_of_type_ne h.1]

theorem noteWrittenKeys_expandWheel (keys : KeyBits) (d : ForwardingDevice)
    (events : List InputEvent) (ok : Bool) :
    noteWrittenKeys keys (expandWheel d events).2 ok = noteWrittenKeys keys events ok := by
  induction events generalizing d keys with
  | nil => rfl
  | cons e events ih =>
    unfold expandWheel
    rw [noteWrittenKeys_append, ih, noteWrittenKeys_cons keys e events, noteWrittenKeys_cons]
    congr 1
    refine noteWrittenKeys_of_type_ne _ _ _ fun e' he' => ?_
    split at he'
    · split at he'
      simp at he'
      simp [he']
    split at he'
    · split at he'
      simp at he'
      simp [he']
    · simp at he'

end Forward

end KeysharpInput.Output
