import KeysharpInput.ButtonPlacement

/-!
What a press writes to the sink.
A key that the sink has down would not type again, so a press of it by a further holder is
written as a release and a press, unless it is a modifier or a lock. The press of a synthetic
owner may give a displaced source its hold back instead of taking one, and the press of a source
is written with the source's own report. All of them type once.
-/

namespace KeysharpInput.Output

open Forward ForwardingDevice SynthHolds Transition List Backend ForwardKeys Finset ForwardPacket

def keyValue (c : Code) (e : InputEvent) : Option Int :=
  if e.key = some c then some e.value else none

def keyValues (c : Code) (ws : List Write) : List Int :=
  ws.flatMap fun w => if w.device = .sink then w.events.filterMap (keyValue c) else []

theorem keyValues_append (c : Code) (ws ws' : List Write) :
    keyValues c (ws ++ ws') = keyValues c ws ++ keyValues c ws' :=
  flatMap_append

theorem keyValues_sink (c : Code) (events : List InputEvent) :
    keyValues c [⟨.sink, events⟩] = events.filterMap (keyValue c) := by
  simp [keyValues]

theorem filterMap_keyEvent (c : Code) (value : Int) (rest : List InputEvent) :
    (keyEvent c value :: synReport :: rest).filterMap (keyValue c) =
      value :: rest.filterMap (keyValue c) := by
  have hpress : keyValue c (keyEvent c value) = some value :=
    if_pos (keyEvent_key c value)
  rw [filterMap_cons, hpress]
  rfl

theorem keyValue_of_key_eq_none {e : InputEvent} (h : e.key = none) (c : Code) :
    keyValue c e = none :=
  if_neg (by simp [h])

theorem filterMap_of_key_eq_none {events : List InputEvent} (h : ∀ e ∈ events, e.key = none)
    (c : Code) : events.filterMap (keyValue c) = [] :=
  filterMap_eq_nil_iff.mpr fun e he => keyValue_of_key_eq_none (h e he) c

namespace Forward

variable {f f' f'' : Forward} {c : Code} {i : Nat} {vs vs' : List Int}
  {acc : Bool × Forward}

def typed (c : Code) (f f' : Forward) : List Int :=
  keyValues c (f'.uinput.written.drop f.uinput.written.length)

def Types (c : Code) (vs : List Int) (f f' : Forward) : Prop :=
  ∃ ws, f'.uinput.written = f.uinput.written ++ ws ∧ keyValues c ws = vs

theorem Types.typed_eq (h : Types c vs f f') : typed c f f' = vs := by
  obtain ⟨_, hwritten, hvalues⟩ := h
  rw [typed, hwritten, drop_left, hvalues]

theorem Types.of_eq (h : f'.uinput = f.uinput) : Types c [] f f' :=
  ⟨[], by rw [h, append_nil], rfl⟩

theorem Types.trans (h : Types c vs f f') (h' : Types c vs' f' f'') :
    Types c (vs ++ vs') f f'' := by
  obtain ⟨ws, hwritten, hvalues⟩ := h
  obtain ⟨ws', hwritten', hvalues'⟩ := h'
  exact ⟨ws ++ ws', by rw [hwritten', hwritten, append_assoc],
    by rw [keyValues_append, hvalues, hvalues']⟩

theorem sinkWants_iff (f : Forward) (c : Code) : f.sinkWants c = true ↔
    c ∈ f.sink.synth ∨ ∃ i, (f.device i).live = true ∧ (f.device i).onSink c = true ∧
      c ∈ ((f.device i).views .applied).output := by
  have hany : (f.devices.any fun d => d.live && d.onSink c && c ∈ (d.views .applied).output) =
      true ↔ ∃ i, (f.device i).live = true ∧ (f.device i).onSink c = true ∧
        c ∈ ((f.device i).views .applied).output := by
    rw [any_eq_true]
    constructor
    · rintro ⟨d, hd, hholds⟩
      obtain ⟨i, hi⟩ := getElem?_of_mem hd
      have hdevice : f.device i = d := by simp [device, hi]
      simp only [Bool.and_eq_true, decide_eq_true_eq] at hholds
      exact ⟨i, by rw [hdevice]; exact ⟨hholds.1.1, hholds.1.2, hholds.2⟩⟩
    · rintro ⟨i, hlive, hsink, houtput⟩
      have hlt := lt_length_of_live hlive
      have hdevice : f.device i = f.devices[i] := by simp [device, hlt]
      rw [hdevice] at hlive hsink houtput
      exact ⟨_, getElem_mem hlt, by simp [hlive, hsink, houtput]⟩
  rw [sinkWants, Bool.or_eq_true, hany, decide_eq_true_iff]

theorem sinkWants_congr (hdevices : f'.devices = f.devices)
    (hsynth : c ∈ f'.sink.synth ↔ c ∈ f.sink.synth) : f'.sinkWants c = f.sinkWants c := by
  unfold sinkWants
  simp only [hdevices, hsynth]

def reconciled (f : Forward) (c : Code) : List Int :=
  if f.sinkWants c = decide (c ∈ f.sink.down) then []
  else [if f.sinkWants c then 1 else 0]

theorem Live.types_reconcile (hf : Live f) (c : Code) :
    Types c (f.reconciled c) f (f.reconcile c).2 ∧
      (c ∈ (f.reconcile c).2.sink.down ↔ f.sinkWants c = true) := by
  obtain ⟨ws, -, hwritten, hsink, -, hws⟩ := reconcile_spec hf c
  refine ⟨⟨ws, hwritten, ?_⟩, ?_⟩
  · unfold reconciled
    obtain ⟨rfl, hsame⟩ | ⟨rfl, hdiffers⟩ := hws
    · rw [if_pos hsame]
      rfl
    · rw [if_neg hdiffers]
      rw [keyValues_sink, filterMap_keyEvent]
      rfl
  · rw [hsink]
    rw [mem_setKeyBit, if_pos rfl]

theorem reconciled_of_down (hwants : f.sinkWants c = true) (hdown : c ∈ f.sink.down) :
    f.reconciled c = [] := by
  simp [reconciled, hwants, hdown]

theorem reconciled_of_not_down (hwants : f.sinkWants c = true) (hdown : c ∉ f.sink.down) :
    f.reconciled c = [1] := by
  simp [reconciled, hwants, hdown]

theorem Live.types_tap (hf : Live f) (hdown : c ∈ f.sink.down) : Types c [0, 1] f (f.tap c).2 := by
  refine ⟨[⟨.sink, [keyEvent c 0, synReport, keyEvent c 1, synReport]⟩], ?_, ?_⟩
  · unfold tap
    simp only [hdown, decide_true, if_true]
    rw [hf.writeSink_eq]
  · rw [keyValues_sink, filterMap_keyEvent, filterMap_keyEvent]
    rfl

theorem Live.writeSink (hf : Live f) (events : List InputEvent) : Live (f.writeSink events).2 := by
  rw [hf.writeSink_eq]
  exact ⟨hf.outcome, hf.attached, hf.sinkFailed⟩

theorem Live.types_writeSink (hf : Live f) (events : List InputEvent) (c : Code) :
    Types c (events.filterMap (keyValue c)) f (f.writeSink events).2 := by
  rw [hf.writeSink_eq]
  exact ⟨[⟨.sink, events⟩], rfl, keyValues_sink c events⟩

theorem Live.types_writeClone (hf : Live f) (i : Nat) (events : List InputEvent) (c : Code) :
    Types c [] f (f.writeClone i events).2 ∧ (f.writeClone i events).2.sink = f.sink := by
  unfold writeClone
  split
  · exact ⟨.of_eq rfl, rfl⟩
  · rw [hf.outputWrite_eq]
    exact ⟨⟨[⟨.clone i, events⟩], rfl, rfl⟩, rfl⟩

theorem ne_of_keyboard (hc : isKeyboard c = true) {button : Code}
    (hbutton : isKeyboard button = false) : c ≠ button := fun heq =>
  absurd ((heq ▸ hc).symm.trans hbutton) nofun

theorem canonicalButton_keyboard (hc : isKeyboard c = true) : canonicalButton c = c := by
  unfold canonicalButton
  rw [if_neg (ne_of_keyboard hc (by decide)), if_neg (ne_of_keyboard hc (by decide))]

theorem codesOf_keyboard (hc : isKeyboard c = true) : codesOf c = [c] := by
  have halias : buttonAlias c = c := by
    unfold buttonAlias
    rw [if_neg (ne_of_keyboard hc (by decide)), if_neg (ne_of_keyboard hc (by decide)),
      canonicalButton_keyboard hc]
  rw [codesOf, if_pos halias]

/-- The loops of `shift_key` for a keyboard key. -/
theorem shiftKey_keyboard (f : Forward) (hc : isKeyboard c = true) :
    f.shiftKey c .applied true = (List.range f.devices.length).foldl (fun acc i =>
      if (acc.2.device i).live then shiftCode .applied true i acc c else acc) (false, f) := by
  unfold shiftKey
  rw [codesOf_keyboard hc]
  rfl

def giveBack (f : Forward) (i : Nat) (c : Code) : Forward :=
  (f.modifyDevice i fun d => d.mapKeys .applied fun keys =>
    { keys with displaced := setKeyBit keys.displaced c (!true && c ∈ keys.source) }).modifyDevice i
    fun d => d.mapKeys .applied fun keys => { keys with output := setKeyBit keys.output c true }

theorem device_giveBack (f : Forward) (hlt : i < f.devices.length) (c : Code) (j : Nat) :
    (f.giveBack i c).device j = if j = i then (f.device j).mapKeys .applied fun keys =>
        { keys with displaced := keys.displaced.erase c, output := insert c keys.output }
      else f.device j := by
  unfold giveBack
  rw [device_modifyDevice, device_modifyDevice]
  by_cases hj : j = i
  · subst hj
    have hlength : j < (f.modifyDevice j fun d => d.mapKeys .applied fun keys =>
        { keys with
          displaced := setKeyBit keys.displaced c (!true && c ∈ keys.source) }).devices.length := by
      simpa [modifyDevice] using hlt
    rw [if_pos ⟨rfl, hlength⟩, if_pos ⟨rfl, hlt⟩]
    simp [mapKeys, setKeyBit]
  · simp [hj]

theorem shiftCode_restore (acc : Bool × Forward) (i : Nat) (c : Code)
    (hmem : c ∈ ((acc.2.device i).views .applied).displaced) :
    shiftCode .applied true i acc c = (true,
      if ((acc.2.giveBack i c).device i).onSink c then ((acc.2.giveBack i c).reconcile c).2
      else if ((acc.2.giveBack i c).device i).output then
        ((acc.2.giveBack i c).writeClone i [keyEvent c 1, synReport]).2
      else acc.2.giveBack i c) := by
  unfold shiftCode
  simp only [if_true, hmem]
  rfl

/-- One turn of the loop of `shift_key` that gives a key back. -/
inductive Restores (c : Code) (i : Nat) (acc : Bool × Forward) : Bool × Forward → Prop
  | none : Restores c i acc acc
  | sink {f' : Forward} (live : (acc.2.device i).live = true)
      (devices : f'.devices = (acc.2.giveBack i c).devices)
      (types : Types c (if c ∈ acc.2.sink.down then [] else [1]) acc.2 f')
      (down : c ∈ f'.sink.down) (wants : f'.sinkWants c = true) : Restores c i acc (true, f')
  | clone {f' : Forward} (live : (acc.2.device i).live = true)
      (displaced : c ∈ ((acc.2.device i).views .applied).displaced)
      (keyboard : (acc.2.device i).keyboard = false) (types : Types c [] acc.2 f')
      (sink : f'.sink = acc.2.sink) : Restores c i acc (true, f')

theorem Live.restores (hf : Live acc.2) (hc : isKeyboard c = true) (i : Nat) : Restores c i acc
      (if (acc.2.device i).live then shiftCode .applied true i acc c else acc) := by
  split
  swap
  · exact .none
  rename_i hlive
  have hlt := lt_length_of_live hlive
  by_cases hmem : c ∈ ((acc.2.device i).views .applied).displaced
  swap
  · have hsame : shiftCode .applied true i acc c = acc := by
      unfold shiftCode
      simp only [if_true, hmem, not_false_eq_true]
    rw [hsame]
    exact .none
  rw [shiftCode_restore acc i c hmem]
  have hback : Live (acc.2.giveBack i c) := ⟨hf.outcome, hf.attached, hf.sinkFailed⟩
  have hself := device_giveBack acc.2 hlt c i
  rw [if_pos rfl] at hself
  split
  · rename_i hsink
    have hwants : (acc.2.giveBack i c).sinkWants c = true := by
      refine (sinkWants_iff _ c).mpr (.inr ⟨i, ?_, hsink, ?_⟩)
      · rw [hself]
        exact hlive
      · rw [hself]
        exact mem_insert_self c _
    obtain ⟨htypes, hafter⟩ := hback.types_reconcile c
    have hvalues : (acc.2.giveBack i c).reconciled c = if c ∈ acc.2.sink.down then [] else [1] := by
      split
      · rename_i hdown
        exact reconciled_of_down hwants hdown
      · rename_i hdown
        exact reconciled_of_not_down hwants hdown
    rw [hvalues] at htypes
    obtain ⟨hsynth, hdevices⟩ := reconcile_same (acc.2.giveBack i c) c
    refine .sink hlive hdevices htypes (hafter.mpr hwants) ?_
    rw [sinkWants_congr hdevices (by rw [hsynth])]
    exact hwants
  · rename_i hsink
    have hkeyboard : (acc.2.device i).keyboard = false := by
      rw [hself] at hsink
      simpa [onSink, mapKeys, hc] using hsink
    split
    · obtain ⟨htypes, hsame⟩ := hback.types_writeClone i [keyEvent c 1, synReport] c
      exact .clone hlive hmem hkeyboard htypes hsame
    · exact .clone hlive hmem hkeyboard (.of_eq rfl) rfl

theorem Live.turn (hf : Live acc.2) (i : Nat) (c : Code) :
    Live (if (acc.2.device i).live then shiftCode .applied true i acc c else acc).2 := by
  split
  · exact (hf.rule.shiftCode (.refl _) .applied true i c).live hf
  · exact hf

theorem Live.types_restore_down (hf : Live f) (hc : isKeyboard c = true) (hdown : c ∈ f.sink.down) :
    Types c [] f (f.shiftKey c .applied true).2 ∧ c ∈ (f.shiftKey c .applied true).2.sink.down := by
  rw [shiftKey_keyboard f hc]
  generalize List.range f.devices.length = l
  generalize hacc : (false, f) = acc
  obtain rfl : acc.2 = f := by rw [← hacc]
  clear hacc
  induction l generalizing acc with
  | nil => exact ⟨.of_eq rfl, hdown⟩
  | cons i l ih =>
    have hturn := hf.restores hc i
    have hlive := hf.turn i c
    rw [List.foldl_cons]
    generalize (if (acc.2.device i).live then _ else acc) = acc'
      at hturn hlive ⊢
    cases hturn with
    | none => exact ih acc hf hdown
    | @sink f' _ _ htypes hafter =>
      obtain ⟨hrest, hrest'⟩ := ih (true, f') hlive hafter
      rw [if_pos hdown] at htypes
      exact ⟨htypes.trans hrest, hrest'⟩
    | @clone f' _ _ _ htypes hsame =>
      obtain ⟨hrest, hrest'⟩ := ih (true, f') hlive (by rw [hsame]; exact hdown)
      exact ⟨htypes.trans hrest, hrest'⟩

def KeyboardsOnly (c : Code) (f : Forward) : Prop :=
  ∀ i, (f.device i).live = true → c ∈ ((f.device i).views .applied).displaced →
    (f.device i).keyboard = true

theorem KeyboardsOnly.giveBack (h : KeyboardsOnly c f) (hlt : i < f.devices.length)
    (hdevices : f'.devices = (f.giveBack i c).devices) : KeyboardsOnly c f' := by
  intro j hlive hmem
  have hdevice : f'.device j = (f.giveBack i c).device j := by rw [device, device, hdevices]
  rw [hdevice, device_giveBack f hlt] at hlive hmem ⊢
  by_cases hj : j = i
  · rw [if_pos hj] at hlive hmem ⊢
    exact h j hlive (mem_of_mem_erase hmem)
  · rw [if_neg hj] at hlive hmem ⊢
    exact h j hlive hmem

structure Restored (c : Code) (f : Forward) (acc : Bool × Forward) : Prop where
  live : Live acc.2
  types : Types c (if acc.1 = true ∧ c ∉ f.sink.down then [1] else []) f acc.2
  down : c ∈ acc.2.sink.down ↔ c ∈ f.sink.down ∨ acc.1 = true
  wants : acc.1 = true → acc.2.sinkWants c = true
  sources : KeyboardsOnly c acc.2

theorem Restored.turn (h : Restored c f acc) (hc : isKeyboard c = true) (i : Nat) :
    Restored c f (if (acc.2.device i).live then shiftCode .applied true i acc c else acc) := by
  have hturn := h.live.restores hc i
  have hlive := h.live.turn i c
  generalize (if (acc.2.device i).live then _ else acc) = acc'
    at hturn hlive ⊢
  cases hturn with
  | none => exact h
  | @sink _ hopen hdevices htypes hafter hwants =>
    refine ⟨hlive, ?_, iff_of_true hafter (.inr rfl), fun _ => hwants,
      h.sources.giveBack (lt_length_of_live hopen) hdevices⟩
    have hboth := h.types.trans htypes
    by_cases hdown : c ∈ f.sink.down
    · have hbefore : c ∈ acc.2.sink.down := h.down.mpr (.inl hdown)
      simpa [hdown, hbefore] using hboth
    cases hfirst : acc.1 with
    | true =>
      have hbefore : c ∈ acc.2.sink.down := h.down.mpr (.inr hfirst)
      simpa [hbefore, hfirst] using hboth
    | false =>
      have hbefore : c ∉ acc.2.sink.down := by
        rw [h.down, hfirst]
        simpa using hdown
      simpa [hdown, hbefore, hfirst] using hboth
  | clone hopen hmem hkeyboard =>
    exact absurd (h.sources i hopen hmem) (by rw [hkeyboard]; decide)

theorem Live.restored (hf : Live f) (hc : isKeyboard c = true) (hsources : KeyboardsOnly c f) :
    Restored c f (f.shiftKey c .applied true) := by
  have hstart : Restored c f (false, f) :=
    ⟨hf, .of_eq rfl, by simp, nofun, hsources⟩
  rw [shiftKey_keyboard f hc]
  generalize List.range f.devices.length = l
  generalize (false, f) = acc at hstart ⊢
  induction l generalizing acc with
  | nil => exact hstart
  | cons i l ih => exact ih _ (hstart.turn hc i)

end Forward

namespace Backend

variable {b : Backend} {c : Code} {owner : SynthOwner} {packet : ForwardPacket} {i : Nat}
  {f : Forward} {h : SynthHolds} {owners : List SynthOwner}

def told (b : Backend) (c : Code) : Forward :=
  { b.forward with sink := { b.forward.sink with
    synth := setKeyBit b.forward.sink.synth c ((b.holds .applied).holders c != 0) } }

theorem updateGenericKey_of_not_flagged (hflag : c ∉ b.buttonHeldOnAbs) :
    (b.updateGenericKey c).2 = { b with forward := ((b.told c).reconcile c).2 } := by
  unfold updateGenericKey
  rw [if_pos hflag]
  rfl

theorem types_updateGenericKey (hf : b.forward.Live) (hflag : c ∉ b.buttonHeldOnAbs) :
    Types c ((b.told c).reconciled c) b.forward (b.updateGenericKey c).2.forward := by
  have hlive : (b.told c).Live := ⟨hf.outcome, hf.attached, hf.sinkFailed⟩
  rw [updateGenericKey_of_not_flagged hflag]
  exact (hlive.types_reconcile c).1

theorem sinkWants_told_of_holders (hheld : (b.holds .applied).holders c ≠ 0) :
    (b.told c).sinkWants c = true := by
  refine (sinkWants_iff _ c).mpr (.inl ?_)
  show c ∈ setKeyBit _ _ _
  rw [mem_setKeyBit, if_pos rfl, bne_iff_ne]
  exact hheld

theorem sinkWants_told_of_synth
    (hsynth : c ∈ b.forward.sink.synth ↔ (b.holds .applied).holders c ≠ 0) :
    (b.told c).sinkWants c = b.forward.sinkWants c := by
  refine sinkWants_congr rfl ?_
  show c ∈ setKeyBit _ _ _ ↔ _
  rw [mem_setKeyBit, if_pos rfl, bne_iff_ne, hsynth]

theorem types_sinkRepress (hf : f.Live) (hc : isKeyboard c = true)
    (hmodifier : isModifierOrLock c = false) (hdown : c ∈ f.sink.down) :
    Types c [0, 1] f (f.sinkRepress c).2 ∧ (f.sinkRepress c).2.sink.down = f.sink.down ∧
      (f.sinkRepress c).2.devices = f.devices := by
  have hneeds : f.needsRepress c = true := by simp [needsRepress, hmodifier, hc, hdown]
  have hdevices : (f.tap c).2.devices = f.devices := by
    unfold tap
    dsimp only
    rw [hf.writeSink_eq]
  unfold sinkRepress
  rw [if_pos hneeds]
  exact ⟨hf.types_tap hdown, hf.down_tap c, hdevices⟩

theorem sinkRepress_of_not_needs (h : f.needsRepress c = false) : (f.sinkRepress c).2 = f := by
  unfold sinkRepress
  rw [if_neg (by simp [h])]

def crowded (b : Backend) (owner : SynthOwner) : Bool :=
  ((b.holds .applied).findClaim owner).isNone &&
    (b.holds .applied).claims.length == synthClaimCapacity

theorem crowded_eq (b : Backend) (owner : SynthOwner) (c : Code) :
    b.crowded owner = !((b.holds .applied).holdKey owner c).1 := by
  unfold crowded holdKey
  cases (b.holds .applied).findClaim owner with
  | some => rfl
  | none =>
    dsimp only
    split
    · rename_i hfull
      simp [hfull]
    · rename_i hroom
      simp [hroom]

def refused (b : Backend) (c : Code) (owner : SynthOwner) : Bool :=
  !(b.forward.restoreKey c .applied).1 && b.crowded owner

def hold (b : Backend) (c : Code) (owner : SynthOwner) : Backend :=
  let (ok, b) := b.applyKey .applied c true true owner
  if ok then (b.updateGenericKey c).2 else b

theorem sendKeyCode_press (hc : isKeyboard c = true) : (b.sendKeyCode c true owner).2 =
      if (b.holds .applied).ownerHolds owner c then b.hold c owner
      else { b with forward := (b.forward.sinkRepress c).2 }.hold c owner := by
  unfold sendKeyCode hold
  rw [canonicalButton_keyboard hc]
  cases howner : (b.holds .applied).ownerHolds owner c with
  | true =>
    simp only [howner, Bool.not_true, Bool.and_false, Bool.false_eq_true, if_false]
    split <;> rfl
  | false =>
    simp only [howner, Bool.not_false, Bool.and_true, if_true]
    split <;> rfl

theorem holders_holdKey (hc : h.Counted) (owner : SynthOwner) (c : Code)
    (hheld : (h.holdKey owner c).1 = true ∨ h.holders c ≠ 0) :
    (h.holdKey owner c).2.holders c ≠ 0 := by
  have hspec := hc.holdKey owner c
  rw [← hspec.counted.held, mem_held_iff hspec.counted]
  rcases hheld with hok | hbefore
  · exact ⟨owner, by rw [hspec.owned, if_pos ⟨hok, rfl⟩]; exact Set.mem_insert c _⟩
  rw [← hc.held, mem_held_iff hc] at hbefore
  obtain ⟨other, hother⟩ := hbefore
  refine ⟨other, ?_⟩
  rw [hspec.owned]
  split
  · exact Set.mem_insert_of_mem c hother
  · exact hother

theorem Settled.types_hold (hb : Settled ∅ b) (hc : isKeyboard c = true)
    (hsources : KeyboardsOnly c b.forward) (owner : SynthOwner) :
    Types c (if c ∈ b.forward.sink.down ∨ b.refused c owner then [] else [1]) b.forward
      (b.hold c owner).forward := by
  have hrestored := hb.live.restored hc hsources
  have hsteady := hb.live.rule.shiftKey (.refl _) c .applied true
  have hsynth : c ∈ b.forward.sink.synth ↔ (b.holds .applied).holders c ≠ 0 := by
    rw [hb.synth c (notMem_empty c), hb.counted.held]
    exact and_iff_left (hb.not_flagged hc)
  have hflag := hb.not_flagged hc
  have hrefused : b.refused c owner =
    (!(b.forward.shiftKey c .applied true).1 && b.crowded owner) := rfl
  generalize b.refused c owner = refused at hrefused ⊢
  unfold hold Backend.applyKey
  simp only [if_true, restoreKey]
  generalize b.forward.shiftKey c .applied true = r at hrestored hsteady hrefused ⊢
  cases hgiven : r.1 with
  | true =>
    -- A source has its hold back, which wants the key already.
    obtain rfl : refused = false := by rw [hrefused, hgiven]; rfl
    have hwrite := types_updateGenericKey (b := { b with forward := r.2 })
      hrestored.live hflag
    have hwants : (told { b with forward := r.2 } c).sinkWants c = true := by
      rw [sinkWants_told_of_synth (by rw [← hsynth, ← hsteady.synth])]
      exact hrestored.wants hgiven
    rw [reconciled_of_down hwants (hrestored.down.mpr (.inr hgiven))] at hwrite
    have hboth := hrestored.types.trans hwrite
    by_cases hdown : c ∈ b.forward.sink.down <;> simpa [hgiven] using hboth
  | false =>
    have hfirst : Types c [] b.forward r.2 := by simpa [hgiven] using hrestored.types
    have hdown : c ∈ r.2.sink.down ↔ c ∈ b.forward.sink.down := by
      rw [hrestored.down, hgiven]
      simp
    rw [hgiven, crowded_eq b owner c] at hrefused
    cases hok : ((b.holds .applied).holdKey owner c).1 with
    | false =>
      obtain rfl : refused = true := by rw [hrefused, hok]; rfl
      rw [if_pos (.inr rfl)]
      exact hfirst
    | true =>
      obtain rfl : refused = false := by rw [hrefused, hok]; rfl
      simp only [Bool.false_eq_true, or_false]
      have hheld := holders_holdKey hb.counted owner c (.inl hok)
      have hwrite := types_updateGenericKey (b := Backend.setHolds
        { b with forward := r.2 } .applied ((b.holds .applied).holdKey owner c).2)
        hrestored.live hflag
      have hwants := sinkWants_told_of_holders (b := Backend.setHolds
        { b with forward := r.2 } .applied ((b.holds .applied).holdKey owner c).2) hheld
      have hboth := hfirst.trans hwrite
      by_cases hbefore : c ∈ b.forward.sink.down
      · rw [reconciled_of_down hwants (hdown.mpr hbefore)] at hboth
        rw [if_pos hbefore]
        exact hboth
      · rw [reconciled_of_not_down hwants fun hafter => hbefore (hdown.mp hafter)] at hboth
        rw [if_neg hbefore]
        exact hboth

theorem Settled.types_press (hb : Settled ∅ b) (hc : isKeyboard c = true)
    (hmodifier : isModifierOrLock c = false) (hsources : KeyboardsOnly c b.forward)
    (howner : (b.holds .applied).ownerHolds owner c = false) :
    Types c (if c ∈ b.forward.sink.down then [0, 1] else if b.refused c owner then [] else [1])
      b.forward (b.sendKeyCode c true owner).2.forward := by
  rw [sendKeyCode_press hc, howner, if_neg Bool.false_ne_true]
  by_cases hdown : c ∈ b.forward.sink.down
  · obtain ⟨hrepress, hsame, hdevices⟩ := types_sinkRepress hb.live hc hmodifier hdown
    have hsettled := hb.forward (hb.live.steady_sinkRepress c)
    have hsources' : KeyboardsOnly c (b.forward.sinkRepress c).2 := by
      intro j hlive hmem
      have hdevice : (b.forward.sinkRepress c).2.device j = b.forward.device j := by
        rw [device, device, hdevices]
      rw [hdevice] at hlive hmem ⊢
      exact hsources j hlive hmem
    have hhold := hsettled.types_hold hc hsources' owner
    rw [if_pos (.inl (hsame ▸ hdown))] at hhold
    rw [if_pos hdown]
    exact hrepress.trans hhold
  · rw [sinkRepress_of_not_needs (by simp [needsRepress, hdown]), if_neg hdown]
    have hhold := hb.types_hold hc hsources owner
    simpa only [hdown, false_or] using hhold

/-- The sink is told of a hold of a key that it has down: nothing is written but maybe a release,
and not that if the key has a synthetic holder. -/
theorem types_updateGenericKey_down (hf : b.forward.Live) (hflag : c ∉ b.buttonHeldOnAbs)
    (hdown : c ∈ b.forward.sink.down) :
    ∃ vs, Types c vs b.forward (b.updateGenericKey c).2.forward ∧ 1 ∉ vs ∧
      ((b.holds .applied).holders c ≠ 0 → vs = []) := by
  refine ⟨_, types_updateGenericKey hf hflag, ?_, fun hheld =>
    reconciled_of_down (sinkWants_told_of_holders hheld) hdown⟩
  have hdown : c ∈ (b.told c).sink.down := hdown
  unfold reconciled
  cases (b.told c).sinkWants c <;> simp [hdown]

theorem Settled.types_hold_down (hb : Settled ∅ b) (hc : isKeyboard c = true)
    (hdown : c ∈ b.forward.sink.down) (owner : SynthOwner) :
    ∃ vs, Types c vs b.forward (b.hold c owner).forward ∧ 1 ∉ vs ∧
      ((b.holds .applied).holders c ≠ 0 → vs = []) := by
  obtain ⟨hfirst, hafter⟩ := hb.live.types_restore_down hc hdown
  have hlive := (hb.live.rule.shiftKey (.refl _) c .applied true).live hb.live
  have hflag := hb.not_flagged hc
  unfold hold Backend.applyKey
  simp only [if_true, restoreKey]
  generalize b.forward.shiftKey c .applied true = r at hfirst hafter hlive ⊢
  cases r.1 with
  | true =>
    obtain ⟨vs, hwrite, hpress, hheld⟩ := types_updateGenericKey_down
      (b := { b with forward := r.2 }) hlive hflag hafter
    exact ⟨vs, hfirst.trans hwrite, hpress, hheld⟩
  | false =>
    simp only [Bool.false_eq_true, if_false]
    split
    · obtain ⟨vs, hwrite, hpress, hheld⟩ := types_updateGenericKey_down
        (b := Backend.setHolds { b with forward := r.2 } .applied
          ((b.holds .applied).holdKey owner c).2) hlive hflag hafter
      exact ⟨vs, hfirst.trans hwrite, hpress, fun hbefore =>
        hheld (holders_holdKey hb.counted owner c (.inr hbefore))⟩
    · exact ⟨[], hfirst, not_mem_nil, fun _ => rfl⟩

theorem Settled.types_press_held (hb : Settled ∅ b) (hc : isKeyboard c = true)
    (howner : (b.holds .applied).ownerHolds owner c = true) :
    Types c [] b.forward (b.sendKeyCode c true owner).2.forward := by
  have hheld : c ∈ (b.holds .applied).held :=
    (mem_held_iff hb.counted).mpr ⟨owner, hb.counted.ownerHolds_iff.mp howner⟩
  have hsynth := (hb.synth c (notMem_empty c)).mpr ⟨hheld, hb.not_flagged hc⟩
  obtain ⟨_, htypes, -, hnone⟩ := hb.types_hold_down hc (hb.down hsynth) owner
  rw [hnone ((hb.counted.held c).mp hheld)] at htypes
  rw [sendKeyCode_press hc, if_pos howner]
  exact htypes

theorem Settled.types_press_modifier (hb : Settled ∅ b) (hc : isKeyboard c = true)
    (hmodifier : isModifierOrLock c = true) (hdown : c ∈ b.forward.sink.down) (owner : SynthOwner) :
    ∃ vs, Types c vs b.forward (b.sendKeyCode c true owner).2.forward ∧ 1 ∉ vs := by
  obtain ⟨vs, htypes, hpress, -⟩ := hb.types_hold_down hc hdown owner
  refine ⟨vs, ?_, hpress⟩
  rw [sendKeyCode_press hc, sinkRepress_of_not_needs (by simp [needsRepress, hmodifier])]
  split <;> exact htypes

theorem filterMap_expandWheel (d : ForwardingDevice) (events : List InputEvent) (c : Code) :
    (expandWheel d events).2.filterMap (keyValue c) = events.filterMap (keyValue c) := by
  induction events generalizing d with
  | nil => rfl
  | cons e events ih =>
    have hcons : ∀ extra : List InputEvent, (∀ e' ∈ extra, e'.type ≠ .key) →
        (e :: extra).filterMap (keyValue c) = [e].filterMap (keyValue c) := by
      intro _ hextra
      rw [filterMap_cons, filterMap_of_key_eq_none fun e' he' =>
        key_eq_none_of_type_ne (hextra e' he')]
      rfl
    unfold expandWheel
    rw [filterMap_append, ih]
    change _ = ([e] ++ events).filterMap (keyValue c)
    rw [filterMap_append]
    congr 1
    refine hcons _ fun e' he' => ?_
    split at he'
    · split at he'
      simp at he'
      simp [he']
    split at he'
    · split at he'
      simp at he'
      simp [he']
    · simp at he'

theorem filterMap_packetEventsOf (h : packet.Built) {value : Int}
    (hkey : packet.key = some (c, value)) (d : ForwardingDevice) :
    (packetEventsOf d packet).filterMap (keyValue c) = [value] := by
  have hevents : packet.events.filterMap (keyValue c) = [value] := by
    have hothers := h.others
    rcases eq_nil_or_concat packet.events with hnil | ⟨_, last, hevents⟩
    · simp [key, hnil] at hkey
    rw [concat_eq_append] at hevents
    rw [hevents, dropLast_concat] at hothers
    have hlast : last.key = some c ∧ last.value = value := by
      simpa [key, hevents] using hkey
    rw [hevents, filterMap_append, filterMap_of_key_eq_none fun e he =>
      key_eq_none_of_type_ne (hothers e he)]
    simp [keyValue, hlast]
  unfold packetEventsOf
  split
  · rw [filterMap_append, filterMap_expandWheel, hevents]
    rfl
  · rw [filterMap_expandWheel, hevents]

def pressed (f : Forward) (i : Nat) (packet : ForwardPacket) : Forward :=
  (f.modifyDevice i fun _ => (expandWheel (f.device i) packet.events).1).modifyDevice i
    fun d => d.mapKeys .applied (packetOutput packet)

theorem sinkWants_pressed (hc : isKeyboard c = true) (hkey : packet.key = some (c, 1))
    (hlive : (f.device i).live = true) (hkeyboard : (f.device i).keyboard = true) :
    (pressed f i packet).sinkWants c = true := by
  have hlt := lt_length_of_live hlive
  have hwheel := expandWheel_rekeyed .applied (f.device i) packet.events
  have hlength : i < (f.modifyDevice i fun _ =>
      (expandWheel (f.device i) packet.events).1).devices.length := by
    simpa [modifyDevice] using hlt
  have hdevice : (pressed f i packet).device i =
      (expandWheel (f.device i) packet.events).1.mapKeys .applied (packetOutput packet) := by
    rw [pressed, device_modifyDevice, if_pos ⟨rfl, hlength⟩, device_modifyDevice, if_pos ⟨rfl, hlt⟩]
  refine (sinkWants_iff _ c).mpr (.inr ⟨i, ?_⟩)
  rw [hdevice]
  refine ⟨?_, ?_, ?_⟩
  · simpa [live, mapKeys, hwheel.isOpen, hwheel.retiring]
      using hlive
  · simp [onSink, mapKeys, hwheel.keyboard, hkeyboard, hc]
  · simp [mapKeys, packetOutput, hkey, setKeyBit]

/-- A source's press types once; only a modifier or lock that is down is not pressed again. -/
theorem types_forwardWrite (hf : f.Live) (h : packet.Built) (hc : isKeyboard c = true)
    (hkey : packet.key = some (c, 1)) (hclone : packet.clone = false)
    (hfind : f.findDevice packet.target .applied = some i) (hlive : (f.device i).live = true)
    (hkeyboard : (f.device i).keyboard = true) :
    Types c (if c ∉ f.sink.down then [1] else if isModifierOrLock c then [] else [0, 1]) f
      (f.forwardWrite packet).2 := by
  have hwants := sinkWants_pressed hc hkey hlive hkeyboard
  have hevents := filterMap_packetEventsOf h hkey (f.device i)
  have hpressed : (pressed f i packet).Live := ⟨hf.outcome, hf.attached, hf.sinkFailed⟩
  have hcarries : (f.device i).carries packet = true := by
    simp [carries, hclone, hkeyboard]
  have hreport : f.forwardWrite packet =
      (f.modifyDevice i fun _ => (expandWheel (f.device i) packet.events).1).writeSinkReport i
        packet (packetEventsOf (f.device i) packet) := by
    unfold forwardWrite
    rw [if_neg (Nat.not_lt.mpr h.count), hfind]
    simp only [hcarries, hkey, hclone]
    rfl
  have hneeds : (f.modifyDevice i fun _ =>
      (expandWheel (f.device i) packet.events).1).needsRepress c = f.needsRepress c := rfl
  have hsink : (pressed f i packet).sink = f.sink := rfl
  have huinput : (pressed f i packet).uinput = f.uinput := rfl
  rw [hreport]
  unfold writeSinkReport
  dsimp only
  rw [hkey, Option.any_some, hneeds]
  unfold pressed at hwants hpressed hsink huinput
  generalize (f.modifyDevice i _).modifyDevice i _ = f₁ at hwants hpressed hsink huinput ⊢
  generalize packetEventsOf (f.device i) packet = events at hevents ⊢
  have hstart : Types c [] f f₁ := .of_eq huinput
  by_cases hdown : c ∈ f.sink.down
  · rw [if_neg (not_not.mpr hdown)]
    cases hmodifier : isModifierOrLock c with
    | true =>
      have hkeep : f.needsRepress c = false := by simp [needsRepress, hmodifier]
      have hsame : f₁.sinkUnchanged packet = true := by
        simp [sinkUnchanged, hkey, hwants, hsink, hdown]
      rw [hkeep, hsame]
      exact hstart
    | false =>
      have hagain : f.needsRepress c = true := by simp [needsRepress, hmodifier, hc, hdown]
      rw [hagain]
      have hok : (f₁.writeSinkKey c 0).1 = true := by rw [writeSinkKey, hpressed.writeSink_eq]
      have hrelease := hpressed.types_writeSink [keyEvent c 0, synReport] c
      rw [filterMap_keyEvent] at hrelease
      have hpress := (hpressed.writeSink [keyEvent c 0, synReport]).types_writeSink events c
      rw [hevents] at hpress
      simp only [beq_self_eq_true, Bool.and_self, if_true, writeRepress, hkey, hok]
      exact hstart.trans (hrelease.trans hpress)
  · have hkeep : f.needsRepress c = false := by simp [needsRepress, hdown]
    have hchanged : f₁.sinkUnchanged packet = false := by
      simp [sinkUnchanged, hkey, hwants, hsink, hdown]
    have hpress := hpressed.types_writeSink events c
    rw [hevents] at hpress
    rw [if_pos hdown, hkeep, hchanged]
    exact hstart.trans hpress

structure SourcePress (c : Code) (f : Forward) (packet : ForwardPacket) : Prop where
  built : packet.Built
  onSink : packet.clone = false
  key : packet.key = some (c, 1)
  source : ∃ i, f.findDevice packet.target .applied = some i ∧ (f.device i).live = true ∧
    (f.device i).keyboard = true

theorem SourcePress.types (h : SourcePress c f packet) (hf : f.Live) (hc : isKeyboard c = true) :
    Types c (if c ∉ f.sink.down then [1] else if isModifierOrLock c then [] else [0, 1]) f
      (f.forwardWrite packet).2 := by
  obtain ⟨i, hfind, hlive, hkeyboard⟩ := h.source
  exact types_forwardWrite hf h.built hc h.key h.onSink hfind hlive hkeyboard

/-- While no write fails, a press of a key that is neither modifier nor lock types once, as a
release and a press if the sink has the key down. It is written for a source and for an owner that
does not hold the key, unless the owner's hold is refused. An owner that holds the key types
nothing, and a modifier or lock that is down is not pressed again. -/
theorem presses_type {absOpens : Bool}
    (h : Reaches operate Reads (opened absOpens) b) (hc : isKeyboard c = true) :
    (isModifierOrLock c = false → KeyboardsOnly c b.forward →
      (∀ owner, (b.holds .applied).ownerHolds owner c = false →
        typed c b.forward (b.sendKeyCode c true owner).2.forward =
          if c ∈ b.forward.sink.down then [0, 1]
          else if b.refused c owner then [] else [1]) ∧
      ∀ packet, SourcePress c b.forward packet →
        typed c b.forward (b.forward.forwardWrite packet).2 =
          if c ∈ b.forward.sink.down then [0, 1] else [1]) ∧
    (∀ owner, (b.holds .applied).ownerHolds owner c = true →
      typed c b.forward (b.sendKeyCode c true owner).2.forward = []) ∧
    (isModifierOrLock c = true → c ∈ b.forward.sink.down →
      (∀ owner, 1 ∉ typed c b.forward (b.sendKeyCode c true owner).2.forward) ∧
      ∀ packet, SourcePress c b.forward packet →
        1 ∉ typed c b.forward (b.forward.forwardWrite packet).2) := by
  have hb := settled_of_reaches h
  refine ⟨fun hmodifier hsources => ⟨fun owner howner => ?_, fun packet hpress => ?_⟩,
    fun owner howner => (hb.types_press_held hc howner).typed_eq,
    fun hmodifier hdown => ⟨fun owner => ?_, fun packet hpress => ?_⟩⟩
  · exact (hb.types_press hc hmodifier hsources howner).typed_eq
  · rw [(hpress.types hb.live hc).typed_eq, hmodifier]
    by_cases hdown : c ∈ b.forward.sink.down
    · rw [if_neg (not_not.mpr hdown), if_pos hdown]
      rfl
    · rw [if_pos hdown, if_neg hdown]
  · obtain ⟨_, htypes, hnone⟩ := hb.types_press_modifier hc hmodifier hdown owner
    rw [htypes.typed_eq]
    exact hnone
  · rw [(hpress.types hb.live hc).typed_eq, if_neg (not_not.mpr hdown), hmodifier]
    exact not_mem_nil

def pressA (connectionId : Nat) : Operation :=
  .sendInput [.keyboard { vk := 0x41 }] {} { connectionId := connectionId }

theorem presses_type_of_run : ∃ b, Reaches operate Reads (opened true) b ∧
      isKeyboard 30 = true ∧ isModifierOrLock 30 = false ∧ KeyboardsOnly 30 b.forward ∧
      (b.holds .applied).ownerHolds { connectionId := 2 } 30 = false ∧
      (30 : Code) ∈ b.forward.sink.down ∧
      typed 30 b.forward (b.sendKeyCode 30 true { connectionId := 2 }).2.forward = [0, 1] := by
  have hguard : GuardedRun operate Reads (opened true) [pressA 1] :=
    guardedRun_of_forall _ (by simp [pressA, Reads]) _
  obtain ⟨b, hb, hdown, howner, hdevices⟩ := Reaches.exists_of_run
    (q := fun b : Backend => (30 : Code) ∈ b.forward.sink.down ∧
      (b.holds .applied).ownerHolds { connectionId := 2 } 30 = false ∧ b.forward.devices.isEmpty)
    hguard (by decide +kernel)
  rw [List.isEmpty_iff] at hdevices
  have hsources : KeyboardsOnly 30 b.forward := by
    intro i hlive
    simp [device, hdevices, live] at hlive
  have htyped := ((presses_type hb (by decide)).1 (by decide) hsources).1 _ howner
  rw [if_pos hdown] at htyped
  exact ⟨b, hb, by decide, by decide, hsources, howner, hdown, htyped⟩

structure Filled (n : Nat) (b : Backend) : Prop where
  reaches : Reaches operate Reads (opened true) b
  uinputFd : b.uinputFd = true
  devices : b.forward.devices = []
  owners : (b.holds .applied).claims.map (·.owner) =
    (List.range n).map fun k => { connectionId := k + 1 }
  up : (31 : Code) ∉ b.forward.sink.down

theorem restoreKey_of_devices_eq_nil (h : f.devices = []) (c : Code) :
    f.restoreKey c .applied = (false, f) := by
  unfold restoreKey shiftKey
  rw [h]
  rfl

theorem findClaim_of_owners (howners : h.claims.map (·.owner) = owners) (hnew : owner ∉ owners) :
    h.findClaim owner = none := by
  rw [findClaim, findIdx?_eq_none_iff]
  intro _ hclaim
  refine decide_eq_false fun heq => hnew ?_
  rw [← howners, ← heq]
  exact mem_map_of_mem hclaim

theorem holdKey_of_owners (howners : h.claims.map (·.owner) = owners) (hnew : owner ∉ owners)
    (hroom : owners.length < synthClaimCapacity) (c : Code) :
    (h.holdKey owner c).1 = true ∧
      (h.holdKey owner c).2.claims.map (·.owner) = owners ++ [owner] := by
  have hlength : h.claims.length = owners.length := by rw [← howners, length_map]
  have hget : (h.claims ++ [SynthClaim.mk owner ∅])[h.claims.length]? = some ⟨owner, ∅⟩ := by
    simp
  unfold holdKey
  rw [findClaim_of_owners howners hnew]
  rw [if_neg (by omega)]
  refine ⟨rfl, ?_⟩
  unfold addKey
  simp only [hget, notMem_empty, if_false]
  rw [SynthHolds.owners_modify, map_append, howners]
  rfl

theorem sendInput_pressA (h : b.uinputFd = true) (k : Nat) :
    (b.sendInput [.keyboard { vk := 0x41 }] {} { connectionId := k }).2 =
      ({ b with pendingHighSurrogate := 0 }.sendKeyCode 30 true { connectionId := k }).2 := by
  have hresolve : resolveSynthKeyCode { vk := 0x41 } = some 30 := by decide
  have hdown : KeyboardInput.down { vk := 0x41 } = true := by decide
  unfold sendInput
  rw [h]
  simp only [Bool.not_true, Bool.false_eq_true, if_false, Bool.not_false, Bool.true_or, if_true,
    foldl_cons, foldl_nil, sendOne, ownerIsDead, bne_self_eq_false, Bool.false_and,
    playable, sendKeyboardInput, notMem_empty, hresolve, hdown]

theorem hold_of_devices_eq_nil (hdevices : b.forward.devices = [])
    (hok : ((b.holds .applied).holdKey owner c).1 = true) (hflag : c ∉ b.buttonHeldOnAbs) :
    b.hold c owner = { b.setHolds .applied ((b.holds .applied).holdKey owner c).2 with
      forward := (((b.setHolds .applied ((b.holds .applied).holdKey owner c).2).told c).reconcile
        c).2 } := by
  unfold hold applyKey
  rw [restoreKey_of_devices_eq_nil hdevices]
  simp only [hok]
  exact updateGenericKey_of_not_flagged hflag

theorem Filled.succ {n : Nat} (h : Filled n b) (hroom : n < synthClaimCapacity) :
    ∃ b', Filled (n + 1) b' := by
  have hb := settled_of_reaches h.reaches
  have hnew : ({ connectionId := n + 1 } : SynthOwner) ∉
      (List.range n).map fun k => ({ connectionId := k + 1 } : SynthOwner) := by
    simp
  have howner : (b.holds .applied).ownerHolds { connectionId := n + 1 } 30 = false := by
    rw [ownerHolds, findClaim_of_owners h.owners hnew]
    rfl
  obtain ⟨hok, howners⟩ := holdKey_of_owners h.owners hnew (by simpa using hroom) 30
  have hrepress : (b.forward.sinkRepress 30).2.devices = [] ∧
      (31 : Code) ∉ (b.forward.sinkRepress 30).2.sink.down := by
    by_cases hdown : (30 : Code) ∈ b.forward.sink.down
    · obtain ⟨-, hsame, hdevices⟩ := types_sinkRepress hb.live (by decide) (by decide) hdown
      exact ⟨hdevices.trans h.devices, hsame ▸ h.up⟩
    · rw [sinkRepress_of_not_needs (by simp [needsRepress, hdown])]
      exact ⟨h.devices, h.up⟩
  have hresult : (b.sendInput [.keyboard { vk := 0x41 }] {} { connectionId := n + 1 }).2 =
      { b with pendingHighSurrogate := 0, forward := (b.forward.sinkRepress 30).2 }.hold 30
        { connectionId := n + 1 } := by
    rw [sendInput_pressA h.uinputFd, sendKeyCode_press (by decide), howner,
      if_neg Bool.false_ne_true]
  replace hresult := hresult.trans (hold_of_devices_eq_nil hrepress.1 hok
    (hb.not_flagged (by decide)))
  have hlive := (hb.live.steady_sinkRepress 30).live hb.live
  refine ⟨_, ⟨h.reaches.tail (pressA (n + 1)) trivial rfl, ?_, ?_, ?_, ?_⟩⟩
  · rw [hresult]
    exact h.uinputFd
  · rw [hresult]
    exact (reconcile_same _ 30).2.trans hrepress.1
  · rw [hresult]
    refine Eq.trans ?_ (howners.trans ?_)
    · rfl
    · rw [range_succ, map_append]
      rfl
  obtain ⟨_, -, -, hsink, -, -⟩ := reconcile_spec (f := told (setHolds
    { b with pendingHighSurrogate := 0, forward := (b.forward.sinkRepress 30).2 } .applied
      ((b.holds .applied).holdKey { connectionId := n + 1 } 30).2) 30)
    ⟨hlive.outcome, hlive.attached, hlive.sinkFailed⟩ 30
  rw [hresult]
  rw [hsink, mem_setKeyBit]
  exact hrepress.2

theorem exists_filled (n : Nat) (hn : n ≤ synthClaimCapacity) : ∃ b, Filled n b := by
  induction n with
  | zero => exact ⟨opened true, .refl, rfl, rfl, rfl, by decide⟩
  | succ n ih =>
    obtain ⟨b, hb⟩ := ih (by omega)
    exact hb.succ hn

/-- A press that is refused types nothing: the claim table is full. -/
theorem press_refused : ∃ b, Reaches operate Reads (opened true) b ∧
      isKeyboard 31 = true ∧ isModifierOrLock 31 = false ∧ KeyboardsOnly 31 b.forward ∧
      (b.holds .applied).claims.length = 1024 ∧
      (b.holds .applied).ownerHolds { connectionId := 2000 } 31 = false ∧
      (31 : Code) ∉ b.forward.sink.down ∧
      typed 31 b.forward (b.sendKeyCode 31 true { connectionId := 2000 }).2.forward = [] := by
  obtain ⟨b, hfilled⟩ := exists_filled 1024 le_rfl
  have hnew : ({ connectionId := 2000 } : SynthOwner) ∉
      (List.range 1024).map fun k => ({ connectionId := k + 1 } : SynthOwner) := by
    simp
  have hnone := findClaim_of_owners hfilled.owners hnew
  have hlength : (b.holds .applied).claims.length = 1024 := by
    have hmap := congrArg List.length hfilled.owners
    rwa [length_map, length_map, length_range] at hmap
  have howner : (b.holds .applied).ownerHolds { connectionId := 2000 } 31 = false := by
    rw [ownerHolds, hnone]
    rfl
  have hsources : KeyboardsOnly 31 b.forward := by
    intro i hlive
    simp [device, hfilled.devices, live] at hlive
  have hrefused : b.refused 31 { connectionId := 2000 } = true := by
    rw [refused, restoreKey_of_devices_eq_nil hfilled.devices, crowded, hnone, hlength]
    rfl
  have htypes := (settled_of_reaches hfilled.reaches).types_press (by decide) (by decide)
    hsources howner
  rw [if_neg hfilled.up, if_pos hrefused] at htypes
  exact ⟨b, hfilled.reaches, by decide, by decide, hsources, hlength, howner, hfilled.up,
    htypes.typed_eq⟩

end Backend

end KeysharpInput.Output
