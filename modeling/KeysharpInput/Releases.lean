import KeysharpInput.SinkRuns

/-!
How keys are let go.
A synthetic key-up of a holder ends its own hold; that of anybody else ends every synthetic hold of
the key and takes the key from the sources that forward it. A release by owner ends the holds that
its filter matches, and a physical key-up those of its key and those that derive from it. What is
left without holder is released on the generic devices, once, unless a keyboard that shares the
sink still holds it there.
-/

namespace KeysharpInput.Output

open Option

open Forward SynthHolds Transition List ForwardKeys Nat ForwardPacket ForwardingDevice

namespace ForwardKeys

theorem mem_shift_false (keys : ForwardKeys) (code c : Code) :
    (shift false keys code).source = keys.source ∧
      (c ∈ (shift false keys code).output ↔ c ∈ keys.output ∧ c ≠ code) ∧
      (c ∈ (shift false keys code).displaced ↔
        if c = code ∧ c ∈ keys.output then c ∈ keys.source else c ∈ keys.displaced) := by
  unfold shift
  by_cases hcode : code ∈ keys.output
  · simp only [Bool.false_eq_true, if_false, hcode, not_true_eq_false]
    refine ⟨trivial, ?_, ?_⟩
    · by_cases hc : c = code <;> simp [setKeyBit, hc]
    · by_cases hc : c = code
      · by_cases hsource : code ∈ keys.source <;> simp [setKeyBit, hc, hcode, hsource]
      · by_cases hsource : code ∈ keys.source <;> simp [setKeyBit, hc, hsource]
  · simp only [Bool.false_eq_true, if_false, hcode, not_false_eq_true, if_true]
    refine ⟨trivial, ?_, ?_⟩
    · exact ⟨fun hc => ⟨hc, fun heq => hcode (heq ▸ hc)⟩, fun hc => hc.1⟩
    · rw [if_neg fun hc : c = code ∧ c ∈ keys.output => hcode (hc.1 ▸ hc.2)]

theorem mem_foldl_shift_false {codes : List Code} (hn : codes.Nodup) (keys : ForwardKeys)
    (c : Code) :
    (codes.foldl (shift false) keys).source = keys.source ∧
      (c ∈ (codes.foldl (shift false) keys).output ↔ c ∈ keys.output ∧ c ∉ codes) ∧
      (c ∈ (codes.foldl (shift false) keys).displaced ↔
        if c ∈ codes ∧ c ∈ keys.output then c ∈ keys.source else c ∈ keys.displaced) := by
  induction codes generalizing keys with
  | nil => simp
  | cons code _ ih =>
    obtain ⟨hcode, hn⟩ := nodup_cons.mp hn
    obtain ⟨hsource, houtput, hdisplaced⟩ := mem_shift_false keys code c
    obtain ⟨hsource', houtput', hdisplaced'⟩ := ih hn (shift false keys code)
    rw [foldl_cons]
    refine ⟨hsource'.trans hsource, ?_, ?_⟩
    · rw [houtput', houtput, List.mem_cons, not_or, and_assoc]
    rw [hdisplaced', hsource]
    by_cases hc : c = code
    · subst hc
      simpa [hcode] using hdisplaced
    · have hsame : c ∈ (shift false keys code).displaced ↔ c ∈ keys.displaced := by
        simpa [hc] using hdisplaced
      simp [hc, houtput, hsame]

end ForwardKeys

theorem nodup_codesOf (code : Code) : (codesOf code).Nodup := by
  unfold codesOf
  split
  · exact nodup_singleton code
  · rename_i halias
    simpa using Ne.symm halias

namespace Backend

variable {b b' : Backend} {absOpens : Bool} {v : View} {owner : SynthOwner} {code : Code}
  {ws : List Write} {value : Int} {packet : ForwardPacket}

def Driven (b : Backend) (op : Operation) : Prop := Reads b op ∧ Sequenced b op

def downstream (b : Backend) : KeyBits :=
  keysDown .sink ∅ b.forward.uinput.written ∪ keysDown .absolute ∅ b.forward.uinput.written

def SourceHolds (b : Backend) (c : Code) : Prop :=
  ∃ i, (b.forward.device i).live = true ∧ (b.forward.device i).onSink c = true ∧
    c ∈ ((b.forward.device i).views .applied).output

theorem settled_of_driven (h : Reaches operate Driven (opened absOpens) b) :
    Settled ∅ b ∧ ∀ c, c ∈ b.forward.sink.down ↔ c ∈ b.forward.sink.synth ∨ b.SourceHolds c := by
  have hboth : Settled ∅ b ∧ Balanced (opened absOpens).forward ∅ b.forward :=
    h.invariant (P := fun b => Settled ∅ b ∧ Balanced (opened absOpens).forward ∅ b.forward)
      ⟨settled_opened absOpens, (attached_opened absOpens).balanced⟩
      fun _ _ _ hb hop hstep => ⟨hb.1.operate hop.1 hstep, balanced_operate hb.2 hop.2 hstep⟩
  exact ⟨hboth.1, fun c =>
    (hboth.2.agrees c (Finset.notMem_empty c)).trans (sinkWants_iff _ c)⟩

theorem mem_downstream (h : Reaches operate Driven (opened absOpens) b) (c : Code) :
    c ∈ b.downstream ↔ (∃ o, c ∈ (b.holds .applied).owned o) ∨ b.SourceHolds c := by
  obtain ⟨hb, hagrees⟩ := settled_of_driven h
  unfold downstream
  rw [Finset.mem_union, hb.sinkDown, hb.absDown, hagrees, hb.synth c (Finset.notMem_empty c),
    mem_held_iff hb.counted]
  have hheld : c ∈ b.buttonHeldOnAbs → ∃ o, c ∈ (b.holds .applied).owned o := fun hc =>
    (mem_held_iff hb.counted).mp (hb.held c hc (Finset.notMem_empty c))
  tauto

theorem sourceHolds_of_still (h : Still b.forward b'.forward) (c : Code) :
    b'.SourceHolds c ↔ b.SourceHolds c := by
  refine exists_congr fun i => ?_
  rw [field_of_core (·.live) (fun _ => rfl) (h.core i),
    field_of_core (·.onSink c) (fun _ => rfl) (h.core i),
    views_of_core (h.core i)]

theorem applyKey_holder (hc : (b.holds v).Counted) (hown : code ∈ (b.holds v).owned owner)
    (restore : Bool) :
    (b.applyKey v code false restore owner).2.forward = b.forward ∧
      (∀ w, w ≠ v → (b.applyKey v code false restore owner).2.holds w = b.holds w) ∧
      ∀ o, ((b.applyKey v code false restore owner).2.holds v).owned o =
        if o = owner then (b.holds v).owned o \ {code} else (b.holds v).owned o := by
  have hkey : (b.holds v).ownerHolds owner code = true := hc.ownerHolds_iff.mpr hown
  obtain ⟨i, hfind⟩ : ∃ i, (b.holds v).findClaim owner = some i := by
    cases hfind : (b.holds v).findClaim owner with
    | none => simp [ownerHolds, hfind] at hkey
    | some i => exact ⟨i, rfl⟩
  obtain ⟨hlt, howner, -⟩ := findIdx?_eq_some_iff_getElem.mp hfind
  have howner : (b.holds v).claims[i].owner = owner := by simpa using howner
  unfold applyKey
  rw [if_pos hkey, hfind]
  refine ⟨rfl, fun w hw => by simp [setHolds, hw], fun o => ?_⟩
  simp [setHolds, hc.owned_dropKey (getElem?_eq_getElem hlt), howner]

theorem applyKey_stranger (hc : (b.holds v).Counted) (hown : code ∉ (b.holds v).owned owner)
    (restore : Bool) :
    (b.applyKey v code false restore owner).2.forward = b.forward.releaseKey code v ∧
      (∀ w, w ≠ v → (b.applyKey v code false restore owner).2.holds w = b.holds w) ∧
      ∀ o, ((b.applyKey v code false restore owner).2.holds v).owned o =
        (b.holds v).owned o \ {code} := by
  unfold applyKey
  rw [if_neg fun h => hown (hc.ownerHolds_iff.mp h)]
  refine ⟨rfl, fun w hw => by simp [setHolds, hw], fun o => ?_⟩
  simp [setHolds, hc.owned_releaseCode]

theorem releaseOwner_spec (hc : (b.holds v).Counted) (filter : SynthOwner) :
    Still b.forward (b.releaseOwner filter v).forward ∧
      (∀ w, w ≠ v → (b.releaseOwner filter v).holds w = b.holds w) ∧
      ∀ o, ((b.releaseOwner filter v).holds v).owned o =
        if o.matchesFilter filter then ∅ else (b.holds v).owned o := by
  have hstays := stays_releaseFor
    (b.setHolds v ((b.holds v).dropClaims (·.matchesFilter filter) ∅).1) v
    ((b.holds v).dropClaims (·.matchesFilter filter) ∅).2
  unfold releaseOwner
  rw [hstays.holds]
  refine ⟨hstays.forward, fun w hw => by simp [setHolds, hw], fun o => ?_⟩
  simp [setHolds, (hc.dropClaims (·.matchesFilter filter) ∅).owned o]

/-- A key-up of a holder ends its hold and changes nothing else. One of anybody else ends every
hold of the key and takes it from the sources, which keep it as displaced while they hold it. A
release by owner ends the holds that the filter matches, and a key stays down downstream exactly
if an owner, or a keyboard that shares the sink, still holds it. -/
theorem release_semantics (htables : ∀ v, Reaches change always {} (b.holds v)) :
    (∀ v code owner restore, code ∈ (b.holds v).owned owner →
      (b.applyKey v code false restore owner).2.forward = b.forward ∧
      (∀ w, w ≠ v → (b.applyKey v code false restore owner).2.holds w = b.holds w) ∧
      ∀ o, ((b.applyKey v code false restore owner).2.holds v).owned o =
        if o = owner then (b.holds v).owned o \ {code} else (b.holds v).owned o) ∧
    (∀ v code owner restore, code ∉ (b.holds v).owned owner →
      (∀ w, w ≠ v → (b.applyKey v code false restore owner).2.holds w = b.holds w) ∧
      (∀ o, ((b.applyKey v code false restore owner).2.holds v).owned o =
        (b.holds v).owned o \ {code}) ∧
      ∀ i, (∀ w, w ≠ v → ((b.applyKey v code false restore owner).2.forward.device i).views w =
          (b.forward.device i).views w) ∧
        let before := (b.forward.device i).views v
        let after := ((b.applyKey v code false restore owner).2.forward.device i).views v
        if (b.forward.device i).live then after.source = before.source ∧ ∀ c,
          (c ∈ after.output ↔ c ∈ before.output ∧ c ∉ codesOf code) ∧
          (c ∈ after.displaced ↔ if c ∈ codesOf code ∧ c ∈ before.output then c ∈ before.source
            else c ∈ before.displaced)
        else after = before) ∧
    ∀ v filter,
      (∀ i, ((b.releaseOwner filter v).forward.device i).views = (b.forward.device i).views) ∧
      (∀ w, w ≠ v → (b.releaseOwner filter v).holds w = b.holds w) ∧
      (∀ o, ((b.releaseOwner filter v).holds v).owned o =
        if o.matchesFilter filter then ∅ else (b.holds v).owned o) ∧
      ∀ absOpens, Reaches operate Driven (opened absOpens) b → ∀ c,
        c ∈ (b.releaseOwner filter .applied).downstream ↔
          (∃ o, o.matchesFilter filter = false ∧ c ∈ (b.holds .applied).owned o) ∨
            b.SourceHolds c := by
  have hc : ∀ v, (b.holds v).Counted := fun v => .of_reaches (htables v)
  refine ⟨fun v code owner restore hown => applyKey_holder (hc v) hown restore,
    fun v code owner restore hown => ?_, fun v filter => ?_⟩
  · obtain ⟨hforward, hothers, howned⟩ := applyKey_stranger (hc v) hown restore
    refine ⟨hothers, howned, fun i => ?_⟩
    rw [hforward]
    have hshift := touches_shiftKey b.forward code v false
    refine ⟨fun w hw => hshift.views_of_ne hw i, ?_⟩
    have hviews : (((b.forward.releaseKey code v).device i).views v) = _ := hshift.views i
    rw [hviews]
    split
    · exact ⟨(mem_foldl_shift_false (nodup_codesOf code) _ code).1, fun c =>
        (mem_foldl_shift_false (nodup_codesOf code) _ c).2⟩
    · rfl
  · obtain ⟨hstill, hothers, howned⟩ := releaseOwner_spec (hc v) filter
    refine ⟨fun i => views_of_core (hstill.core i), hothers, howned, fun absOpens h c => ?_⟩
    have hreach : Reaches operate Driven (opened absOpens)
        (b.releaseOwner filter .applied) :=
      h.tail (.releaseOwner filter .applied) ⟨trivial, trivial⟩ rfl
    obtain ⟨hstill, -, howned⟩ := releaseOwner_spec (hc .applied) filter
    rw [mem_downstream hreach]
    refine or_congr (exists_congr fun o => ?_) (sourceHolds_of_still hstill c)
    rw [howned o]
    cases o.matchesFilter filter <;> simp

def oneHold : SynthHolds := (({} : SynthHolds).holdKey { connectionId := 1 } 30).2

theorem oneHold_reached (v : View) : Reaches change always {}
    (({ opened true with holds := fun _ => oneHold } : Backend).holds v) :=
  Reaches.refl.tail (.hold { connectionId := 1 } 30) trivial rfl

theorem release_semantics_of_hold : (30 : Code) ∈ oneHold.owned { connectionId := 1 } ∧
      ((({ opened true with holds := fun _ => oneHold } : Backend).applyKey .applied 30 false true
        { connectionId := 1 }).2.holds .applied).owned { connectionId := 1 } =
          oneHold.owned { connectionId := 1 } \ {30} := by
  have hheld : (30 : Code) ∈ oneHold.owned { connectionId := 1 } :=
    mem_owned.mpr ⟨⟨{ connectionId := 1 }, {30}⟩, List.mem_singleton_self _, rfl, by decide⟩
  obtain ⟨-, -, howned⟩ := (release_semantics oneHold_reached).1 .applied 30 _ true hheld
  refine ⟨hheld, (howned _).trans ?_⟩
  rw [if_pos rfl]

def sharedButtonRun : List Operation :=
  [.forwardOpen { keyboard := false, hasCodes := true },
    .noteSource { target := 257, events := [keyEvent Keys.left 1] } .applied,
    .forwardWrite
      { target := 257, events := [keyEvent Keys.left 1], reportEnd := true, clone := true },
    .sendInput [.mouse { flags := {.leftDown} }] {} { connectionId := 1 }]

/-- The release by owner lets the button go on the sink although a source still holds it. -/
theorem button_released_beside_source : ∃ b, Reaches operate Driven (opened true) b ∧
    Keys.left ∈ b.downstream ∧
    Keys.left ∉ (b.releaseOwner { connectionId := 1 } .applied).downstream ∧
    (b.forward.device 0).live = true ∧
    Keys.left ∈ ((b.forward.device 0).views .applied).source ∧
    Keys.left ∈ ((b.forward.device 0).views .applied).output := by
  have hguard : GuardedRun operate Driven (opened true) sharedButtonRun := by
    refine guardedRun_of_forall _ ?_ _
    simp only [sharedButtonRun, List.forall_mem_cons]
    refine ⟨fun _ => ⟨trivial, trivial⟩, fun _ => ⟨trivial, trivial⟩,
      fun _ => ⟨⟨by decide, by decide⟩, by decide, fun _ i _ pair hpair => ?_⟩,
      fun _ => ⟨trivial, trivial⟩, nofun⟩
    have hleft : isKeyboard Keys.left = false := by decide
    obtain rfl : (Keys.left, 1) = pair := some.inj hpair
    simp [onSink, hleft]
  exact Reaches.exists_of_run hguard (by decide +kernel)

def moves (c : Code) (ws : List Write) : Nat :=
  (ws.flatMap (·.events)).countP (·.key = some c)

theorem mem_keysDown_of_moves {c : Code} (h : moves c ws = 0) (device : OutputDevice)
    (keys : KeyBits) : c ∈ keysDown device keys ws ↔ c ∈ keys := by
  refine mem_keysDown fun w hw _ e he hkey => ?_
  have hnone := countP_eq_zero.mp h e (mem_flatMap.mpr ⟨w, hw, he⟩)
  exact hnone (decide_eq_true hkey)

theorem moves_stroke (h : ws.flatMap (·.events) = [keyEvent code value, synReport]) (c : Code) :
    moves c ws = if c = code then 1 else 0 := by
  have hsyn : synReport.key = none := rfl
  unfold moves
  rw [h, countP_cons, countP_cons, keyEvent_key, hsyn]
  simp [eq_comm]

theorem Fit.moves_updateGenericKey (hb : Fit b) (code : Code) :
    Fit (b.updateGenericKey code).2 ∧ ∃ ws,
      (b.updateGenericKey code).2.forward.uinput.written = b.forward.uinput.written ++ ws ∧
      ∀ c, moves c ws ≤ if c = code then 1 else 0 := by
  by_cases hflag : code ∈ b.buttonHeldOnAbs
  · have hsame : Fit { b with buttonHeldOnAbs := b.buttonHeldOnAbs.erase code } :=
      ⟨hb.live, hb.failed⟩
    unfold updateGenericKey
    simp only [hflag, not_true_eq_false, if_false]
    split
    · exact ⟨hb, [], (append_nil _).symm, fun _ => zero_le _⟩
    split
    · exact ⟨hsame, [], (append_nil _).symm, fun _ => zero_le _⟩
    · obtain ⟨-, hfit, hwritten⟩ := hsame.emitEvents_spec .absolute [keyEvent code 0, synReport]
      exact ⟨hfit, _, hwritten, fun c => (moves_stroke rfl c).le⟩
  unfold updateGenericKey sinkKey Forward.sinkKey
  simp only [hflag, not_false_eq_true, if_true]
  set f : Forward := { b.forward with sink := { b.forward.sink with
    synth := setKeyBit b.forward.sink.synth code ((b.holds .applied).holders code != 0) } }
  have hlive : f.Live := ⟨hb.live.outcome, hb.live.attached, hb.live.sinkFailed⟩
  obtain ⟨ws, -, hwritten, -, -, hws⟩ := reconcile_spec hlive code
  refine ⟨⟨live_reconcile hlive code, hb.failed⟩, ws, hwritten, fun c => ?_⟩
  obtain ⟨rfl, -⟩ | ⟨rfl, -⟩ := hws
  · exact zero_le _
  · exact (moves_stroke rfl c).le

theorem Fit.moves_foldl_updateGenericKey {codes : List Code} (hn : codes.Nodup) (hb : Fit b) :
    ∃ ws, (codes.foldl (fun b code => (b.updateGenericKey code).2) b).forward.uinput.written =
        b.forward.uinput.written ++ ws ∧
      ∀ c, moves c ws ≤ if c ∈ codes then 1 else 0 := by
  induction codes generalizing b with
  | nil => exact ⟨[], (append_nil _).symm, fun _ => zero_le _⟩
  | cons code _ ih =>
    obtain ⟨hcode, hn⟩ := nodup_cons.mp hn
    obtain ⟨hfit, ws, hwritten, hmoves⟩ := hb.moves_updateGenericKey code
    obtain ⟨ws', hwritten', hmoves'⟩ := ih hn hfit
    refine ⟨ws ++ ws', ?_, fun c => ?_⟩
    · rw [foldl_cons, hwritten', hwritten, append_assoc]
    have hsum : moves c (ws ++ ws') = moves c ws + moves c ws' := by
      simp [moves]
    have hle := hmoves c
    have hle' := hmoves' c
    by_cases hc : c = code
    · subst hc
      rw [if_neg hcode] at hle'
      simp only [List.mem_cons, true_or] at hle ⊢
      omega
    · rw [if_neg hc] at hle
      simp only [List.mem_cons, hc, false_or]
      omega

def Derives (packet : ForwardPacket) (code : Code) (o : SynthOwner) : Prop :=
  packet.target ≠ 0 ∧ o.target = packet.target ∧ o.sourceType = 1 ∧ o.sourceCode = code.val

theorem matchesFilter_iff_derives (hcode : code ≠ 0) (o : SynthOwner) :
    (packet.target ≠ 0 ∧ o.matchesFilter
      { target := packet.target, sourceType := 1, sourceCode := code.val } = true) ↔
      Derives packet code o := by
  have hval : code.val ≠ 0 := fun h => hcode (Fin.ext h)
  unfold Derives SynthOwner.matchesFilter
  refine and_congr_right fun htarget => ?_
  simp [htarget, hval, and_assoc]

theorem exists_of_key (hbuilt : packet.Built) (hkey : packet.key = some (code, value)) :
    ∃ init e, packet.events = init ++ [e] ∧
      (∀ e ∈ init, e.key = none) ∧ e.key = some code ∧ e.value = value := by
  have hothers := hbuilt.others
  unfold key at hkey
  rcases eq_nil_or_concat packet.events with hnil | ⟨init, e, hevents⟩
  · simp [hnil] at hkey
  rw [concat_eq_append] at hevents
  rw [hevents, dropLast_concat] at hothers
  rw [hevents, getLast?_concat, bind_some, map_eq_some_iff] at hkey
  obtain ⟨c, hc, heq⟩ := hkey
  obtain ⟨rfl, rfl⟩ := Prod.mk.inj heq
  exact ⟨init, e, hevents, fun x hx => key_eq_none_of_type_ne (hothers x hx), hc, rfl⟩

theorem mem_releaseHolds (hbuilt : packet.Built) (hkey : packet.key = some (code, 0))
    (hcode : code ≠ 0) (o : SynthOwner) (keys : Set Code) (c : Code) :
    c ∈ (packet.events.take packetEvents).foldl (fun keys e => packet.releaseHolds e o keys) keys ↔
      c ∈ keys ∧ ¬ Derives packet code o ∧
        (packet.suppressed = true ∨ c ≠ canonicalButton code) := by
  obtain ⟨init, e, hevents, hinit, hcode', hvalue⟩ := exists_of_key hbuilt hkey
  have hskip : init.foldl (fun keys e => packet.releaseHolds e o keys) keys = keys := by
    clear hevents
    induction init generalizing keys with
    | nil => rfl
    | cons _ _ ih =>
      rw [List.forall_mem_cons] at hinit
      rw [foldl_cons, releaseHolds, hinit.1]
      exact ih keys hinit.2
  rw [take_of_length_le hbuilt.count, hevents, foldl_append, hskip, foldl_cons, releaseHolds,
    hcode']
  simp only [ne_eq]
  rw [← matchesFilter_iff_derives hcode]
  split_ifs with hderives hsuppressed
  · exact iff_of_false (Set.notMem_empty c) fun h => h.2.1 hderives
  · simp [hsuppressed, hderives]
  · simp [hsuppressed, hderives]

/-- A physical key-up ends the holds that derive from it and, unless a hook suppressed it, every
hold of its key, in the view that it reaches. Every other hold stays. What is left without holder
is up on the generic devices, and was released there once if it was down. -/
theorem physical_release (htables : ∀ v, Reaches change always {} (b.holds v))
    {packet : ForwardPacket} (hbuilt : packet.Built) (hkey : packet.key = some (code, 0))
    (hcode : code ≠ 0) :
    (∀ v, (∀ w, w ≠ v → (b.physicalRelease packet v).holds w = b.holds w) ∧
      ∀ o c, c ∈ ((b.physicalRelease packet v).holds v).owned o ↔
        c ∈ (b.holds v).owned o ∧ ¬ Derives packet code o ∧
          (packet.suppressed = true ∨ c ≠ canonicalButton code)) ∧
    ∀ absOpens, Reaches operate Driven (opened absOpens) b → ∃ ws,
      (b.physicalRelease packet .applied).forward.uinput.written = b.forward.uinput.written ++ ws ∧
      ∀ c, (∀ o, c ∉ ((b.physicalRelease packet .applied).holds .applied).owned o) →
        ¬ b.SourceHolds c → c ∉ (b.physicalRelease packet .applied).downstream ∧
          moves c ws ≤ 1 ∧ (c ∈ b.downstream → moves c ws = 1) := by
  have hup : packet.keyUp = true := by
    obtain ⟨_, e, hevents, -, hcode', hvalue⟩ := exists_of_key hbuilt hkey
    have htype : e.type = .key := by
      by_contra hne
      exact absurd (hcode'.symm.trans (key_eq_none_of_type_ne hne)) nofun
    unfold ForwardPacket.keyUp ForwardPacket.keyValue
    rw [take_of_length_le hbuilt.count, hevents]
    simp [htype, hvalue]
  refine ⟨fun v => ?_, fun absOpens h => ?_⟩
  · obtain ⟨-, hothers, hclaims⟩ := physicalRelease_spec b packet v
    obtain ⟨-, -, howned⟩ := hclaims (.of_reaches (htables v))
    refine ⟨hothers, fun o c => ?_⟩
    rw [howned o, if_pos hup]
    exact mem_releaseHolds hbuilt hkey hcode o _ c
  have hreach : Reaches operate Driven (opened absOpens)
      (b.physicalRelease packet .applied) :=
    h.tail (.physicalRelease packet .applied) ⟨trivial, trivial⟩ rfl
  have hfit := (settled_of_driven h).1.toFit
  obtain ⟨ws, hwritten, hmoves⟩ : ∃ ws, (b.physicalRelease packet .applied).forward.uinput.written =
        b.forward.uinput.written ++ ws ∧ ∀ c, moves c ws ≤ 1 := by
    unfold physicalRelease releaseFor releaseUnheld
    simp only [hup, Bool.not_true, Bool.false_eq_true, if_false]
    generalize List.foldl (releaseEvent packet) (b.holds .applied, ∅) _ = r
    have hfit' : Fit (b.setHolds .applied r.1) := ⟨hfit.live, hfit.failed⟩
    have hn := nodup_setBits (r.2 \ ((b.setHolds .applied r.1).holds .applied).held)
    obtain ⟨ws, hwritten, hmoves⟩ := hfit'.moves_foldl_updateGenericKey hn
    refine ⟨ws, hwritten, fun c => (hmoves c).trans ?_⟩
    split <;> omega
  refine ⟨ws, hwritten, fun c hnone hsource => ?_⟩
  have hup : c ∉ (b.physicalRelease packet .applied).downstream := by
    rw [mem_downstream hreach, sourceHolds_of_still (physicalRelease_spec b packet .applied).1]
    exact not_or.mpr ⟨fun ⟨o, ho⟩ => hnone o ho, hsource⟩
  refine ⟨hup, hmoves c, fun hdown => ?_⟩
  -- Without an event of its own a key that was down would still be.
  have hsome : moves c ws ≠ 0 := fun hzero => hup <| by
    unfold downstream at hdown ⊢
    rw [hwritten, keysDown_append, keysDown_append]
    simpa only [Finset.mem_union, mem_keysDown_of_moves hzero] using hdown
  have hle := hmoves c
  omega

theorem physical_release_of_hold :
    (30 : Code) ∉ (((({ opened true with holds := fun _ => oneHold } : Backend).physicalRelease
      { target := 257, events := [keyEvent 30 0] } .enqueued).holds .enqueued).owned
        { connectionId := 1 }) := by
  have hkey : ({ target := 257, events := [keyEvent 30 0] } : ForwardPacket).key =
      some ((30 : Code), 0) := by decide
  have hrelease := (physical_release oneHold_reached (by decide) hkey (by decide)).1 .enqueued
  exact fun hmem => ((hrelease.2 _ 30).mp hmem).2.2.elim nofun fun hne => hne (by decide)

end Backend

end KeysharpInput.Output
