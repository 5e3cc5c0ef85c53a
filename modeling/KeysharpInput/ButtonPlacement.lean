import KeysharpInput.BatchWrites
import KeysharpInput.SynthFrames

/-!
Which of the two generic devices has a synthetic button down.
The first press of a button chooses the device: the absolute pointer if its batch has moved
absolutely, otherwise the sink. The release has to go to the same device, although it may come
from another batch, from a client that disconnects, from the physical button or from a reset.
-/

namespace KeysharpInput.Output

open Forward SynthHolds Transition List Keys

namespace Backend

variable {b : Backend} {pending : KeyBits} {code : Code}

theorem Settled.foldl_updateGenericKey (codes : List Code) (hb : Settled pending b) :
    Settled (pending \ codes.toFinset)
      (codes.foldl (fun b code => (b.updateGenericKey code).2) b) := by
  induction codes generalizing pending b with
  | nil => simpa using hb
  | cons code codes ih =>
    have hrest := ih (hb.updateGenericKey code)
    have hsame : pending.erase code \ codes.toFinset = pending \ (code :: codes).toFinset := by
      ext c
      simp only [Finset.mem_sdiff, Finset.mem_erase, List.mem_toFinset, List.mem_cons]
      tauto
    rw [hsame] at hrest
    exact hrest

theorem Settled.foldl_all {codes : List Code} (hb : Settled pending b)
    (hpending : ∀ c ∈ pending, c ∈ codes) :
    Settled ∅ (codes.foldl (fun b code => (b.updateGenericKey code).2) b) := by
  have hwritten := hb.foldl_updateGenericKey codes
  have hnone : pending \ codes.toFinset = ∅ := by
    rw [Finset.sdiff_eq_empty_iff_subset]
    exact fun c hc => mem_toFinset.mpr (hpending c hc)
  rw [hnone] at hwritten
  exact hwritten

theorem Settled.releaseReported (hb : Settled ∅ b) {h : SynthHolds} {released : KeyBits}
    (hc : h.Counted) (hreports : Reports (b.holds .applied) ∅ h released) :
    Settled ∅ ((b.setHolds .applied h).releaseUnheld released) := by
  have hmem : ∀ c, c ∈ released ↔ c ∈ (b.holds .applied).held ∧ c ∉ h.held := fun c => by
    rw [hreports.mem]
    simp
  have hset : Settled released (b.setHolds .applied h) := by
    refine hb.setHolds hc (Finset.empty_subset _) fun c hnot => ?_
    refine ⟨fun hheld => hreports.shrinks hheld, fun hheld => ?_⟩
    by_contra hlost
    exact hnot ((hmem c).mpr ⟨hheld, hlost⟩)
  apply hset.foldl_all
  intro c hreleased
  rw [mem_setBits, Finset.mem_sdiff]
  exact ⟨hreleased, ((hmem c).mp hreleased).2⟩

theorem Settled.releaseOwner (hb : Settled ∅ b) (filter : SynthOwner) (view : View) :
    Settled ∅ (b.releaseOwner filter view) := by
  cases view with
  | enqueued => exact hb.idle (.setHolds b _)
  | applied =>
    have hcounted := (hb.counted.dropClaims (·.matchesFilter filter) ∅).counted
    have hreports := hb.counted.reports_dropClaimsFrom (·.matchesFilter filter)
      (b.holds .applied).claims.length ∅
    unfold Backend.releaseOwner Backend.releaseFor
    exact hb.releaseReported hcounted hreports

theorem reports_releaseCode {h : SynthHolds} (hc : h.Counted) (code : Code) (released : KeyBits) :
    Reports h released (h.releaseCode code)
      (if code ∈ h.held then insert code released else released) := by
  refine ⟨fun c hheld => ((held_releaseCode hc code).mp hheld).1, fun c => ?_⟩
  rw [held_releaseCode hc]
  by_cases hheld : code ∈ h.held
  · rw [if_pos hheld]
    by_cases hcode : c = code
    · subst hcode
      simp [hheld]
    · simp [hcode]
  · rw [if_neg hheld]
    by_cases hcode : c = code
    · subst hcode
      simp [hheld]
    · simp [hcode]

theorem reports_releaseEvent (packet : ForwardPacket) {acc : SynthHolds × KeyBits}
    (hc : acc.1.Counted) (e : InputEvent) :
    (releaseEvent packet acc e).1.Counted ∧
      Reports acc.1 acc.2 (releaseEvent packet acc e).1 (releaseEvent packet acc e).2 := by
  unfold releaseEvent
  split
  · exact ⟨hc, .refl _ _⟩
  rename_i code _
  split
  · exact ⟨hc, .refl _ _⟩
  dsimp only
  have hdrop : ∀ r : SynthHolds × KeyBits, r = (if packet.target ≠ 0 then acc.1.dropClaims
        (·.matchesFilter { target := packet.target, sourceType := 1, sourceCode := code.val })
        acc.2 else acc) → r.1.Counted ∧ Reports acc.1 acc.2 r.1 r.2 := by
    rintro r rfl
    split
    · exact ⟨(hc.dropClaims _ _).counted, hc.reports_dropClaimsFrom _ _ _⟩
    · exact ⟨hc, .refl _ _⟩
  generalize hr : (if packet.target ≠ 0 then _ else acc) = r
  obtain ⟨hcounted, hreports⟩ := hdrop r hr.symm
  split
  · exact ⟨hcounted, hreports⟩
  · exact ⟨hcounted.releaseCode _, hreports.trans (reports_releaseCode hcounted _ r.2)⟩

theorem reports_foldl_releaseEvent (packet : ForwardPacket) (events : List InputEvent)
    (acc : SynthHolds × KeyBits) (hc : acc.1.Counted) :
    (events.foldl (releaseEvent packet) acc).1.Counted ∧
      Reports acc.1 acc.2 (events.foldl (releaseEvent packet) acc).1
        (events.foldl (releaseEvent packet) acc).2 := by
  induction events generalizing acc with
  | nil => exact ⟨hc, .refl _ _⟩
  | cons e _ ih =>
    obtain ⟨hcounted, hfirst⟩ := reports_releaseEvent packet hc e
    obtain ⟨hcounted', hrest⟩ := ih _ hcounted
    exact ⟨hcounted', hfirst.trans hrest⟩

theorem Settled.physicalRelease (hb : Settled ∅ b) (packet : ForwardPacket) (view : View) :
    Settled ∅ (b.physicalRelease packet view) := by
  unfold Backend.physicalRelease
  split
  · exact hb
  cases view with
  | enqueued => exact hb.idle (.setHolds b _)
  | applied =>
    obtain ⟨hcounted, hreports⟩ := reports_foldl_releaseEvent packet
      (packet.events.take packetEvents) (b.holds .applied, ∅) hb.counted
    exact hb.releaseReported hcounted hreports

theorem Settled.sweepDeadTargets (hb : Settled ∅ b)
    (hepoch : (b.holds .applied).epoch ≠ b.forward.forwardEpoch) :
    Settled ∅ ((b.sweepDeadTargets .applied ∅).1.releaseUnheld
      (b.sweepDeadTargets .applied ∅).2) := by
  have hcounted : ({ b.holds .applied with
      epoch := b.forward.forwardEpoch } : SynthHolds).Counted := { hb.counted with }
  have hreports := hcounted.reports_dropClaimsFrom (b.ownerIsDead · .applied)
    (b.holds .applied).claims.length ∅
  unfold Backend.sweepDeadTargets SynthHolds.sweepDeadTargets
  rw [if_neg hepoch]
  exact hb.releaseReported (hcounted.dropClaims _ ∅).counted ⟨hreports.shrinks, hreports.mem⟩

theorem Settled.maintainOutput (hb : Settled ∅ b) (now : Nat) :
    Settled ∅ (b.maintainOutput now) := by
  have hcollect : Settled ∅ { b with forward := b.forward.forwardCollect now } :=
    hb.forward (.of_eq rfl rfl)
  unfold Backend.maintainOutput
  dsimp only
  split
  · exact hcollect
  · rename_i hepoch
    exact hcollect.sweepDeadTargets hepoch

theorem flags_updateGenericKey (b : Backend) (code : Code) :
    (b.updateGenericKey code).2.buttonHeldOnAbs ⊆ b.buttonHeldOnAbs := by
  have hemit : ∀ (events : List InputEvent) (b : Backend),
      (b.emitEvents .absolute events).2.buttonHeldOnAbs = b.buttonHeldOnAbs := by
    intro events
    induction events with
    | nil => exact fun b => rfl
    | cons event _ ih =>
      intro b
      have hfirst : (b.emitEventTo .absolute event).2.buttonHeldOnAbs = b.buttonHeldOnAbs := by
        unfold emitEventTo
        split <;> rfl
      unfold emitEvents
      dsimp only
      split
      · exact (ih _).trans hfirst
      · exact hfirst
  unfold updateGenericKey
  dsimp only
  split
  · exact subset_rfl
  split
  · exact subset_rfl
  split
  · exact Finset.erase_subset _ _
  · rw [hemit]
    exact Finset.erase_subset _ _

theorem flags_foldl_updateGenericKey (codes : List Code) (b : Backend) :
    (codes.foldl (fun b code => (b.updateGenericKey code).2) b).buttonHeldOnAbs ⊆
      b.buttonHeldOnAbs := by
  induction codes generalizing b with
  | nil => exact subset_rfl
  | cons code _ ih => exact (ih _).trans (flags_updateGenericKey b code)

theorem reconcile_synth (f : Forward) (code : Code) (synth : KeyBits)
    (hcode : code ∈ synth ↔ code ∈ f.sink.synth) :
    ({ f with sink := { f.sink with synth := synth } }.reconcile code).2 =
      { (f.reconcile code).2 with sink := { (f.reconcile code).2.sink with synth := synth } } := by
  have hwants : { f with sink := { f.sink with synth := synth } }.sinkWants code =
      f.sinkWants code := by
    unfold sinkWants
    simp only [hcode]
  unfold reconcile
  simp only [hwants]
  split
  · rfl
  unfold writeSinkKey writeSink
  dsimp only
  split
  · unfold outputWrite
    dsimp only
    split <;> rfl
  · rfl

theorem reconcile_same (f : Forward) (code : Code) :
    (f.reconcile code).2.sink.synth = f.sink.synth ∧ (f.reconcile code).2.devices = f.devices := by
  unfold reconcile
  dsimp only
  split
  · exact ⟨rfl, rfl⟩
  unfold writeSinkKey writeSink
  dsimp only
  split
  · unfold outputWrite
    dsimp only
    split <;> exact ⟨rfl, rfl⟩
  · exact ⟨rfl, rfl⟩

theorem synth_sinkKey_sdiff (f : Forward) (code : Code) (codes : List Code) :
    (f.sinkKey code false).2.sink.synth \ codes.toFinset =
      f.sink.synth \ (code :: codes).toFinset := by
  have hfirst : (f.sinkKey code false).2.sink.synth = f.sink.synth.erase code :=
    (reconcile_same _ code).1
  rw [hfirst]
  ext c
  simp only [Finset.mem_sdiff, Finset.mem_erase, List.mem_toFinset, List.mem_cons]
  tauto

theorem foldl_reconcile (codes : List Code) (hn : codes.Nodup) (f : Forward) :
    codes.foldl (fun f code => (f.reconcile code).2)
        { f with sink := { f.sink with synth := f.sink.synth \ codes.toFinset } } =
      codes.foldl (fun f code => (f.sinkKey code false).2) f := by
  induction codes generalizing f with
  | nil => simp
  | cons code codes ih =>
    obtain ⟨-, hn⟩ := List.nodup_cons.mp hn
    have hstep := reconcile_synth
      { f with sink := { f.sink with synth := f.sink.synth.erase code } } code
      (f.sink.synth \ (code :: codes).toFinset) (by simp)
    rw [List.foldl_cons, List.foldl_cons, ← ih hn, hstep, ← synth_sinkKey_sdiff]
    rfl

theorem synth_foldl_sinkKey (codes : List Code) (f : Forward) :
    (codes.foldl (fun f code => (f.sinkKey code false).2) f).sink.synth =
      f.sink.synth \ codes.toFinset := by
  induction codes generalizing f with
  | nil => simp
  | cons _ _ ih => rw [foldl_cons, ih, synth_sinkKey_sdiff]

theorem Settled.foldl_sinkKey (codes : List Code) (hb : Settled pending b)
    (hheld : (b.holds .applied).held = ∅) (hflags : b.buttonHeldOnAbs = ∅) :
    Settled pending
      { b with forward := codes.foldl (fun f code => (f.sinkKey code false).2) b.forward } := by
  induction codes generalizing b with
  | nil => exact hb
  | cons code _ ih =>
    have hflag : code ∉ b.buttonHeldOnAbs := hflags ▸ Finset.notMem_empty code
    have hfirst : Settled pending (b.sinkKey code false).2 :=
      hb.sinkKey hflag false (fun c hc _ => hc) fun _ =>
        iff_of_false nofun (hheld ▸ Finset.notMem_empty code)
    exact ih hfirst hheld hflags

/-- One turn of the loop of `sinkClearSynth`. -/
def clearByte (f : Forward) (byte : Nat) : Forward :=
  let codes := setBits (f.sink.synth.filter fun code => code.val / 8 = byte)
  let f := { f with sink := { f.sink with
    synth := f.sink.synth.filter fun code => code.val / 8 ≠ byte } }
  codes.foldl (fun f code => (f.reconcile code).2) f

theorem clearByte_eq (f : Forward) (byte : Nat) :
    clearByte f byte = (setBits (f.sink.synth.filter fun code => code.val / 8 = byte)).foldl
      (fun f code => (f.sinkKey code false).2) f := by
  rw [← foldl_reconcile _ (nodup_setBits _)]
  unfold clearByte
  have hkept : (f.sink.synth.filter fun code => code.val / 8 ≠ byte) = f.sink.synth \
      (setBits (f.sink.synth.filter fun code => code.val / 8 = byte)).toFinset := by
    ext c
    simp only [Finset.mem_filter, Finset.mem_sdiff, mem_toFinset, mem_setBits]
    tauto
  rw [hkept]

theorem Settled.foldl_clearByte (bytes : List Nat) (hb : Settled pending b)
    (hheld : (b.holds .applied).held = ∅) (hflags : b.buttonHeldOnAbs = ∅) :
    Settled pending { b with forward := bytes.foldl clearByte b.forward } ∧
      (bytes.foldl clearByte b.forward).sink.synth =
        b.forward.sink.synth.filter fun code => code.val / 8 ∉ bytes := by
  induction bytes generalizing b with
  | nil => exact ⟨hb, by simp⟩
  | cons byte _ ih =>
    have hfirst := hb.foldl_sinkKey
      (setBits (b.forward.sink.synth.filter fun code => code.val / 8 = byte)) hheld hflags
    have hsynth := synth_foldl_sinkKey
      (setBits (b.forward.sink.synth.filter fun code => code.val / 8 = byte)) b.forward
    rw [← clearByte_eq] at hfirst hsynth
    rw [foldl_cons]
    generalize clearByte b.forward byte = f at hfirst hsynth ⊢
    obtain ⟨hrest, hrest'⟩ := ih hfirst hheld hflags
    refine ⟨hrest, ?_⟩
    rw [hrest', hsynth]
    ext c
    simp only [Finset.mem_filter, Finset.mem_sdiff, mem_toFinset, mem_setBits, List.mem_cons]
    tauto

theorem Settled.sinkClearSynth (hb : Settled pending b)
    (hheld : (b.holds .applied).held = ∅) (hflags : b.buttonHeldOnAbs = ∅) :
    Settled ∅ { b with forward := b.forward.sinkClearSynth } := by
  obtain ⟨hcleared, hsynth⟩ := hb.foldl_clearByte (range 96) hheld hflags
  have hnone : ((range 96).foldl clearByte b.forward).sink.synth = ∅ := by
    rw [hsynth, Finset.filter_eq_empty_iff]
    intro c _ hnot
    refine hnot (mem_range.mpr ?_)
    omega
  change Settled ∅ { b with forward := (range 96).foldl clearByte b.forward }
  generalize (range 96).foldl clearByte b.forward = f at hcleared hnone ⊢
  refine { hcleared with synth := fun c _ => ?_, held := fun c hc => ?_ }
  · refine iff_of_false (fun hmem => ?_) fun hboth => ?_
    · exact absurd (hnone ▸ hmem) (Finset.notMem_empty c)
    · exact absurd (hheld ▸ hboth.1) (Finset.notMem_empty c)
  · exact absurd (hflags ▸ hc) (Finset.notMem_empty c)

theorem Settled.releaseAll (hb : Settled ∅ b) : Settled ∅ b.releaseAll := by
  have hcleared : Settled (b.holds .applied).held
      (b.setHolds .applied (b.holds .applied).clear) :=
    hb.setHolds (counted_clear _) (Finset.empty_subset _) fun c hc =>
      iff_of_false (Finset.notMem_empty c) hc
  unfold Backend.releaseAll
  dsimp only
  generalize hb₁ : b.setHolds .applied (b.holds .applied).clear = b₁ at hcleared ⊢
  have hheld : (b₁.holds .applied).held = ∅ := by
    rw [← hb₁]
    rfl
  have hwritten := hcleared.foldl_updateGenericKey (setBits b₁.buttonHeldOnAbs)
  have hflags := flags_foldl_updateGenericKey (setBits b₁.buttonHeldOnAbs) b₁
  have hholds := ((stays_rule b₁).foldl_updateGenericKey (.refl b₁)
    (setBits b₁.buttonHeldOnAbs)).holds
  have hcodes : ∀ c, c ∈ setBits b₁.buttonHeldOnAbs ↔ c ∈ b₁.buttonHeldOnAbs := fun c =>
    mem_setBits
  generalize setBits b₁.buttonHeldOnAbs = codes at hwritten hflags hholds hcodes ⊢
  generalize codes.foldl (fun b code => (b.updateGenericKey code).2) b₁ = b₂ at *
  have hheld₂ : (b₂.holds .applied).held = ∅ := by rw [hholds, hheld]
  refine hwritten.sinkClearSynth hheld₂ (Finset.eq_empty_of_forall_notMem fun c hc => ?_)
  -- A flag that is left would be one of a held button.
  have hlate := hwritten.held c hc fun hmem =>
    (Finset.mem_sdiff.mp hmem).2 (mem_toFinset.mpr ((hcodes c).mpr (hflags hc)))
  rw [hheld₂] at hlate
  exact absurd hlate (Finset.notMem_empty c)

end Backend

inductive Operation
  | sendInput (inputs : List Input) (flags : SynthFlags) (owner : SynthOwner)
  | noteEnqueuedSynth (inputs : List Input) (owner : SynthOwner)
  | resetEnqueuedSynth
  | releaseOwner (filter : SynthOwner) (view : View)
  | physicalRelease (packet : ForwardPacket) (view : View)
  | releaseAll
  | maintainOutput (now : Nat)
  | forwardWrite (packet : ForwardPacket)
  | noteOutput (packet : ForwardPacket)
  | noteSource (packet : ForwardPacket) (view : View)
  | forwardReleaseAll (view : View)
  | forwardOpen (info : SourceInfo)
  | forwardEndGrab (target : Nat)
  | forwardApplyEndGrab (next : Nat) (held : Option KeyBits)
  | forwardClose (target : Nat)
  | forwardApplyClose (target now : Nat)

namespace Backend

variable {b b' : Backend}

def operate (b : Backend) : Operation → Option Backend
  | .sendInput inputs flags owner => some (b.sendInput inputs flags owner).2
  | .noteEnqueuedSynth inputs owner => some (b.noteEnqueuedSynth inputs owner)
  | .resetEnqueuedSynth => some b.resetEnqueuedSynth
  | .releaseOwner filter view => some (b.releaseOwner filter view)
  | .physicalRelease packet view => some (b.physicalRelease packet view)
  | .releaseAll => some b.releaseAll
  | .maintainOutput now => some (b.maintainOutput now)
  | .forwardWrite packet => some { b with forward := (b.forward.forwardWrite packet).2 }
  | .noteOutput packet => some { b with forward := b.forward.noteOutput packet }
  | .noteSource packet view => some { b with forward := b.forward.noteSource packet view }
  | .forwardReleaseAll view => some { b with forward := b.forward.forwardReleaseAll view }
  | .forwardOpen info => some { b with forward := (b.forward.forwardOpen info).2 }
  | .forwardEndGrab target => some { b with forward := (b.forward.forwardEndGrab target).2.2 }
  | .forwardApplyEndGrab next held =>
    some { b with forward := b.forward.forwardApplyEndGrab next held }
  | .forwardClose target => some { b with forward := b.forward.forwardClose target }
  | .forwardApplyClose target now =>
    some { b with forward := b.forward.forwardApplyClose target now }

def Reads (_ : Backend) : Operation → Prop
  | .forwardWrite packet => packet.Built ∧ routed packet = true
  | _ => True

def opened (absOpens : Bool) : Backend := (OutputState.start (fun _ => none) absOpens).backend

theorem settled_opened (absOpens : Bool) : Settled ∅ (opened absOpens) where
  live := ⟨fun _ => rfl, rfl, rfl⟩
  failed := rfl
  counted := counted_default
  synth := fun c _ => iff_of_false (Finset.notMem_empty c) fun h => Finset.notMem_empty c h.1
  tracked := fun c hc => absurd hc (Finset.notMem_empty c)
  apart := fun c hc => absurd hc (Finset.notMem_empty c)
  held := fun c hc => absurd hc (Finset.notMem_empty c)
  down := subset_rfl
  button := fun c hc => absurd hc (Finset.notMem_empty c)
  absDown := rfl
  sinkDown := rfl
  orderly := fun _ _ hi => absurd hi nofun

theorem Settled.operate (hb : Settled ∅ b) {op : Operation} (hreads : b.Reads op)
    (h : b.operate op = some b') : Settled ∅ b' := by
  cases op with
  | sendInput inputs flags owner =>
    cases h
    exact (settled_playRule owner).sendInput nofun hb inputs flags
  | noteEnqueuedSynth inputs owner =>
    cases h
    have hsweep : Idle b (b.sweepDeadTargets .enqueued ∅).1 := .setHolds b _
    exact hb.idle ((idle_noteRule b owner).noteEnqueuedSynth nofun
      ⟨hsweep.fit hb.toFit, hsweep⟩ inputs).2
  | resetEnqueuedSynth =>
    cases h
    exact hb.idle (.setHolds b _)
  | releaseOwner filter view =>
    cases h
    exact hb.releaseOwner filter view
  | physicalRelease packet view =>
    cases h
    exact hb.physicalRelease packet view
  | releaseAll =>
    obtain rfl := Option.some.inj h
    exact hb.releaseAll
  | maintainOutput now =>
    cases h
    exact hb.maintainOutput now
  | forwardWrite =>
    cases h
    exact hb.forward (hb.live.steady_forwardWrite hreads.1 hreads.2)
  | noteOutput packet =>
    cases h
    exact hb.forward (hb.live.rule.noteOutput (.refl _) packet)
  | noteSource packet view =>
    cases h
    exact hb.forward (hb.live.rule.noteSource (.refl _) packet view)
  | forwardReleaseAll view =>
    cases h
    exact hb.forward (hb.live.rule.forwardReleaseAll (.refl _) view)
  | forwardOpen info =>
    cases h
    exact hb.forward (hb.live.rule.forwardOpen (.refl _) info)
  | forwardEndGrab target =>
    cases h
    exact hb.forward (hb.live.rule.forwardEndGrab (.refl _) target)
  | forwardApplyEndGrab next held =>
    cases h
    exact hb.forward (hb.live.rule.forwardApplyEndGrab (.refl _) next held)
  | forwardClose target =>
    cases h
    exact hb.forward (hb.live.rule.forwardClose (.refl _) target)
  | forwardApplyClose target now =>
    cases h
    exact hb.forward (hb.live.rule.forwardApplyClose (.refl _) target now)

theorem settled_of_reaches {absOpens : Bool}
    (h : Reaches operate Reads (opened absOpens) b) : Settled ∅ b :=
  h.invariant (settled_opened absOpens)
    fun _ _ _ hb hreads hstep => hb.operate hreads hstep

/-- Whatever batches, releases and sources come, a button that synthesis holds is down on exactly
one generic device, the absolute one if its flag is set; a set flag is one of a held button; the
sink records for synthesis exactly the held keys without flag; and a button is only ever released
on a device that has it down. -/
theorem buttons_placed {absOpens : Bool} (h : Reaches operate Reads (opened absOpens) b) :
    (∀ c, isKeyboard c = false → (c ∈ keysDown .absolute ∅ b.forward.uinput.written ↔
        (b.holds .applied).holders c ≠ 0 ∧ c ∈ b.buttonHeldOnAbs) ∧
      (c ∈ keysDown .sink ∅ b.forward.uinput.written ↔
        (b.holds .applied).holders c ≠ 0 ∧ c ∉ b.buttonHeldOnAbs)) ∧
    (∀ c ∈ b.buttonHeldOnAbs, (b.holds .applied).holders c ≠ 0) ∧
    (∀ c, c ∈ b.forward.sink.synth ↔ (b.holds .applied).holders c ≠ 0 ∧ c ∉ b.buttonHeldOnAbs) ∧
    Orderly b.forward.uinput.written := by
  have hb := settled_of_reaches h
  have hheld : ∀ c ∈ b.buttonHeldOnAbs, (b.holds .applied).holders c ≠ 0 := fun c hc =>
    (hb.counted.held c).mp (hb.held c hc (Finset.notMem_empty c))
  have hsynth : ∀ c, c ∈ b.forward.sink.synth ↔
      (b.holds .applied).holders c ≠ 0 ∧ c ∉ b.buttonHeldOnAbs := fun c => by
    rw [hb.synth c (Finset.notMem_empty c), hb.counted.held]
  refine ⟨fun c hbutton => ⟨?_, ?_⟩, hheld, hsynth, hb.orderly⟩
  · rw [hb.absDown]
    exact ⟨fun hc => ⟨hheld c hc, hc⟩, fun hboth => hboth.2⟩
  · rw [hb.sinkDown, ← hsynth c]
    exact ⟨fun hc => hb.button c hc hbutton, fun hc => hb.down hc⟩

def absolutePress : List Operation :=
  [.sendInput [.mouse { flags := {.move, .absolute, .leftDown} }] {} { connectionId := 1 }]

theorem buttons_placed_of_run : ∃ b,
    Reaches operate Reads (opened true) b ∧ left ∈ b.buttonHeldOnAbs ∧
      (b.holds .applied).holders left ≠ 0 ∧
      left ∈ keysDown .absolute ∅ b.forward.uinput.written ∧
      left ∉ keysDown .sink ∅ b.forward.uinput.written := by
  have hguard : GuardedRun operate Reads (opened true) absolutePress :=
    guardedRun_of_forall _ (by simp [absolutePress, Reads]) _
  obtain ⟨b, hb, hleft⟩ := Reaches.exists_of_run
    (q := fun b : Backend => left ∈ b.buttonHeldOnAbs) hguard (by decide +kernel)
  obtain ⟨hdown, hheld, -⟩ := buttons_placed hb
  obtain ⟨habs, hsink⟩ := hdown left (by decide)
  exact ⟨b, hb, hleft, hheld _ hleft, habs.mpr ⟨hheld _ hleft, hleft⟩,
    fun hmem => (hsink.mp hmem).2 hleft⟩

end Backend

end KeysharpInput.Output
