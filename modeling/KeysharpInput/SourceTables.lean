import KeysharpInput.Lifetimes

/-!
The table of sources, whatever becomes of the writes.
A write may fail and mark its output, but it leaves targets, lifetimes and key state alone. So
each function is described by what it does to the rest of the table: most leave it as it is,
some change the keys of a view, and a source's lifetime changes in its own slot only.
-/

namespace KeysharpInput.Output

open List Finset ForwardKeys Nat

def ForwardingDevice.core (d : ForwardingDevice) : ForwardingDevice :=
  { d with
    failed := false, sinkReportOpen := false, cloneReportOpen := false
    wheelRemainder := 0, horizontalRemainder := 0 }

def ForwardingDevice.withKeys (d : ForwardingDevice) (v : View) (keys : ForwardKeys) :
    ForwardingDevice := { d with views := Function.update d.views v keys }

namespace ForwardingDevice

variable {d d' : ForwardingDevice} {v w : View} {keys keys' : ForwardKeys}

theorem withKeys_self (d : ForwardingDevice) (v : View) : d.withKeys v (d.views v) = d := by
  simp [withKeys]

theorem withKeys_withKeys (d : ForwardingDevice) (v : View) (keys keys' : ForwardKeys) :
    (d.withKeys v keys).withKeys v keys' = d.withKeys v keys' := by
  simp [withKeys]

theorem core_withKeys (d : ForwardingDevice) (v : View) (keys : ForwardKeys) :
    (d.withKeys v keys).core = d.core.withKeys v keys := rfl

theorem field_of_core {α : Type} (p : ForwardingDevice → α) (hp : ∀ d, p d.core = p d)
    (h : d'.core = d.core) : p d' = p d := by
  rw [← hp, h, hp]

theorem views_of_core (h : d'.core = d.core) : d'.views = d.views :=
  field_of_core (·.views) (fun _ => rfl) h

theorem Ok.of_core {n i : Nat} (hd : d.Ok n i) (h : d'.core = d.core) : d'.Ok n i := by
  have hcore : d.core.Ok n i := ⟨hd.1, hd.2, hd.3, hd.4, hd.5, hd.6, hd.7, hd.8⟩
  rw [← h] at hcore
  exact ⟨hcore.1, hcore.2, hcore.3, hcore.4, hcore.5, hcore.6, hcore.7, hcore.8⟩

theorem Ok.withKeys {n i : Nat} (hd : d.Ok n i) (hkeys : d.target v = 0 → keys = {})
    (hrestorable : keys.Restorable) : (d.withKeys v keys).Ok n i := by
  refine { hd with absent := fun w hw => ?_, restorable := fun w => ?_ }
  · by_cases hwv : w = v
    · subst hwv
      simpa [ForwardingDevice.withKeys] using hkeys hw
    · simpa [ForwardingDevice.withKeys, hwv] using hd.absent w hw
  · by_cases hwv : w = v
    · simpa [ForwardingDevice.withKeys, hwv] using hrestorable
    · simpa [ForwardingDevice.withKeys, hwv] using hd.restorable w

end ForwardingDevice

namespace Forward

open ForwardingDevice

variable {f f' f'' : Forward} {v w : View} {i j : Nat} {code : Code}
  {R S : Nat → ForwardKeys → ForwardKeys → Prop}

structure Still (f f' : Forward) : Prop where
  epoch : f.targetEpoch ≤ f'.targetEpoch
  nextSerial : f'.nextSerial = f.nextSerial
  length : f'.devices.length = f.devices.length
  core : ∀ i, (f'.device i).core = (f.device i).core

/-- Only the keys of a view differ, in each slot as `R` says. -/
structure Touches (v : View) (R : Nat → ForwardKeys → ForwardKeys → Prop) (f f' : Forward) :
    Prop where
  epoch : f.targetEpoch ≤ f'.targetEpoch
  nextSerial : f'.nextSerial = f.nextSerial
  length : f'.devices.length = f.devices.length
  keys : ∀ i, ∃ keys, R i ((f.device i).views v) keys ∧
    (f'.device i).core = ((f.device i).withKeys v keys).core

def only (i : Nat) (r : ForwardKeys → ForwardKeys → Prop) (j : Nat) (keys keys' : ForwardKeys) :
    Prop := if j = i then r keys keys' else keys' = keys

namespace Still

theorem refl (f : Forward) : Still f f := ⟨le_refl _, rfl, rfl, fun _ => rfl⟩

theorem trans (h : Still f f') (g : Still f' f'') : Still f f'' :=
  ⟨h.epoch.trans g.epoch, g.nextSerial.trans h.nextSerial, g.length.trans h.length,
    fun i => (g.core i).trans (h.core i)⟩

theorem of_devices (hdevices : f'.devices = f.devices) (hserial : f'.nextSerial = f.nextSerial)
    (hepoch : f'.targetEpoch = f.targetEpoch) : Still f f' :=
  ⟨hepoch.ge, hserial, by rw [hdevices], fun i => by rw [device, device, hdevices]⟩

theorem modifyDevice (f : Forward) (i : Nat) {g : ForwardingDevice → ForwardingDevice}
    (hg : ∀ d, (g d).core = d.core) : Still f (f.modifyDevice i g) := by
  refine ⟨le_refl _, rfl, by simp [Forward.modifyDevice], fun j => ?_⟩
  rw [device_modifyDevice]
  split
  · exact hg _
  · rfl

theorem bump (f : Forward) : Still f { f with targetEpoch := f.targetEpoch + 1 } :=
  ⟨le_succ _, rfl, rfl, fun _ => rfl⟩

theorem touches (h : Still f f') (v : View) (hR : ∀ i keys, R i keys keys) : Touches v R f f' :=
  ⟨h.epoch, h.nextSerial, h.length, fun i => ⟨_, hR i _, by
    rw [withKeys_self]
    exact h.core i⟩⟩

theorem ite {c : Prop} [Decidable c] (h : Still f f') : Still f (if c then f' else f) := by
  split
  · exact h
  · exact refl f

theorem foldl {α : Type} {turn : Forward → α → Forward} (l : List α)
    (hturn : ∀ f a, Still f (turn f a)) (f : Forward) : Still f (l.foldl turn f) := by
  induction l generalizing f with
  | nil => exact refl f
  | cons a l ih => exact (hturn f a).trans (ih (turn f a))

end Still

namespace Touches

theorem refl (v : View) (hR : ∀ i keys, R i keys keys) (f : Forward) : Touches v R f f :=
  (Still.refl f).touches v hR

section

variable (h : Touches v R f f')

include h

theorem mono (hRS : ∀ i keys keys', R i keys keys' → S i keys keys') :
    Touches v S f f' := by
  refine ⟨h.epoch, h.nextSerial, h.length, fun i => ?_⟩
  obtain ⟨keys, hkeys, hcore⟩ := h.keys i
  exact ⟨keys, hRS i _ _ hkeys, hcore⟩

theorem comp {T : Nat → ForwardKeys → ForwardKeys → Prop}
    (g : Touches v S f' f'') (hT : ∀ i a b c, R i a b → S i b c → T i a c) : Touches v T f f'' := by
  refine ⟨h.epoch.trans g.epoch, g.nextSerial.trans h.nextSerial, g.length.trans h.length,
    fun i => ?_⟩
  obtain ⟨keys, hkeys, hcore⟩ := h.keys i
  obtain ⟨keys', hkeys', hcore'⟩ := g.keys i
  have hviews : (f'.device i).views v = keys := by
    rw [views_of_core hcore]
    simp [withKeys]
  refine ⟨keys', hT i _ _ _ hkeys (hviews ▸ hkeys'), ?_⟩
  rw [hcore', core_withKeys, hcore, ← core_withKeys, withKeys_withKeys]

theorem trans (g : Touches v R f' f'')
    (hR : ∀ i a b c, R i a b → R i b c → R i a c) : Touches v R f f'' := h.comp g hR

theorem still (g : Still f' f'') : Touches v R f f'' :=
  h.comp (g.touches v fun _ _ => rfl) fun _ _ _ _ hR (heq : _ = _) => heq ▸ hR

end

theorem mapKeys (v : View) (i : Nat) (f : Forward) {g : ForwardKeys → ForwardKeys}
    (hg : f.devices.length ≤ i → g {} = {}) :
    Touches v (only i fun keys keys' => keys' = g keys) f
      (f.modifyDevice i fun d => d.mapKeys v g) := by
  refine ⟨le_refl _, rfl, by simp [Forward.modifyDevice], fun j => ?_⟩
  rw [device_modifyDevice]
  by_cases hj : j = i
  · subst hj
    refine ⟨g ((f.device j).views v), by simp [only], ?_⟩
    by_cases hlt : j < f.devices.length
    · rw [if_pos ⟨rfl, hlt⟩]
      rfl
    have hnone := device_of_length_le (Nat.le_of_not_lt hlt)
    have hempty : g ((f.device j).views v) = (f.device j).views v := by
      rw [hnone]
      exact hg (Nat.le_of_not_lt hlt)
    rw [if_neg (by simp [hlt]), hempty, withKeys_self]
  · refine ⟨(f.device j).views v, by simp [only, hj], ?_⟩
    rw [if_neg (by simp [hj]), withKeys_self]

section

variable (h : Touches v R f f')

include h

theorem views (i : Nat) : R i ((f.device i).views v) ((f'.device i).views v) := by
  obtain ⟨_, hkeys, hcore⟩ := h.keys i
  rw [views_of_core hcore]
  simpa [withKeys] using hkeys

theorem views_of_ne (hw : w ≠ v) (i : Nat) : (f'.device i).views w = (f.device i).views w := by
  obtain ⟨_, -, hcore⟩ := h.keys i
  rw [views_of_core hcore]
  simp [withKeys, hw]

theorem field {α : Type} (p : ForwardingDevice → α)
    (hcore : ∀ d, p d.core = p d) (hkeys : ∀ d v keys, p (d.withKeys v keys) = p d) (i : Nat) :
    p (f'.device i) = p (f.device i) := by
  obtain ⟨_, -, heq⟩ := h.keys i
  rw [← hcore, heq, hcore, hkeys]

theorem target (i : Nat) : (f'.device i).target = (f.device i).target :=
  h.field (·.target) (fun _ => rfl) (fun _ _ _ => rfl) i

theorem isOpen (i : Nat) : (f'.device i).isOpen = (f.device i).isOpen :=
  h.field (·.isOpen) (fun _ => rfl) (fun _ _ _ => rfl) i

theorem closing (i : Nat) : (f'.device i).closing = (f.device i).closing :=
  h.field (·.closing) (fun _ => rfl) (fun _ _ _ => rfl) i

theorem retiring (i : Nat) : (f'.device i).retiring = (f.device i).retiring :=
  h.field (·.retiring) (fun _ => rfl) (fun _ _ _ => rfl) i

theorem live (i : Nat) : (f'.device i).live = (f.device i).live :=
  h.field (·.live) (fun _ => rfl) (fun _ _ _ => rfl) i

theorem findDevice (target : Nat) (w : View) : f'.findDevice target w = f.findDevice target w := by
  unfold Forward.findDevice
  congr 1
  funext i
  rw [h.target i, h.retiring i]

/-- Well-formed tables stay so, as long as a slot without source gets no keys and what is
displaced can be restored. -/
theorem wellFormed (hf : WellFormed f)
    (hR : ∀ i keys, (f.device i).target v = 0 → R i {} keys → keys = {})
    (hrestorable : ∀ i keys keys', R i keys keys' → keys.Restorable → keys'.Restorable) :
    WellFormed f' := by
  refine ⟨h.nextSerial ▸ hf.serial, h.length ▸ hf.length, fun i => ?_⟩
  obtain ⟨keys, hkeys, hcore⟩ := h.keys i
  rw [h.nextSerial]
  refine (Ok.withKeys (hf.device i) (fun htarget => ?_)
    (hrestorable i _ _ hkeys ((hf.device i).restorable v))).of_core hcore
  rw [(hf.device i).absent v htarget] at hkeys
  exact hR i keys htarget hkeys

end

end Touches

structure Outlives (f f' : Forward) : Prop where
  epoch : f.targetEpoch ≤ f'.targetEpoch
  find : f'.targetEpoch = f.targetEpoch → ∀ target v, f'.findDevice target v = none →
    f.findDevice target v = none

namespace Outlives

theorem refl (f : Forward) : Outlives f f := ⟨le_refl _, fun _ _ _ h => h⟩

theorem of_lt (h : f.targetEpoch < f'.targetEpoch) : Outlives f f' :=
  ⟨h.le, fun heq => absurd heq h.ne'⟩

theorem trans (h : Outlives f f') (g : Outlives f' f'') : Outlives f f'' := by
  refine ⟨h.epoch.trans g.epoch, fun heq target v hnone => ?_⟩
  have hle := h.epoch
  have hle' := g.epoch
  exact h.find (by omega) target v (g.find (by omega) target v hnone)

end Outlives

theorem Touches.outlives (h : Touches v R f f') : Outlives f f' :=
  ⟨h.epoch, fun _ target w hnone => (h.findDevice target w).symm.trans hnone⟩

theorem Still.wellFormed (h : Still f f') (hf : WellFormed f) : WellFormed f' :=
  (h.touches (R := fun _ keys keys' => keys' = keys) .applied fun _ _ => rfl).wellFormed hf
    (fun _ _ _ heq => heq) fun _ _ _ heq hkeys => heq ▸ hkeys

theorem still_outputWrite (f : Forward) (device : OutputDevice) (events : List InputEvent) :
    Still f (f.outputWrite device events).2 := .of_devices rfl rfl rfl

theorem still_writeClone (f : Forward) (i : Nat) (events : List InputEvent) :
    Still f (f.writeClone i events).2 := by
  unfold Forward.writeClone
  dsimp only
  split_ifs
  · exact .refl f
  · exact still_outputWrite ..
  · have hmark := Still.modifyDevice (f.outputWrite (.clone i) events).2 i
      (g := fun d => { d with failed := true }) fun _ => rfl
    exact (still_outputWrite f (.clone i) events).trans (hmark.trans (.of_devices rfl rfl rfl))

theorem still_writeSink (f : Forward) (events : List InputEvent) :
    Still f (f.writeSink events).2 := by
  unfold Forward.writeSink
  dsimp only
  split_ifs <;> exact .of_devices rfl rfl rfl

theorem still_tap (f : Forward) (code : Code) : Still f (f.tap code).2 := still_writeSink ..

theorem still_reconcile (f : Forward) (code : Code) : Still f (f.reconcile code).2 := by
  unfold Forward.reconcile
  dsimp only
  split
  · exact .refl f
  · exact still_writeSink ..

theorem still_sinkKey (f : Forward) (code : Code) (held : Bool) :
    Still f (f.sinkKey code held).2 := by
  have hset : Still f { f with sink := { f.sink with
      synth := setKeyBit f.sink.synth code held } } := .of_devices rfl rfl rfl
  exact hset.trans (still_reconcile _ code)

theorem still_sinkRepress (f : Forward) (code : Code) : Still f (f.sinkRepress code).2 := by
  unfold Forward.sinkRepress
  split
  · exact still_tap f code
  · exact .refl f

theorem still_sinkClearSynth (f : Forward) : Still f f.sinkClearSynth := by
  refine Still.foldl _ (fun f byte => ?_) f
  have hclear : Still f { f with sink := { f.sink with
      synth := f.sink.synth.filter fun code => code.val / 8 ≠ byte } } := .of_devices rfl rfl rfl
  exact hclear.trans (Still.foldl _ still_reconcile _)

theorem still_attachSink (f : Forward) (attached : Bool) : Still f (f.attachSink attached) := by
  unfold Forward.attachSink
  split <;> exact .of_devices rfl rfl rfl

theorem still_endOpenReports (f : Forward) (i : Nat) : Still f (f.endOpenReports i) := by
  have hsink : Still f (if (f.device i).sinkReportOpen then (f.writeSink [synReport]).2 else f) :=
    (still_writeSink f [synReport]).ite
  refine (hsink.trans ?_).trans (Still.modifyDevice _ i fun _ => rfl)
  exact (still_writeClone _ i [synReport]).ite

/-- The keys differ as one step of displacement or release may make them: the source's own keys
are the same, and nothing is held or displaced that was not held or displaced before. What is
displaced anew is held by the source. -/
structure Within (keys keys' : ForwardKeys) : Prop where
  source : keys'.source = keys.source
  output : keys'.output ⊆ keys.output ∪ keys.displaced
  displaced : keys'.displaced ⊆ keys.output ∪ keys.displaced
  anew : keys'.displaced ⊆ keys.displaced ∪ keys.source

theorem Within.refl (keys : ForwardKeys) : Within keys keys :=
  ⟨rfl, subset_union_left, subset_union_right, subset_union_left⟩

theorem Within.trans {a b c : ForwardKeys} (h : Within a b) (g : Within b c) : Within a c :=
  ⟨g.source.trans h.source, g.output.trans (union_subset h.output h.displaced),
    g.displaced.trans (union_subset h.output h.displaced),
    g.anew.trans (union_subset h.anew (h.source ▸ subset_union_right))⟩

theorem Within.restorable {keys keys' : ForwardKeys} (h : Within keys keys')
    (hkeys : keys.Restorable) : keys'.Restorable := by
  unfold ForwardKeys.Restorable
  rw [h.source]
  exact h.anew.trans (union_subset hkeys (Finset.Subset.refl _))

theorem Within.empty {keys : ForwardKeys} (h : Within {} keys) : keys = {} := by
  obtain ⟨hsource, houtput, hdisplaced, -⟩ := h
  cases keys
  simp_all

abbrev Shifts (v : View) (f f' : Forward) : Prop := Touches v (fun _ => Within) f f'

theorem Shifts.refl (v : View) (f : Forward) : Shifts v f f := Touches.refl v (fun _ => .refl) f

theorem Shifts.trans (h : Shifts v f f') (g : Shifts v f' f'') : Shifts v f f'' :=
  Touches.trans h g fun _ _ _ _ => .trans

theorem Still.shifts (h : Still f f') (v : View) : Shifts v f f' := h.touches v fun _ => .refl

theorem touches_setOutput (f : Forward) (i : Nat) (v : View) (code : Code) (held : Bool)
    (hheld : held = true → i < f.devices.length) :
    Touches v (only i fun keys keys' => keys' = setOutputBit code held keys)
      f (f.setOutput i v code held) := by
  have hset : Touches v (only i fun keys keys' => keys' = setOutputBit code held keys) f
      (f.modifyDevice i fun d => d.mapKeys v (setOutputBit code held)) := by
    refine Touches.mapKeys v i f fun hi => ?_
    cases held with
    | false => simp [setOutputBit, setKeyBit]
    | true => exact absurd (hheld rfl) (Nat.not_lt_of_le hi)
  unfold Forward.setOutput
  cases v with
  | enqueued => exact hset
  | applied =>
    dsimp only
    split
    · exact hset.still (still_reconcile ..)
    · split
      · exact hset.still (still_writeClone ..)
      · exact hset

theorem Touches.then_only {r s t : ForwardKeys → ForwardKeys → Prop}
    (h : Touches v (only i r) f f') (g : Touches v (only i s) f' f'')
    (ht : ∀ a b c, r a b → s b c → t a c) : Touches v (only i t) f f'' := by
  refine h.comp g fun j a b c hab hbc => ?_
  unfold only at *
  split at hab
  · rename_i hj
    rw [if_pos hj] at hbc ⊢
    exact ht a b c hab hbc
  · rename_i hj
    rw [if_neg hj] at hbc ⊢
    exact hbc.trans hab

theorem Touches.congr_only {r s : ForwardKeys → ForwardKeys → Prop} (h : Touches v (only i r) f f')
    (hrs : ∀ keys, r ((f.device i).views v) keys → s ((f.device i).views v) keys) :
    Touches v (only i s) f f' := by
  refine ⟨h.epoch, h.nextSerial, h.length, fun j => ?_⟩
  obtain ⟨keys, hkeys, hcore⟩ := h.keys j
  refine ⟨keys, ?_, hcore⟩
  unfold only at *
  split at hkeys
  · rename_i hj
    rw [if_pos hj]
    subst hj
    exact hrs keys hkeys
  · rename_i hj
    rw [if_neg hj]
    exact hkeys

theorem touches_releaseLoop (f : Forward) (i : Nat) (v : View) (codes : List Code) :
    Touches v (only i fun keys keys' =>
        keys' = { keys with output := keys.output \ codes.toFinset }) f
      (codes.foldl (fun f code => f.setOutput i v code false) f) := by
  induction codes generalizing f with
  | nil =>
    refine Touches.refl v (fun j keys => ?_) f
    unfold only
    split <;> simp
  | cons code _ ih =>
    have hset := touches_setOutput f i v code false (nomatch ·)
    refine hset.then_only (ih _) fun a b c hab hbc => ?_
    rw [hbc, hab]
    simp [setOutputBit, setKeyBit, sdiff_insert, erase_sdiff_comm]

theorem touches_releaseOutputs (f : Forward) (i : Nat) (v : View) (keep : KeyBits) :
    Touches v (only i fun keys keys' => keys' = keepOnly keep keys) f
      (f.releaseOutputs i v keep) := by
  have hloop := touches_releaseLoop f i v (setBits (((f.device i).views v).output \ keep))
  have hdisplaced := Touches.mapKeys v i
    ((setBits (((f.device i).views v).output \ keep)).foldl
      (fun f code => f.setOutput i v code false) f)
    (g := fun keys => { keys with displaced := keys.displaced ∩ keep }) fun _ => by simp
  have hcodes : (setBits (((f.device i).views v).output \ keep)).toFinset =
      ((f.device i).views v).output \ keep := by
    ext code
    simp
  have hboth := hloop.then_only hdisplaced
    (t := fun keys keys' => keys' = { keys with
      output := keys.output \ (((f.device i).views v).output \ keep)
      displaced := keys.displaced ∩ keep })
    fun a b c hab hbc => by rw [hbc, hab, hcodes]
  refine hboth.congr_only fun keys hkeys => ?_
  rw [hkeys]
  simp only [keepOnly, sdiff_sdiff_right_self, inf_eq_inter]

def endedKeys (keep : Option KeyBits) (keys : ForwardKeys) : ForwardKeys :=
  { keys with output := keys.output ∩ keep.getD keys.source, displaced := ∅ }

theorem touches_endGrabLocked (f : Forward) (i : Nat) (v : View) (keep : Option KeyBits) :
    Touches v (only i fun keys keys' => keys' = endedKeys keep keys) f
        (f.endGrabLocked i v keep) ∧
      f.targetEpoch < (f.endGrabLocked i v keep).targetEpoch := by
  have hmain : ∀ f₀, Still f f₀ → Touches v (only i fun keys keys' => keys' = endedKeys keep keys) f
        ((f₀.releaseOutputs i v (keep.getD ((f.device i).views v).source)).modifyDevice i fun d =>
          d.mapKeys v fun keys => { keys with displaced := ∅ }) := by
    intro f₀ hstill
    have hstart : Touches v (only i fun keys keys' => keys' = keys) f f₀ := by
      refine hstill.touches v fun j keys => ?_
      unfold only
      split <;> rfl
    have hrelease := touches_releaseOutputs f₀ i v (keep.getD ((f.device i).views v).source)
    have hclear := Touches.mapKeys v i
      (f₀.releaseOutputs i v (keep.getD ((f.device i).views v).source))
      (g := fun keys => { keys with displaced := ∅ }) fun _ => rfl
    have hkept := hstart.then_only hrelease
      (t := fun keys keys' => keys' = keepOnly (keep.getD ((f.device i).views v).source) keys)
      fun a b c hab hbc => by rw [hbc, hab]
    have hended := hkept.then_only hclear
      (t := fun keys keys' => keys' = { keys with
        output := keys.output ∩ keep.getD ((f.device i).views v).source, displaced := ∅ })
      fun a b c hab hbc => by rw [hbc, hab, keepOnly]
    refine hended.congr_only fun keys hkeys => ?_
    rw [hkeys, endedKeys]
  cases v with
  | applied =>
    have hended := hmain _ (still_endOpenReports f i)
    exact ⟨hended.still (.bump _), lt_succ_of_le hended.epoch⟩
  | enqueued =>
    have hended := hmain f (.refl f)
    exact ⟨hended.still (.bump _), lt_succ_of_le hended.epoch⟩

theorem Within.shift (restore : Bool) (keys : ForwardKeys) (code : Code) :
    Within keys (ForwardKeys.shift restore keys code) := by
  by_cases hmem : code ∈ shiftable restore keys
  · unfold shiftable at hmem
    rw [ForwardKeys.shift, if_neg (by simpa using hmem)]
    refine ⟨rfl, fun c hc => ?_, fun c hc => ?_, fun c hc => ?_⟩
    · cases restore with
      | true =>
        rcases mem_insert.mp hc with rfl | hc
        · exact mem_union_right _ hmem
        · exact mem_union_left _ hc
      | false => exact mem_union_left _ (mem_of_mem_erase hc)
    · cases restore with
      | true => exact mem_union_right _ (mem_of_mem_erase hc)
      | false =>
        by_cases hsource : code ∈ keys.source
        · have hc : c ∈ insert code keys.displaced := by simpa [setKeyBit, hsource] using hc
          rcases mem_insert.mp hc with rfl | hc
          · exact mem_union_left _ hmem
          · exact mem_union_right _ hc
        · have hc : c ∈ keys.displaced.erase code := by simpa [setKeyBit, hsource] using hc
          exact mem_union_right _ (mem_of_mem_erase hc)
    · by_cases hsource : code ∈ keys.source
      · by_cases hcode : c = code
        · exact mem_union_right _ (hcode ▸ hsource)
        · refine mem_union_left _ ?_
          cases restore <;> simpa [setKeyBit, hsource, hcode] using hc
      · have hc : c ∈ keys.displaced.erase code := by
          cases restore <;> simpa [setKeyBit, hsource] using hc
        exact mem_union_left _ (mem_of_mem_erase hc)
  · rw [shiftable_shift_of_notMem hmem]
    exact .refl keys

/-- One turn of the loops of `shift_key`. -/
theorem touches_shiftCode (acc : Bool × Forward) (v : View) (restore : Bool) (code : Code)
    (hi : i < acc.2.devices.length) :
    Touches v (only i fun keys keys' => keys' = shift restore keys code) acc.2
      (Forward.shiftCode v restore i acc code).2 := by
  unfold Forward.shiftCode
  by_cases hmem : code ∈ shiftable restore ((acc.2.device i).views v)
  · have hdisplaced := Touches.mapKeys v i acc.2
      (g := fun keys =>
        { keys with displaced := setKeyBit keys.displaced code (!restore && code ∈ keys.source) })
      fun hle => absurd hi (Nat.not_lt_of_le hle)
    have hset := touches_setOutput (acc.2.modifyDevice i fun d => d.mapKeys v fun keys =>
      { keys with displaced := setKeyBit keys.displaced code (!restore && code ∈ keys.source) })
      i v code restore fun _ => hdisplaced.length ▸ hi
    have hboth := hdisplaced.then_only hset (t := fun keys keys' =>
        keys' = { keys with
          displaced := setKeyBit keys.displaced code (!restore && code ∈ keys.source)
          output := setKeyBit keys.output code restore })
      fun a b c hab hbc => by rw [hbc, hab, setOutputBit]
    unfold shiftable at hmem
    simp only [hmem]
    refine hboth.congr_only fun keys hkeys => ?_
    rw [shift, if_neg (by simpa using hmem), hkeys]
  · have hsame : Touches v (only i fun keys keys' => keys' = keys) acc.2 acc.2 :=
      Touches.refl v (fun j keys => by simp [only]) acc.2
    have hskip : code ∉ (if restore then ((acc.2.device i).views v).displaced
        else ((acc.2.device i).views v).output) := hmem
    rw [if_pos hskip]
    refine hsame.congr_only fun keys hkeys => ?_
    rw [hkeys, shiftable_shift_of_notMem hmem]

theorem touches_shiftSlot (acc : Bool × Forward) (v : View) (restore : Bool) (codes : List Code)
    (hi : i < acc.2.devices.length) :
    Touches v (only i fun keys keys' => keys' = codes.foldl (shift restore) keys) acc.2
      (codes.foldl (Forward.shiftCode v restore i) acc).2 := by
  induction codes generalizing acc with
  | nil => exact Touches.refl v (fun j keys => by simp [only]) acc.2
  | cons code _ ih =>
    have hfirst := touches_shiftCode acc v restore code hi
    exact hfirst.then_only (ih _ (hfirst.length ▸ hi)) fun a b c hab hbc => by
      rw [hbc, hab, foldl_cons]

/-- What `shift_key` does to the keys of each source. -/
theorem touches_shiftKey (f : Forward) (code : Code) (v : View) (restore : Bool) :
    Touches v (fun i keys keys' => keys' = if (f.device i).live then
      (codesOf code).foldl (shift restore) keys else keys) f
      (f.shiftKey code v restore).2 := by
  have hslots : ∀ (l : List Nat) (acc : Bool × Forward), l.Nodup →
      Touches v (fun i keys keys' => keys' = if i ∈ l ∧ (acc.2.device i).live then
        (codesOf code).foldl (shift restore) keys else keys) acc.2
        (l.foldl (fun acc i => if (acc.2.device i).live then
          (codesOf code).foldl (Forward.shiftCode v restore i) acc else acc) acc).2 := by
    intro l
    induction l with
    | nil => exact fun acc _ => Touches.refl v (fun i keys => by simp) acc.2
    | cons i l ih =>
      intro acc hn
      obtain ⟨hi, hn⟩ := nodup_cons.mp hn
      have hfirst : Touches v (only i fun keys keys' => keys' = if (acc.2.device i).live then
          (codesOf code).foldl (shift restore) keys else keys) acc.2
          (if (acc.2.device i).live then
            (codesOf code).foldl (Forward.shiftCode v restore i) acc else acc).2 := by
        split
        · exact touches_shiftSlot acc v restore (codesOf code) (lt_length_of_live ‹_›)
        · exact Touches.refl v (fun j keys => by simp [only]) acc.2
      refine hfirst.comp (ih _ hn) fun j a b c hab hbc => ?_
      rw [hbc, hfirst.live j]
      unfold only at hab
      split at hab
      · rename_i hj
        rw [if_neg fun h => hi (hj ▸ h.1), hab, hj]
        simp
      · rename_i hj
        rw [hab]
        simp [hj]
  refine (hslots (List.range f.devices.length) (false, f) nodup_range).mono
    fun i keys keys' hkeys => hkeys.trans (if_congr ⟨fun h => h.2, fun h => ⟨?_, h⟩⟩ rfl rfl)
  exact List.mem_range.mpr (lt_length_of_live h)

theorem shifts_shiftKey (f : Forward) (code : Code) (v : View) (restore : Bool) :
    Shifts v f (f.shiftKey code v restore).2 := by
  refine (touches_shiftKey f code v restore).mono fun i keys keys' hkeys => ?_
  rw [hkeys]
  split
  · exact foldlRecOn (motive := Within keys) _ _ (.refl keys)
      fun _ h c _ => h.trans (.shift restore _ c)
  · exact .refl keys

theorem Shifts.foldl {α β : Type} (forward : β → Forward) {turn : β → α → β} (l : List α)
    (hturn : ∀ b a, Shifts v (forward b) (forward (turn b a))) (b : β) :
    Shifts v (forward b) (forward (l.foldl turn b)) := by
  induction l generalizing b with
  | nil => exact .refl v _
  | cons a l ih => exact (hturn b a).trans (ih (turn b a))

theorem Within.keepOnly (keep : KeyBits) (keys : ForwardKeys) : Within keys (keepOnly keep keys) :=
  ⟨rfl, inter_subset_left.trans subset_union_left, inter_subset_left.trans subset_union_right,
    inter_subset_left.trans subset_union_left⟩

theorem shifts_forwardReleaseAll (f : Forward) (v : View) : Shifts v f (f.forwardReleaseAll v) := by
  refine Shifts.foldl (fun f => f) (List.range f.devices.length) (fun f i => ?_) f
  split
  · refine (touches_releaseOutputs f i v ∅).mono fun j keys keys' hkeys => ?_
    unfold only at hkeys
    split at hkeys
    · exact hkeys ▸ .keepOnly ∅ keys
    · exact hkeys ▸ .refl keys
  · exact .refl v f

theorem lt_length_of_findDevice {target : Nat} (h : f.findDevice target v = some i) :
    i < f.devices.length := by
  obtain ⟨hslot, htarget, -⟩ := findDevice_eq_some h
  exact lt_length_of_target (by rw [htarget]; exact ne_zero_of_slotOf hslot)

theorem touches_noteKeys (f : Forward) (packet : ForwardPacket) (v : View) (source : Bool) :
    Touches v (fun i keys keys' => keys' = keys ∨ f.findDevice packet.target v = some i ∧
      keys' = packet.events.foldl (note source) keys) f
      (f.noteKeys packet v source) := by
  have hsame : Touches v (fun i keys keys' => keys' = keys ∨ f.findDevice packet.target v = some i ∧
        keys' = packet.events.foldl (note source) keys) f f :=
    Touches.refl v (fun _ _ => .inl rfl) f
  unfold Forward.noteKeys
  split
  · exact hsame
  cases hfind : f.findDevice packet.target v with
  | none =>
    rw [hfind] at hsame
    exact hsame
  | some i =>
    have hmap := Touches.mapKeys v i f
      (g := fun keys => packet.events.foldl (note source) keys)
      fun hle => absurd (lt_length_of_findDevice hfind) (Nat.not_lt_of_le hle)
    refine hmap.mono fun j keys keys' hkeys => ?_
    unfold only at hkeys
    split at hkeys
    · rename_i hj
      exact .inr ⟨congrArg some hj.symm, hkeys⟩
    · exact .inl hkeys

def own (f : Forward) (target : Nat) (v : View) (i : Nat) (keys keys' : ForwardKeys) : Prop :=
  f.findDevice target v = some i ∧ (keys.Restorable → keys'.Restorable) ∨ keys' = keys

theorem own_trans {target : Nat} (i : Nat) (a b c : ForwardKeys) (hab : f.own target v i a b)
    (hbc : f.own target v i b c) : f.own target v i a c := by
  rcases hab with ⟨hfind, hab⟩ | rfl
  · rcases hbc with ⟨-, hbc⟩ | rfl
    · exact .inl ⟨hfind, fun ha => hbc (hab ha)⟩
    · exact .inl ⟨hfind, hab⟩
  · exact hbc

theorem touches_own_of_only {target : Nat} (hfind : f.findDevice target v = some i)
    (h : Touches v (only i fun keys keys' => keys.Restorable → keys'.Restorable) f' f'') :
    Touches v (f.own target v) f' f'' := by
  refine h.mono fun j keys keys' hkeys => ?_
  unfold only at hkeys
  split at hkeys
  · rename_i hj
    exact .inl ⟨hj ▸ hfind, hkeys⟩
  · exact .inr hkeys

theorem still_writeRepress (f : Forward) (packet : ForwardPacket) :
    Still f (f.writeRepress packet).2 := by
  unfold Forward.writeRepress
  split
  · exact still_writeSink ..
  · exact .refl f

variable (d : ForwardingDevice)

theorem core_expandWheel (events : List InputEvent) : (expandWheel d events).1.core = d.core := by
  induction events generalizing d with
  | nil => rfl
  | cons _ _ ih =>
    unfold expandWheel
    dsimp only
    split_ifs <;> rw [ih] <;> rfl

theorem touches_modifyDevice {change : ForwardingDevice → ForwardingDevice} (keys : ForwardKeys)
    (hi : i < f.devices.length)
    (hchange : (change (f.device i)).core = ((f.device i).withKeys v keys).core) :
    Touches v (only i fun _ keys' => keys' = keys) f (f.modifyDevice i change) := by
  refine ⟨le_refl _, rfl, by simp [Forward.modifyDevice], fun j => ?_⟩
  rw [device_congr hi]
  by_cases hj : j = i
  · subst hj
    exact ⟨keys, by simp [only], by rw [if_pos rfl, hchange]⟩
  · exact ⟨(f.device j).views v, by simp [only, hj], by
      rw [if_neg hj, withKeys_self]⟩

theorem touches_writeCloneReport (f : Forward) (packet : ForwardPacket) (events : List InputEvent)
    (hi : i < f.devices.length) :
    Touches .applied (only i fun keys keys' => keys.Restorable → keys'.Restorable) f
      (f.writeCloneReport i packet events).2 := by
  have hwrite := still_writeClone f i events
  have hstart : Touches .applied (only i fun keys keys' => keys.Restorable → keys'.Restorable) f
      (f.writeClone i events).2 := by
    refine hwrite.touches .applied fun j keys => ?_
    unfold only
    split
    · exact id
    · rfl
  refine hstart.then_only (s := fun keys keys' => keys.Restorable → keys'.Restorable)
    ((touches_modifyDevice { ((f.writeClone i events).2.device i).views .applied with
      output := noteWrittenKeys (((f.writeClone i events).2.device i).views .applied).output events
        (f.writeClone i events).1 } (hwrite.length ▸ hi) ?_).congr_only
      fun _ hkeys h => hkeys ▸ h) fun _ _ _ hab hbc ha => hbc (hab ha)
  rfl

theorem touches_writeSinkReport (f : Forward) (packet : ForwardPacket) (events : List InputEvent)
    (hi : i < f.devices.length) :
    Touches .applied (only i fun keys keys' => keys.Restorable → keys'.Restorable) f
      (f.writeSinkReport i packet events).2 := by
  have hset : Touches .applied (only i fun keys keys' => keys.Restorable → keys'.Restorable) f
      (f.modifyDevice i fun d => d.mapKeys .applied (packetOutput packet)) := by
    refine (Touches.mapKeys .applied i f fun hle => absurd hi (Nat.not_lt_of_le hle)).congr_only
      fun keys hkeys h => ?_
    rw [hkeys, packetOutput]
    split
    · split <;> exact h
    · exact h
  unfold Forward.writeSinkReport
  generalize f.modifyDevice i _ = f' at *
  generalize packet.key.any _ = repress
  have hrepress : Still f' (if repress then f'.writeRepress packet else (true, f')).2 := by
    split
    · exact still_writeRepress f' packet
    · exact .refl f'
  dsimp only
  split
  · exact hset
  generalize (if repress then f'.writeRepress packet else (true, f')) = r at *
  obtain ⟨ok, f₁⟩ := r
  have hwrite : Still f₁ (if ok then f₁.writeSink events else (false, f₁)).2 := by
    split
    · exact still_writeSink f₁ events
    · exact .refl f₁
  exact hset.still (hrepress.trans (hwrite.trans (Still.modifyDevice _ i fun _ => rfl)))

theorem touches_forwardWrite (f : Forward) (packet : ForwardPacket) :
    Touches .applied (f.own packet.target .applied) f (f.forwardWrite packet).2 := by
  have hsame : Touches .applied (f.own packet.target .applied) f f :=
    Touches.refl .applied (fun _ _ => .inr rfl) f
  unfold Forward.forwardWrite
  split
  · exact hsame
  split
  · exact hsame
  rename_i i hfind
  dsimp only
  split
  · exact hsame
  split
  · split
    · split
      · exact hsame
      · exact hsame.still (still_reconcile ..)
    · exact hsame
  have hi := lt_length_of_findDevice hfind
  have hwheel : Still f (f.modifyDevice i fun _ =>
      (expandWheel (f.device i) packet.events).1) := by
    refine ⟨le_refl _, rfl, by simp [Forward.modifyDevice], fun j => ?_⟩
    rw [device_congr hi]
    split
    · rename_i hj
      rw [core_expandWheel, hj]
    · rfl
  have hi' := hwheel.length ▸ hi
  have hstart := hwheel.touches .applied (R := f.own packet.target .applied)
    fun _ _ => .inr rfl
  split
  · exact hstart.trans (touches_own_of_only hfind
      (touches_writeCloneReport _ packet _ hi')) own_trans
  · exact hstart.trans (touches_own_of_only hfind
      (touches_writeSinkReport _ packet _ hi')) own_trans

structure Alters (i : Nat) (d : ForwardingDevice) (f f' : Forward) : Prop where
  length : f'.devices.length ≤ maxForwardingDevices
  core : ∀ j, (f'.device j).core = if j = i then d.core else (f.device j).core
  outlives : Outlives f f'

theorem Alters.wellFormed {d : ForwardingDevice} (h : Alters i d f f') (hf : WellFormed f)
    (hserial : f.nextSerial ≤ f'.nextSerial) (hd : d.Ok f'.nextSerial i) : WellFormed f' := by
  refine ⟨lt_of_lt_of_le hf.serial hserial, h.length, fun j => ?_⟩
  have hcore := h.core j
  split at hcore
  · rename_i hj
    subst hj
    exact hd.of_core hcore
  · exact ((hf.device j).mono hserial).of_core hcore

def ended (v : View) (next : Nat) (keep : Option KeyBits) : ForwardingDevice :=
  (d.withKeys v (endedKeys keep (d.views v))).retarget v next

@[simp]
theorem ended_target_self (v : View) (next : Nat) (keep : Option KeyBits) :
    (ended d v next keep).target v = next := by
  simp [ended, retarget]

theorem ended_target_of_ne {v w : View} (next : Nat)
    (keep : Option KeyBits) (h : w ≠ v) : (ended d v next keep).target w = d.target w := by
  simp [ended, retarget, withKeys, h]

section

variable (hf : WellFormed f)

include hf

theorem alters_endGrab (hi : i < f.devices.length) (v : View) (next : Nat) (keep : Option KeyBits) :
    Alters i (ended (f.device i) v next keep) f ((f.endGrabLocked i v keep).setTarget i v next) ∧
      ((f.endGrabLocked i v keep).setTarget i v next).nextSerial = f.nextSerial := by
  obtain ⟨hended, hepoch⟩ := touches_endGrabLocked f i v keep
  generalize f.endGrabLocked i v keep = f' at *
  refine ⟨⟨?_, fun j => ?_, .of_lt hepoch⟩, hended.nextSerial⟩
  · simpa [setTarget, modifyDevice, hended.length] using hf.length
  rw [device_setTarget (hended.length ▸ hi)]
  obtain ⟨keys, hkeys, hcore⟩ := hended.keys j
  by_cases hj : j = i
  · subst hj
    have hkeys : keys = endedKeys keep ((f.device j).views v) := by simpa [only] using hkeys
    rw [if_pos rfl, if_pos rfl, ended, ← hkeys]
    have hretarget : ∀ d : ForwardingDevice, (d.retarget v next).core = d.core.retarget v next :=
      fun _ => rfl
    rw [hretarget, hcore, hretarget]
  · have hkeys : keys = (f.device j).views v := by simpa [only, hj] using hkeys
    rw [if_neg hj, if_neg hj, hcore, hkeys, withKeys_self]

theorem forwardEndGrab_of_find {target : Nat} (hfind : f.findDevice target .enqueued = some i) :
    (f.forwardEndGrab target).1 = f.newTarget i ∧
      (f.forwardEndGrab target).2.1 = ((f.device i).views .enqueued).source ∧
      Alters i (ended (f.device i) .enqueued (f.newTarget i) none) f (f.forwardEndGrab target).2.2 ∧
      (f.forwardEndGrab target).2.2.nextSerial = f.nextSerial + 1 := by
  have hi := lt_length_of_findDevice hfind
  have hserial := (touches_endGrabLocked f i .enqueued none).1.nextSerial
  have hnext : (f.endGrabLocked i .enqueued none).newTarget i = f.newTarget i := by
    unfold newTarget
    rw [hserial]
  obtain ⟨halters, -⟩ := alters_endGrab hf hi .enqueued (f.newTarget i) none
  unfold forwardEndGrab
  rw [hfind]
  dsimp only
  rw [hnext]
  generalize f.endGrabLocked i .enqueued none = f' at *
  exact ⟨rfl, rfl, ⟨halters.length, halters.core, halters.outlives.1, halters.outlives.2⟩,
    congrArg (· + 1) hserial⟩

theorem forwardApplyEndGrab_cases (next : Nat) (held : Option KeyBits) :
    f.forwardApplyEndGrab next held = f ∨ ∃ i, slotOf next = some i ∧ (f.device i).live = true ∧
        (f.device i).target .applied < next ∧
        Alters i (ended (f.device i) .applied next held) f (f.forwardApplyEndGrab next held) ∧
        (f.forwardApplyEndGrab next held).nextSerial = f.nextSerial := by
  unfold forwardApplyEndGrab
  cases hslot : slotOf next with
  | none => exact .inl rfl
  | some i =>
    dsimp only
    split
    · rename_i hcond
      simp only [Bool.and_eq_true, decide_eq_true_eq] at hcond
      exact .inr ⟨i, rfl, hcond.1, hcond.2,
        alters_endGrab hf (lt_length_of_live hcond.1) .applied next held⟩
    · exact .inl rfl

theorem alters_modifyDevice (hi : i < f.devices.length) (g : ForwardingDevice → ForwardingDevice) :
    Alters i (g (f.device i)) f { f.modifyDevice i g with targetEpoch := f.targetEpoch + 1 } := by
  refine ⟨by simpa [modifyDevice] using hf.length, fun j => ?_, .of_lt (lt_succ_self _)⟩
  have hdevice : ({ f.modifyDevice i g with targetEpoch := f.targetEpoch + 1 } : Forward).device j =
      if j = i then g (f.device i) else f.device j := device_congr hi j
  rw [hdevice]
  split <;> rfl

theorem forwardClose_of_find {target : Nat} (hfind : f.findDevice target .enqueued = some i) :
    Alters i (closed (f.device i)) f (f.forwardClose target) ∧
      (f.forwardClose target).nextSerial = f.nextSerial := by
  have halters := alters_modifyDevice hf (lt_length_of_findDevice hfind) closed
  unfold forwardClose
  rw [hfind]
  exact ⟨halters, rfl⟩

end

theorem core_retired {d d' : ForwardingDevice} {keys : ForwardKeys} (now : Nat)
    (h : d'.core = (d.withKeys v keys).core) : (retired d' now).core = (retired d now).core := by
  have hcore : ∀ d : ForwardingDevice, (retired d now).core = retired d.core now := by
    intro d
    unfold retired
    have houtput : d.core.output = d.output := rfl
    rw [houtput]
    split <;> rfl
  rw [hcore, hcore, h]
  rfl

theorem forwardApplyClose_cases (hf : WellFormed f) (target now : Nat) :
    f.forwardApplyClose target now = f ∧ (∀ i, slotOf target = some i → f.closes i = false) ∨
      ∃ i, slotOf target = some i ∧ f.closes i = true ∧
        Alters i (retired (f.device i) now) f (f.forwardApplyClose target now) ∧
        (f.forwardApplyClose target now).nextSerial = f.nextSerial := by
  unfold forwardApplyClose
  cases hslot : slotOf target with
  | none => exact .inl ⟨rfl, by simp⟩
  | some i =>
    dsimp only
    split
    · rename_i hcloses
      have hlive : (f.device i).live = true := (Bool.and_eq_true_iff.mp hcloses).2
      have hreports := still_endOpenReports f i
      have hrelease := touches_releaseOutputs (f.endOpenReports i) i .applied ∅
      have hlength := hrelease.length.trans hreports.length
      have hserial := hrelease.nextSerial.trans hreports.nextSerial
      have hepoch := hreports.epoch.trans hrelease.epoch
      have hother : ∀ j, j ≠ i →
          (((f.endOpenReports i).releaseOutputs i .applied ∅).device j).core =
            (f.device j).core := by
        intro j hj
        obtain ⟨keys, hkeys, hcore⟩ := hrelease.keys j
        have hkeys : keys = ((f.endOpenReports i).device j).views .applied := by
          simpa [only, hj] using hkeys
        rw [hcore, hkeys, withKeys_self, hreports.core]
      obtain ⟨keys, -, hcore⟩ := hrelease.keys i
      have hcore : (((f.endOpenReports i).releaseOutputs i .applied ∅).device i).core =
          ((f.device i).withKeys .applied keys).core := by
        rw [hcore, core_withKeys, hreports.core, core_withKeys]
      generalize (f.endOpenReports i).releaseOutputs i .applied ∅ = f' at *
      have hi : i < f'.devices.length := hlength ▸ lt_length_of_live hlive
      refine .inr ⟨i, rfl, hcloses, ⟨by simpa [modifyDevice, hlength] using hf.length,
        fun j => ?_, .of_lt (lt_succ_of_le hepoch)⟩, hserial⟩
      have hdevice : ({ f'.modifyDevice i fun d => retired d now with
          targetEpoch := f'.targetEpoch + 1 } : Forward).device j =
          if j = i then retired (f'.device i) now else f'.device j := device_congr hi j
      refine (congrArg core hdevice).trans ?_
      by_cases hj : j = i
      · rw [if_pos hj, if_pos hj, core_retired now hcore]
      · rw [if_neg hj, if_neg hj, hother j hj]
    · rename_i hstays
      exact .inl ⟨rfl, fun j hj => Option.some.inj hj ▸ Bool.eq_false_iff.mpr hstays⟩

end Forward

end KeysharpInput.Output
