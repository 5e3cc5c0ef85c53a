import KeysharpInput.SynthFrames

/-!
What a step at the output side does to the sources.
Most steps leave every source in its place and change only keys. A source keeps its place in the
enqueued view until the reader ends its grab or closes it: what drains later moves or retires the
written view only, and a slot is taken again only once it was freed.
-/

namespace KeysharpInput.Output

open Forward List Finset Backend ForwardKeys Option Nat Bool ForwardingDevice

namespace Forward

variable {f f' f'' : Forward} {v : View} {i target : Nat} {P Q E C : Nat → Prop}
  {d : ForwardingDevice}

structure Reshapes (v : View) (f f' : Forward) : Prop where
  touches : Touches v (fun _ _ _ => True) f f'
  wellFormed : WellFormed f → WellFormed f'

theorem Reshapes.trans (h : Reshapes v f f') (g : Reshapes v f' f'') : Reshapes v f f'' :=
  ⟨h.touches.trans g.touches fun _ _ _ _ _ _ => trivial, fun hf => g.wellFormed (h.wellFormed hf)⟩

theorem Shifts.reshapes (h : Shifts v f f') : Reshapes v f f' :=
  ⟨h.mono fun _ _ _ _ => trivial, fun hf =>
    h.wellFormed hf (fun _ _ _ hkeys => hkeys.empty) fun _ _ _ hkeys => hkeys.restorable⟩

theorem reshapes_of_own (h : Touches v (f.own target v) f f') : Reshapes v f f' := by
  refine ⟨h.mono fun _ _ _ _ => trivial, fun hf => h.wellFormed hf (fun i keys hzero hkeys => ?_)
    fun i keys keys' hkeys hrestorable => ?_⟩
  · rcases hkeys with ⟨hfind, -⟩ | hsame
    · obtain ⟨hslot, htarget, -⟩ := findDevice_eq_some hfind
      exact absurd (htarget.symm.trans hzero) (ne_zero_of_slotOf hslot)
    · exact hsame
  · rcases hkeys with ⟨-, hkeys⟩ | rfl
    · exact hkeys hrestorable
    · exact hrestorable

theorem restorable_note (source : Bool) (keys : ForwardKeys) (e : InputEvent)
    (h : keys.Restorable) : (keys.note source e).Restorable := by
  unfold Restorable note at *
  cases e.key with
  | none => exact h
  | some code =>
    split_ifs with hrepeat hsource hzero
    · exact h
    · simpa [setKeyBit, hzero] using erase_subset_erase code h
    · simpa [setKeyBit, hzero] using h.trans (subset_insert code _)
    · exact h

theorem own_noteKeys (f : Forward) (packet : ForwardPacket) (v : View) (source : Bool) :
    Touches v (f.own packet.target v) f (f.noteKeys packet v source) :=
  (touches_noteKeys f packet v source).mono fun _ _ _ hkeys =>
    hkeys.elim .inr fun hfind => .inl ⟨hfind.1, fun h => hfind.2 ▸
      foldlRecOn _ _ h fun keys hkeys e _ => restorable_note source keys e hkeys⟩

/-- Every source of the enqueued view keeps its place there. Packets change the keys of the
targets in `P`; other keys change by displacement and release only. -/
structure Keeps (P : Nat → Prop) (f f' : Forward) : Prop where
  wellFormed : WellFormed f'
  serial : f.nextSerial ≤ f'.nextSerial
  find : ∀ target i, f.findDevice target .enqueued = some i →
    f'.findDevice target .enqueued = some i
  keys : ∀ target i, f.findDevice target .enqueued = some i → ¬ P target →
    Within ((f.device i).views .enqueued) ((f'.device i).views .enqueued)

theorem Keeps.refl (P : Nat → Prop) (hf : WellFormed f) : Keeps P f f :=
  ⟨hf, le_refl _, fun _ _ h => h, fun _ _ _ _ => .refl _⟩

theorem Keeps.trans (h : Keeps P f f') (g : Keeps P f' f'') : Keeps P f f'' :=
  ⟨g.wellFormed, h.serial.trans g.serial,
    fun target i hfind => g.find target i (h.find target i hfind),
    fun target i hfind hP =>
      (h.keys target i hfind hP).trans (g.keys target i (h.find target i hfind) hP)⟩

theorem Keeps.mono (h : Keeps P f f') (hPQ : ∀ target, P target → Q target) : Keeps Q f f' :=
  ⟨h.wellFormed, h.serial, h.find, fun target i hfind hQ =>
    h.keys target i hfind fun hP => hQ (hPQ target hP)⟩

/-- The written target of a slot that is in use moves on to one of the targets in `E`. -/
structure Advances (E : Nat → Prop) (i : Nat) (f f' : Forward) : Prop where
  open_ : (f.device i).isOpen = true
  lt : (f.device i).target .applied < (f'.device i).target .applied
  next : E ((f'.device i).target .applied)

/-- Every source keeps its place in the enqueued view, and no slot is taken. A slot's written
target only grows, to targets in `E`, and a close that is under way stays so except in `C`. -/
structure Lasts (P E C : Nat → Prop) (f f' : Forward) : Prop extends Keeps P f f' where
  outlives : Outlives f f'
  ages : ∀ i, (f'.device i).isOpen = true →
    (f.device i).isOpen = true ∧ (f.device i).target .applied ≤ (f'.device i).target .applied
  targets : ∀ i v, (f'.device i).target v = (f.device i).target v ∨
    (f'.device i).target v = 0 ∨ v = .applied ∧ Advances E i f f'
  closes : ∀ i, ¬ C i → f.closes i = true → f'.closes i = true
  lives : ∀ i, (f'.device i).live = true → (f.device i).live = true

theorem Lasts.refl (P E C : Nat → Prop) (hf : WellFormed f) : Lasts P E C f f :=
  ⟨.refl P hf, .refl f, fun _ hopen => ⟨hopen, le_refl _⟩, fun _ _ => .inl rfl, fun _ _ h => h,
    fun _ h => h⟩

theorem Lasts.trans (h : Lasts P E C f f') (g : Lasts P E C f' f'') : Lasts P E C f f'' := by
  refine ⟨h.toKeeps.trans g.toKeeps, h.outlives.trans g.outlives, fun i hopen => ?_, fun i v => ?_,
    fun i hC hcloses => g.closes i hC (h.closes i hC hcloses),
    fun i hlive => h.lives i (g.lives i hlive)⟩
  · obtain ⟨hopen', hle'⟩ := g.ages i hopen
    obtain ⟨hopen'', hle⟩ := h.ages i hopen'
    exact ⟨hopen'', hle.trans hle'⟩
  rcases g.targets i v with hsame | hzero | ⟨rfl, hnext⟩
  · rw [hsame]
    rcases h.targets i v with hsame' | hzero' | ⟨rfl, hnext'⟩
    · exact .inl hsame'
    · exact .inr (.inl hzero')
    · exact .inr (.inr ⟨rfl, hnext'.open_, hsame ▸ hnext'.lt, hsame ▸ hnext'.next⟩)
  · exact .inr (.inl hzero)
  · obtain ⟨hopen, hle⟩ := h.ages i hnext.open_
    exact .inr (.inr ⟨rfl, hopen, hle.trans_lt hnext.lt, hnext.next⟩)

theorem Lasts.mono {E' C' : Nat → Prop} (h : Lasts P E C f f') (hP : ∀ target, P target → Q target)
    (hE : ∀ next, E next → E' next) (hC : ∀ i, C i → C' i) : Lasts Q E' C' f f' :=
  ⟨h.toKeeps.mono hP, h.outlives, h.ages, fun i v => (h.targets i v).imp_right fun hrest =>
    hrest.imp_right fun hnext => ⟨hnext.1, hnext.2.open_, hnext.2.lt, hE _ hnext.2.next⟩,
    fun i hC' => h.closes i fun hi => hC' (hC i hi), h.lives⟩

theorem Keeps.lasts {R : Nat → ForwardKeys → ForwardKeys → Prop} (hkeeps : Keeps P f f')
    (h : Touches v R f f') (E C : Nat → Prop) : Lasts P E C f f' := by
  refine ⟨hkeeps, h.outlives, fun i hopen => ⟨(h.isOpen i).symm.trans hopen, ?_⟩,
    fun i w => .inl (congrFun (h.target i) w), fun i _ hcloses => ?_,
    fun i hlive => (h.live i).symm.trans hlive⟩
  · rw [h.target i]
  · unfold Forward.closes at hcloses ⊢
    rwa [h.closing i, h.live i]

theorem Reshapes.lasts (h : Reshapes .applied f f') (hf : WellFormed f) (P E C : Nat → Prop) :
    Lasts P E C f f' := by
  refine Keeps.lasts ⟨h.wellFormed hf, h.touches.nextSerial.ge, fun target i hfind => ?_,
    fun target i _ _ => ?_⟩ h.touches E C
  · rw [h.touches.findDevice]
    exact hfind
  · rw [h.touches.views_of_ne (by decide)]
    exact .refl _

theorem Shifts.lasts (h : Shifts v f f') (hf : WellFormed f) (P E C : Nat → Prop) :
    Lasts P E C f f' := by
  cases v with
  | applied => exact h.reshapes.lasts hf P E C
  | enqueued =>
    refine Keeps.lasts ⟨h.reshapes.wellFormed hf, h.nextSerial.ge, fun target i hfind => ?_,
      fun target i _ _ => h.views i⟩ h E C
    rw [h.findDevice]
    exact hfind

theorem lasts_of_own (h : Touches .enqueued (f.own target .enqueued) f f') (hf : WellFormed f)
    (E C : Nat → Prop) : Lasts (· = target) E C f f' := by
  refine Keeps.lasts ⟨(reshapes_of_own h).wellFormed hf, h.nextSerial.ge, fun other i hfind => ?_,
    fun other i hfind hother => ?_⟩ h E C
  · rw [h.findDevice]
    exact hfind
  rcases h.views i with ⟨hown, -⟩ | hsame
  · obtain ⟨-, hone, -⟩ := findDevice_eq_some hfind
    obtain ⟨-, htwo, -⟩ := findDevice_eq_some hown
    exact absurd (hone.symm.trans htwo) hother
  · rw [hsame]
    exact .refl _

theorem WellFormed.closing_of_find (hf : WellFormed f)
    (hfind : f.findDevice target .enqueued = some i) : (f.device i).closing = false := by
  obtain ⟨hslot, htarget, -⟩ := findDevice_eq_some hfind
  have hopen : (f.device i).isOpen = true := (and_eq_true_iff.mp (hf.live_of_find hfind)).1
  by_contra hclosing
  have hzero := ((hf.device i).enqueued hopen).mpr (by simpa using hclosing)
  exact ne_zero_of_slotOf hslot (htarget.symm.trans hzero)

section

variable (h : Alters i d f f')

include h

theorem Alters.field {α : Type} (p : ForwardingDevice → α) (hp : ∀ d, p d.core = p d) (j : Nat) :
    p (f'.device j) = if j = i then p d else p (f.device j) := by
  have hcore := h.core j
  split_ifs at hcore ⊢
  · exact field_of_core p hp hcore
  · exact field_of_core p hp hcore

theorem Alters.findDevice {j : Nat} (hslot : slotOf target = some j)
    (hj : j ≠ i) (v : View) : f'.findDevice target v = f.findDevice target v := by
  have htarget := h.field (·.target) (fun _ => rfl) j
  have hretiring := h.field (·.retiring) (fun _ => rfl) j
  rw [if_neg hj] at htarget hretiring
  unfold Forward.findDevice
  rw [hslot]
  simp only [filter_some, htarget, hretiring]

theorem Alters.views {j : Nat} (hj : j ≠ i) : (f'.device j).views = (f.device j).views := by
  rw [h.field (·.views) (fun _ => rfl) j, if_neg hj]

theorem Alters.closes (j : Nat) : f'.closes j = if j = i then d.closing && d.live else f.closes j :=
  h.field (fun d => d.closing && d.live) (fun _ => rfl) j

theorem Alters.keeps (hf' : WellFormed f') (hserial : f.nextSerial ≤ f'.nextSerial) (P : Nat → Prop)
    (hd : ∀ target, f.findDevice target .enqueued = some i →
      d.target .enqueued = target ∧ d.retiring = false ∧
        Within ((f.device i).views .enqueued) (d.views .enqueued)) : Keeps P f f' := by
  refine ⟨hf', hserial, fun target j hfind => ?_, fun target j hfind _ => ?_⟩
  · obtain ⟨hslot, -, -⟩ := findDevice_eq_some hfind
    by_cases hj : j = i
    · subst hj
      obtain ⟨htarget, hretiring, -⟩ := hd target hfind
      have htarget' := h.field (·.target .enqueued) (fun _ => rfl) j
      have hretiring' := h.field (·.retiring) (fun _ => rfl) j
      unfold Forward.findDevice
      rw [hslot]
      simp [htarget', hretiring', htarget, hretiring]
    · rw [h.findDevice hslot hj]
      exact hfind
  · by_cases hj : j = i
    · subst hj
      rw [h.field (·.views) (fun _ => rfl) j, if_pos rfl]
      exact (hd target hfind).2.2
    · rw [h.views hj]
      exact .refl _

theorem Alters.lasts (hkeeps : Keeps P f f') (hages : d.isOpen = true →
      (f.device i).isOpen = true ∧ (f.device i).target .applied ≤ d.target .applied)
    (htargets : ∀ v, d.target v = (f.device i).target v ∨ d.target v = 0 ∨
      v = .applied ∧ (f.device i).isOpen = true ∧
        (f.device i).target .applied < d.target .applied ∧ E (d.target .applied))
    (hcloses : ¬ C i → f.closes i = true → (d.closing && d.live) = true)
    (hlives : (f.device i).live = true) : Lasts P E C f f' := by
  refine ⟨hkeeps, h.outlives, fun j hopen => ?_, fun j v => ?_, fun j hC hj => ?_,
    fun j hlive => ?_⟩
  · rw [h.field (·.isOpen) (fun _ => rfl) j] at hopen
    rw [h.field (·.target .applied) (fun _ => rfl) j]
    by_cases hj : j = i
    · subst hj
      rw [if_pos rfl] at hopen ⊢
      exact hages hopen
    · rw [if_neg hj] at hopen ⊢
      exact ⟨hopen, le_refl _⟩
  · have htarget := h.field (·.target) (fun _ => rfl) j
    by_cases hj : j = i
    · subst hj
      rw [if_pos rfl] at htarget
      rcases htargets v with hsame | hzero | ⟨rfl, hopen, hlt, hnext⟩
      · exact .inl (htarget ▸ hsame)
      · exact .inr (.inl (htarget ▸ hzero))
      · exact .inr (.inr ⟨rfl, hopen, htarget ▸ hlt, htarget ▸ hnext⟩)
    · rw [if_neg hj] at htarget
      exact .inl (congrFun htarget v)
  · rw [h.closes j]
    by_cases hji : j = i
    · subst hji
      rw [if_pos rfl]
      exact hcloses hC hj
    · rw [if_neg hji]
      exact hj
  · rw [h.field (·.live) (fun _ => rfl) j] at hlive
    by_cases hji : j = i
    · exact hji ▸ hlives
    · rwa [if_neg hji] at hlive

end

theorem ok_ended {n next : Nat} {keep : Option KeyBits} (hd : d.Ok n i) (hopen : d.isOpen = true)
    (hslot : slotOf next = some i) (hnext : next < n * 256)
    (hv : v = .enqueued → d.closing = false) (htarget : d.target v ≠ 0) :
    (ended d v next keep).Ok n i :=
  (hd.withKeys (fun hzero => absurd hzero htarget) (empty_subset _)).retarget hopen hslot
    hnext hv

theorem lasts_forwardApplyEndGrab (hf : WellFormed f) {next : Nat}
    (hnext : next < f.nextSerial * 256) (held : Option KeyBits) (P C : Nat → Prop) :
    Lasts P (· = next) C f (f.forwardApplyEndGrab next held) := by
  rcases forwardApplyEndGrab_cases hf next held with
    heq | ⟨i, hslot, hlive, hlt, halters, hserial⟩
  · rw [heq]
    exact .refl P _ C hf
  have hopen : (f.device i).isOpen = true := (and_eq_true_iff.mp hlive).1
  have hok : (ended (f.device i) .applied next held).Ok f.nextSerial i :=
    ok_ended (hf.device i) hopen hslot hnext (fun h => nomatch h) ((hf.device i).applied hopen)
  have hkeeps : Keeps P f (f.forwardApplyEndGrab next held) := by
    refine halters.keeps (halters.wellFormed hf hserial.ge (hserial ▸ hok)) hserial.ge P
      fun target hfind => ?_
    obtain ⟨-, htarget, hretiring⟩ := findDevice_eq_some hfind
    refine ⟨?_, hretiring, ?_⟩
    · rwa [ended_target_of_ne _ next held (by decide)]
    · exact .refl _
  refine halters.lasts hkeeps (fun _ => ⟨hopen, ?_⟩) (fun v => ?_)
    (fun _ hcloses => hcloses) hlive
  · exact hlt.le
  cases v with
  | applied =>
    exact .inr (.inr ⟨rfl, hopen, hlt, rfl⟩)
  | enqueued => exact .inl (ended_target_of_ne _ next held (by decide))

theorem lasts_forwardApplyClose (hf : WellFormed f) (target now : Nat) (P E : Nat → Prop) :
    Lasts P E (fun i => slotOf target = some i) f (f.forwardApplyClose target now) := by
  rcases forwardApplyClose_cases hf target now with
    ⟨heq, -⟩ | ⟨i, hslot, hcloses, halters, hserial⟩
  · rw [heq]
    exact .refl P E _ hf
  have hclosing : (f.device i).closing = true := (and_eq_true_iff.mp hcloses).1
  have hok := ok_retired hf.serial (hf.device i) hclosing now
  have hkeeps : Keeps P f (f.forwardApplyClose target now) := by
    refine halters.keeps (halters.wellFormed hf hserial.ge (hserial ▸ hok)) hserial.ge P
      fun other hfind => ?_
    exact absurd ((hf.closing_of_find hfind).symm.trans hclosing) false_ne_true
  refine halters.lasts hkeeps (fun hopen => ?_) (fun v => ?_)
    (fun hne => absurd hslot hne) (and_eq_true_iff.mp hcloses).2
  · unfold retired at hopen ⊢
    split at hopen
    · rename_i houtput
      rw [if_pos houtput]
      exact ⟨hopen, le_refl _⟩
    · exact absurd hopen false_ne_true
  · unfold retired
    split
    · exact .inl rfl
    · exact .inr (.inl rfl)

theorem lasts_forwardCollect (hf : WellFormed f) (now : Nat) (P E C : Nat → Prop) :
    Lasts P E C f (f.forwardCollect now) := by
  have hsame : ∀ i, (f.device i).retiring = false →
      (f.forwardCollect now).device i = f.device i := by
    intro i hlive
    rcases forwardCollect_cases f now i with h | ⟨-, hretiring⟩
    · exact h
    · exact absurd (hlive.symm.trans hretiring) false_ne_true
  have hfound : ∀ target v i, f.findDevice target v = some i →
      (f.forwardCollect now).findDevice target v = some i := by
    intro target v i hfind
    obtain ⟨hslot, htarget, hretiring⟩ := findDevice_eq_some hfind
    unfold Forward.findDevice
    rw [hslot]
    simp [hsame i hretiring, htarget, hretiring]
  refine ⟨⟨hf.forwardCollect now, le_refl _, fun target i hfind => ?_,
    fun target i hfind _ => ?_⟩, ⟨le_refl _, fun _ target v hnone => ?_⟩, fun i hopen => ?_,
    fun i v => ?_, fun i _ hcloses => ?_, fun i hlive => ?_⟩
  · exact hfound target .enqueued i hfind
  · obtain ⟨-, -, hretiring⟩ := findDevice_eq_some hfind
    rw [hsame i hretiring]
    exact .refl _
  · refine eq_none_iff_forall_ne_some.mpr fun i hfind => ?_
    exact absurd (hnone.symm.trans (hfound target v i hfind)) nofun
  · rcases forwardCollect_cases f now i with h | ⟨h, -⟩
    · rw [h] at hopen ⊢
      exact ⟨hopen, le_refl _⟩
    · rw [h] at hopen
      exact absurd hopen false_ne_true
  · rcases forwardCollect_cases f now i with h | ⟨h, -⟩
    · exact .inl (by rw [h])
    · exact .inr (.inl (by rw [h]))
  · obtain ⟨-, hlive⟩ := and_eq_true_iff.mp hcloses
    have hretiring : (f.device i).retiring = false := by
      simpa using (and_eq_true_iff.mp hlive).2
    unfold Forward.closes
    rw [hsame i hretiring]
    exact hcloses
  · rcases forwardCollect_cases f now i with h | ⟨h, -⟩
    · rwa [h] at hlive
    · rw [h] at hlive
      exact absurd hlive false_ne_true

theorem alters_of_replaces (h : Replaces i d f f') (houtlives : Outlives f f') :
    Alters i d f f' := by
  refine ⟨h.length, fun j => ?_, houtlives⟩
  rw [h.device j]
  split <;> rfl

end Forward

def OutputAction.isLifetime : OutputAction → Bool
  | .endGrab _ => true
  | .closeSource _ => true
  | _ => false

namespace OutputState

variable {s t u : OutputState} {b : Backend} {now : Nat} {opens absOpens : Bool}
  {P Q : Nat → Prop} {action : OutputAction} {g : Backend → Backend} {entry : QueuedAction}
  {e : OutputEvent}

/-- An action that neither ends a grab nor closes a source leaves every source in its place. -/
theorem reshapes_writeAction (b : Backend) (now : Nat) (opens absOpens : Bool)
    (haction : action.isLifetime = false) :
    Reshapes .applied b.forward (writeAction b now opens absOpens action).forward := by
  cases action with
  | replay packet =>
    have hrelease := drops_physicalRelease
      { b with forward := (b.forward.forwardWrite packet).2 } packet .applied
    exact (reshapes_of_own (touches_forwardWrite b.forward packet)).trans hrelease.forward.reshapes
  | sourceState packet => exact reshapes_of_own (own_noteKeys b.forward packet .applied true)
  | synth inputs flags owner =>
    exact (performs_sendInput b inputs flags owner).forward.reshapes
  | releaseSynthOwner filter =>
    exact (drops_releaseOwner b filter .applied).forward.reshapes
  | releaseAll =>
    have hall := (drops_releaseAll b).forward.reshapes
    have hforward := (shifts_forwardReleaseAll b.releaseAll.forward .applied).reshapes
    unfold writeAction
    dsimp only
    exact hall.trans hforward
  | releaseGeneric => exact (drops_releaseAll b).forward.reshapes
  | recreateSynth => exact (drops_recreate b opens absOpens).forward.reshapes
  | endGrab next | closeSource target => exact absurd haction Bool.noConfusion

theorem lasts_writeAction (hf : WellFormed b.forward)
    (hnext : ∀ next, action = .endGrab next → next < b.forward.nextSerial * 256) :
    Lasts P (fun next => action = .endGrab next) (fun i => action.closeSlot = some i) b.forward
      (writeAction b now opens absOpens action).forward := by
  cases haction : action.isLifetime with
  | false => exact (reshapes_writeAction b now opens absOpens haction).lasts hf P _ _
  | true =>
    cases action with
    | endGrab next =>
      exact (lasts_forwardApplyEndGrab hf (hnext next rfl) none P _).mono (fun _ h => h)
        (fun _ h => congrArg OutputAction.endGrab h.symm) fun _ h => h
    | closeSource target => exact lasts_forwardApplyClose hf target now P _
    | _ => exact absurd haction Bool.noConfusion

theorem lasts_maintainOutput (hf : WellFormed b.forward) (now : Nat) (E C : Nat → Prop) :
    Lasts P E C b.forward (b.maintainOutput now).forward :=
  (lasts_forwardCollect hf now P E C).trans
    ((drops_maintainOutput b now).forward.lasts (hf.forwardCollect now) P E C)

def lifetimes (s : OutputState) : List OutputAction :=
  (s.queue.map (·.action)).filter (·.isLifetime)

def closeSlots (s : OutputState) : List Nat := s.lifetimes.filterMap (·.closeSlot)

/-- The queue with its sources: ends of grabs are to targets that were issued, and each queued
close is the only one of its slot and finds it closing. -/
structure Lined (s : OutputState) : Prop where
  wellFormed : WellFormed s.backend.forward
  ends : ∀ next, .endGrab next ∈ s.lifetimes → next < s.backend.forward.nextSerial * 256
  closes : ∀ i ∈ s.closeSlots, s.backend.forward.closes i = true
  distinct : s.closeSlots.Nodup

theorem lined_start (outcome : Nat → Option Nat) (absOpens : Bool) :
    Lined (start outcome absOpens) := by
  have hempty : WellFormed { uinput := { outcome := outcome } } :=
    ⟨one_pos, zero_le _, fun i => ok_default one_pos i⟩
  exact ⟨(still_attachSink _ true).wellFormed hempty, fun _ h => absurd h not_mem_nil,
    fun _ h => absurd h not_mem_nil, nodup_nil⟩

structure Carries (P : Nat → Prop) (s t : OutputState) : Prop where
  lasts : Lasts P (fun next => .endGrab next ∈ s.lifetimes) (· ∉ t.closeSlots)
    s.backend.forward t.backend.forward
  lifetimes : t.lifetimes.Sublist s.lifetimes
  tends : s.backend.Tends t.backend

theorem Carries.subset (h : Carries P s t) : t.closeSlots.Sublist s.closeSlots :=
  h.lifetimes.filterMap _

theorem Carries.refl (P : Nat → Prop) (hs : WellFormed s.backend.forward) : Carries P s s :=
  ⟨.refl P _ _ hs, .refl _, .refl _⟩

theorem Carries.trans (h : Carries P s t) (g : Carries P t u) : Carries P s u := by
  have hfirst := h.lasts.mono (fun _ hP => hP) (fun _ hE => hE)
    fun i (hi : i ∉ t.closeSlots) hmem => hi (g.subset.subset hmem)
  have hsecond := g.lasts.mono (fun _ hP => hP) (fun _ hE => h.lifetimes.subset hE) fun _ hi => hi
  exact ⟨hfirst.trans hsecond, g.lifetimes.trans h.lifetimes, h.tends.trans g.tends⟩

theorem Carries.mono (h : Carries P s t) (hP : ∀ target, P target → Q target) : Carries Q s t :=
  ⟨h.lasts.mono hP (fun _ hE => hE) fun _ hi => hi, h.lifetimes, h.tends⟩

theorem Carries.lined (h : Carries P s t) (hs : Lined s) : Lined t := by
  refine ⟨h.lasts.wellFormed, fun next hmem => ?_, fun i hi => ?_, hs.distinct.sublist h.subset⟩
  · have hlt := hs.ends next (h.lifetimes.subset hmem)
    have hserial := h.lasts.serial
    exact lt_of_lt_of_le hlt (mul_le_mul_right 256 hserial)
  · exact h.lasts.closes i (fun hnot => hnot hi) (hs.closes i (h.subset.subset hi))

theorem lifetimes_admitAction (s : OutputState) (action : OutputAction) (generation : Nat)
    (g : Backend → Backend) : (s.admitAction action generation g).lifetimes =
      s.lifetimes ++ [action].filter (·.isLifetime) := by
  simp [lifetimes, admitAction, pushAction]

theorem carries_admitAction (action : OutputAction) (generation : Nat)
    (haction : action.isLifetime = false)
    (hg : ∀ E C, Lasts P E C s.backend.forward (g s.backend).forward)
    (htends : s.backend.Tends (g s.backend)) : Carries P s (s.admitAction action generation g) := by
  refine ⟨hg _ _, ?_, htends⟩
  rw [lifetimes_admitAction]
  simp [haction]

section

variable (hs : WellFormed s.backend.forward)

include hs

theorem carries_of_backend (hbackend : t.backend = s.backend)
    (hlifetimes : t.lifetimes.Sublist s.lifetimes) : Carries P s t := by
  refine ⟨?_, hlifetimes, ?_⟩
  · rw [hbackend]
    exact .refl P _ _ hs
  · rw [hbackend]
    exact .refl _

theorem carries_performs {owner : SynthOwner} {presses : Bool}
    (action : OutputAction) (generation : Nat) (haction : action.isLifetime = false)
    (hg : s.backend.Performs .enqueued owner presses (g s.backend))
    (hlive : presses = true → s.backend.ownerIsDead owner .enqueued = false) :
    Carries P s (s.admitAction action generation g) :=
  carries_admitAction action generation haction (fun E C => hg.forward.lasts hs P E C)
    (hg.tends hlive)

theorem carries_pushPacket (sourceState : Bool) (packet : ForwardPacket) (generation : Nat) :
    Carries (· = packet.target) s (s.pushPacket sourceState packet generation).2 := by
  unfold pushPacket
  dsimp only
  generalize s.isFull _ = full
  split_ifs
  · exact .refl _ hs
  · exact .refl _ hs
  · exact .refl _ hs
  · exact .refl _ hs
  · dsimp only
    have hnote := own_noteKeys s.backend.forward packet .enqueued true
    exact carries_admitAction (.sourceState packet) generation rfl
      (fun E C => lasts_of_own hnote hs E C) (tends_forward _ hnote.outlives)
  dsimp only
  have hrelease := drops_physicalRelease
    { s.backend with forward := s.backend.forward.noteOutput packet } packet .enqueued
  have hown := own_noteKeys s.backend.forward packet .enqueued false
  refine carries_admitAction (.replay packet) generation rfl (fun E C => ?_)
    ((tends_forward _ hown.outlives).trans (hrelease.tends nofun))
  have hnote := lasts_of_own hown hs E C
  exact hnote.trans (hrelease.forward.lasts hnote.wellFormed _ E C)

theorem carries_releaseOwner (filter : SynthOwner) :
    Carries P s (s.admitAction (.releaseSynthOwner filter) 0 (·.releaseOwner filter .enqueued)) :=
  carries_performs hs (.releaseSynthOwner filter) 0 rfl
    (drops_releaseOwner s.backend filter .enqueued) nofun

theorem carries_pushOwnedSynth (inputs : List Input)
    (flags : SynthFlags) (generation : Nat) (owner : SynthOwner) (flushed : Bool) :
    Carries P s (s.pushOwnedSynth inputs flags generation owner flushed).2 := by
  have hnote : Carries P s (s.admitAction (.synth inputs flags owner) generation
      (·.noteEnqueuedSynth inputs owner)) :=
    carries_performs hs (.synth inputs flags owner) generation rfl
      (performs_noteEnqueuedSynth s.backend inputs owner) (by simp)
  unfold pushOwnedSynth
  dsimp only
  generalize (flushed || _ || _ || _) = refused
  split_ifs
  · exact .refl _ hs
  · exact .refl _ hs
  · exact .refl _ hs
  · exact hnote.trans (carries_releaseOwner hnote.lasts.wellFormed _)
  · exact hnote

theorem carries_resetEnqueuedSynth (haction : action.isLifetime = false) :
    Carries P s (s.admitAction action 0 (·.resetEnqueuedSynth)) :=
  carries_performs hs action 0 haction (drops_clear s.backend .enqueued) nofun

theorem carries_pushReleaseAll : Carries P s s.pushReleaseAll.2 := by
  unfold pushReleaseAll
  split_ifs
  · exact .refl _ hs
  dsimp only
  have hreset := drops_clear s.backend .enqueued
  have hrelease := hreset.trans (performs_forward _
    (shifts_forwardReleaseAll s.backend.resetEnqueuedSynth.forward .enqueued))
  exact carries_performs hs .releaseAll 0 rfl hrelease nofun

end

theorem tends_writeAction (hf : WellFormed b.forward) (now : Nat) (opens absOpens : Bool)
    (action : OutputAction) : b.Tends (writeAction b now opens absOpens action) := by
  have hall := (drops_releaseAll b).tends nofun
  cases action with
  | replay packet =>
    exact (tends_forward b (touches_forwardWrite b.forward packet).outlives).trans
      ((drops_physicalRelease _ packet .applied).tends nofun)
  | sourceState packet =>
    exact tends_forward b (own_noteKeys b.forward packet .applied true).outlives
  | synth inputs flags owner =>
    exact (performs_sendInput b inputs flags owner).tends (by simp)
  | releaseSynthOwner filter =>
    exact (drops_releaseOwner b filter .applied).tends nofun
  | releaseAll =>
    exact hall.trans (tends_forward _
      (shifts_forwardReleaseAll b.releaseAll.forward .applied).outlives)
  | releaseGeneric => exact hall
  | recreateSynth => exact (drops_recreate b opens absOpens).tends nofun
  | endGrab next =>
    refine tends_forward b ?_
    rcases forwardApplyEndGrab_cases hf next none with heq | ⟨i, -, -, -, halters, -⟩
    · rw [heq]
      exact .refl _
    · exact halters.outlives
  | closeSource target =>
    refine tends_forward b ?_
    rcases forwardApplyClose_cases hf target now with ⟨heq, -⟩ | ⟨i, -, -, halters, -⟩
    · rw [heq]
      exact .refl _
    · exact halters.outlives

theorem tends_maintainOutput (hf : WellFormed b.forward) (now : Nat) :
    b.Tends (b.maintainOutput now) :=
  (tends_forward b (lasts_forwardCollect hf now (fun _ => True) (fun _ => True)
    fun _ => True).outlives).trans ((drops_maintainOutput b now).tends nofun)

theorem applyOutputAction_spec (hf : WellFormed s.backend.forward)
    (hends : ∀ next, entry.action = .endGrab next → next < s.backend.forward.nextSerial * 256) :
    s.backend.Tends (s.applyOutputAction entry now opens absOpens) ∧
      WellFormed (s.applyOutputAction entry now opens absOpens).forward ∧
      s.backend.forward.nextSerial ≤
        (s.applyOutputAction entry now opens absOpens).forward.nextSerial := by
  unfold applyOutputAction
  split
  · exact ⟨.refl _, hf, le_refl _⟩
  have hwrite : Lasts (fun _ => True) (fun next => entry.action = .endGrab next)
      (fun i => entry.action.closeSlot = some i) s.backend.forward
      (writeAction s.backend now opens absOpens entry.action).forward :=
    lasts_writeAction hf hends
  have hmaintain := hwrite.trans (lasts_maintainOutput hwrite.wellFormed now _ _)
  exact ⟨(tends_writeAction hf now opens absOpens entry.action).trans
    (tends_maintainOutput hwrite.wellFormed now), hmaintain.wellFormed, hmaintain.serial⟩

theorem carries_drain (hs : Lined s) {queue : List QueuedAction}
    (hqueue : s.queue = entry :: queue) (now : Nat) (opens absOpens : Bool) :
    Carries P s { s with
      queue := queue, backend := s.applyOutputAction entry now opens absOpens } := by
  have hlifetimes : s.lifetimes =
      [entry.action].filter (·.isLifetime) ++ (queue.map (·.action)).filter (·.isLifetime) := by
    rw [lifetimes, hqueue, List.map_cons, ← singleton_append, filter_append]
  have hhead : ∀ next, entry.action = .endGrab next → .endGrab next ∈ s.lifetimes := by
    intro next haction
    rw [hlifetimes, haction]
    exact mem_append_left _ (List.mem_singleton_self _)
  refine ⟨?_, hlifetimes ▸ sublist_append_right _ _, ?_⟩
  · unfold applyOutputAction
    split
    · exact .refl P _ _ hs.wellFormed
    have hwrite : Lasts P (fun next => entry.action = .endGrab next)
        (fun i => entry.action.closeSlot = some i) s.backend.forward
        (writeAction s.backend now opens absOpens entry.action).forward :=
      lasts_writeAction hs.wellFormed fun next haction => hs.ends next (hhead next haction)
    -- The slot of the close that drains has no other close in the queue.
    have hdistinct : ∀ i, entry.action.closeSlot = some i →
        i ∉ ((queue.map (·.action)).filter (·.isLifetime)).filterMap (·.closeSlot) := by
      intro i hslot hmem
      have hnodup := hs.distinct
      rw [closeSlots, hlifetimes, filterMap_append, nodup_append] at hnodup
      refine hnodup.2.2 i ?_ i hmem rfl
      cases haction : entry.action with
      | closeSource =>
        rw [haction] at hslot
        simpa [OutputAction.isLifetime] using hslot
      | _ =>
        rw [haction] at hslot
        exact absurd hslot (by simp [OutputAction.closeSlot])
    exact (hwrite.trans (lasts_maintainOutput hwrite.wellFormed now _ _)).mono (fun _ hP => hP)
      hhead hdistinct
  · exact (applyOutputAction_spec hs.wellFormed fun next haction =>
      hs.ends next (hhead next haction)).1

def isSourceEvent : OutputEvent → Bool
  | .openSource _ => true
  | .pushEndGrab _ => true
  | .pushClose _ _ => true
  | _ => false

def packetTarget : OutputEvent → Nat → Prop
  | .pushPacket _ packet _ => (· = packet.target)
  | _ => fun _ => False

theorem carries_admission (hf : WellFormed s.backend.forward) (he : isSourceEvent e = false)
    (hdrain : ∀ now opens absOpens, e ≠ .drain now opens absOpens) (hstep : s.step e = some t) :
    Carries (packetTarget e) s t := by
  cases e with
  | pushPacket sourceState packet generation =>
    cases hstep
    exact carries_pushPacket hf sourceState packet generation
  | pushOwnedSynth inputs flags generation owner flushed =>
    cases hstep
    exact carries_pushOwnedSynth hf inputs flags generation owner flushed
  | pushReleaseOwner filter =>
    cases hstep
    unfold pushReleaseOwner
    split_ifs
    · exact .refl _ hf
    · exact .refl _ hf
    · exact carries_releaseOwner hf filter
  | pushReleaseAll =>
    cases hstep
    exact carries_pushReleaseAll hf
  | pushReleaseGeneric =>
    cases hstep
    unfold pushReleaseGeneric
    split_ifs
    · exact .refl _ hf
    · exact carries_resetEnqueuedSynth hf rfl
  | pushRecreateSynth =>
    cases hstep
    unfold pushRecreateSynth
    split_ifs
    · exact .refl _ hf
    · exact carries_resetEnqueuedSynth hf rfl
  | openSource info | pushEndGrab target | pushClose target now => exact absurd he Bool.noConfusion
  | syncOwners owners | advanceGeneration =>
    cases hstep
    exact carries_of_backend hf rfl (.refl _)
  | discardStale =>
    cases hstep
    exact carries_of_backend hf rfl ((filter_sublist.map _).filter _)
  | drain now opens absOpens => exact absurd rfl (hdrain now opens absOpens)
  | maintain now =>
    cases hstep
    exact ⟨lasts_maintainOutput hf now _ _, .refl _, tends_maintainOutput hf now⟩

theorem exists_of_drain (hstep : s.step (.drain now opens absOpens) = some t) :
    ∃ entry queue, s.queue = entry :: queue ∧
      t = { s with queue := queue, backend := s.applyOutputAction entry now opens absOpens } := by
  rw [step] at hstep
  cases hqueue : s.queue with
  | nil =>
    rw [hqueue] at hstep
    exact absurd hstep (by simp)
  | cons entry queue =>
    rw [hqueue] at hstep
    exact ⟨entry, queue, rfl, (some.inj hstep).symm⟩

theorem carries_step (hs : Lined s) (he : isSourceEvent e = false) (hstep : s.step e = some t) :
    Carries (packetTarget e) s t := by
  by_cases hdrain : ∃ now opens absOpens, e = .drain now opens absOpens
  · obtain ⟨now, opens, absOpens, rfl⟩ := hdrain
    obtain ⟨_, _, hqueue, rfl⟩ := exists_of_drain hstep
    exact carries_drain hs hqueue now opens absOpens
  · exact carries_admission hs.wellFormed he
      (fun now opens absOpens heq => hdrain ⟨now, opens, absOpens, heq⟩) hstep

end OutputState

end KeysharpInput.Output
