import KeysharpInput.SourceSteps

/-!
What the reader does to the sources.
The reader opens a source in a free slot, ends its grab and closes it. Each of these replaces the
device of one slot. With a full queue, what would have drained later happens at once. Every other
source stays where it is, with at most the keys it had.
-/

namespace KeysharpInput.Output

open Forward List Nat Bool OutputAction

namespace Forward

variable {f f' : Forward} {i j target : Nat} {d : ForwardingDevice} {E C : Nat → Prop}

def Resettles (i : Nat) (d : ForwardingDevice) (E C : Nat → Prop) (f f' : Forward) : Prop :=
  ∃ f₁, Alters i d f f₁ ∧ f.nextSerial ≤ f₁.nextSerial ∧ Lasts (fun _ => False) E C f₁ f'

section

variable (h : Resettles i d E C f f')

include h

theorem Resettles.wellFormed : WellFormed f' := by
  obtain ⟨_, -, -, hlasts⟩ := h
  exact hlasts.wellFormed

theorem Resettles.serial : f.nextSerial ≤ f'.nextSerial := by
  obtain ⟨_, -, hserial, hlasts⟩ := h
  exact hserial.trans hlasts.serial

theorem Resettles.outlives : Outlives f f' := by
  obtain ⟨_, halters, -, hlasts⟩ := h
  exact halters.outlives.trans hlasts.outlives

theorem Resettles.find_of_ne (hfind : f.findDevice target .enqueued = some j) (hj : j ≠ i) :
    f'.findDevice target .enqueued = some j ∧
      Within ((f.device j).views .enqueued) ((f'.device j).views .enqueued) := by
  obtain ⟨f₁, halters, -, hlasts⟩ := h
  obtain ⟨hslot, -, -⟩ := findDevice_eq_some hfind
  have hfind₁ : f₁.findDevice target .enqueued = some j :=
    (halters.findDevice hslot hj .enqueued).trans hfind
  refine ⟨hlasts.find target j hfind₁, ?_⟩
  rw [← halters.views hj]
  exact hlasts.keys target j hfind₁ not_false

theorem Resettles.find_self (htarget : d.target .enqueued = target)
    (hslot : slotOf target = some i) (hretiring : d.retiring = false) :
    f'.findDevice target .enqueued = some i ∧
      Within (d.views .enqueued) ((f'.device i).views .enqueued) := by
  obtain ⟨f₁, halters, -, hlasts⟩ := h
  have htarget₁ := halters.field (·.target .enqueued) (fun _ => rfl) i
  have hretiring₁ := halters.field (·.retiring) (fun _ => rfl) i
  have hviews₁ := halters.field (·.views) (fun _ => rfl) i
  rw [if_pos rfl] at htarget₁ hretiring₁ hviews₁
  have hfind₁ : f₁.findDevice target .enqueued = some i := by
    unfold Forward.findDevice
    rw [hslot]
    simp [htarget₁, hretiring₁, htarget, hretiring]
  refine ⟨hlasts.find target i hfind₁, ?_⟩
  rw [← hviews₁]
  exact hlasts.keys target i hfind₁ not_false

theorem Resettles.closes (hC : ¬ C j)
    (hj : (if j = i then d.closing && d.live else f.closes j) = true) : f'.closes j = true := by
  obtain ⟨_, halters, -, hlasts⟩ := h
  exact hlasts.closes j hC ((halters.closes j).trans hj)

end

theorem findDevice_inj {other : Nat} {v : View} (h : f.findDevice target v = some i)
    (g : f.findDevice other v = some i) : target = other := by
  obtain ⟨-, htarget, -⟩ := findDevice_eq_some h
  obtain ⟨-, hother, -⟩ := findDevice_eq_some g
  exact htarget.symm.trans hother

theorem closes_of_find (hf : WellFormed f) (hfind : f.findDevice target .enqueued = some i) :
    f.closes i = false := by
  unfold Forward.closes
  rw [hf.closing_of_find hfind]
  rfl

theorem forwardEndGrab_issued (hf : WellFormed f) (htarget : target < f.nextSerial * 256) :
    WellFormed (f.forwardEndGrab target).2.2 ∧ Outlives f (f.forwardEndGrab target).2.2 ∧
      f.nextSerial ≤ (f.forwardEndGrab target).2.2.nextSerial ∧
      (f.forwardEndGrab target).1 < (f.forwardEndGrab target).2.2.nextSerial * 256 := by
  cases hfind : f.findDevice target .enqueued with
  | none =>
    rw [forwardEndGrab, hfind]
    exact ⟨hf, .refl f, le_refl _, htarget⟩
  | some i =>
    obtain ⟨hnext, -, halters, hserial⟩ := forwardEndGrab_of_find hf hfind
    obtain ⟨hslot, hfound, -⟩ := findDevice_eq_some hfind
    have hlt := slotOf_lt hslot
    have hok : (ended (f.device i) .enqueued (f.newTarget i) none).Ok (f.nextSerial + 1) i :=
      ok_ended ((hf.device i).mono (le_succ _))
        (and_eq_true_iff.mp (hf.live_of_find hfind)).1 (slotOf_newTarget f hlt)
        (newTarget_lt f hlt) (fun _ => hf.closing_of_find hfind)
        fun hzero => ne_zero_of_slotOf hslot (hfound.symm.trans hzero)
    refine ⟨halters.wellFormed hf (hserial ▸ le_succ _) (hserial ▸ hok), halters.outlives,
      hserial ▸ le_succ _, ?_⟩
    rw [hnext, hserial]
    exact newTarget_lt f hlt

theorem wellFormed_forwardClose (hf : WellFormed f) (target : Nat) :
    WellFormed (f.forwardClose target) ∧ Outlives f (f.forwardClose target) ∧
      (f.forwardClose target).nextSerial = f.nextSerial := by
  cases hfind : f.findDevice target .enqueued with
  | none =>
    rw [forwardClose, hfind]
    exact ⟨hf, .refl f, rfl⟩
  | some i =>
    obtain ⟨halters, hserial⟩ := forwardClose_of_find hf hfind
    have hok := ok_closed hf.serial (hf.device i)
      (and_eq_true_iff.mp (hf.live_of_find hfind)).1
    exact ⟨halters.wellFormed hf hserial.ge (hserial ▸ hok), halters.outlives, hserial⟩

theorem alters_forwardOpen (hf : WellFormed f) (info : SourceInfo) :
    f.forwardOpen info = (0, f) ∨ ∃ i, i < maxForwardingDevices ∧ (f.device i).isOpen = false ∧
      (f.forwardOpen info).1 = f.newTarget i ∧
      Alters i (opened info (f.newTarget i)) f (f.forwardOpen info).2 ∧
      (f.forwardOpen info).2.nextSerial = f.nextSerial + 1 := by
  rcases forwardOpen_cases hf info with
    h | ⟨i, hlt, hclosed, htarget, hreplaces, hserial, hepoch⟩
  · exact .inl h
  refine .inr ⟨i, hlt, hclosed, htarget, alters_of_replaces hreplaces ?_, hserial⟩
  refine ⟨hepoch.ge, fun _ target v hnone => ?_⟩
  refine Option.eq_none_iff_forall_ne_some.mpr fun j hfind => ?_
  obtain ⟨hslot, hother, hretiring⟩ := findDevice_eq_some hfind
  have hj : j ≠ i := by
    rintro rfl
    exact ne_zero_of_slotOf hslot (hother ▸ (hf.device j).closed hclosed v)
  unfold Forward.findDevice at hnone
  rw [hslot] at hnone
  simp [hreplaces.device, hj, hother, hretiring] at hnone

theorem issued_of_find (hf : WellFormed f) {v : View} (hfind : f.findDevice target v = some i) :
    target < f.nextSerial * 256 := by
  obtain ⟨-, htarget, -⟩ := findDevice_eq_some hfind
  exact htarget ▸ (hf.device i).issued v

end Forward

namespace OutputState

variable {s t : OutputState} {i target : Nat}

theorem resettles_pushEndGrab (hs : Lined s)
    (hfind : s.backend.forward.findDevice target .enqueued = some i) :
    (s.pushEndGrab target).1 = s.backend.forward.newTarget i ∧
      (s.pushEndGrab target).2.1 = ((s.backend.forward.device i).views .enqueued).source ∧
      Resettles i
        (ended (s.backend.forward.device i) .enqueued (s.backend.forward.newTarget i) none)
        (· = s.backend.forward.newTarget i) (fun _ => False) s.backend.forward
        (s.pushEndGrab target).2.2.backend.forward ∧
      s.backend.forward.nextSerial < (s.pushEndGrab target).2.2.backend.forward.nextSerial ∧
      ((s.pushEndGrab target).2.2.lifetimes = s.lifetimes ∨ (s.pushEndGrab target).2.2.lifetimes =
          s.lifetimes ++ [.endGrab (s.backend.forward.newTarget i)]) := by
  have hf := hs.wellFormed
  obtain ⟨hnext, hkept, halters, hserial⟩ := forwardEndGrab_of_find hf hfind
  obtain ⟨hf₁, -, -, hbound⟩ := forwardEndGrab_issued hf (issued_of_find hf hfind)
  unfold pushEndGrab
  generalize s.backend.forward.forwardEndGrab target = r at *
  obtain ⟨next, kept, f₁⟩ := r
  dsimp only at hnext hkept halters hserial hf₁ hbound ⊢
  have hle : s.backend.forward.nextSerial ≤ f₁.nextSerial := hserial ▸ le_succ _
  split
  · have hlasts := (lasts_forwardApplyEndGrab hf₁ hbound (some kept) (fun _ => False)
      fun _ => False).mono (fun _ h => h) (fun _ h => h.trans hnext) fun _ h => h
    exact ⟨hnext, hkept, ⟨f₁, halters, hle, hlasts⟩,
      lt_of_lt_of_le (hserial ▸ lt_succ_self _) hlasts.serial, .inl rfl⟩
  · refine ⟨hnext, hkept, ⟨f₁, halters, hle, .refl _ _ _ hf₁⟩, ?_, .inr ?_⟩
    · exact hserial ▸ lt_succ_self _
    · rw [lifetimes_admitAction, hnext]
      rfl

theorem Lined.pushEndGrab (hs : Lined s)
    (hfind : s.backend.forward.findDevice target .enqueued = some i) :
    Lined (s.pushEndGrab target).2.2 := by
  obtain ⟨-, -, hresettles, hserial, hlifetimes⟩ := resettles_pushEndGrab hs hfind
  obtain ⟨hslot, -, -⟩ := findDevice_eq_some hfind
  generalize (s.pushEndGrab target).2.2 = t at *
  have hslots : t.closeSlots = s.closeSlots := by
    unfold closeSlots
    rcases hlifetimes with h | h
    · rw [h]
    · rw [h, filterMap_append]
      exact append_nil _
  refine ⟨hresettles.wellFormed, fun next hmem => ?_, fun j hj => ?_, hslots ▸ hs.distinct⟩
  · have hold : .endGrab next ∈ s.lifetimes → next < t.backend.forward.nextSerial * 256 :=
      fun hmem => lt_of_lt_of_le (hs.ends next hmem) (mul_le_mul_right 256 hserial.le)
    rcases hlifetimes with h | h
    · exact hold (h ▸ hmem)
    rw [h, mem_append, mem_singleton] at hmem
    rcases hmem with hmem | hmem
    · exact hold hmem
    · obtain rfl := endGrab.inj hmem
      exact lt_of_lt_of_le (newTarget_lt _ (slotOf_lt hslot))
        (mul_le_mul_right 256 hserial)
  · have hcloses := hs.closes j (hslots ▸ hj)
    refine hresettles.closes not_false ?_
    by_cases hji : j = i
    · subst hji
      exact absurd ((closes_of_find hs.wellFormed hfind).symm.trans hcloses) false_ne_true
    · rwa [if_neg hji]

theorem resettles_pushClose (hs : Lined s)
    (hfind : s.backend.forward.findDevice target .enqueued = some i) (now : Nat) :
    Resettles i (closed (s.backend.forward.device i)) (fun _ => False)
        (fun j => j = i ∧ i ∉ (s.pushClose target now).closeSlots)
        s.backend.forward (s.pushClose target now).backend.forward ∧
      ((s.pushClose target now).lifetimes = s.lifetimes ∨
        (s.pushClose target now).lifetimes = s.lifetimes ++ [.closeSource target]) := by
  have hf := hs.wellFormed
  obtain ⟨halters, hserial⟩ := forwardClose_of_find hf hfind
  obtain ⟨hslot, -, -⟩ := findDevice_eq_some hfind
  obtain ⟨hf₁, -⟩ := wellFormed_forwardClose hf target
  have hnot : i ∉ s.closeSlots := fun hmem =>
    absurd ((closes_of_find hf hfind).symm.trans (hs.closes i hmem)) false_ne_true
  unfold pushClose
  generalize s.backend.forward.forwardClose target = f₁ at *
  split
  · refine ⟨⟨f₁, halters, hserial.ge, ?_⟩, .inl rfl⟩
    refine (lasts_forwardApplyClose hf₁ target now (fun _ => False) fun _ => False).mono
      (fun _ h => h) (fun _ h => h) fun j hj => ⟨?_, hnot⟩
    exact Option.some.inj (hj.symm.trans hslot)
  · exact ⟨⟨f₁, halters, hserial.ge, .refl _ _ _ hf₁⟩, .inr (lifetimes_admitAction ..)⟩

theorem Lined.pushClose (hs : Lined s)
    (hfind : s.backend.forward.findDevice target .enqueued = some i) (now : Nat) :
    Lined (s.pushClose target now) := by
  obtain ⟨hresettles, hlifetimes⟩ := resettles_pushClose hs hfind now
  obtain ⟨hslot, -, -⟩ := findDevice_eq_some hfind
  have hlive := hs.wellFormed.live_of_find hfind
  have hnot : i ∉ s.closeSlots := fun hmem => absurd
    ((closes_of_find hs.wellFormed hfind).symm.trans (hs.closes i hmem)) false_ne_true
  generalize s.pushClose target now = t at *
  have hslots : t.closeSlots = s.closeSlots ∨ t.closeSlots = s.closeSlots ++ [i] := by
    unfold closeSlots
    rcases hlifetimes with h | h
    · exact .inl (by rw [h])
    · refine .inr ?_
      rw [h]
      simp [closeSlot, hslot]
  refine ⟨hresettles.wellFormed, fun next hmem => ?_, fun j hj => ?_, ?_⟩
  · refine lt_of_lt_of_le (hs.ends next ?_) (mul_le_mul_right 256 hresettles.serial)
    rcases hlifetimes with h | h
    · exact h ▸ hmem
    · rw [h, mem_append, mem_singleton] at hmem
      exact hmem.resolve_right OutputAction.noConfusion
  · by_cases hji : j = i
    · subst hji
      refine hresettles.closes (fun hC => hC.2 hj) ?_
      rw [if_pos rfl]
      exact hlive
    refine hresettles.closes (fun hC => hji hC.1) ?_
    rw [if_neg hji]
    refine hs.closes j ?_
    rcases hslots with h | h
    · exact h ▸ hj
    · rw [h, mem_append, mem_singleton] at hj
      exact hj.resolve_right hji
  · rcases hslots with h | h
    · exact h ▸ hs.distinct
    · rw [h]
      exact nodup_append.mpr ⟨hs.distinct, nodup_singleton i,
        fun a ha b hb hab => hnot (mem_singleton.mp hb ▸ hab ▸ ha)⟩

def openSource (s : OutputState) (info : SourceInfo) : OutputState :=
  { s with backend := { s.backend with forward := (s.backend.forward.forwardOpen info).2 } }

theorem resettles_openSource (hf : WellFormed s.backend.forward) (info : SourceInfo) :
    (s.backend.forward.forwardOpen info = (0, s.backend.forward)) ∨
      ∃ i, i < maxForwardingDevices ∧ (s.backend.forward.device i).isOpen = false ∧
        (s.backend.forward.forwardOpen info).1 = s.backend.forward.newTarget i ∧
        Resettles i (opened info (s.backend.forward.newTarget i)) (fun _ => False)
          (fun _ => False) s.backend.forward (s.openSource info).backend.forward ∧
        (s.openSource info).backend.forward.nextSerial = s.backend.forward.nextSerial + 1 := by
  rcases alters_forwardOpen hf info with h | ⟨i, hlt, hclosed, htarget, halters, hserial⟩
  · exact .inl h
  have hle : s.backend.forward.nextSerial ≤ (s.backend.forward.forwardOpen info).2.nextSerial :=
    hserial ▸ le_succ _
  have hf₁ := halters.wellFormed hf hle (hserial ▸ ok_opened _ info hlt)
  exact .inr ⟨i, hlt, hclosed, htarget, ⟨_, halters, hle, .refl _ _ _ hf₁⟩, hserial⟩

theorem Lined.openSource (hs : Lined s) (info : SourceInfo) : Lined (s.openSource info) := by
  rcases resettles_openSource hs.wellFormed info with h | ⟨i, -, hclosed, -, hresettles, -⟩
  · unfold OutputState.openSource
    rw [h]
    exact hs
  refine ⟨hresettles.wellFormed, fun next hmem => ?_, fun j hj => ?_, hs.distinct⟩
  · exact lt_of_lt_of_le (hs.ends next hmem) (mul_le_mul_right 256 hresettles.serial)
  have hcloses := hs.closes j hj
  refine hresettles.closes not_false ?_
  by_cases hji : j = i
  · subst hji
    simp [Forward.closes, ForwardingDevice.live, hclosed] at hcloses
  · rwa [if_neg hji]

end OutputState

end KeysharpInput.Output
