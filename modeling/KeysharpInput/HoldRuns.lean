import KeysharpInput.HoldTable
import KeysharpInput.Transition

/-!
Runs of one hold table.
Synthesis presses, releases, sweeps and resets a table in any order. A single key is dropped only
from a claim that has it. The counts stay right all along. A removal of claims takes out exactly
the claims selected, although a later claim moves into each freed place, and reports a key exactly
if its last holder was among them.
-/

namespace KeysharpInput.Output.SynthHolds

open SwapRemove Transition List

variable {h h' : SynthHolds} {i : Nat} {claim : SynthClaim} {released released' : KeyBits}

structure Reports (h : SynthHolds) (released : KeyBits) (h' : SynthHolds) (released' : KeyBits) :
    Prop where
  shrinks : h'.held ⊆ h.held
  mem : ∀ c, c ∈ released' ↔ c ∈ released ∨ c ∈ h.held ∧ c ∉ h'.held

theorem Reports.refl (h : SynthHolds) (released : KeyBits) : Reports h released h released :=
  ⟨subset_rfl, fun c => by simp⟩

theorem Reports.trans {h'' : SynthHolds} {released'' : KeyBits}
    (hfirst : Reports h released h' released') (hnext : Reports h' released' h'' released'') :
    Reports h released h'' released'' := by
  refine ⟨hnext.shrinks.trans hfirst.shrinks, fun c => ?_⟩
  have hback : c ∈ h'.held → c ∈ h.held := @hfirst.shrinks c
  have hback' : c ∈ h''.held → c ∈ h'.held := @hnext.shrinks c
  rw [hnext.mem, hfirst.mem]
  tauto

theorem reports_removeHolder {code : Code} (hcode : code ∈ h.held) (released : KeyBits) :
    Reports h released (h.removeHolder code).2
      (if (h.removeHolder code).1 then insert code released else released) := by
  unfold removeHolder
  by_cases hlast : h.holders code - 1 ≠ 0
  · rw [if_pos hlast]
    exact ⟨subset_rfl, fun c => by simp⟩
  rw [if_neg hlast]
  refine ⟨Finset.erase_subset _ _, fun c => ?_⟩
  by_cases hc : c = code
  · subst hc
    simp [hcode]
  · simp [hc]

theorem reports_removeHolders (codes : List Code) (hn : codes.Nodup)
    (hheld : ∀ c, c ∈ h.held ↔ h.holders c ≠ 0) (hcodes : ∀ c ∈ codes, c ∈ h.held)
    (released : KeyBits) :
    Reports h released (removeHolders codes h released).1 (removeHolders codes h released).2 := by
  induction codes generalizing h released with
  | nil => exact .refl h released
  | cons code _ ih =>
    obtain ⟨hnot, hn⟩ := nodup_cons.mp hn
    have hfirst := reports_removeHolder (hcodes code mem_cons_self) released
    refine hfirst.trans (ih hn (held_removeHolder hheld code) (fun c hc => ?_) _)
    have hne : c ≠ code := fun heq => hnot (heq ▸ hc)
    rw [held_removeHolder hheld code, removeHolder_snd]
    simpa [hne] using (hheld c).mp (hcodes c (mem_cons_of_mem _ hc))

section

variable (hc : Counted h)

include hc

theorem Counted.held_of_claim (hclaim : claim ∈ h.claims) {c : Code}
    (hkey : c ∈ claim.keys) : c ∈ h.held := by
  by_contra hnot
  exact hc.not_mem_of_not_held hnot hclaim hkey

theorem Counted.exists_of_held {c : Code} (hheld : c ∈ h.held) :
    ∃ claim ∈ h.claims, c ∈ claim.keys := by
  have hpos : 0 < h.claims.countP (c ∈ ·.keys) := by
    rw [← hc.holders]
    exact Nat.pos_of_ne_zero ((hc.held c).mp hheld)
  simpa using countP_pos_iff.mp hpos

theorem Counted.reports_removeClaim (hi : h.claims[i]? = some claim) (released : KeyBits) :
    Reports h released (h.removeClaim i released).1 (h.removeClaim i released).2 := by
  have hcodes : ∀ c ∈ setBits claim.keys, c ∈ h.held := fun c hkey =>
    hc.held_of_claim (mem_of_getElem? hi) (mem_setBits.mp hkey)
  have hreports := reports_removeHolders _ (nodup_setBits claim.keys) hc.held hcodes released
  unfold SynthHolds.removeClaim
  simp only [hi]
  generalize removeHolders (setBits claim.keys) h released = r at hreports ⊢
  exact ⟨hreports.shrinks, hreports.mem⟩

theorem Counted.reports_dropClaimsFrom (drops : SynthOwner → Bool) (i : Nat) (released : KeyBits) :
    Reports h released (SynthHolds.dropClaimsFrom drops i h released).1
      (SynthHolds.dropClaimsFrom drops i h released).2 := by
  induction i generalizing h released with
  | zero => exact .refl h released
  | succ i ih =>
    unfold SynthHolds.dropClaimsFrom
    split
    · rename_i hany
      obtain ⟨_, hi, -⟩ := (Option.any_eq_true _ _).mp hany
      exact (hc.reports_removeClaim hi released).trans (ih (hc.removeClaim hi released).1 _)
    · exact ih hc released

theorem Counted.claims_dropClaims (drops : SynthOwner → Bool) (released : KeyBits) :
    (h.dropClaims drops released).1.claims.Perm
      (h.claims.filter fun claim => !drops claim.owner) := by
  have hclaims := (hc.dropClaimsFrom drops h.claims.length released).2.2.2
  have hkeep : h.claims.filterMap (keepClaim drops) =
      h.claims.filter fun claim => !drops claim.owner := by
    rw [← filterMap_eq_filter]
    refine filterMap_congr fun claim _ => ?_
    cases hdrop : drops claim.owner <;> simp [keepClaim, Option.guard, hdrop]
  rw [← hkeep]
  unfold SynthHolds.dropClaims
  rw [hclaims]
  exact sweepDown_perm _ _

end

structure Removal (h : SynthHolds) (drops : SynthOwner → Bool) (released : KeyBits)
    (h' : SynthHolds) (released' : KeyBits) : Prop where
  claims : h'.claims.Perm (h.claims.filter fun claim => !drops claim.owner)
  reports : ∀ c, c ∈ released' ↔ c ∈ released ∨
    (∃ claim ∈ h.claims, drops claim.owner = true ∧ c ∈ claim.keys) ∧ h'.holders c = 0

theorem Counted.removal_dropClaims (hc : Counted h) (drops : SynthOwner → Bool)
    (released : KeyBits) :
    Removal h drops released (h.dropClaims drops released).1 (h.dropClaims drops released).2 := by
  have hclaims := hc.claims_dropClaims drops released
  have hcounted := (hc.dropClaims drops released).counted
  have hreports := hc.reports_dropClaimsFrom drops h.claims.length released
  refine ⟨hclaims, fun c => (hreports.mem c).trans (or_congr_right ?_)⟩
  change c ∈ h.held ∧ c ∉ (h.dropClaims drops released).1.held ↔ _
  rw [hcounted.held, not_not]
  refine and_congr_left fun hzero => ⟨fun hheld => ?_, ?_⟩
  · obtain ⟨claim, hclaim, hkey⟩ := hc.exists_of_held hheld
    refine ⟨claim, hclaim, ?_, hkey⟩
    -- A holder that stays would still be counted.
    by_contra hkept
    have hstays : claim ∈ (h.dropClaims drops released).1.claims :=
      hclaims.mem_iff.mpr (mem_filter.mpr ⟨hclaim, by simpa using hkept⟩)
    exact (hcounted.held c).mp (hcounted.held_of_claim hstays hkey) hzero
  · rintro ⟨_, hclaim, -, hkey⟩
    exact hc.held_of_claim hclaim hkey

theorem Counted.removal_sweepDeadTargets (hc : Counted h) {epoch : Nat} (hepoch : h.epoch ≠ epoch)
    (dead : SynthOwner → Bool) (released : KeyBits) :
    Removal h dead released (h.sweepDeadTargets epoch dead released).1
      (h.sweepDeadTargets epoch dead released).2 := by
  have hc' : Counted { h with epoch := epoch } := { hc with }
  obtain ⟨hclaims, hreports⟩ := hc'.removal_dropClaims dead released
  unfold SynthHolds.sweepDeadTargets
  rw [if_neg hepoch]
  exact ⟨hclaims, hreports⟩

inductive Change
  | hold (owner : SynthOwner) (code : Code)
  | drop (i : Nat) (code : Code)
  | releaseCode (code : Code)
  | dropClaims (drops : SynthOwner → Bool)
  | sweepDeadTargets (epoch : Nat) (dead : SynthOwner → Bool)
  | clear

/-- Every caller of `drop_key` has found the key in the claim. -/
def change (h : SynthHolds) : Change → Option SynthHolds
  | .hold owner code => some (h.holdKey owner code).2
  | .drop i code =>
    if h.claims[i]?.any (code ∈ ·.keys) then some (h.dropKey i code) else none
  | .releaseCode code => some (h.releaseCode code)
  | .dropClaims drops => some (h.dropClaims drops ∅).1
  | .sweepDeadTargets epoch dead => some (h.sweepDeadTargets epoch dead ∅).1
  | .clear => some h.clear

theorem Counted.change (hc : Counted h) {e : Change} (hstep : h.change e = some h') :
    Counted h' := by
  cases e with
  | hold owner code =>
    cases hstep
    exact (hc.holdKey owner code).counted
  | drop =>
    simp only [SynthHolds.change, Option.ite_none_right_eq_some, Option.some.injEq] at hstep
    obtain ⟨hany, rfl⟩ := hstep
    obtain ⟨_, hi, hkey⟩ := (Option.any_eq_true _ _).mp hany
    exact hc.dropKey hi (by simpa using hkey)
  | releaseCode code =>
    cases hstep
    exact hc.releaseCode code
  | dropClaims drops =>
    cases hstep
    exact (hc.dropClaims drops ∅).counted
  | sweepDeadTargets epoch dead =>
    cases hstep
    exact (hc.sweepDeadTargets epoch dead ∅).1
  | clear =>
    cases hstep
    exact counted_clear h

theorem Counted.of_reaches (hrun : Reaches SynthHolds.change always {} h) : Counted h :=
  hrun.invariant counted_default fun _ _ _ hs _ hstep => hs.change hstep

/-- In every run the counts are right, and a removal is exact whatever it selects. -/
theorem hold_table_exact (hrun : Reaches SynthHolds.change always {} h) :
    (∀ c, h.holders c = h.claims.countP (c ∈ ·.keys)) ∧ (∀ c, c ∈ h.held ↔ 0 < h.holders c) ∧
      (h.claims.map (·.owner)).Nodup ∧ (∀ claim ∈ h.claims, claim.keys ≠ ∅) ∧
      h.claims.length ≤ 1024 ∧
      (∀ drops released, Removal h drops released (h.dropClaims drops released).1
        (h.dropClaims drops released).2) ∧
      ∀ epoch dead released, h.epoch ≠ epoch →
        Removal h dead released (h.sweepDeadTargets epoch dead released).1
          (h.sweepDeadTargets epoch dead released).2 := by
  have hc := Counted.of_reaches hrun
  refine ⟨hc.holders, fun c => ?_, hc.owners, hc.keys, hc.capacity,
    hc.removal_dropClaims,
    fun epoch dead released hepoch => hc.removal_sweepDeadTargets hepoch dead released⟩
  rw [hc.held, Nat.pos_iff_ne_zero]

/-- Two owners hold one key, and the first of them is removed. -/
theorem hold_table_exact_of_run :
    ∃ h, Reaches SynthHolds.change always {} h ∧ h.claims.length = 2 ∧ h.holders 30 = 2 ∧
      Removal h (·.target == 1) ∅ (h.dropClaims (·.target == 1) ∅).1
        (h.dropClaims (·.target == 1) ∅).2 := by
  let changes : List Change :=
    [.hold { target := 1 } 30, .hold { target := 2 } 31, .hold { target := 2 } 30]
  obtain ⟨h, hrun, hclaims, hholders⟩ := exists_reaches SynthHolds.change {} changes
    (q := fun h => h.claims.length = 2 ∧ h.holders 30 = 2) (by decide +kernel)
  exact ⟨h, hrun, hclaims, hholders, (hold_table_exact hrun).2.2.2.2.2.1 _ _⟩

end KeysharpInput.Output.SynthHolds
