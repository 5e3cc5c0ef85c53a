import KeysharpInput.Holds
import KeysharpInput.Tables

/-!
The hold tables keep their counts and act on owners one by one.
In every table the functions of `Holds` can build, the holders of a key are counted right, no
two claims have one owner and no claim is empty. For such a table each function is described by
what it does to the keys of each owner; the order of the claims does not matter.
-/

namespace KeysharpInput.Output.SynthHolds

open SwapRemove Tables List Finset Function Option

variable {h : SynthHolds} {i : Nat} {claim : SynthClaim} {code c : Code} {owner o : SynthOwner}
  {claims : List SynthClaim}

def owned (h : SynthHolds) (o : SynthOwner) : Set Code :=
  { c | ∃ claim ∈ h.claims, claim.owner = o ∧ c ∈ claim.keys }

theorem mem_owned : c ∈ h.owned o ↔ ∃ claim ∈ h.claims, claim.owner = o ∧ c ∈ claim.keys :=
  Iff.rfl

structure Tallied (h : SynthHolds) : Prop where
  holders : ∀ c, h.holders c = h.claims.countP (c ∈ ·.keys)
  held : ∀ c, c ∈ h.held ↔ h.holders c ≠ 0
  owners : (h.claims.map (·.owner)).Nodup
  capacity : h.claims.length ≤ synthClaimCapacity

structure Counted (h : SynthHolds) : Prop extends Tallied h where
  keys : ∀ claim ∈ h.claims, claim.keys ≠ ∅

theorem counted_clear (h : SynthHolds) : Counted h.clear where
  holders := by simp [clear]
  held := by simp [clear]
  owners := by simp [clear]
  capacity := by simp [clear]
  keys := by simp [clear]

theorem counted_default : Counted {} := counted_clear {}

theorem owned_clear (h : SynthHolds) (o : SynthOwner) : h.clear.owned o = ∅ := by
  simp [clear, owned]

theorem Counted.not_mem_of_not_held (hc : Counted h) (hheld : code ∉ h.held)
    (hclaim : claim ∈ h.claims) : code ∉ claim.keys := by
  have hzero : h.holders code = 0 := by
    by_contra hne
    exact hheld ((hc.held code).mpr hne)
  rw [hc.holders, countP_eq_zero] at hzero
  simpa using hzero claim hclaim

theorem Tallied.owned_eq (ht : Tallied h) (hclaim : claim ∈ h.claims) :
    h.owned claim.owner = claim.keys := by
  ext c
  constructor
  · rintro ⟨_, hmem, howner, hkey⟩
    rwa [eq_of_key_eq ht.owners hmem hclaim howner] at hkey
  · exact fun hkey => ⟨claim, hclaim, rfl, hkey⟩

theorem Tallied.owned_modify (ht : Tallied h) (hi : h.claims[i]? = some claim)
    (h' : SynthHolds) {g : KeyBits → KeyBits}
    (hclaims : h'.claims = h.claims.modify i fun claim => { claim with keys := g claim.keys }) :
    h'.owned o = if o = claim.owner then (g claim.keys : Set Code) else h.owned o := by
  ext c
  simp only [mem_owned, hclaims, mem_modify ht.owners hi]
  split
  · rename_i ho
    subst ho
    constructor
    · rintro ⟨claim', rfl | ⟨-, hne⟩, howner, hkey⟩
      · exact hkey
      · exact absurd howner hne
    · exact fun hkey => ⟨_, .inl rfl, rfl, hkey⟩
  · rename_i ho
    constructor
    · rintro ⟨claim', rfl | ⟨hmem, -⟩, howner, hkey⟩
      · exact absurd howner.symm ho
      · exact ⟨claim', hmem, howner, hkey⟩
    · rintro ⟨claim', hmem, howner, hkey⟩
      exact ⟨claim', .inr ⟨hmem, fun hsame => ho (howner.symm.trans hsame)⟩, howner, hkey⟩

theorem Counted.ownerHolds_iff (hc : Counted h) :
    h.ownerHolds owner code = true ↔ code ∈ h.owned owner := by
  unfold ownerHolds findClaim
  cases hfind : h.claims.findIdx? (·.owner = owner) with
  | none =>
    simp only [findIdx?_eq_none_iff, decide_eq_false_iff_not] at hfind
    constructor
    · simp
    · rintro ⟨claim, hmem, howner, -⟩
      exact absurd howner (hfind claim hmem)
  | some i =>
    obtain ⟨hi, howner, -⟩ := findIdx?_eq_some_iff_getElem.mp hfind
    have howner : h.claims[i].owner = owner := by simpa using howner
    rw [← howner, hc.owned_eq (getElem_mem hi)]
    simp [getElem?_eq_getElem hi]

theorem owners_modify (claims : List SynthClaim) (i : Nat) (g : KeyBits → KeyBits) :
    (claims.modify i fun claim => { claim with keys := g claim.keys }).map (·.owner) =
      claims.map (·.owner) :=
  map_modify_of_eq _ fun _ => rfl

theorem addKey_eq (hi : h.claims[i]? = some claim) (hkey : code ∉ claim.keys) :
    h.addKey i code = { h with
      claims := h.claims.modify i fun claim => { claim with keys := insert code claim.keys }
      holders := update h.holders code (h.holders code + 1)
      held := if h.holders code = 0 then insert code h.held else h.held } := by
  simp [addKey, hi, hkey]

theorem Tallied.addKey (ht : Tallied h) (hi : h.claims[i]? = some claim) :
    Tallied (h.addKey i code) := by
  by_cases hkey : code ∈ claim.keys
  · simpa [SynthHolds.addKey, hi, hkey] using ht
  rw [addKey_eq hi hkey]
  refine ⟨fun c => ?_, fun c => ?_, ?_, by simpa using ht.capacity⟩
  · have hcount := countP_modify (f := fun claim : SynthClaim =>
      { claim with keys := insert code claim.keys }) (c ∈ ·.keys) hi
    by_cases hc : c = code
    · subst hc
      simp only [hkey] at hcount
      simpa [ht.holders] using hcount.symm
    · simpa [hc, ht.holders] using hcount.symm
  · by_cases hzero : h.holders code = 0
    · by_cases hc : c = code <;> simp [hzero, hc, ht.held]
    by_cases hc : c = code
    · subst hc
      simp [hzero, ht.held]
    · simp [hzero, hc, ht.held]
  · rw [owners_modify]
    exact ht.owners

theorem owned_addKey (ht : Tallied h) (hi : h.claims[i]? = some claim) : (h.addKey i code).owned o =
      if o = claim.owner then insert code (h.owned o) else h.owned o := by
  by_cases hkey : code ∈ claim.keys
  · have hself : code ∈ h.owned claim.owner := ⟨claim, mem_of_getElem? hi, rfl, hkey⟩
    rw [show h.addKey i code = h by simp [addKey, hi, hkey]]
    split
    · rename_i ho
      rw [ho, Set.insert_eq_of_mem hself]
    · rfl
  rw [ht.owned_modify hi (h.addKey i code) (by rw [addKey_eq hi hkey])]
  split
  · rename_i ho
    rw [ho, ht.owned_eq (mem_of_getElem? hi), coe_insert]
  · rfl

theorem Counted.of_addKey (ht : Tallied (h.addKey i code)) (hi : h.claims[i]? = some claim)
    (hothers : ∀ j ≠ i, ∀ claim', h.claims[j]? = some claim' → claim'.keys ≠ ∅) :
    Counted (h.addKey i code) := by
  refine { ht with keys := fun claim' hclaim' => ?_ }
  by_cases hkey : code ∈ claim.keys
  · rw [show h.addKey i code = h by simp [addKey, hi, hkey]] at hclaim'
    obtain ⟨j, hj⟩ := mem_iff_getElem?.mp hclaim'
    by_cases hji : j = i
    · subst hji
      rw [some.inj (hj.symm.trans hi)]
      exact ne_empty_of_mem hkey
    · exact hothers j hji claim' hj
  · rw [addKey_eq hi hkey] at hclaim'
    rcases (mem_modify_iff hi).mp hclaim' with rfl | ⟨j, hji, hj⟩
    · exact ne_empty_of_mem (Finset.mem_insert_self code _)
    · exact hothers j hji claim' hj

theorem addKey_frame (h : SynthHolds) (i : Nat) (code : Code) :
    (h.addKey i code).epoch = h.epoch ∧ (h.addKey i code).overflowed = h.overflowed := by
  unfold addKey
  split
  · exact ⟨rfl, rfl⟩
  · split <;> exact ⟨rfl, rfl⟩

/-- What `hold_key` does to a table with right counts. -/
structure HoldSpec (h : SynthHolds) (owner : SynthOwner) (code : Code) (ok : Bool)
    (h' : SynthHolds) : Prop where
  counted : Counted h'
  epoch : h'.epoch = h.epoch
  overflowed : h'.overflowed = (h.overflowed || !ok)
  owned : ∀ o, h'.owned o = if ok ∧ o = owner then insert code (h.owned o) else h.owned o

theorem Counted.holdKey (hc : Counted h) (owner : SynthOwner) (code : Code) :
    HoldSpec h owner code (h.holdKey owner code).1 (h.holdKey owner code).2 := by
  unfold SynthHolds.holdKey
  cases hfind : h.findClaim owner with
  | some i =>
    obtain ⟨hlt, howner, -⟩ := findIdx?_eq_some_iff_getElem.mp hfind
    have hi := getElem?_eq_getElem hlt
    have howner : h.claims[i].owner = owner := by simpa using howner
    obtain ⟨hepoch, hover⟩ := addKey_frame h i code
    refine ⟨.of_addKey (hc.toTallied.addKey hi) hi fun j _ claim' hj =>
      hc.keys claim' (mem_of_getElem? hj), hepoch, by simp [hover], fun o => ?_⟩
    simp [owned_addKey hc.toTallied hi, howner]
  | none =>
    have hnone : ∀ claim ∈ h.claims, claim.owner ≠ owner := by
      simpa [findClaim] using hfind
    dsimp only
    split
    · refine ⟨{ hc with }, rfl, by simp, fun o => ?_⟩
      simp [owned]
    set fresh : SynthHolds := { h with claims := h.claims ++ [SynthClaim.mk owner ∅] } with hfresh
    have hi : fresh.claims[h.claims.length]? = some ⟨owner, ∅⟩ := by simp [fresh]
    have hfresh_owned : ∀ o, fresh.owned o = h.owned o := by
      intro o
      simp [owned, fresh]
    have htally : Tallied fresh := by
      refine ⟨fun c => by simp [fresh, hc.holders], hc.held, ?_, ?_⟩
      · simp only [fresh, map_append]
        refine List.Nodup.append hc.owners (by simp) ?_
        simpa using hnone
      · have := hc.capacity
        simp only [fresh, length_append, length_singleton]
        omega
    obtain ⟨hepoch, hover⟩ := addKey_frame fresh h.claims.length code
    refine ⟨.of_addKey (htally.addKey hi) hi fun j hj claim' hclaim' => ?_, hepoch,
      by simp [hover, fresh], fun o => ?_⟩
    · have hlt : j < h.claims.length := by
        have := (List.getElem?_eq_some_iff.mp hclaim').1
        simp only [fresh, length_append, length_singleton] at this
        omega
      refine hc.keys claim' (mem_of_getElem? (i := j) ?_)
      simpa [fresh, getElem?_append_left hlt] using hclaim'
    · simp [owned_addKey htally hi, hfresh_owned]

theorem removeHolder_snd (h : SynthHolds) (code : Code) : (h.removeHolder code).2 = { h with
      holders := update h.holders code (h.holders code - 1)
      held := if h.holders code - 1 = 0 then h.held.erase code else h.held } := by
  by_cases hzero : h.holders code - 1 = 0 <;> simp [removeHolder, hzero]

theorem dropKey_eq (hi : h.claims[i]? = some claim) : h.dropKey i code = { h with
      claims := if claim.keys.erase code = ∅ then swapRemove h.claims i
        else h.claims.modify i fun claim => { claim with keys := claim.keys.erase code }
      holders := update h.holders code (h.holders code - 1)
      held := if h.holders code - 1 = 0 then h.held.erase code else h.held } := by
  have hmodify : (h.claims.modify i fun c => { c with keys := claim.keys.erase code }) =
      h.claims.modify i fun c => { c with keys := c.keys.erase code } := by
    rw [modify_eq_set hi, modify_eq_set hi]
  simp only [dropKey, hi, removeHolder_snd]
  split
  · rw [swapRemove_modify]
  · rw [hmodify]

theorem countP_swapRemove (p : SynthClaim → Bool) (hi : claims[i]? = some claim) :
    claims.countP p = (swapRemove claims i).countP p + if p claim then 1 else 0 := by
  obtain ⟨hlt, rfl⟩ := List.getElem?_eq_some_iff.mp hi
  rw [(perm_cons_swapRemove hlt).countP_eq, List.countP_cons]

section

variable (hn : (claims.map (·.owner)).Nodup)

include hn

theorem perm_swapRemove (hi : claims[i]? = some claim) :
    claims ~ claim :: swapRemove claims i ∧
      claim.owner ∉ (swapRemove claims i).map (·.owner) ∧
      ((swapRemove claims i).map (·.owner)).Nodup := by
  obtain ⟨hlt, rfl⟩ := List.getElem?_eq_some_iff.mp hi
  have hperm := perm_cons_swapRemove hlt
  exact ⟨hperm, nodup_cons.mp ((hperm.map SynthClaim.owner).nodup_iff.mp hn)⟩

theorem mem_swapRemove (hi : claims[i]? = some claim)
    {x : SynthClaim} : x ∈ swapRemove claims i ↔ x ∈ claims ∧ x.owner ≠ claim.owner := by
  obtain ⟨hperm, hnodup⟩ := perm_swapRemove hn hi
  rw [hperm.mem_iff, List.mem_cons]
  constructor
  · intro hx
    exact ⟨.inr hx, fun howner => hnodup.1 (howner ▸ List.mem_map_of_mem hx)⟩
  · rintro ⟨rfl | hx, hne⟩
    · exact absurd rfl hne
    · exact hx

theorem swapRemove_facts (hi : claims[i]? = some claim) :
    ((swapRemove claims i).map (·.owner)).Nodup ∧ (swapRemove claims i).length ≤ claims.length := by
  obtain ⟨hperm, hnodup⟩ := perm_swapRemove hn hi
  have hlength := hperm.length_eq
  rw [length_cons] at hlength
  exact ⟨hnodup.2, by omega⟩

end

theorem held_removeHolder (hheld : ∀ c, c ∈ h.held ↔ h.holders c ≠ 0) (code c : Code) :
    c ∈ (h.removeHolder code).2.held ↔ (h.removeHolder code).2.holders c ≠ 0 := by
  rw [removeHolder_snd]
  by_cases hc : c = code
  · subst hc
    by_cases hzero : h.holders c - 1 = 0
    · simp [hzero]
    · have : h.holders c ≠ 0 := by omega
      simp [hzero, hheld, this]
  · by_cases hzero : h.holders code - 1 = 0 <;> simp [hzero, hc, hheld]

theorem Counted.dropKey (hc : Counted h) (hi : h.claims[i]? = some claim)
    (hkey : code ∈ claim.keys) : Counted (h.dropKey i code) := by
  have hheld := held_removeHolder hc.held code
  rw [removeHolder_snd] at hheld
  rw [dropKey_eq hi]
  by_cases hempty : claim.keys.erase code = ∅
  · obtain ⟨hnodup, hlength⟩ := swapRemove_facts hc.owners hi
    simp only [if_pos hempty]
    refine ⟨⟨fun c => ?_, hheld, hnodup, hlength.trans hc.capacity⟩, fun claim' hclaim' => ?_⟩
    · have hcount := countP_swapRemove (c ∈ ·.keys) hi
      rw [← hc.holders] at hcount
      by_cases hcc : c = code
      · subst hcc
        simp only [hkey, decide_true, if_true] at hcount
        simp only [update_self]
        omega
      · have hout : c ∉ claim.keys := fun hmem =>
          notMem_empty c (hempty ▸ mem_erase.mpr ⟨hcc, hmem⟩)
        simpa [hcc, hout] using hcount
    · exact hc.keys claim' ((mem_swapRemove hc.owners hi).mp hclaim').1
  simp only [if_neg hempty]
  refine ⟨⟨fun c => ?_, hheld, ?_, by simpa using hc.capacity⟩, fun claim' hclaim' => ?_⟩
  · have hcount := countP_modify (f := fun claim : SynthClaim =>
      { claim with keys := claim.keys.erase code }) (c ∈ ·.keys) hi
    rw [← hc.holders] at hcount
    by_cases hcc : c = code
    · subst hcc
      simp only [hkey, decide_true, if_true, notMem_erase, decide_false,
        Bool.false_eq_true, if_false] at hcount
      simp only [update_self]
      omega
    · simpa [hcc] using hcount.symm
  · rw [owners_modify _ _ fun keys => keys.erase code]
    exact hc.owners
  · rcases (mem_modify_iff hi).mp hclaim' with rfl | ⟨j, -, hj⟩
    · exact hempty
    · exact hc.keys claim' (mem_of_getElem? hj)

theorem Counted.owned_dropKey (hc : Counted h) (hi : h.claims[i]? = some claim) :
    (h.dropKey i code).owned o = if o = claim.owner then h.owned o \ {code} else h.owned o := by
  by_cases hempty : claim.keys.erase code = ∅
  · have hclaims : (h.dropKey i code).claims = swapRemove h.claims i := by
      rw [dropKey_eq hi, if_pos hempty]
    ext c
    rw [mem_owned, hclaims]
    simp only [mem_swapRemove hc.owners hi]
    split
    · rename_i ho
      subst ho
      rw [hc.owned_eq (mem_of_getElem? hi)]
      constructor
      · rintro ⟨claim', ⟨-, hne⟩, howner, -⟩
        exact absurd howner hne
      · rintro ⟨hmem, hne⟩
        exact absurd (hempty ▸ mem_erase.mpr ⟨hne, hmem⟩) (notMem_empty c)
    · rename_i ho
      constructor
      · rintro ⟨claim', ⟨hmem, -⟩, howner, hkey⟩
        exact ⟨claim', hmem, howner, hkey⟩
      · rintro ⟨claim', hmem, howner, hkey⟩
        exact ⟨claim', ⟨hmem, fun hsame => ho (howner.symm.trans hsame)⟩, howner, hkey⟩
  · rw [hc.owned_modify hi (h.dropKey i code) (g := fun keys => keys.erase code)
      (by rw [dropKey_eq hi, if_neg hempty])]
    split
    · rename_i ho
      rw [ho, hc.owned_eq (mem_of_getElem? hi), coe_erase]
    · rfl

theorem dropKey_frame (h : SynthHolds) (i : Nat) (code : Code) :
    (h.dropKey i code).epoch = h.epoch ∧ (h.dropKey i code).overflowed = h.overflowed := by
  cases hi : h.claims[i]? with
  | none => simp [dropKey, hi]
  | some => simp [dropKey_eq hi]

def dropCode (code : Code) (claim : SynthClaim) : Option SynthClaim :=
  if claim.keys.erase code = ∅ then none else some { claim with keys := claim.keys.erase code }

theorem dropCode_of_not_mem (hkeys : claim.keys ≠ ∅) (hkey : code ∉ claim.keys) :
    dropCode code claim = some claim := by
  unfold dropCode
  rw [erase_eq_of_notMem hkey, if_neg hkeys]

theorem Counted.releaseCodeFrom (hc : Counted h) (code : Code) (i : Nat) :
    Counted (releaseCodeFrom code i h) ∧
      (releaseCodeFrom code i h).claims = sweepDown (dropCode code) i h.claims := by
  induction i generalizing h with
  | zero => exact ⟨hc, rfl⟩
  | succ i ih =>
    unfold releaseCodeFrom
    by_cases hheld : code ∈ h.held
    · rw [if_neg (not_not.mpr hheld)]
      cases hi : h.claims[i]? with
      | none =>
        simp only [sweepDown, hi]
        exact ih hc
      | some claim =>
        by_cases hkey : code ∈ claim.keys
        · simp only [any_some, hkey, decide_true, if_true]
          obtain ⟨hcounted, hclaims⟩ := ih (hc.dropKey hi hkey)
          refine ⟨hcounted, ?_⟩
          rw [hclaims, dropKey_eq hi]
          simp only [sweepDown, hi, dropCode]
          split
          · rfl
          · rw [modify_eq_set hi]
        · simp only [any_some, hkey, decide_false, Bool.false_eq_true, if_false]
          obtain ⟨hcounted, hclaims⟩ := ih hc
          refine ⟨hcounted, ?_⟩
          have hsame := dropCode_of_not_mem (hc.keys claim (mem_of_getElem? hi)) hkey
          obtain ⟨hlt, rfl⟩ := List.getElem?_eq_some_iff.mp hi
          simp only [hclaims, sweepDown, hi, hsame, set_getElem_self]
    · rw [if_pos hheld]
      refine ⟨hc, (sweepDown_eq_self fun claim hclaim => ?_).symm⟩
      exact dropCode_of_not_mem (hc.keys claim hclaim) (hc.not_mem_of_not_held hheld hclaim)

theorem Counted.releaseCode (hc : Counted h) (code : Code) : Counted (h.releaseCode code) :=
  (hc.releaseCodeFrom code _).1

theorem Counted.owned_releaseCode (hc : Counted h) (code : Code) (o : SynthOwner) :
    (h.releaseCode code).owned o = h.owned o \ {code} := by
  have hperm : (h.releaseCode code).claims.Perm (h.claims.filterMap (dropCode code)) := by
    unfold SynthHolds.releaseCode
    rw [(hc.releaseCodeFrom code _).2]
    exact sweepDown_perm _ _
  ext c
  simp only [mem_owned, hperm.mem_iff, List.mem_filterMap]
  constructor
  · rintro ⟨_, ⟨claim, hclaim, hdrop⟩, howner, hkey⟩
    unfold dropCode at hdrop
    split at hdrop
    · simp at hdrop
    · cases hdrop
      obtain ⟨hne, hkey⟩ := mem_erase.mp hkey
      exact ⟨⟨claim, hclaim, howner, hkey⟩, hne⟩
  · rintro ⟨⟨claim, hclaim, howner, hkey⟩, hne⟩
    have hmem : c ∈ claim.keys.erase code := mem_erase.mpr ⟨hne, hkey⟩
    refine ⟨{ claim with keys := claim.keys.erase code }, ⟨claim, hclaim, ?_⟩, howner, hmem⟩
    unfold dropCode
    rw [if_neg (ne_empty_of_mem hmem)]

theorem releaseCodeFrom_frame (code : Code) (i : Nat) (h : SynthHolds) :
    (releaseCodeFrom code i h).epoch = h.epoch ∧
      (releaseCodeFrom code i h).overflowed = h.overflowed := by
  induction i generalizing h with
  | zero => exact ⟨rfl, rfl⟩
  | succ i ih =>
    unfold releaseCodeFrom
    split
    · exact ⟨rfl, rfl⟩
    split
    · rw [(ih _).1, (ih _).2]
      exact dropKey_frame h i code
    · exact ih h

theorem removeHolders_spec (codes : List Code) (hn : codes.Nodup)
    (hheld : ∀ c, c ∈ h.held ↔ h.holders c ≠ 0) (released : KeyBits) :
    let h' := (removeHolders codes h released).1
    h'.claims = h.claims ∧ h'.epoch = h.epoch ∧ h'.overflowed = h.overflowed ∧
      (∀ c, c ∈ h'.held ↔ h'.holders c ≠ 0) ∧
      ∀ c, h'.holders c = h.holders c - if c ∈ codes then 1 else 0 := by
  induction codes generalizing h released with
  | nil => simpa [removeHolders] using hheld
  | cons code _ ih =>
    obtain ⟨hnot, hn⟩ := nodup_cons.mp hn
    have hsnd := removeHolder_snd h code
    obtain ⟨hclaims, hepoch, hover, hheld', hholders⟩ :=
      ih hn (held_removeHolder hheld code)
        (if (h.removeHolder code).1 then insert code released else released)
    refine ⟨?_, ?_, ?_, hheld', fun c => ?_⟩
    · exact hclaims.trans (by rw [hsnd])
    · exact hepoch.trans (by rw [hsnd])
    · exact hover.trans (by rw [hsnd])
    refine (hholders c).trans ?_
    rw [hsnd]
    by_cases hc : c = code
    · subst hc
      simp [hnot]
    · simp [hc]

theorem Counted.removeClaim (hc : Counted h) (hi : h.claims[i]? = some claim) (released : KeyBits) :
    Counted (h.removeClaim i released).1 ∧
      (h.removeClaim i released).1.claims = swapRemove h.claims i ∧
      (h.removeClaim i released).1.epoch = h.epoch ∧
      (h.removeClaim i released).1.overflowed = h.overflowed := by
  have hspec := removeHolders_spec (setBits claim.keys) (nodup_setBits _) hc.held released
  obtain ⟨hnodup, hlength⟩ := swapRemove_facts hc.owners hi
  unfold SynthHolds.removeClaim
  simp only [hi]
  generalize removeHolders (setBits claim.keys) h released = r at hspec ⊢
  obtain ⟨hclaims, hepoch, hover, hheld, hholders⟩ := hspec
  simp only [hclaims, hepoch, hover, and_true]
  refine ⟨⟨fun c => ?_, hheld, hnodup, hlength.trans hc.capacity⟩, fun claim' hclaim' => ?_⟩
  · have hcount := countP_swapRemove (c ∈ ·.keys) hi
    rw [← hc.holders] at hcount
    refine (hholders c).trans ?_
    simp only [mem_setBits, decide_eq_true_eq] at hcount ⊢
    omega
  · exact hc.keys claim' ((mem_swapRemove hc.owners hi).mp hclaim').1

/-- What becomes of a claim when the owners that `drops` selects lose their claims. -/
def keepClaim (drops : SynthOwner → Bool) (claim : SynthClaim) : Option SynthClaim :=
  if drops claim.owner then none else some claim

structure DropSpec (h : SynthHolds) (drops : SynthOwner → Bool) (h' : SynthHolds) : Prop where
  counted : Counted h'
  epoch : h'.epoch = h.epoch
  overflowed : h'.overflowed = h.overflowed
  owned : ∀ o, h'.owned o = if drops o then ∅ else h.owned o

theorem Counted.dropClaimsFrom (hc : Counted h) (drops : SynthOwner → Bool) (i : Nat)
    (released : KeyBits) :
    let h' := (dropClaimsFrom drops i h released).1
    Counted h' ∧ h'.epoch = h.epoch ∧ h'.overflowed = h.overflowed ∧
      h'.claims = sweepDown (keepClaim drops) i h.claims := by
  induction i generalizing h released with
  | zero => exact ⟨hc, rfl, rfl, rfl⟩
  | succ i ih =>
    unfold dropClaimsFrom
    cases hi : h.claims[i]? with
    | none =>
      simp only [sweepDown, hi]
      exact ih hc released
    | some claim =>
      by_cases hdrop : drops claim.owner = true
      · obtain ⟨hcounted, hclaims, hepoch, hover⟩ := hc.removeClaim hi released
        obtain ⟨hcounted', hepoch', hover', hclaims'⟩ :=
          ih hcounted (h.removeClaim i released).2
        simp only [any_some, hdrop, if_true, sweepDown, hi, keepClaim]
        exact ⟨hcounted', hepoch'.trans hepoch, hover'.trans hover,
          hclaims'.trans (by rw [hclaims])⟩
      · obtain ⟨hcounted', hepoch', hover', hclaims'⟩ := ih hc released
        obtain ⟨hlt, rfl⟩ := List.getElem?_eq_some_iff.mp hi
        simp only [any_some, hdrop, Bool.false_eq_true, if_false, sweepDown, hi, keepClaim,
          set_getElem_self]
        exact ⟨hcounted', hepoch', hover', hclaims'⟩

theorem Counted.dropClaims (hc : Counted h) (drops : SynthOwner → Bool) (released : KeyBits) :
    DropSpec h drops (h.dropClaims drops released).1 := by
  obtain ⟨hcounted, hepoch, hover, hclaims⟩ := hc.dropClaimsFrom drops h.claims.length released
  have hperm := sweepDown_perm (keepClaim drops) h.claims
  rw [← hclaims] at hperm
  have hmem : ∀ claim, claim ∈ (h.dropClaims drops released).1.claims ↔
      claim ∈ h.claims ∧ drops claim.owner = false := by
    intro claim
    refine hperm.mem_iff.trans ?_
    simp only [List.mem_filterMap, keepClaim, ite_none_left_eq_some, some.injEq, Bool.not_eq_true]
    exact ⟨fun ⟨a, ha, hd, heq⟩ => heq ▸ ⟨ha, hd⟩, fun ⟨ha, hd⟩ => ⟨claim, ha, hd, rfl⟩⟩
  refine ⟨hcounted, hepoch, hover, fun o => ?_⟩
  ext c
  simp only [mem_owned, hmem]
  split
  · rename_i hdrop
    refine iff_of_false ?_ (Set.notMem_empty c)
    rintro ⟨claim, ⟨-, hkept⟩, rfl, -⟩
    rw [hdrop] at hkept
    exact Bool.noConfusion hkept
  rename_i hdrop
  constructor
  · rintro ⟨claim, ⟨hclaim, -⟩, howner, hkey⟩
    exact ⟨claim, hclaim, howner, hkey⟩
  · rintro ⟨claim, hclaim, howner, hkey⟩
    exact ⟨claim, ⟨hclaim, by simpa [howner] using hdrop⟩, howner, hkey⟩

theorem Counted.sweepDeadTargets (hc : Counted h) (epoch : Nat) (dead : SynthOwner → Bool)
    (released : KeyBits) :
    Counted (h.sweepDeadTargets epoch dead released).1 ∧
      (h.sweepDeadTargets epoch dead released).1.epoch = epoch ∧
      (h.sweepDeadTargets epoch dead released).1.overflowed = h.overflowed ∧
      ∀ o, (h.sweepDeadTargets epoch dead released).1.owned o =
        if h.epoch ≠ epoch ∧ dead o = true then ∅ else h.owned o := by
  unfold SynthHolds.sweepDeadTargets
  by_cases hepoch : h.epoch = epoch
  · simp [hepoch, hc]
  have hc' : Counted { h with epoch := epoch } := { hc with }
  obtain ⟨hcounted, hsame, hover, howned⟩ := hc'.dropClaims dead released
  rw [if_neg hepoch]
  refine ⟨hcounted, hsame, hover, fun o => ?_⟩
  rw [howned o]
  simp [hepoch, owned]

end KeysharpInput.Output.SynthHolds
