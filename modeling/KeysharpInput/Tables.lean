import Mathlib

/-!
Lists used as tables: entries are updated and removed by position, and a key that no
two entries share names each of them. The lemmas say which entries a table has after
an update, by key rather than by position, and how counts change. Tables of one length
are compared entry by entry.
Nothing in this module speaks about a particular program.
-/
namespace KeysharpInput.Tables

open List

universe u v
variable {α : Type u} {β : Type v} {κ : Type v} {l : List α} {i : Nat} {a x : α} {f : α → α}

theorem map_modify (g : α → β) (f' : β → β) (h : ∀ a, g (f a) = f' (g a)) :
    (l.modify i f).map g = (l.map g).modify i f' := by
  apply ext_getElem?
  intro j
  by_cases hij : i = j <;> cases hl : l[j]? <;> simp [hij, hl, h]

theorem map_modify_of_eq (g : α → β) (h : ∀ a, g (f a) = g a) : (l.modify i f).map g = l.map g := by
  rw [map_modify g id h, modify_id]

theorem mem_modify_iff (ha : l[i]? = some a) :
    x ∈ l.modify i f ↔ x = f a ∨ ∃ j, j ≠ i ∧ l[j]? = some x := by
  simp only [mem_iff_getElem?]
  constructor
  · rintro ⟨j, hj⟩
    by_cases hij : i = j
    · subst hij
      left
      simpa [ha, eq_comm] using hj
    · right
      exact ⟨j, Ne.symm hij, by simpa [hij] using hj⟩
  · rintro (rfl | ⟨j, hji, hj⟩)
    · exact ⟨i, by simp [ha]⟩
    · exact ⟨j, by simp [hj, Ne.symm hji]⟩

theorem mem_of_mem_modify (hx : x ∈ l.modify i f) : x ∈ l ∨ ∃ a ∈ l, l[i]? = some a ∧ x = f a := by
  cases ha : l[i]? with
  | none =>
    rw [modify_eq_self (by simpa using ha)] at hx
    exact .inl hx
  | some a =>
    rcases (mem_modify_iff ha).mp hx with rfl | ⟨j, -, hj⟩
    · exact .inr ⟨a, mem_of_getElem? ha, rfl, rfl⟩
    · exact .inl (mem_of_getElem? hj)

theorem forall_mem_modify {P : α → Prop} (ha : l[i]? = some a) (hnew : P (f a))
    (hold : ∀ x ∈ l, P x) : ∀ x ∈ l.modify i f, P x := by
  intro x hx
  rcases (mem_modify_iff ha).mp hx with rfl | ⟨j, -, hj⟩
  · exact hnew
  · exact hold x (mem_of_getElem? hj)

theorem forall_mem_concat {P : α → Prop} (hold : ∀ x ∈ l, P x) (hnew : P a) :
    ∀ x ∈ l ++ [a], P x := by
  intro x hx
  rcases mem_append.mp hx with hx | hx
  · exact hold x hx
  · rwa [mem_singleton.mp hx]

theorem find?_modify_of_neg {p : α → Bool} (ha : l[i]? = some a) (hp : p a = false)
    (hfp : p (f a) = false) : (l.modify i f).find? p = l.find? p := by
  induction l generalizing i with
  | nil => simp
  | cons b l ih =>
    cases i with
    | zero =>
      obtain rfl : b = a := by simpa using ha
      simp [hp, hfp]
    | succ =>
      have := ih (by simpa using ha)
      simp [find?_cons, this]

theorem countP_modify (p : α → Bool) (ha : l[i]? = some a) :
    (l.modify i f).countP p + (if p a then 1 else 0) = l.countP p + (if p (f a) then 1 else 0) := by
  induction l generalizing i with
  | nil => simp at ha
  | cons b l ih =>
    cases i with
    | zero =>
      obtain rfl : b = a := by simpa using ha
      simp only [modify_zero_cons, countP_cons]
      omega
    | succ =>
      have := ih (by simpa using ha)
      simp only [modify_succ_cons, countP_cons]
      omega

theorem countP_eraseIdx (p : α → Bool) (ha : l[i]? = some a) :
    (l.eraseIdx i).countP p + (if p a then 1 else 0) = l.countP p := by
  induction l generalizing i with
  | nil => simp at ha
  | cons b l ih =>
    cases i with
    | zero =>
      obtain rfl : b = a := by simpa using ha
      simp [countP_cons]
    | succ =>
      have := ih (by simpa using ha)
      simp only [eraseIdx_cons_succ, countP_cons]
      omega

section Keyed

variable {key : α → κ}

section

variable (hn : (l.map key).Nodup)

include hn

theorem index_unique {j : Nat} {b : α} (ha : l[i]? = some a)
    (hb : l[j]? = some b) (hk : key a = key b) : i = j := by
  have hi : i < (l.map key).length := by
    rw [length_map]
    exact (List.getElem?_eq_some_iff.mp ha).1
  exact (getElem?_inj hi hn).mp (by simp [ha, hb, hk])

theorem eq_of_key_eq {b : α} (ha : a ∈ l) (hb : b ∈ l) (hk : key a = key b) : a = b := by
  obtain ⟨i, hi⟩ := mem_iff_getElem?.mp ha
  obtain ⟨j, hj⟩ := mem_iff_getElem?.mp hb
  obtain rfl := index_unique hn hi hj hk
  simpa [hi] using hj

theorem exists_other_index_iff (ha : l[i]? = some a) :
    (∃ j, j ≠ i ∧ l[j]? = some x) ↔ x ∈ l ∧ key x ≠ key a := by
  constructor
  · rintro ⟨j, hji, hj⟩
    exact ⟨mem_of_getElem? hj, fun hk => hji (index_unique hn hj ha hk)⟩
  rintro ⟨hx, hk⟩
  obtain ⟨j, hj⟩ := mem_iff_getElem?.mp hx
  refine ⟨j, ?_, hj⟩
  rintro rfl
  exact hk (by rw [Option.some.inj (hj.symm.trans ha)])

theorem mem_modify (ha : l[i]? = some a) : x ∈ l.modify i f ↔ x = f a ∨ x ∈ l ∧ key x ≠ key a := by
  rw [mem_modify_iff ha, exists_other_index_iff hn ha]

theorem mem_eraseIdx (ha : l[i]? = some a) : x ∈ l.eraseIdx i ↔ x ∈ l ∧ key x ≠ key a := by
  rw [mem_eraseIdx_iff_getElem?, exists_other_index_iff hn ha]

end

end Keyed

section Pointwise

variable {R S : α → α → Prop} {l' l'' : List α} {b : α}

theorem forall₂_modify (hrefl : ∀ a ∈ l, R a a) (hf : ∀ a, l[i]? = some a → R a (f a)) :
    Forall₂ R l (l.modify i f) := by
  induction l generalizing i with
  | nil => simp
  | cons a l ih =>
    have hrest : ∀ a ∈ l, R a a := fun a ha => hrefl a (mem_cons_of_mem _ ha)
    cases i with
    | zero => exact .cons (hf a rfl) (forall₂_same.mpr hrest)
    | succ =>
      exact .cons (hrefl a mem_cons_self) (ih hrest fun b hb => hf b (by simpa using hb))

theorem forall₂_map (hf : ∀ a ∈ l, R a (f a)) : Forall₂ R l (l.map f) := by
  rw [forall₂_map_right_iff, forall₂_same]
  exact hf

theorem forall₂_trans (htrans : ∀ a b c, R a b → S b c → R a c) (h : Forall₂ R l l')
    (h' : Forall₂ S l' l'') : Forall₂ R l l'' := by
  induction h generalizing l'' with
  | nil => rw [forall₂_nil_left_iff.mp h', forall₂_nil_left_iff]
  | cons hab _ ih =>
    obtain ⟨_, _, hbc, hcs, rfl⟩ := forall₂_cons_left_iff.mp h'
    exact .cons (htrans _ _ _ hab hbc) (ih hcs)

theorem exists_of_mem_right (h : Forall₂ R l l') (hb : b ∈ l') : ∃ a ∈ l, R a b := by
  induction h with
  | nil => simp at hb
  | cons hab _ ih =>
    rcases mem_cons.mp hb with rfl | hb
    · exact ⟨_, mem_cons_self, hab⟩
    · obtain ⟨a, ha, hr⟩ := ih hb
      exact ⟨a, mem_cons_of_mem _ ha, hr⟩

theorem map_eq_of_forall₂ (g : α → β) (hg : ∀ a b, R a b → g b = g a)
    (h : Forall₂ R l l') : l'.map g = l.map g := by
  induction h with
  | nil => rfl
  | cons hab _ ih => rw [map_cons, map_cons, hg _ _ hab, ih]

end Pointwise

end KeysharpInput.Tables
