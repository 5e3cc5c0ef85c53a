import Mathlib

/-!
Unordered tables with removal by swapping in the last entry.
A removal moves the last entry into the freed place, so a walk that removes entries goes from
the end to the front: what it moves has been visited. Such a walk leaves a permutation of the
entries that survive, whatever the order in which they stood.
-/

namespace KeysharpInput.SwapRemove

open List

variable {α : Type*} {l : List α} {i : Nat}

/-- The table without its `i`-th entry, whose place the last entry takes. -/
def swapRemove (l : List α) (i : Nat) : List α :=
  match l.getLast? with
  | none => []
  | some x => (l.set i x).dropLast

theorem take_swapRemove (h : i < l.length) : (swapRemove l i).take i = l.take i := by
  have hne : l ≠ [] := ne_nil_of_length_pos (by omega)
  unfold swapRemove
  rw [getLast?_eq_some_getLast hne]
  simp only [dropLast_eq_take, take_take, length_set]
  rw [Nat.min_eq_left (by omega), take_set_of_le (Nat.le_refl i)]

theorem drop_swapRemove (h : i < l.length) : ((swapRemove l i).drop i).Perm (l.drop (i + 1)) := by
  have hne : l ≠ [] := ne_nil_of_length_pos (by omega)
  obtain ⟨init, x, rfl⟩ := eq_nil_or_concat l |>.resolve_left hne
  unfold swapRemove
  rw [concat_eq_append, getLast?_concat]
  simp only
  by_cases hi : i < init.length
  · rw [set_append_left _ _ hi, dropLast_concat, drop_append_of_le_length (by omega),
      drop_eq_getElem_cons (by simpa using hi), getElem_set_self,
      drop_set_of_lt (by omega)]
    exact (perm_append_singleton x _).symm
  have hlen : i = init.length := by
    simp only [concat_eq_append, length_append, length_singleton] at h
    omega
  subst hlen
  simp

theorem perm_cons_swapRemove (h : i < l.length) : l.Perm (l[i] :: swapRemove l i) := by
  have hsplit : l = l.take i ++ l[i] :: l.drop (i + 1) := by
    rw [← drop_eq_getElem_cons h, take_append_drop]
  have hrest : (swapRemove l i).Perm (l.take i ++ l.drop (i + 1)) := by
    rw [← take_append_drop i (swapRemove l i), take_swapRemove h]
    exact (drop_swapRemove h).append_left _
  exact ((List.Perm.of_eq hsplit).trans perm_middle).trans (hrest.symm.cons _)

theorem swapRemove_set (l : List α) (i : Nat) (x : α) :
    swapRemove (l.set i x) i = swapRemove l i := by
  rcases eq_nil_or_concat l with rfl | ⟨init, y, rfl⟩
  · rfl
  unfold swapRemove
  by_cases hi : i < init.length
  · simp [hi]
  cases hj : i - init.length with
  | zero =>
    have hlen : i = init.length := by omega
    subst hlen
    simp
  | succ => simp [set_append_right _ _ (Nat.le_of_not_lt hi), hj]

theorem modify_eq_set {a : α} (h : l[i]? = some a) (g : α → α) : l.modify i g = l.set i (g a) := by
  simp [modify_eq_set_getElem?, h]

theorem swapRemove_modify (l : List α) (i : Nat) (g : α → α) :
    swapRemove (l.modify i g) i = swapRemove l i := by
  cases h : l[i]? with
  | none => rw [modify_eq_self (by simpa using h)]
  | some => rw [modify_eq_set h, swapRemove_set]

/-- The backward walk over the first `i` entries: `f` says what becomes of an entry, and an
entry that does not survive is removed by swapping. -/
def sweepDown (f : α → Option α) : Nat → List α → List α
  | 0, l => l
  | i + 1, l =>
    match l[i]? with
    | none => sweepDown f i l
    | some a =>
      match f a with
      | none => sweepDown f i (swapRemove l i)
      | some b => sweepDown f i (l.set i b)

/-- Below the walk's position the table is untouched, above it the survivors stand in some
order. -/
theorem sweepDown_perm_append (f : α → Option α) (h : i ≤ l.length) :
    (sweepDown f i l).Perm ((l.take i).filterMap f ++ l.drop i) := by
  induction i generalizing l with
  | zero => simp [sweepDown]
  | succ i ih =>
    have hi : i < l.length := by omega
    have htake : l.take (i + 1) = l.take i ++ [l[i]] := by
      rw [take_add_one, getElem?_eq_getElem hi]
      rfl
    simp only [sweepDown, getElem?_eq_getElem hi, htake, filterMap_append]
    cases hf : f l[i] with
    | none =>
      have hlen : i ≤ (swapRemove l i).length := by
        have := congrArg length (take_swapRemove hi)
        simp only [length_take] at this
        omega
      refine (ih hlen).trans ?_
      rw [take_swapRemove hi]
      simpa [hf] using (drop_swapRemove hi).append_left _
    | some =>
      refine (ih (by simpa using Nat.le_of_lt hi)).trans ?_
      rw [take_set_of_le (Nat.le_refl i), drop_eq_getElem_cons (by simpa using hi),
        drop_set_of_lt (by omega)]
      simp [hf]

theorem sweepDown_perm (f : α → Option α) (l : List α) :
    (sweepDown f l.length l).Perm (l.filterMap f) := by
  simpa using sweepDown_perm_append f (Nat.le_refl l.length)

theorem sweepDown_eq_self {f : α → Option α} (h : ∀ a ∈ l, f a = some a) : sweepDown f i l = l := by
  induction i with
  | zero => rfl
  | succ i ih =>
    unfold sweepDown
    cases hi : l[i]? with
    | none => exact ih
    | some a =>
      simp only [h a (List.mem_of_getElem? hi)]
      rw [← List.getElem?_eq_some_iff.mp hi |>.2, List.set_getElem_self]
      exact ih

end KeysharpInput.SwapRemove
