import Mathlib

/-!
Circular arrays.
The elements stand in `count` slots of `n` from `head` on, counted modulo `n`. A slot that is
written lies behind the last of them or is given up by the first, so the others keep theirs.
Nothing in this module speaks about a particular program.
-/

namespace KeysharpInput.Ring

variable {α : Type*} {n head count i j : Nat} {slots slots' : Nat → α}

/-- The elements from `head` on. -/
def contents (n : Nat) (slots : Nat → α) (head count : Nat) : List α :=
  (List.range count).map fun i => slots ((head + i) % n)

@[simp]
theorem length_contents : (contents n slots head count).length = count := by simp [contents]

theorem slot_ne (hij : i < j) (hj : j < n) : (head + i) % n ≠ (head + j) % n := by
  intro heq
  have hmod : i ≡ j [MOD n] := Nat.ModEq.add_left_cancel' head heq
  rw [Nat.ModEq, Nat.mod_eq_of_lt (hij.trans hj), Nat.mod_eq_of_lt hj] at hmod
  exact absurd hmod (Nat.ne_of_lt hij)

theorem contents_push (hcount : count < n)
    (hsame : ∀ j, j ≠ (head + count) % n → slots' j = slots j) :
    contents n slots' head (count + 1) =
      contents n slots head count ++ [slots' ((head + count) % n)] := by
  unfold contents
  rw [List.range_succ, List.map_append]
  congr 1
  refine List.map_congr_left fun i hi => hsame _ ?_
  exact slot_ne (List.mem_range.mp hi) hcount

theorem contents_pop (hcount : count < n) (hsame : ∀ j, j ≠ head % n → slots' j = slots j) :
    contents n slots head (count + 1) =
      slots (head % n) :: contents n slots' ((head + 1) % n) count := by
  unfold contents
  rw [List.range_succ_eq_map, List.map_cons, List.map_map]
  congr 1
  refine List.map_congr_left fun i hi => ?_
  have hi' : i < count := List.mem_range.mp hi
  have hne : head % n ≠ (head + (i + 1)) % n := slot_ne (Nat.succ_pos i) (by omega)
  rw [Function.comp, Nat.mod_add_mod, Nat.add_assoc, Nat.add_comm 1, hsame _ hne.symm]

end KeysharpInput.Ring
