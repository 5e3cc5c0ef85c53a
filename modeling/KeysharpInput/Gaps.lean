import Mathlib

/-!
Streams that may lose items but never lose count of them.
A record is an item or a gap, which says how many items are missing at its place. A stream condenses
another if it keeps some of its records, in their order, and has a gap of the right size wherever it
left some out.
Nothing in this module speaks about a particular program.
-/

namespace KeysharpInput.Gaps

open List

variable {α : Type*}

inductive Record (α : Type*)
  | item (a : α)
  | gap (count : Nat)
  deriving DecidableEq

def Record.weight : Record α → Nat
  | .item _ => 1
  | .gap count => count

def total (rs : List (Record α)) : Nat := (rs.map Record.weight).sum

def items (rs : List (Record α)) : List α :=
  rs.filterMap fun r => match r with
    | .item a => some a
    | .gap _ => none

def gaps (rs : List (Record α)) : Nat :=
  (rs.map fun r => match r with
    | .item _ => 0
    | .gap count => count).sum

@[simp] theorem total_nil : total ([] : List (Record α)) = 0 := rfl

@[simp] theorem total_cons (r : Record α) (rs : List (Record α)) :
    total (r :: rs) = r.weight + total rs := by
  simp [total]

@[simp] theorem total_append (rs rs' : List (Record α)) :
    total (rs ++ rs') = total rs + total rs' := by
  simp [total]

@[simp] theorem total_map_item (as : List α) : total (as.map Record.item) = as.length := by
  induction as with
  | nil => rfl
  | cons =>
    simp only [map_cons, total_cons, Record.weight, length_cons]
    omega

@[simp] theorem items_append (rs rs' : List (Record α)) :
    items (rs ++ rs') = items rs ++ items rs' :=
  filterMap_append

@[simp] theorem items_map_item (as : List α) : items (as.map Record.item) = as := by
  induction as with
  | nil => rfl
  | cons a _ ih => exact congrArg (a :: ·) ih

theorem total_eq (rs : List (Record α)) : total rs = (items rs).length + gaps rs := by
  induction rs with
  | nil => rfl
  | cons r _ ih =>
    cases r with
    | item =>
      simp only [total_cons, ih, Record.weight, items, gaps, filterMap_cons, length_cons,
        map_cons, sum_cons]
      omega
    | gap =>
      simp only [total_cons, ih, Record.weight, items, gaps, filterMap_cons, map_cons, sum_cons]
      omega

inductive Condenses : List (Record α) → List (Record α) → Prop
  | nil : Condenses [] []
  | keep (r : Record α) {fs rs : List (Record α)} : Condenses fs rs → Condenses (r :: fs) (r :: rs)
  | gap (block : List (Record α)) {count : Nat} {fs rs : List (Record α)} :
      total block = count → Condenses fs rs → Condenses (.gap count :: fs) (block ++ rs)

namespace Condenses

variable {fs gs rs ss : List (Record α)}

theorem refl (rs : List (Record α)) : Condenses rs rs := by
  induction rs with
  | nil => exact nil
  | cons r _ ih => exact keep r ih

theorem total_eq (h : Condenses fs rs) : total fs = total rs := by
  induction h with
  | nil => rfl
  | keep r _ ih => rw [total_cons, total_cons, ih]
  | gap _ hblock _ ih => rw [total_cons, total_append, ih, hblock, Record.weight]

theorem of_total {count : Nat} (h : total rs = count) : Condenses [.gap count] rs := by
  simpa using gap rs h nil

theorem append (h : Condenses fs rs) (h' : Condenses gs ss) : Condenses (fs ++ gs) (rs ++ ss) := by
  induction h with
  | nil => exact h'
  | keep r _ ih => exact keep r ih
  | gap block hblock _ ih =>
    rw [append_assoc]
    exact gap block hblock ih

theorem split (h : Condenses (fs ++ gs) rs) :
    ∃ rf rg, rs = rf ++ rg ∧ Condenses fs rf ∧ Condenses gs rg := by
  induction fs generalizing rs with
  | nil => exact ⟨[], rs, rfl, nil, h⟩
  | cons f _ ih =>
    cases h with
    | keep r h =>
      obtain ⟨rf, rg, rfl, hf, hg⟩ := ih h
      exact ⟨f :: rf, rg, rfl, keep f hf, hg⟩
    | gap block hblock h =>
      obtain ⟨rf, rg, rfl, hf, hg⟩ := ih h
      exact ⟨block ++ rf, rg, (append_assoc ..).symm, gap block hblock hf, hg⟩

/-- What a gap replaces is older than everything behind the gap and newer than everything
before it. -/
theorem around_gap {count : Nat} (h : Condenses (fs ++ .gap count :: gs) rs) :
    ∃ older lost newer, rs = older ++ lost ++ newer ∧ total lost = count ∧
      Condenses fs older ∧ Condenses gs newer := by
  obtain ⟨older, rest, rfl, holder, hrest⟩ := h.split
  have hfront : Condenses ([.gap count] ++ gs) rest := hrest
  obtain ⟨lost, newer, rfl, hlost, hnewer⟩ := hfront.split
  refine ⟨older, lost, newer, (append_assoc ..).symm, ?_, holder, hnewer⟩
  rw [← hlost.total_eq]
  rfl

theorem items_sublist (h : Condenses fs rs) : (items fs).Sublist (items rs) := by
  induction h with
  | nil => exact List.Sublist.refl _
  | keep r _ ih =>
    cases r with
    | item a => exact ih.cons_cons a
    | gap => exact ih
  | gap _ _ _ ih =>
    rw [items_append]
    exact ih.trans (sublist_append_right _ _)

end Condenses

def pending (count : Nat) : List (Record α) := if count = 0 then [] else [.gap count]

@[simp] theorem pending_zero : (pending 0 : List (Record α)) = [] := rfl

@[simp] theorem total_pending (count : Nat) : total (pending count : List (Record α)) = count := by
  unfold pending
  split
  · rename_i h
    exact h.symm
  · simp [Record.weight]

theorem condenses_pending {rs : List (Record α)} {count : Nat} (h : total rs = count)
    (hpos : 0 < count) : Condenses (pending count) rs := by
  rw [pending, if_neg (Nat.ne_of_gt hpos)]
  exact .of_total h

namespace Condenses

variable {fs gs rs : List (Record α)} {count : Nat}

theorem count_next (h : Condenses (fs ++ pending count) rs) {r : Record α} (hr : 0 < r.weight) :
    Condenses (fs ++ pending (count + r.weight)) (rs ++ [r]) := by
  obtain ⟨_, _, rfl, hf, hg⟩ := h.split
  rw [append_assoc]
  refine hf.append (condenses_pending ?_ (Nat.add_pos_right count hr))
  rw [total_append, ← hg.total_eq, total_pending, total_cons, total_nil, Nat.add_zero]

theorem keep_next (h : Condenses (fs ++ pending 0) rs) (r : Record α) :
    Condenses (fs ++ [r] ++ pending 0) (rs ++ [r]) := by
  rw [pending_zero, append_nil] at h ⊢
  exact h.append (.refl [r])

theorem report (h : Condenses (fs ++ pending count) rs) (hcount : count ≠ 0) :
    Condenses (fs ++ [.gap count] ++ pending 0) rs := by
  rw [pending_zero, append_nil]
  rwa [pending, if_neg hcount] at h

theorem discard (h : Condenses (fs ++ gs ++ pending count) rs) (hgs : ∀ r ∈ gs, 0 < r.weight) :
    Condenses (fs ++ pending (total gs + count)) rs := by
  cases gs with
  | nil => simpa using h
  | cons g =>
    rw [append_assoc] at h
    obtain ⟨_, _, rfl, hf, hg⟩ := h.split
    have hpos : 0 < g.weight := hgs g mem_cons_self
    refine hf.append (condenses_pending ?_ ?_)
    · rw [← hg.total_eq, total_append, total_pending]
    · rw [total_cons]
      omega

end Condenses

end KeysharpInput.Gaps
