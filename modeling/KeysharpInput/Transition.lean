import Mathlib

/-!
Runs of a guarded step function.
A step takes an event and either yields the next state or none, which stands for
a stop without successor. The guard restricts which events may be taken in which
state; the trivial guard gives all runs. The one induction over runs is proved
here, so that a safety result elsewhere is an initial case and a step case.
Nothing in this module speaks about a particular program.
-/
namespace KeysharpInput.Transition

universe u v
variable {σ : Type u} {ε : Type v} {es : List ε}

/-- The states reached from `init` by steps that all meet `guard`. -/
inductive Reaches (step : σ → ε → Option σ) (guard : σ → ε → Prop) (init : σ) : σ → Prop
  | refl : Reaches step guard init init
  | tail {s t : σ} (e : ε) : Reaches step guard init s → guard s e → step s e = some t →
      Reaches step guard init t

def always (_ : σ) (_ : ε) : Prop := True

variable {step : σ → ε → Option σ} {guard : σ → ε → Prop} {init s t : σ}

theorem Reaches.invariant {P : σ → Prop} (h : Reaches step guard init s) (hinit : P init)
    (hstep : ∀ s e t, P s → guard s e → step s e = some t → P t) : P s := by
  induction h with
  | refl => exact hinit
  | tail e _ hguard hs ih => exact hstep _ e _ ih hguard hs

def run (step : σ → ε → Option σ) (s : σ) : List ε → Option σ
  | [] => some s
  | e :: es => (step s e).bind fun t => run step t es

def GuardedRun (step : σ → ε → Option σ) (guard : σ → ε → Prop) : σ → List ε → Prop
  | _, [] => True
  | s, e :: es => guard s e ∧ ∀ t, step s e = some t → GuardedRun step guard t es

theorem Reaches.trans_run (h : Reaches step guard init s) (hguard : GuardedRun step guard s es)
    (hrun : run step s es = some t) : Reaches step guard init t := by
  induction es generalizing s with
  | nil =>
    obtain rfl : s = t := by simpa [run] using hrun
    exact h
  | cons e es ih =>
    obtain ⟨u, hu, hrest⟩ : ∃ u, step s e = some u ∧ run step u es = some t := by
      simpa [run, Option.bind_eq_some_iff] using hrun
    exact ih (h.tail e hguard.1 hu) (hguard.2 u hu) hrest

def checkRun (step : σ → ε → Option σ) (check : σ → ε → Bool) : σ → List ε → Bool
  | _, [] => true
  | s, e :: es => check s e && (step s e).all fun t => checkRun step check t es

theorem guardedRun_of_check {check : σ → ε → Bool} (hcheck : ∀ s e, check s e = true → guard s e)
    (h : checkRun step check s es = true) : GuardedRun step guard s es := by
  induction es generalizing s with
  | nil => trivial
  | cons e _ ih =>
    simp only [checkRun, Bool.and_eq_true] at h
    refine ⟨hcheck s e h.1, fun t ht => ih ?_⟩
    simpa [ht] using h.2

theorem guardedRun_of_forall (es : List ε) (h : ∀ e ∈ es, ∀ s, guard s e) (s : σ) :
    GuardedRun step guard s es := by
  induction es generalizing s with
  | nil => trivial
  | cons e _ ih =>
    exact ⟨h e List.mem_cons_self s, fun t _ => ih (fun e he => h e (List.mem_cons_of_mem _ he)) t⟩

theorem guardedRun_always (s : σ) (es : List ε) : GuardedRun step always s es :=
  guardedRun_of_forall es (fun _ _ _ => trivial) s

theorem Reaches.exists_of_run {q : σ → Prop} [DecidablePred q]
    (hguard : GuardedRun step guard init es) (hrun : (run step init es).any (q ·) = true) :
    ∃ t, Reaches step guard init t ∧ q t := by
  obtain ⟨t, ht, hq⟩ := (Option.any_eq_true _ _).mp hrun
  exact ⟨t, Reaches.refl.trans_run hguard ht, of_decide_eq_true hq⟩

theorem exists_reaches (step : σ → ε → Option σ) (init : σ) (es : List ε) {q : σ → Prop}
    [DecidablePred q] (hrun : (run step init es).any (q ·) = true) :
    ∃ t, Reaches step always init t ∧ q t :=
  Reaches.exists_of_run (guardedRun_always init es) hrun

theorem exists_reaches_of_check (step : σ → ε → Option σ) (check : σ → ε → Bool) (init : σ)
    (es : List ε) {q : σ → Prop} [DecidablePred q] (hcheck : checkRun step check init es = true)
    (hrun : (run step init es).any (q ·) = true) :
    ∃ t, Reaches step (check · · = true) init t ∧ q t :=
  Reaches.exists_of_run (guardedRun_of_check (fun _ _ => id) hcheck) hrun

end KeysharpInput.Transition
