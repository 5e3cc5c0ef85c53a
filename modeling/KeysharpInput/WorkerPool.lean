import KeysharpInput.Transition

/-!
The pool of workers that run jobs beside the main loop.
The accepted jobs are those that were started, in order, followed by those in the queue. Started
jobs run or have finished. When the workers are joined nothing runs, and `destroy` cleans up what
is left in the queue.
-/

namespace KeysharpInput.WorkerPool

open List Transition

/-- `ksi_worker_job`, with 0 for a null pointer. -/
structure Job where
  run : Nat
  destroy : Nat
  context : Nat
  deriving DecidableEq

/-- `KSI_WORKER_POOL_MAX_THREADS`. -/
def maxThreads : Nat := 2

/-- `KSI_WORKER_POOL_MAX_JOBS`. -/
def maxJobs : Nat := 128

/-- The pool after `ksi_worker_pool_init`, its workers and what has become of the jobs. -/
structure Pool where
  /-- `pool->implementation` is not null. -/
  implementation : Bool := true
  stopping : Bool := false
  /-- The jobs of the ring from its head on. -/
  jobs : List Job := []
  active : Nat := 0
  /-- The workers that run a job, with that job. -/
  running : List (Nat × Job) := []
  /-- The workers that saw the stop and returned. -/
  returned : List Nat := []
  accepted : List Job := []
  started : List Job := []
  finished : List Job := []
  cleaned : List Job := []

inductive Event
  | submit (job : Job)
  /-- A worker takes a job. -/
  | start (worker : Nat)
  /-- The job of a worker returns and the worker counts itself out. -/
  | finish (worker : Nat) (job : Job)
  /-- A worker sees the stop. -/
  | observe (worker : Nat)
  | requestStop
  | destroy

namespace Pool

variable {s t : Pool} {e : Event}

def submit (s : Pool) (job : Job) : Pool :=
  if job.run = 0 ∨ job.context = 0 ∨ s.implementation = false then s
  else if s.stopping ∨ maxJobs ≤ s.jobs.length then s
  else { s with jobs := s.jobs ++ [job], accepted := s.accepted ++ [job] }

def hasWork (s : Pool) : Bool := s.implementation && (s.jobs.length != 0 || s.active != 0)

abbrev idle (s : Pool) (worker : Nat) : Prop :=
  worker < maxThreads ∧ worker ∉ s.returned ∧ ∀ p ∈ s.running, p.1 ≠ worker

def step (s : Pool) : Event → Option Pool
  | .submit job => some (s.submit job)
  | .start worker => s.jobs.head?.bind fun job =>
    if s.idle worker ∧ s.stopping = false then
      some { s with
        jobs := s.jobs.tail
        active := s.active + 1
        running := (worker, job) :: s.running
        started := s.started ++ [job] }
    else none
  | .finish worker job =>
    if (worker, job) ∈ s.running then
      some { s with
        active := s.active - 1
        running := s.running.erase (worker, job)
        finished := s.finished ++ [job] }
    else none
  | .observe worker =>
    if s.idle worker ∧ s.stopping = true then some { s with returned := worker :: s.returned }
    else none
  | .requestStop => some (if s.implementation then { s with stopping := true } else s)
  | .destroy =>
    -- All workers were joined.
    if ∀ worker < maxThreads, worker ∈ s.returned then
      some (if s.implementation then
        { s with implementation := false, cleaned := s.jobs.filter (·.destroy ≠ 0) } else s)
    else none

structure Inv (s : Pool) : Prop where
  active : s.active = s.running.length
  accepted : s.accepted = s.started ++ s.jobs
  started : s.started ~ s.finished ++ s.running.map (·.2)
  busy : ∀ p ∈ s.running, p.1 < maxThreads ∧ p.1 ∉ s.returned
  stopped : s.returned ≠ [] → s.stopping = true
  cleaned : s.cleaned = if s.implementation then [] else s.jobs.filter (·.destroy ≠ 0)
  joined : s.implementation = false → ∀ worker < maxThreads, worker ∈ s.returned

theorem Inv.step (h : s.Inv) (hstep : s.step e = some t) : t.Inv := by
  cases e with
  | submit job =>
    cases hstep
    unfold submit
    split
    · exact h
    split
    · exact h
    · rename_i hnull hfull
      have hlive : s.implementation = true := by simpa using (not_or.mp (not_or.mp hnull).2).2
      refine { h with accepted := ?_, cleaned := ?_ }
      · rw [h.accepted, append_assoc]
      · simpa [hlive] using h.cleaned
  | start worker =>
    obtain ⟨job, hjob, hstep⟩ := Option.bind_eq_some_iff.mp hstep
    obtain ⟨⟨hidle, hrun⟩, ⟨⟩⟩ := Option.ite_none_right_eq_some.mp hstep
    have haccepted := h.accepted
    have hcleaned := h.cleaned
    have hlive : s.implementation = true := by
      by_contra hnot
      exact hidle.2.1 (h.joined (Bool.eq_false_iff.mpr hnot) worker hidle.1)
    refine { h with
      active := congrArg (· + 1) h.active, accepted := ?_, started := ?_
      busy := forall_mem_cons.mpr ⟨⟨hidle.1, hidle.2.1⟩, h.busy⟩, cleaned := ?_ }
    · rwa [← cons_head?_tail hjob, append_cons] at haccepted
    · refine (h.started.append_right _).trans ?_
      rw [append_assoc]
      exact perm_append_comm.append_left _
    · simpa [hlive] using hcleaned
  | finish worker job =>
    obtain ⟨hmem, ⟨⟩⟩ := Option.ite_none_right_eq_some.mp hstep
    refine { h with
      active := ?_, started := ?_, busy := fun p hp => h.busy p (mem_of_mem_erase hp) }
    · rw [length_erase_of_mem hmem, h.active]
    · refine h.started.trans ?_
      rw [append_assoc]
      exact ((perm_cons_erase hmem).map _).append_left _
  | observe worker =>
    obtain ⟨⟨hidle, hstop⟩, ⟨⟩⟩ := Option.ite_none_right_eq_some.mp hstep
    refine { h with
      busy := fun p hp => ⟨(h.busy p hp).1, ?_⟩, stopped := fun _ => hstop
      joined := fun hgone w hw => mem_cons_of_mem _ (h.joined hgone w hw) }
    exact mt mem_cons.mp (not_or.mpr ⟨hidle.2.2 p hp, (h.busy p hp).2⟩)
  | requestStop =>
    cases hstep
    split
    · exact { h with stopped := fun _ => rfl }
    · exact h
  | destroy =>
    obtain ⟨hjoined, ⟨⟩⟩ := Option.ite_none_right_eq_some.mp hstep
    split
    · exact { h with cleaned := rfl, joined := fun _ => hjoined }
    · exact h

theorem started_step (hstop : s.stopping = true) (hstep : s.step e = some t) :
    t.stopping = true ∧ t.started = s.started := by
  cases e with
  | submit job =>
    cases hstep
    unfold submit
    split_ifs <;> exact ⟨hstop, rfl⟩
  | start worker =>
    obtain ⟨job, -, hstep⟩ := Option.bind_eq_some_iff.mp hstep
    simp [hstop] at hstep
  | finish | observe =>
    obtain ⟨-, ⟨⟩⟩ := Option.ite_none_right_eq_some.mp hstep
    exact ⟨hstop, rfl⟩
  | requestStop =>
    cases hstep
    split <;> simp [hstop]
  | destroy =>
    obtain ⟨-, ⟨⟩⟩ := Option.ite_none_right_eq_some.mp hstep
    split <;> exact ⟨hstop, rfl⟩

end Pool

/-- Each accepted job is started once, in the order of submission, or waits in the queue, which
`destroy` cleans up. Nothing starts once a worker saw the stop. -/
theorem jobs_run_or_cleaned {s : Pool} (h : Reaches Pool.step always {} s) :
    s.accepted = s.started ++ s.jobs ∧
    s.started ~ s.finished ++ s.running.map (·.2) ∧
    s.cleaned = (if s.implementation then [] else s.jobs.filter (·.destroy ≠ 0)) ∧
    (s.implementation = false → s.running = []) ∧
    (∀ t, s.returned ≠ [] → Reaches Pool.step always s t → t.started = s.started) ∧
    (s.hasWork = false → s.implementation = true → s.finished ~ s.accepted) := by
  have hinv := h.invariant (P := Pool.Inv) ⟨rfl, rfl, .refl _, nofun, nofun, rfl, nofun⟩
    fun _ _ _ hs _ hstep => hs.step hstep
  refine ⟨hinv.accepted, hinv.started, hinv.cleaned, fun hgone => ?_, ?_, ?_⟩
  · refine eq_nil_iff_forall_not_mem.mpr fun p hp => ?_
    exact (hinv.busy p hp).2 (hinv.joined hgone _ (hinv.busy p hp).1)
  · intro t hreturned ht
    exact (ht.invariant (P := fun t => t.stopping = true ∧ t.started = s.started)
      ⟨hinv.stopped hreturned, rfl⟩ fun _ _ _ hs _ hstep =>
        (Pool.started_step hs.1 hstep).imp_right (·.trans hs.2)).2
  · intro hidle hlive
    simp only [Pool.hasWork, hlive, Bool.true_and, Bool.or_eq_false_iff, bne_eq_false_iff_eq]
      at hidle
    have hrunning : s.running = [] := length_eq_zero_iff.mp (hinv.active ▸ hidle.2)
    have hstarted := hinv.started
    rw [hrunning, map_nil, append_nil] at hstarted
    rw [hinv.accepted, length_eq_zero_iff.mp hidle.1, append_nil]
    exact hstarted.symm

theorem exists_destroyed :
    ∃ s, Reaches Pool.step always {} s ∧ s.hasWork = false ∧
      s.accepted = [⟨1, 2, 3⟩, ⟨4, 5, 6⟩] ∧ s.finished = [⟨1, 2, 3⟩] ∧ s.cleaned = [⟨4, 5, 6⟩] :=
  exists_reaches _ _ [.submit ⟨1, 2, 3⟩, .submit ⟨4, 5, 6⟩, .start 0, .requestStop,
    .finish 0 ⟨1, 2, 3⟩, .observe 0, .observe 1, .destroy] (by decide)

theorem jobs_run_or_cleaned_two :
    ∃ s, Reaches Pool.step always {} s ∧ s.cleaned = [⟨4, 5, 6⟩] ∧
      s.accepted = s.started ++ s.jobs := by
  obtain ⟨s, hs, -, -, -, hcleaned⟩ := exists_destroyed
  exact ⟨s, hs, hcleaned, (jobs_run_or_cleaned hs).1⟩

/-- A pool that is destroyed has no work though a job it accepted was not run. -/
theorem hasWork_destroyed : ∃ s, Reaches Pool.step always {} s ∧ s.hasWork = false ∧
    ∃ job ∈ s.accepted, job ∉ s.finished := by
  obtain ⟨s, hs, hwork, haccepted, hfinished, -⟩ := exists_destroyed
  exact ⟨s, hs, hwork, ⟨4, 5, 6⟩, by simp [haccepted], by simp [hfinished]⟩

end KeysharpInput.WorkerPool
