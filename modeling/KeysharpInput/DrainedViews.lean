import KeysharpInput.SourceChanges

/-!
The two views of a source once the queue has drained.
An end of a grab or a close moves the enqueued view at once and the applied view when its action
drains. While the views of a source differ, the queue therefore holds the action that brings them
together, and with an empty queue a target that has ended in one view has ended in the other.
-/

namespace KeysharpInput.Output

open Forward Transition List Nat Bool OutputAction

namespace Forward

variable {f f' : Forward} {i target : Nat} {v : View} {P E C : Nat → Prop} {action : OutputAction}
  {queued queued' : List OutputAction}

theorem findDevice_of_live (hlive : (f.device i).live = true)
    (hslot : slotOf ((f.device i).target v) = some i) :
    f.findDevice ((f.device i).target v) v = some i := by
  have hretiring := (and_eq_true_iff.mp hlive).2
  unfold findDevice
  rw [hslot]
  simpa using hretiring

theorem Lasts.enqueued_eq (h : Lasts P E C f f') (hf : WellFormed f)
    (hlive : (f'.device i).live = true) :
    (f'.device i).target .enqueued = (f.device i).target .enqueued := by
  rcases h.targets i .enqueued with hsame | hzero | ⟨hview, -⟩
  · exact hsame
  · by_contra hne
    have hold : (f.device i).target .enqueued ≠ 0 := fun h => hne (hzero.trans h.symm)
    have hfind := findDevice_of_live (h.lives i hlive) ((hf.device i).slot .enqueued hold)
    obtain ⟨-, htarget, -⟩ := findDevice_eq_some (h.find _ i hfind)
    exact hne htarget
  · exact View.noConfusion hview

theorem Lasts.closing_eq (h : Lasts P E C f f') (hf : WellFormed f)
    (hlive : (f'.device i).live = true) : (f'.device i).closing = (f.device i).closing := by
  have hclosing := (hf.device i).enqueued (and_eq_true_iff.mp (h.lives i hlive)).1
  have hclosing' := (h.wellFormed.device i).enqueued (and_eq_true_iff.mp hlive).1
  rw [h.enqueued_eq hf hlive] at hclosing'
  exact eq_iff_iff.mpr (hclosing'.symm.trans hclosing)

theorem Lasts.closes_of_closes (h : Lasts P E C f f') (hf : WellFormed f)
    (hcloses : f'.closes i = true) : f.closes i = true := by
  obtain ⟨hclosing, hlive⟩ := and_eq_true_iff.mp hcloses
  exact and_eq_true_iff.mpr ⟨(h.closing_eq hf hlive).symm.trans hclosing, h.lives i hlive⟩

def Done (f : Forward) : OutputAction → Prop
  | .endGrab next => ∀ i, slotOf next = some i → (f.device i).live = true →
    next ≤ (f.device i).target .applied
  | .closeSource target => ∀ i, slotOf target = some i → f.closes i = false
  | _ => True

theorem Lasts.done (h : Lasts P E C f f') (hf : WellFormed f) (hdone : Done f action) :
    Done f' action := by
  cases action with
  | endGrab next =>
    intro i hslot hlive
    have hle := hdone i hslot (h.lives i hlive)
    exact hle.trans (h.ages i (and_eq_true_iff.mp hlive).1).2
  | closeSource target =>
    intro i hslot
    refine eq_false_iff.mpr fun hcloses => ?_
    exact absurd ((hdone i hslot).symm.trans (h.closes_of_closes hf hcloses)) false_ne_true
  | _ => trivial

theorem done_forwardApplyEndGrab (hf : WellFormed f) (next : Nat) (held : Option KeyBits) :
    Done (f.forwardApplyEndGrab next held) (.endGrab next) := by
  intro i hslot hlive
  unfold forwardApplyEndGrab at hlive ⊢
  rw [hslot] at hlive ⊢
  dsimp only at hlive ⊢
  split at hlive
  · rename_i hmoves
    have hmoved := (and_eq_true_iff.mp hmoves).1
    obtain ⟨halters, -⟩ := alters_endGrab hf (lt_length_of_live hmoved) .applied next held
    rw [if_pos hmoves, halters.field (·.target .applied) (fun _ => rfl) i, if_pos rfl,
      ended_target_self]
  · rename_i hstays
    rw [if_neg hstays]
    simpa [hlive] using hstays

theorem done_forwardApplyClose (hf : WellFormed f) (target now : Nat) :
    Done (f.forwardApplyClose target now) (.closeSource target) := by
  intro i hslot
  rcases forwardApplyClose_cases hf target now with ⟨heq, hstays⟩ | ⟨j, hslot', -, halters, -⟩
  · rw [heq]
    exact hstays i hslot
  · obtain rfl := Option.some.inj (hslot.symm.trans hslot')
    rw [halters.closes i, if_pos rfl]
    unfold retired
    split
    · simp [ForwardingDevice.live]
    · rfl

structure Paired (f : Forward) (queued : List OutputAction) : Prop where
  ahead : ∀ next i, .endGrab next ∈ queued → slotOf next = some i →
    (f.device i).live = true → (f.device i).closing = false →
      next ≤ (f.device i).target .enqueued
  views : ∀ i, (f.device i).live = true → (f.device i).closing = false →
    (f.device i).target .applied = (f.device i).target .enqueued ∨
      (f.device i).target .applied < (f.device i).target .enqueued ∧
        .endGrab ((f.device i).target .enqueued) ∈ queued
  closing : ∀ i, f.closes i = true → ∃ action ∈ queued, action.closeSlot = some i

theorem Paired.carry (h : Paired f queued) (hf : WellFormed f)
    (hlasts : Lasts P (fun next => .endGrab next ∈ queued) C f f')
    (hends : ∀ next, .endGrab next ∈ queued' → .endGrab next ∈ queued)
    (hdone : ∀ action ∈ queued, action ∈ queued' ∨ Done f' action) : Paired f' queued' := by
  refine ⟨fun next i hmem hslot hlive hclosing => ?_, fun i hlive hclosing => ?_,
    fun i hcloses => ?_⟩
  · rw [hlasts.enqueued_eq hf hlive]
    rw [hlasts.closing_eq hf hlive] at hclosing
    exact h.ahead next i (hends next hmem) hslot (hlasts.lives i hlive) hclosing
  · have hlive₀ := hlasts.lives i hlive
    have hopen := (and_eq_true_iff.mp hlive).1
    have hsame := hlasts.enqueued_eq hf hlive
    rw [hlasts.closing_eq hf hlive] at hclosing
    have hnonzero := (hlasts.wellFormed.device i).applied hopen
    have hviews := h.views i hlive₀ hclosing
    have hle : (f'.device i).target .applied ≤ (f'.device i).target .enqueued := by
      rw [hsame]
      rcases hlasts.targets i .applied with happlied | hzero | ⟨-, hadvances⟩
      · rw [happlied]
        exact hviews.elim le_of_eq fun hlt => hlt.1.le
      · exact absurd hzero hnonzero
      · exact h.ahead _ i hadvances.next ((hlasts.wellFormed.device i).slot .applied hnonzero)
          hlive₀ hclosing
    rcases hle.eq_or_lt with heq | hlt
    · exact .inl heq
    refine .inr ⟨hlt, ?_⟩
    have hages := (hlasts.ages i hopen).2
    rw [hsame] at hlt ⊢
    rcases hviews with heq | ⟨-, hmem⟩
    · omega
    -- The end that the slot waits for cannot be done, as the applied view is still behind it.
    refine (hdone _ hmem).resolve_right fun hend => ?_
    have hslot := (hf.device i).slot .enqueued (by omega)
    exact absurd (hend i hslot hlive) (not_le.mpr hlt)
  · obtain ⟨action, hmem, hslot⟩ := h.closing i (hlasts.closes_of_closes hf hcloses)
    rcases hdone action hmem with hkept | hend
    · exact ⟨action, hkept, hslot⟩
    cases action with
    | closeSource target => exact absurd ((hend i hslot).symm.trans hcloses) false_ne_true
    | _ => exact absurd hslot (by simp [closeSlot])

theorem Paired.alters {d : ForwardingDevice} (h : Paired f queued) (halters : Alters i d f f')
    (hkept : ∀ action ∈ queued, action ∈ queued')
    (hother : ∀ next j, .endGrab next ∈ queued' → slotOf next = some j → j ≠ i →
      .endGrab next ∈ queued)
    (hahead : ∀ next, .endGrab next ∈ queued' → slotOf next = some i → d.closing = false →
      next ≤ d.target .enqueued)
    (hviews : d.closing = false → d.target .applied = d.target .enqueued ∨
      d.target .applied < d.target .enqueued ∧ .endGrab (d.target .enqueued) ∈ queued')
    (hclosing : (d.closing && d.live) = true → ∃ action ∈ queued', action.closeSlot = some i) :
    Paired f' queued' := by
  have htarget := halters.field (·.target) (fun _ => rfl)
  have hlives := halters.field (·.live) (fun _ => rfl)
  have hcloses := halters.field (·.closing) (fun _ => rfl)
  refine ⟨fun next j hmem hslot hlive hopen => ?_, fun j hlive hopen => ?_, fun j hj => ?_⟩
  · rw [htarget j]
    rw [hlives j] at hlive
    rw [hcloses j] at hopen
    by_cases hji : j = i
    · subst hji
      rw [if_pos rfl] at hopen ⊢
      exact hahead next hmem hslot hopen
    · rw [if_neg hji] at hlive hopen ⊢
      exact h.ahead next j (hother next j hmem hslot hji) hslot hlive hopen
  · rw [htarget j]
    rw [hlives j] at hlive
    rw [hcloses j] at hopen
    by_cases hji : j = i
    · rw [if_pos hji] at hopen ⊢
      exact hviews hopen
    · rw [if_neg hji] at hlive hopen ⊢
      exact (h.views j hlive hopen).imp_right fun hlt => ⟨hlt.1, hkept _ hlt.2⟩
  · rw [halters.closes j] at hj
    by_cases hji : j = i
    · rw [if_pos hji] at hj
      exact hji ▸ hclosing hj
    · rw [if_neg hji] at hj
      obtain ⟨action, hmem, hslot⟩ := h.closing j hj
      exact ⟨action, hkept action hmem, hslot⟩

section

variable (h : Paired f queued) (hf : WellFormed f)

include h hf

theorem Paired.endGrab (hends : ∀ next, .endGrab next ∈ queued → next < f.nextSerial * 256)
    (hfind : f.findDevice target .enqueued = some i)
    (halters : Alters i (ended (f.device i) .enqueued (f.newTarget i) none) f f') :
    Paired f' (queued ++ [.endGrab (f.newTarget i)]) := by
  obtain ⟨hslot, -, -⟩ := findDevice_eq_some hfind
  have hnew := slotOf_newTarget f (slotOf_lt hslot)
  have hbelow : ∀ n, n < f.nextSerial * 256 → n < f.newTarget i :=
    fun _ hn => hn.trans_le (Nat.le_add_right _ _)
  refine h.alters halters (fun _ => mem_append_left _) (fun next j hnext hj hne => ?_)
    (fun next hnext _ _ => ?_) (fun _ => .inr ⟨?_, ?_⟩) fun hclosing => ?_
  · rw [mem_append, mem_singleton] at hnext
    refine hnext.resolve_right fun heq => hne ?_
    rw [endGrab.inj heq, hnew] at hj
    exact (Option.some.inj hj).symm
  · rw [ended_target_self]
    rw [mem_append, mem_singleton] at hnext
    rcases hnext with hold | heq
    · exact (hbelow next (hends next hold)).le
    · exact (endGrab.inj heq).le
  · rw [ended_target_self, ended_target_of_ne _ _ _ (by decide)]
    exact hbelow _ ((hf.device i).issued .applied)
  · rw [ended_target_self]
    exact mem_append_right _ (mem_singleton_self _)
  · exact absurd ((closes_of_find hf hfind).symm.trans hclosing) false_ne_true

theorem Paired.closeSource (hfind : f.findDevice target .enqueued = some i) :
    Paired (f.forwardClose target) (queued ++ [.closeSource target]) := by
  obtain ⟨halters, -⟩ := forwardClose_of_find hf hfind
  obtain ⟨hslot, -, -⟩ := findDevice_eq_some hfind
  refine h.alters halters (fun _ => mem_append_left _) (fun next j hnext _ _ => ?_)
    (fun _ _ _ hopen => absurd hopen.symm false_ne_true)
    (fun hopen => absurd hopen.symm false_ne_true)
    fun _ => ⟨_, mem_append_right _ (mem_singleton_self _), hslot⟩
  rw [mem_append, mem_singleton] at hnext
  exact hnext.resolve_right OutputAction.noConfusion

theorem Paired.forwardOpen (hends : ∀ next, .endGrab next ∈ queued → next < f.nextSerial * 256)
    (info : SourceInfo) : Paired (f.forwardOpen info).2 queued := by
  rcases alters_forwardOpen hf info with heq | ⟨i, -, -, -, halters, -⟩
  · rw [heq]
    exact h
  refine h.alters halters (fun _ hmem => hmem) (fun _ _ hmem _ _ => hmem)
    (fun next hmem _ _ => ?_) (fun _ => .inl rfl) fun hclosing => absurd hclosing false_ne_true
  exact (hends next hmem).le.trans (Nat.le_add_right _ _)

end

end Forward

namespace OutputState

variable {s t u : OutputState} {i target : Nat} {P : Nat → Prop} {e : OutputEvent}
  {outcome : Nat → Option Nat} {absOpens : Bool}

structure Aligned (s : OutputState) : Prop extends Lined s where
  timeless : ∀ entry ∈ s.queue, entry.action.isLifetime = true → entry.inputGeneration = 0
  paired : Paired s.backend.forward s.lifetimes

theorem aligned_start (outcome : Nat → Option Nat) (absOpens : Bool) :
    Aligned (start outcome absOpens) := by
  have hclosed : ∀ i, ((start outcome absOpens).backend.forward.device i).live = false :=
    fun _ => rfl
  refine ⟨lined_start outcome absOpens, fun _ h => absurd h not_mem_nil,
    fun _ _ h => absurd h not_mem_nil, fun i hlive => ?_, fun i hcloses => ?_⟩
  · exact absurd ((hclosed i).symm.trans hlive) false_ne_true
  · exact absurd ((hclosed i).symm.trans (and_eq_true_iff.mp hcloses).2) false_ne_true

theorem mem_lifetimes {action : OutputAction} : action ∈ s.lifetimes ↔
    action.isLifetime = true ∧ ∃ entry ∈ s.queue, entry.action = action := by
  rw [lifetimes, mem_filter, mem_map, And.comm]

theorem timeless_admitAction (hs : Aligned s) (action : OutputAction) (g : Backend → Backend) :
    ∀ entry ∈ (s.admitAction action 0 g).queue, entry.action.isLifetime = true →
      entry.inputGeneration = 0 := by
  intro entry hentry hlifetime
  rcases mem_append.mp hentry with hold | hnew
  · exact hs.timeless entry hold hlifetime
  · rw [mem_singleton.mp hnew]

theorem Aligned.pushEndGrab (hs : Aligned s)
    (hfind : s.backend.forward.findDevice target .enqueued = some i) :
    Aligned (s.pushEndGrab target).2.2 := by
  have hlined := hs.toLined.pushEndGrab hfind
  obtain ⟨hnext, -, halters, -⟩ := forwardEndGrab_of_find hs.wellFormed hfind
  obtain ⟨hf₁, -, -, hbound⟩ :=
    forwardEndGrab_issued hs.wellFormed (issued_of_find hs.wellFormed hfind)
  have hqueued := hs.paired.endGrab hs.wellFormed hs.ends hfind halters
  unfold OutputState.pushEndGrab at hlined ⊢
  generalize s.backend.forward.forwardEndGrab target = r at *
  obtain ⟨next, kept, f₁⟩ := r
  dsimp only at hnext hf₁ hbound hqueued hlined ⊢
  rw [← hnext] at hqueued
  split at hlined
  · rename_i hfull
    rw [if_pos hfull]
    have hlasts := (lasts_forwardApplyEndGrab hf₁ hbound (some kept) (fun _ => False)
      fun _ => False).mono (fun _ h => h)
      (fun _ h => mem_append_right s.lifetimes (mem_singleton.mpr (congrArg endGrab h)))
      fun _ h => h
    refine ⟨hlined, hs.timeless, hqueued.carry hf₁ hlasts (fun _ => mem_append_left _)
      fun action hmem => ?_⟩
    rcases mem_append.mp hmem with hold | hnew
    · exact .inl hold
    · rw [mem_singleton.mp hnew]
      exact .inr (done_forwardApplyEndGrab hf₁ next (some kept))
  · rename_i hroom
    rw [if_neg hroom]
    refine ⟨hlined, timeless_admitAction hs _ _, ?_⟩
    rw [lifetimes_admitAction]
    exact hqueued

theorem Aligned.pushClose (hs : Aligned s)
    (hfind : s.backend.forward.findDevice target .enqueued = some i) (now : Nat) :
    Aligned (s.pushClose target now) := by
  have hlined := hs.toLined.pushClose hfind now
  obtain ⟨hf₁, -⟩ := wellFormed_forwardClose hs.wellFormed target
  have hqueued := hs.paired.closeSource hs.wellFormed hfind
  unfold OutputState.pushClose at hlined ⊢
  generalize s.backend.forward.forwardClose target = f₁ at *
  dsimp only at hlined ⊢
  split at hlined
  · rename_i hfull
    rw [if_pos hfull]
    refine ⟨hlined, hs.timeless, hqueued.carry hf₁ (lasts_forwardApplyClose hf₁ target now
      (fun _ => False) _) (fun _ => mem_append_left _) fun action hmem => ?_⟩
    rcases mem_append.mp hmem with hold | hnew
    · exact .inl hold
    · rw [mem_singleton.mp hnew]
      exact .inr (done_forwardApplyClose hf₁ target now)
  · rename_i hroom
    rw [if_neg hroom]
    refine ⟨hlined, timeless_admitAction hs _ _, ?_⟩
    rw [lifetimes_admitAction]
    exact hqueued

structure Queues (s t : OutputState) : Prop where
  stays : ∀ entry ∈ s.queue, entry.inputGeneration = 0 → entry ∈ t.queue
  enters : ∀ entry ∈ t.queue, entry.action.isLifetime = true → entry ∈ s.queue

theorem Queues.of_eq (h : t.queue = s.queue) : Queues s t :=
  ⟨fun _ hentry _ => h ▸ hentry, fun _ hentry _ => h ▸ hentry⟩

theorem Queues.append {entry : QueuedAction} (h : Queues s t) (hu : u.queue = t.queue ++ [entry])
    (hentry : entry.action.isLifetime = false) : Queues s u := by
  refine ⟨fun other hother hzero => ?_, fun other hother hlifetime => ?_⟩
  · exact hu ▸ mem_append_left _ (h.stays other hother hzero)
  rw [hu, mem_append, mem_singleton] at hother
  rcases hother with hold | rfl
  · exact h.enters other hold hlifetime
  · exact absurd (hentry.symm.trans hlifetime) false_ne_true

theorem queues_admission (he : isSourceEvent e = false)
    (hdrain : ∀ now opens absOpens, e ≠ .drain now opens absOpens) (hstep : s.step e = some t) :
    Queues s t := by
  have hsame : Queues s s := .of_eq rfl
  cases e with
  | pushPacket sourceState packet generation =>
    cases hstep
    unfold pushPacket
    dsimp only
    split_ifs <;> first | exact hsame | exact hsame.append rfl rfl
  | pushOwnedSynth inputs flags generation owner flushed =>
    cases hstep
    have hbatch : Queues s (s.admitAction (.synth inputs flags owner) generation
        (·.noteEnqueuedSynth inputs owner)) := hsame.append rfl rfl
    unfold pushOwnedSynth
    dsimp only
    split_ifs <;> first | exact hsame | exact hbatch | exact hbatch.append rfl rfl
  | pushReleaseOwner filter =>
    cases hstep
    unfold pushReleaseOwner
    split_ifs <;> first | exact hsame | exact hsame.append rfl rfl
  | pushReleaseAll =>
    cases hstep
    unfold pushReleaseAll
    split_ifs <;> first | exact hsame | exact hsame.append rfl rfl
  | pushReleaseGeneric =>
    cases hstep
    unfold pushReleaseGeneric
    split_ifs <;> first | exact hsame | exact hsame.append rfl rfl
  | pushRecreateSynth =>
    cases hstep
    unfold pushRecreateSynth
    split_ifs <;> first | exact hsame | exact hsame.append rfl rfl
  | openSource info | pushEndGrab target | pushClose target now => exact absurd he Bool.noConfusion
  | syncOwners owners | advanceGeneration | maintain now =>
    cases hstep
    exact .of_eq rfl
  | discardStale generation =>
    cases hstep
    refine ⟨fun entry hentry hzero => mem_filter.mpr ⟨hentry, ?_⟩,
      fun entry hentry _ => mem_of_mem_filter hentry⟩
    simp [hzero]
  | drain now opens absOpens => exact absurd rfl (hdrain now opens absOpens)

theorem Aligned.admission (hs : Aligned s) (hcarries : Carries P s t) (hqueues : Queues s t) :
    Aligned t := by
  refine ⟨hcarries.lined hs.toLined, fun entry hentry hlifetime => ?_, hs.paired.carry
    hs.wellFormed hcarries.lasts (fun _ hmem => hcarries.lifetimes.subset hmem)
    fun action hmem => .inl ?_⟩
  · exact hs.timeless entry (hqueues.enters entry hentry hlifetime) hlifetime
  · obtain ⟨hlifetime, entry, hentry, rfl⟩ := mem_lifetimes.mp hmem
    exact mem_lifetimes.mpr ⟨hlifetime, entry,
      hqueues.stays entry hentry (hs.timeless entry hentry hlifetime), rfl⟩

theorem done_applyOutputAction (hs : Aligned s) {entry : QueuedAction} (hentry : entry ∈ s.queue)
    (hlifetime : entry.action.isLifetime = true) (now : Nat) (opens absOpens : Bool) :
    Done (s.applyOutputAction entry now opens absOpens).forward entry.action := by
  have hf := hs.wellFormed
  have hstale : s.isStale entry.inputGeneration = false := by
    simp [isStale, hs.timeless entry hentry hlifetime]
  have hwrite : Lasts (fun _ => True) (fun next => entry.action = .endGrab next)
      (fun i => entry.action.closeSlot = some i) s.backend.forward
      (writeAction s.backend now opens absOpens entry.action).forward :=
    lasts_writeAction hf fun next haction => hs.ends next
      (haction ▸ mem_lifetimes.mpr ⟨hlifetime, entry, hentry, rfl⟩)
  have hlasts : Lasts (fun _ => True) (fun _ => True) (fun _ => True) _ _ :=
    lasts_maintainOutput hwrite.wellFormed now _ _
  unfold applyOutputAction
  rw [hstale]
  refine hlasts.done hwrite.wellFormed ?_
  cases haction : entry.action with
  | endGrab next => exact done_forwardApplyEndGrab hf next none
  | closeSource target => exact done_forwardApplyClose hf target now
  | _ => trivial

theorem Aligned.drain (hs : Aligned s) {entry : QueuedAction} {queue : List QueuedAction}
    (hqueue : s.queue = entry :: queue) (now : Nat) (opens absOpens : Bool) : Aligned { s with
      queue := queue, backend := s.applyOutputAction entry now opens absOpens } := by
  have hcarries : Carries (fun _ => True) s { s with
      queue := queue, backend := s.applyOutputAction entry now opens absOpens } :=
    carries_drain hs.toLined hqueue now opens absOpens
  refine ⟨hcarries.lined hs.toLined, fun other hother hlifetime => ?_, hs.paired.carry
    hs.wellFormed hcarries.lasts (fun _ hmem => hcarries.lifetimes.subset hmem)
    fun action hmem => ?_⟩
  · exact hs.timeless other (hqueue ▸ mem_cons_of_mem _ hother) hlifetime
  obtain ⟨hlifetime, other, hother, rfl⟩ := mem_lifetimes.mp hmem
  rcases mem_cons.mp (hqueue ▸ hother) with rfl | hrest
  · exact .inr (done_applyOutputAction hs hother hlifetime now opens absOpens)
  · exact .inl (mem_lifetimes.mpr ⟨hlifetime, other, hrest, rfl⟩)

def Current (s : OutputState) : OutputEvent → Prop
  | .pushEndGrab target => (s.backend.forward.findDevice target .enqueued).isSome = true
  | .pushClose target _ => (s.backend.forward.findDevice target .enqueued).isSome = true
  | _ => True

theorem Aligned.step (hs : Aligned s) (he : Current s e) (hstep : s.step e = some t) :
    Aligned t := by
  by_cases hsource : isSourceEvent e = true
  · cases e with
    | openSource info =>
      cases hstep
      exact ⟨hs.toLined.openSource info, hs.timeless,
        hs.paired.forwardOpen hs.wellFormed hs.ends info⟩
    | pushEndGrab target =>
      obtain ⟨i, hfind⟩ := Option.isSome_iff_exists.mp he
      cases hstep
      exact hs.pushEndGrab hfind
    | pushClose target now =>
      obtain ⟨i, hfind⟩ := Option.isSome_iff_exists.mp he
      cases hstep
      exact hs.pushClose hfind now
    | _ => exact absurd hsource false_ne_true
  have hother := eq_false_iff.mpr hsource
  by_cases hdrain : ∃ now opens absOpens, e = .drain now opens absOpens
  · obtain ⟨now, opens, absOpens, rfl⟩ := hdrain
    obtain ⟨entry, queue, hqueue, rfl⟩ := exists_of_drain hstep
    exact hs.drain hqueue now opens absOpens
  · exact hs.admission (carries_step hs.toLined hother hstep) (queues_admission hother
      (fun now opens absOpens heq => hdrain ⟨now, opens, absOpens, heq⟩) hstep)

theorem Aligned.of_reaches (h : Reaches OutputState.step Current (start outcome absOpens) s) :
    Aligned s :=
  h.invariant (aligned_start outcome absOpens) fun _ _ _ hs he hstep => hs.step he hstep

end OutputState

end KeysharpInput.Output
