import KeysharpInput.Parts

/-!
What each step does to the parts of one batch.
A step of a transaction handles the first members that are left, records it and goes on or ends the
transaction, and a member it refuses has a reason. Every other step spares the requests whose parts
are not in the queue or the lanes: what was handled and admitted for them stays as it was, and so do
their transactions.
-/

namespace KeysharpInput.Synthesis

open Session (HookType)
open Output (Input)
open List Nat Bool

namespace System

variable {s₀ s t : System} {r r' : Nat}

structure Apart (s : System) (r : Nat) : Prop where
  waiting : ∀ item ∈ s.hand.toList ++ s.queue, QueueItem.isOf r item = false
  lanes : ∀ k, ∀ e ∈ (s.lanes k).running.toList ++ (s.lanes k).queue, LaneEvent.isOf r e = false

theorem Apart.same (h : Apart s r)
    (hplaces : (t.hand, t.queue, t.lanes) = (s.hand, s.queue, s.lanes)) : Apart t r := by
  simp only [Prod.mk.injEq] at hplaces
  obtain ⟨hhand, hqueue, hlanes⟩ := hplaces
  constructor
  · rw [hhand, hqueue]
    exact h.waiting
  · rw [hlanes]
    exact h.lanes

theorem Apart.underWay (h : Apart s r) : s.underWay.filter (·.request == r) = [] := by
  have hlane : ∀ k, ∀ f ∈ (s.lanes k).fragments, (f.request == r) = false := by
    intro k f hf
    obtain ⟨e, he, hsome⟩ := mem_filterMap.mp hf
    have hof := h.lanes k e he
    cases e with
    | physical => cases hsome
    | synthetic =>
      cases hsome
      exact hof
  rw [filter_eq_nil_iff]
  intro f hf
  rw [not_eq_true]
  rcases mem_append.mp hf with hf | hf
  · rcases mem_append.mp hf with hf | hf
    · exact hlane .keyboard f hf
    · exact hlane .mouse f hf
  obtain ⟨item, hitem, hsome⟩ := mem_filterMap.mp hf
  have hof := h.waiting item hitem
  cases item with
  | release => cases hsome
  | fragment =>
    cases hsome
    exact hof

/-- Since `s₀`, nothing has become of the request, and its transactions stand. -/
structure Spares (s₀ s : System) (r : Nat) : Prop where
  apart : Apart s r
  requests : s₀.requests.length ≤ s.requests.length
  nested : s.ofRequest r = s₀.ofRequest r
  handled : s.handledOf r = s₀.handledOf r
  admitted : s.admittedOf r = s₀.admittedOf r
  refusals : r ∈ s₀.refusals → r ∈ s.refusals
  generation : s₀.output.inputGeneration ≤ s.output.inputGeneration

theorem Apart.spares (h : Apart s r) : Spares s s r :=
  ⟨h, le_refl _, rfl, rfl, rfl, id, le_refl _⟩

theorem handledOf_append {hs : List Handled} (hhandled : t.handled = s.handled ++ hs)
    (hof : ∀ x ∈ hs, x.request = r) (r' : Nat) :
    t.handledOf r' = s.handledOf r' ++ if r' = r then hs else [] := by
  unfold handledOf
  rw [hhandled, filter_append]
  congr 1
  split
  · subst r'
    exact filter_eq_self.mpr fun x hx => by simp [hof x hx]
  · rename_i hne
    exact filter_eq_nil_iff.mpr fun x hx => by simp [hof x hx, Ne.symm hne]

theorem admittedOf_append {adm : List Admission} (hadmitted : t.admitted = s.admitted ++ adm)
    (hof : ∀ a ∈ adm, a.request = r) (r' : Nat) :
    t.admittedOf r' = s.admittedOf r' ++ if r' = r then adm else [] := by
  unfold admittedOf
  rw [hadmitted, filter_append]
  congr 1
  split
  · subst r'
    exact filter_eq_self.mpr fun a ha => by simp [hof a ha]
  · rename_i hne
    exact filter_eq_nil_iff.mpr fun a ha => by simp [hof a ha, Ne.symm hne]

theorem handledOf_noteAll (handling : Handling) (places : List Nat) (r' : Nat) :
    (s.noteAll r handling places).handledOf r' = s.handledOf r' ++
      if r' = r then places.map fun place => ⟨r, place, handling⟩ else [] := by
  refine handledOf_append rfl (fun x hx => ?_) r'
  obtain ⟨_, -, rfl⟩ := mem_map.mp hx
  rfl

namespace Spares

section

variable (h : Spares s₀ s r)

include h

theorem stay (hplaces : (t.hand, t.queue, t.lanes) = (s.hand, s.queue, s.lanes))
    (hnested : t.nested = s.nested) (hhandled : t.handled = s.handled)
    (hrequests : t.requests.length = s.requests.length)
    (hadmitted : t.admittedOf r = s.admittedOf r) (hrefusals : ∀ r' ∈ s.refusals, r' ∈ t.refusals)
    (hgeneration : t.output.inputGeneration = s.output.inputGeneration) : Spares s₀ t r := by
  refine ⟨h.apart.same hplaces, hrequests ▸ h.requests, ?_, ?_, hadmitted.trans h.admitted,
    fun hr => hrefusals r (h.refusals hr), hgeneration ▸ h.generation⟩
  · rw [ofRequest, hnested]
    exact h.nested
  · rw [handledOf, hhandled]
    exact h.handled

theorem silent (hsilent : Silent s t) : Spares s₀ t r := by
  have hadmitted : t.admitted = s.admitted := hsilent.field System.admitted
  have hrefusals : t.refusals = s.refusals := hsilent.field System.refusals
  refine h.stay (hsilent.field fun s => (s.hand, s.queue, s.lanes))
    (hsilent.field System.nested) (hsilent.field System.handled) hsilent.2.1 ?_
    (fun r' hr' => hrefusals ▸ hr') hsilent.2.2
  rw [admittedOf, hadmitted]
  rfl

theorem acts (hne : r' ≠ r) (hacts : Acts s t r') : Spares s₀ t r := by
  obtain ⟨hs, hhandled, hof⟩ := hacts.handled
  obtain ⟨_, hadmitted, hfor⟩ := hacts.admitted
  refine ⟨h.apart.same (hacts.quiet.field fun s => (s.hand, s.queue, s.lanes)), ?_, ?_, ?_, ?_,
    fun hr => hacts.refusals r (h.refusals hr), h.generation.trans hacts.generation⟩
  · rw [hacts.quiet.requests]
    exact h.requests
  · rw [ofRequest, hacts.quiet.nested]
    exact h.nested
  · rw [handledOf_append hhandled hof, if_neg (Ne.symm hne), append_nil]
    exact h.handled
  · rw [admittedOf_append hadmitted hfor, if_neg (Ne.symm hne), append_nil]
    exact h.admitted

theorem emits {out : List Input} {refused : Prop} (hne : r' ≠ r)
    (hemits : Emits s t r' out refused) : Spares s₀ t r := by
  obtain ⟨_, hadm, hof, -⟩ := hemits.admitted
  refine h.stay (hemits.field fun s => (s.hand, s.queue, s.lanes)) (hemits.field System.nested)
    (hemits.field System.handled) (hemits.field fun s => s.requests.length) ?_ hemits.refusals
    hemits.generation
  rw [admittedOf_append hadm hof, if_neg (Ne.symm hne), append_nil]

theorem wait (hand : Option QueueItem) (queue : List QueueItem)
    (hwaiting : ∀ item ∈ hand.toList ++ queue, QueueItem.isOf r item = false) :
    Spares s₀ { s with hand := hand, queue := queue } r :=
  { h with apart := ⟨hwaiting, h.apart.lanes⟩ }

theorem modifyLane (k : HookType) (f : Lane → Lane)
    (hlane : ∀ e ∈ (f (s.lanes k)).running.toList ++ (f (s.lanes k)).queue,
      e ∈ (s.lanes k).running.toList ++ (s.lanes k).queue ∨ LaneEvent.isOf r e = false) :
    Spares s₀ (s.modifyLane k f) r := by
  refine { h with apart := ⟨h.apart.waiting, fun k' e he => ?_⟩ }
  unfold System.modifyLane at he
  by_cases hk : k' = k
  · subst hk
    simp only [Function.update_self] at he
    rcases hlane e he with hold | hnot
    · exact h.apart.lanes k' e hold
    · exact hnot
  · simp only [Function.update_of_ne hk] at he
    exact h.apart.lanes k' e he

theorem newRequest (stream : Nat) (batch : List Input)
    (c : Option Completion) : Spares s₀ (s.newRequest stream batch c) r :=
  { h with
    apart := ⟨h.apart.waiting, h.apart.lanes⟩
    requests := by
      have hrequests := h.requests
      simp only [System.newRequest, length_append]
      omega }

end

end Spares

theorem isStale_emitOutput (r : Nat) (input : Input) (batchStart : Bool)
    (generation connectionId : Nat) (hookType : HookType) (outcome : Outcome) (generation' : Nat) :
    (s.emitOutput r input batchStart generation connectionId hookType outcome).2.isStale
      generation' = s.isStale generation' := by
  cases outcome with
  | block => rfl
  | pass => exact isStale_push ..
  | modify =>
    simp only [emitOutput]
    split
    · rfl
    · split
      · exact isStale_push ..
      · exact (isStale_push ..).trans (isStale_push ..)

theorem Apart.shares (h : Apart s r) (k : HookType) : (s.lanes k).shares r = 0 := by
  have hlane : ((s.lanes k).running.toList ++ (s.lanes k).queue).countP (·.isOf r) = 0 :=
    countP_eq_zero.mpr fun e he => by simp [h.lanes k e he]
  rwa [countP_append, Nat.add_comm] at hlane

theorem sparesRule (s₀ : System) (r : Nat) :
    PartRule (fun s pend => Spares s₀ s r ∧ r ∉ pend) fun _ => True where
  act h hacts := ⟨h.1.acts (ne_of_not_mem_cons h.2).symm hacts, h.2⟩
  still h hacts := ⟨h.1.acts (Nat.succ_ne_self r) (hacts _), h.2⟩
  finish h failure := ⟨h.1.silent (silent_finish ..), not_mem_of_not_mem_cons h.2⟩
  wait hand queue h hsub hcount := by
    rename_i s pend _
    refine ⟨h.1.wait hand queue fun item hitem => h.1.apart.waiting item (hsub.subset hitem), ?_⟩
    have hold : (s.hand.toList ++ s.queue).countP (·.isOf r) = 0 :=
      countP_eq_zero.mpr fun item hitem => by simp [h.1.apart.waiting item hitem]
    have hr := hcount r
    rw [count_eq_zero.mpr h.2] at hr
    exact count_eq_zero.mp (by omega)
  pushRelease h connectionId := by
    rename_i s _
    refine ⟨h.1.wait s.hand _ fun item hitem => ?_, h.2⟩
    rw [← append_assoc] at hitem
    rcases mem_append.mp hitem with hitem | hitem
    · exact h.1.apart.waiting item hitem
    · rw [mem_singleton.mp hitem]
      rfl
  hand h hhand := by
    rename_i s f
    have hof : QueueItem.isOf r (.fragment f) = false :=
      h.1.apart.waiting _ (by rw [hhand]; exact mem_cons_self)
    have hnot : r ∉ [f.request] := fun hmem =>
      beq_eq_false_iff_ne.mp hof (mem_singleton.mp hmem).symm
    have htaken := h.1.wait none s.queue fun item hitem =>
      h.1.apart.waiting item (mem_append_right _ hitem)
    have hhanded : Spares s₀ (s.handed f) r := by
      unfold handed
      split
      · exact htaken.silent (silent_beginAtomic _)
      · exact htaken
    exact ⟨⟨hhanded, hnot⟩, hhanded.silent ⟨rfl, rfl, rfl⟩, hnot⟩
  modifyLane h k f hlane := by
    have hr := hlane r
    rw [h.1.apart.shares k, count_eq_zero.mpr h.2] at hr
    obtain ⟨hshares, hpend⟩ := Nat.add_eq_zero_iff.mp hr
    refine ⟨h.1.modifyLane k f fun e he => .inr ?_, count_eq_zero.mp hpend⟩
    rw [Lane.shares, Nat.add_comm, ← countP_append] at hshares
    exact Bool.eq_false_iff.mpr (countP_eq_zero.mp hshares e he)
  invalidate h stream := ⟨h.1.silent ⟨rfl, rfl, rfl⟩, h.2⟩
  physical h _ := ⟨h.1.silent ⟨rfl, rfl, rfl⟩, h.2⟩
  retire h _ _ := ⟨h.1.silent ⟨rfl, length_modify .., rfl⟩, h.2⟩
  postAck h _ _ := ⟨⟨h.1.silent ⟨rfl, length_modify .., rfl⟩, h.2⟩,
    h.1.silent ⟨rfl, length_modify .., rfl⟩, h.2⟩
  ack h _ _ _ _ := by
    refine ⟨h.1.silent (Silent.trans ?_ (silent_reply ..)), h.2⟩
    exact ⟨rfl, length_modify .., rfl⟩

theorem Spares.sendDirect (h : Spares s₀ s r) (hne : s.requests.length ≠ r) (stream : Nat)
    (inputs : List Input) (sendOk : Bool) : Spares s₀ (s.sendDirect stream inputs sendOk) r := by
  have hpushed := h.acts hne (acts_push inputs {}
    s.output.inputGeneration { connectionId := stream } false)
  unfold System.sendDirect
  dsimp only
  split
  · exact ((hpushed.acts hne (acts_noteAll ..)).newRequest ..).silent (silent_reply ..)
  · exact (hpushed.newRequest ..).silent (silent_reply ..)

theorem Spares.handleSynthesizeInput (h : Spares s₀ s r) (hne : s.requests.length ≠ r)
    (stream : Nat) (inputs : List Input) (route : Route) (allocOk sendOk : Bool) :
    Spares s₀ (s.handleSynthesizeInput stream inputs route allocOk sendOk) r := by
  have hanswer : ∀ status, Spares s₀ ((s.newRequest stream [] none).reply s.requests.length stream
      status sendOk) r := fun status => (h.newRequest ..).silent (silent_reply ..)
  have hempty : ∀ failure, Spares s₀ ((s.newRequest stream [] (some {})).finish s.requests.length
      failure) r := fun failure => (h.newRequest ..).silent (silent_finish ..)
  unfold System.handleSynthesizeInput
  dsimp only
  split
  · exact hanswer _
  · exact h.sendDirect hne ..
  · split
    · exact hanswer _
    split
    · exact hempty _
    refine (h.newRequest stream (expandBatch inputs) _).wait s.hand _ fun item hitem => ?_
    rw [← append_assoc] at hitem
    rcases mem_append.mp hitem with hitem | hitem
    · exact h.apart.waiting item hitem
    · obtain ⟨_, -, rfl⟩ := mem_mapIdx.mp hitem
      exact beq_eq_false_iff_ne.mpr hne
  split
  · exact hanswer _
  split
  · exact hempty _
  split
  · exact hempty _
  split
  · exact hempty _
  split
  · exact ((h.newRequest ..).silent (silent_beginAtomic _)).silent (silent_finish ..)
  have hbegun := (h.newRequest stream (expandBatch inputs) (some {})).silent
    (silent_beginAtomic s.requests.length)
  refine { hbegun with apart := ⟨hbegun.apart.waiting, hbegun.apart.lanes⟩, nested := ?_ }
  rw [← hbegun.nested]
  unfold ofRequest
  simp [hne]

theorem length_handleSynthesizeInput (stream : Nat) (inputs : List Input) (route : Route)
    (allocOk sendOk : Bool) :
    (s.handleSynthesizeInput stream inputs route allocOk sendOk).requests.length =
      s.requests.length + 1 := by
  have hnew : ∀ (v : System) batch c, (v.newRequest stream batch c).requests.length =
      v.requests.length + 1 := fun v batch c => length_append
  have hanswer : ∀ status, ((s.newRequest stream [] none).reply s.requests.length stream status
      sendOk).requests.length = s.requests.length + 1 :=
    fun status => (silent_reply ..).2.1.trans (hnew ..)
  have hempty : ∀ failure, ((s.newRequest stream [] (some {})).finish s.requests.length
      failure).requests.length = s.requests.length + 1 :=
    fun failure => (silent_finish ..).2.1.trans (hnew ..)
  unfold System.handleSynthesizeInput
  dsimp only
  split
  · exact hanswer _
  · unfold System.sendDirect
    dsimp only
    split <;> exact (silent_reply ..).2.1.trans (hnew ..)
  · split
    · exact hanswer _
    split
    · exact hempty _
    · exact hnew s (expandBatch inputs) _
  split
  · exact hanswer _
  split
  · exact hempty _
  split
  · exact hempty _
  split
  · exact hempty _
  split
  · exact (silent_finish ..).2.1.trans ((silent_beginAtomic _).2.1.trans (hnew ..))
  · exact (silent_beginAtomic _).2.1.trans (hnew ..)

def Event.keepsRings : Event → Bool
  | .closeNested _ => false
  | _ => true

/-- A transaction handles its first members and ends, or goes on with the others. A member is
refused with its push, with the generation of its input, or when the ring is closed. -/
structure Turn (s : System) (e : Event) (i : Nat) (tr : Transaction) (t : System) : Prop where
  exists_parts : ∃ (v : System) (handling : Handling) (parts : List (Nat × Input))
    (refused : Prop) (rest : List Transaction),
    Emits s v tr.request (parts.flatMap fun p => handling.leaves (some p.2)) refused ∧
    (handling = .refused → refused ∨ s.isStale tr.inputGeneration = true ∨
      Event.keepsRings e = false) ∧
    rest.length ≤ 1 ∧ (∀ tr' ∈ rest, tr'.request = tr.request ∧
      tr'.inputGeneration = tr.inputGeneration) ∧
    tr.members.map Member.part = parts ++ rest.flatMap (fun tr' => tr'.members.map Member.part) ∧
    Silent { v.noteAll tr.request handling (parts.map (·.1)) with
      nested := s.nested.take i ++ rest ++ s.nested.drop (i + 1) } t

theorem nested_split {i : Nat} {tr : Transaction} (htr : s.nested[i]? = some tr) :
    s.nested = s.nested.take i ++ tr :: s.nested.drop (i + 1) := by
  obtain ⟨hlt, hat⟩ := List.getElem?_eq_some_iff.mp htr
  rw [← hat, ← List.drop_eq_getElem_cons hlt, List.take_append_drop]

theorem map_place (members : List Member) :
    members.map (·.place) = (members.map Member.part).map (·.1) := by
  rw [map_map]
  rfl

section Turns

variable {e : Event} {i : Nat} {tr : Transaction} {v : System} {refused : Prop}
  {handling : Handling} {rest : List Member}

theorem silent_endTransaction (i : Nat) (tr : Transaction) (ok : Bool) :
    Silent { s with nested := s.nested.eraseIdx i } (s.endTransaction i tr ok) := by
  unfold System.endTransaction
  dsimp only
  split
  · exact silent_finish ..
  have hfinish := silent_finish (s := { s with
    nested := s.nested.eraseIdx i
    output := (s.output.pushReleaseOwner { connectionId := tr.connectionId }).2 }) tr.request
    (if ok then none else some .timeout)
  exact ⟨hfinish.1, hfinish.2.1, hfinish.2.2.trans (inputGeneration_pushReleaseOwner ..)⟩

theorem silent_nothing {nested : List Transaction} :
    Silent { s.noteAll r handling [] with nested := nested } { s with nested := nested } :=
  ⟨by simp [System.noteAll], rfl, rfl⟩

theorem turn_end (handling : Handling)
    (hemits : Emits s v tr.request (tr.members.flatMap fun m => handling.leaves (some m.input))
      refused) (hwhy : handling = .refused → refused ∨ s.isStale tr.inputGeneration = true ∨
      Event.keepsRings e = false)
    (hsilent : Silent { v.noteAll tr.request handling (tr.members.map (·.place)) with
      nested := s.nested.eraseIdx i } t) : s.Turn e i tr t := by
  refine ⟨v, handling, tr.members.map Member.part, refused, [], ?_, hwhy, zero_le _, nofun,
    (append_nil _).symm, ?_⟩
  · rw [flatMap_map]
    exact hemits
  · rw [← map_place, append_nil, ← eraseIdx_eq_take_drop_succ]
    exact hsilent

theorem turn_refused (hwhy : s.isStale tr.inputGeneration = true ∨ Event.keepsRings e = false)
    (hsilent : Silent { s.noteAll tr.request .refused (tr.members.map (·.place)) with
      nested := s.nested.eraseIdx i } t) : s.Turn e i tr t := by
  refine turn_end .refused ((emits_nothing s tr.request not_false).of_eq ?_)
    (fun _ => .inr hwhy) hsilent
  exact flatMap_eq_nil_iff.mpr fun _ _ => rfl

theorem silent_end {out : List Input} (hemits : Emits s v r out refused) (handling : Handling)
    (places : List Nat) (ok : Bool) :
    Silent { v.noteAll r handling places with nested := s.nested.eraseIdx i }
      ((v.noteAll r handling places).endTransaction i tr ok) := by
  have hnested : v.nested = s.nested := hemits.field System.nested
  rw [← hnested]
  exact silent_endTransaction ..

theorem turn_failOpen {allocated : Bool} (hemits : Emits s v tr.request [] refused)
    (hcurrent : v.isStale tr.inputGeneration = false) :
    s.Turn e i tr (v.failOpenNestedTransaction i tr tr.members allocated) := by
  unfold System.failOpenNestedTransaction
  split
  · rename_i hnil
    refine turn_end .unchanged (hemits.of_eq ?_) nofun ?_
    · rw [hnil]
      rfl
    rw [hnil]
    have hnested : v.nested = s.nested := hemits.field System.nested
    rw [← hnested]
    exact silent_nothing.trans (silent_endTransaction ..)
  cases allocated with
  | false =>
    have hrefusal : Emits v { v with refusals := tr.request :: v.refusals } tr.request [] True :=
      ⟨rfl, rfl, fun _ => mem_cons_of_mem _, ⟨[], (append_nil _).symm, nofun, rfl⟩,
        fun _ => mem_cons_self⟩
    refine turn_end .refused ((hemits.trans hrefusal).of_eq ?_) (fun _ => .inl trivial)
      (silent_end (hemits.trans hrefusal) ..)
    exact flatMap_eq_nil_iff.mpr fun _ _ => rfl
  | true =>
    have hpush := hemits.trans (emits_push tr.request (tr.members.map (·.input)) {}
      { connectionId := tr.connectionId } false hcurrent)
    rw [if_pos rfl]
    dsimp only
    cases hok : (v.push tr.request (tr.members.map (·.input)) {} tr.inputGeneration
      { connectionId := tr.connectionId } false).1 with
    | false =>
      rw [hok] at hpush
      simp only [false_eq_true] at hpush ⊢
      refine turn_end .refused (hpush.of_eq ?_) (fun _ => .inl ⟨trivial, trivial⟩)
        (silent_end hpush ..)
      exact flatMap_eq_nil_iff.mpr fun _ _ => rfl
    | true =>
      rw [hok] at hpush
      refine turn_end .unchanged (hpush.of_eq ?_) nofun (silent_end hpush ..)
      exact flatMap_pure_eq_map (·.input) tr.members

section

variable (htr : s.nested[i]? = some tr)

include htr

theorem turn_member {m : Member} (hmembers : tr.members = m :: rest)
    (hemits : Emits s v tr.request (handling.leaves (some m.input)) refused)
    (hwhy : handling ≠ .refused) :
    s.Turn e i tr ((v.note tr.request m.place handling).setTransaction i
      { tr with members := rest }) := by
  have hlt := (List.getElem?_eq_some_iff.mp htr).1
  have hnested : v.nested = s.nested := hemits.field System.nested
  refine ⟨v, handling, [m.part], refused, [{ tr with members := rest }], ?_,
    fun h => absurd h hwhy, le_refl _, ?_, ?_, ?_⟩
  · rw [List.flatMap_singleton]
    exact hemits
  · intro _ htr'
    rw [List.mem_singleton.mp htr']
    exact ⟨rfl, rfl⟩
  · rw [hmembers, List.flatMap_singleton]
    rfl
  have hset : (v.note tr.request m.place handling).nested.set i { tr with members := rest } =
      s.nested.take i ++ [{ tr with members := rest }] ++ s.nested.drop (i + 1) := by
    show v.nested.set i _ = _
    rw [hnested, List.set_eq_take_append_cons_drop, if_pos hlt, List.append_assoc]
    rfl
  unfold System.setTransaction
  rw [hset]
  exact ⟨rfl, rfl, rfl⟩

theorem turn_startTransaction (parentActive allocated : Bool) :
    s.Turn e i tr (s.startTransaction i tr parentActive allocated) := by
  have hlt := (List.getElem?_eq_some_iff.mp htr).1
  unfold System.startTransaction
  split
  · rename_i hstale
    exact turn_refused (.inl hstale) (silent_end (emits_nothing s tr.request not_false) ..)
  rename_i hcurrent
  rw [not_eq_true] at hcurrent
  split
  · refine ⟨s, .unchanged, [], False, [{ tr with started := true }],
      emits_nothing s tr.request not_false, nofun, le_refl _, ?_, ?_, ?_⟩
    · intro _ htr'
      rw [mem_singleton.mp htr']
      exact ⟨rfl, rfl⟩
    · rw [flatMap_singleton]
      rfl
    · unfold System.setTransaction
      rw [set_eq_take_append_cons_drop, if_pos hlt, append_assoc]
      exact silent_nothing
  · exact turn_failOpen (emits_nothing s tr.request not_false) hcurrent

theorem turn_processMember {m : Member} (hmembers : tr.members = m :: rest) (outcome : Outcome)
    (allocated : Bool) : s.Turn e i tr (s.processMember i tr m rest outcome allocated) := by
  unfold System.processMember
  split
  · rename_i hstale
    exact turn_refused (.inl hstale) (silent_end (emits_nothing s tr.request not_false) ..)
  rename_i hcurrent
  rw [not_eq_true] at hcurrent
  -- The dispatch is not among the accounts.
  have hdispatch : ∀ {v : System} {out : List Input} {refused : Prop},
      Emits (s.dispatch (.fragment tr.request)) v tr.request out refused →
        Emits s v tr.request out refused :=
    fun h => ⟨h.beside, h.generation, h.refusals, h.admitted, h.remembered⟩
  split
  · dsimp only
    have hemits := hdispatch (emits_pushInput tr.request
      m.input (m.place == 0) tr.connectionId hcurrent)
    split
    · rename_i hok
      rw [hok] at hemits
      exact turn_member htr hmembers hemits nofun
    rename_i hok
    rw [not_eq_true] at hok
    rw [hok] at hemits
    refine turn_end .refused (hemits.of_eq ?_) (fun _ => .inl rfl) (silent_end hemits ..)
    exact flatMap_eq_nil_iff.mpr fun _ _ => rfl
  rename_i hookType _ _
  split
  · exact turn_failOpen (emits_nothing s tr.request not_false) hcurrent
  dsimp only
  have hemits := hdispatch (emits_emitOutput
    tr.request m.input (m.place == 0) tr.connectionId hookType outcome hcurrent)
  split
  · rename_i hrefused
    rw [hrefused] at hemits
    refine turn_failOpen hemits ?_
    rw [isStale_emitOutput]
    exact hcurrent
  · rename_i hdecided
    exact turn_member htr hmembers hemits hdecided

end

end Turns

theorem turn_or_spares {e : Event} (hstep : s.step e = some t) :
    (∃ i tr, s.nested[i]? = some tr ∧ s.Turn e i tr t) ∨
      ∀ r, Apart s r → r < s.requests.length ∨ t.requests.length ≤ r → Spares s t r := by
  by_cases hturn : ∃ i tr, s.nested[i]? = some tr ∧ s.Turns i tr e t
  · obtain ⟨i, tr, htr, hturn⟩ := hturn
    refine .inl ⟨i, tr, htr, ?_⟩
    cases hturn with
    | start => exact turn_startTransaction htr ..
    | member hmembers outcome => exact turn_processMember htr hmembers outcome _
    | ended hended =>
      refine turn_end .unchanged
        ((emits_nothing s tr.request not_false).of_eq (by rw [hended]; rfl)) nofun ?_
      rw [hended]
      exact silent_nothing.trans (silent_endTransaction ..)
    | close => exact turn_refused (.inr rfl) (silent_finish ..)
  · refine .inr fun r hr hknown => ((sparesRule s r).step ⟨hr.spares, not_mem_nil⟩
      (fun _ _ _ _ _ => trivial) (fun _ _ _ _ _ ht => ?_)
      (fun i tr htr hturns => absurd ⟨i, tr, htr, hturns⟩ hturn) hstep).1
    rw [ht, length_handleSynthesizeInput] at hknown
    rw [ht]
    exact ⟨hr.spares.handleSynthesizeInput (by omega) .., not_mem_nil⟩

end System

end KeysharpInput.Synthesis
