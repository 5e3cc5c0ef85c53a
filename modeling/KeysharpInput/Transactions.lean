import KeysharpInput.PartSteps

/-!
Recursive Sends, member by member.
A nested Send starts with all its members under way, and each turn of its transaction takes the
first of them, so in every run what is handled, followed by what is left, is its batch in order. Its
members are handled in order and once each: by the hooks that are left, or by going to the output
unchanged when the parent has unwound or the lane was flushed.
-/

namespace KeysharpInput.Synthesis

open Session (HookType)
open Output (Input OutputState)
open Transition List

namespace System

variable {s t : System} {r : Nat} {tr : Transaction}

structure Fresh (s : System) : Prop where
  apart : ∀ r, s.requests.length ≤ r → Apart s r
  nested : ∀ r, s.requests.length ≤ r → s.ofRequest r = []
  handled : ∀ r, s.requests.length ≤ r → s.handledOf r = []
  admitted : ∀ r, s.requests.length ≤ r → s.admittedOf r = []

theorem ofRequest_split {i : Nat} (rest : List Transaction) (htr : s.nested[i]? = some tr)
    (ht : t.nested = s.nested.take i ++ rest ++ s.nested.drop (i + 1)) (r : Nat) : ∃ front back,
    s.ofRequest r = front ++ [tr].filter (·.request == r) ++ back ∧
      t.ofRequest r = front ++ rest.filter (·.request == r) ++ back := by
  refine ⟨(s.nested.take i).filter (·.request == r), (s.nested.drop (i + 1)).filter
    (·.request == r), ?_, ?_⟩
  · unfold ofRequest
    conv_lhs => rw [nested_split htr]
    rw [← filter_append, ← filter_append, append_assoc]
    rfl
  · unfold ofRequest
    rw [ht, filter_append, filter_append]

theorem Turn.spares {e : Event} {i : Nat} (h : s.Turn e i tr t) (htr : s.nested[i]? = some tr)
    (hapart : Apart s r) (hne : tr.request ≠ r) : Spares s t r := by
  obtain ⟨v, handling, parts, _, rest, hemits, -, -, hrest, -, hsilent⟩ := h.exists_parts
  refine Spares.silent ?_ hsilent
  have hnoted := (hapart.spares.emits hne hemits).acts hne
    (acts_noteAll handling (parts.map (·.1)))
  refine { hnoted with apart := ⟨hnoted.apart.waiting, hnoted.apart.lanes⟩, nested := ?_ }
  obtain ⟨_, _, hold, hnew⟩ := ofRequest_split rest htr (t := { v.noteAll tr.request
    handling (parts.map (·.1)) with nested := _ }) rfl r
  have hnone : rest.filter (·.request == r) = [] :=
    filter_eq_nil_iff.mpr fun tr' htr' => by simp [(hrest tr' htr').1, hne]
  rw [hold, hnew, hnone]
  simp [hne]

theorem Fresh.step (h : Fresh s) {e : Event} (hstep : s.step e = some t) : Fresh t := by
  have hall : ∀ r, s.requests.length ≤ r → t.requests.length ≤ r → Spares s t r := by
    intro r hold hnew
    rcases turn_or_spares hstep with ⟨i, tr, htr, hturn⟩ | hspares
    · refine hturn.spares htr (h.apart r hold) fun heq => ?_
      have hmem : tr ∈ s.ofRequest r :=
        mem_filter.mpr ⟨mem_of_getElem? htr, beq_iff_eq.mpr heq⟩
      rw [h.nested r hold] at hmem
      cases hmem
    · exact hspares r (h.apart r hold) (.inr hnew)
  have hspares : ∀ r, t.requests.length ≤ r → s.requests.length ≤ r ∧ Spares s t r := by
    intro r hr
    have hle := (hall (s.requests.length + t.requests.length) (Nat.le_add_right ..)
      (Nat.le_add_left ..)).requests
    exact ⟨hle.trans hr, hall r (hle.trans hr) hr⟩
  refine ⟨fun r hr => (hspares r hr).2.apart, fun r hr => ?_, fun r hr => ?_, fun r hr => ?_⟩
  · exact (hspares r hr).2.nested.trans (h.nested r (hspares r hr).1)
  · exact (hspares r hr).2.handled.trans (h.handled r (hspares r hr).1)
  · exact (hspares r hr).2.admitted.trans (h.admitted r (hspares r hr).1)

/-- A transaction's request, followed from its acceptance: a part is refused only after a refused
push or a change of the generation. -/
structure Tracked (s : System) (r generation : Nat) (batch : List Input) : Prop where
  known : r < s.requests.length
  apart : Apart s r
  single : (s.ofRequest r).length ≤ 1
  current : ∀ tr ∈ s.ofRequest r, tr.inputGeneration = generation
  later : generation ≤ s.output.inputGeneration
  refused : ∀ x ∈ s.handledOf r, x.handling = .refused →
    r ∈ s.refusals ∨ generation < s.output.inputGeneration
  balanced : Balanced ((s.ofRequest r).flatMap fun tr => tr.members.map Member.part)
    (s.handledOf r) (s.admittedOf r) batch

theorem lt_of_isStale {generation : Nat} (hlater : generation ≤ s.output.inputGeneration)
    (hstale : s.isStale generation = true) : generation < s.output.inputGeneration := by
  unfold isStale Output.OutputState.isStale at hstale
  simp only [Bool.and_eq_true, bne_iff_ne] at hstale
  omega

section

variable {generation : Nat} {batch : List Input} {e : Event}

section

variable (h : Tracked s r generation batch)

include h

theorem Tracked.spares (hspares : Spares s t r) :
    Tracked t r generation batch := by
  refine ⟨lt_of_lt_of_le h.known hspares.requests, hspares.apart, ?_, ?_,
    h.later.trans hspares.generation, fun x hx hrefused => ?_, ?_⟩
  · rw [hspares.nested]
    exact h.single
  · rw [hspares.nested]
    exact h.current
  · rw [hspares.handled] at hx
    rcases h.refused x hx hrefused with hmem | hlater
    · exact .inl (hspares.refusals hmem)
    · exact .inr (lt_of_lt_of_le hlater hspares.generation)
  · rw [hspares.nested, hspares.handled, hspares.admitted]
    exact h.balanced

theorem Tracked.turn {i : Nat} {tr : Transaction}
    (he : Event.keepsRings e = true) (htr : s.nested[i]? = some tr) (hr : tr.request = r)
    (hturn : s.Turn e i tr t) : Tracked t r generation batch := by
  subst hr
  obtain ⟨v, handling, parts, refused, rest, hemits, hwhy, hone, hrest, hparts, hsilent⟩ :=
    hturn.exists_parts
  obtain ⟨adm, hadm, hadmOf, hout⟩ := hemits.admitted
  -- The request has this transaction and no other.
  obtain ⟨front, back, hold, hnew⟩ := ofRequest_split (t := t) rest htr
    (hsilent.field System.nested) tr.request
  have hself : [tr].filter (·.request == tr.request) = [tr] := by simp
  have hkept : rest.filter (·.request == tr.request) = rest :=
    filter_eq_self.mpr fun tr' htr' => by simp [(hrest tr' htr').1]
  have hsingle := h.single
  rw [hself] at hold
  rw [hold, length_append, length_append, length_singleton] at hsingle
  obtain rfl : front = [] := length_eq_zero_iff.mp (by omega)
  obtain rfl : back = [] := length_eq_zero_iff.mp (by omega)
  rw [nil_append, append_nil] at hold hnew
  rw [hkept] at hnew
  have hhandled : t.handledOf tr.request = s.handledOf tr.request ++
      (parts.map (·.1)).map fun place => ⟨tr.request, place, handling⟩ := by
    have hsame : t.handled = (v.noteAll tr.request handling (parts.map (·.1))).handled :=
      hsilent.field System.handled
    have hv : v.handled = s.handled := hemits.field System.handled
    have hnoted := handledOf_noteAll (s := v) (r := tr.request) handling (parts.map (·.1))
      tr.request
    rw [if_pos rfl] at hnoted
    unfold handledOf at hnoted ⊢
    rw [hsame, hnoted, hv]
  have hadmitted : t.admittedOf tr.request = s.admittedOf tr.request ++ adm := by
    have hsame : t.admitted = v.admitted := hsilent.field System.admitted
    rw [admittedOf_append (hsame.trans hadm) hadmOf, if_pos rfl]
  have hgeneration : t.output.inputGeneration = s.output.inputGeneration :=
    hsilent.2.2.trans hemits.generation
  have hrefusals : t.refusals = v.refusals := hsilent.field System.refusals
  have hbalanced := h.balanced
  rw [hold, flatMap_singleton, hparts] at hbalanced
  have hcurrent : tr.inputGeneration = generation :=
    h.current tr (by rw [hold]; exact mem_singleton_self _)
  refine ⟨?_, ?_, hnew ▸ hone, fun tr' htr' => ?_, hgeneration ▸ h.later,
    fun x hx hrefused => ?_, ?_⟩
  · have hrequests : v.requests = s.requests := hemits.field System.requests
    rw [hsilent.2.1]
    show tr.request < v.requests.length
    rw [hrequests]
    exact h.known
  · have hv : (v.hand, v.queue, v.lanes) = (s.hand, s.queue, s.lanes) :=
      hemits.field fun s => (s.hand, s.queue, s.lanes)
    have ht : (t.hand, t.queue, t.lanes) = (v.hand, v.queue, v.lanes) :=
      hsilent.field fun s => (s.hand, s.queue, s.lanes)
    exact h.apart.same (ht.trans hv)
  · rw [hnew] at htr'
    exact (hrest tr' htr').2.trans hcurrent
  · rw [hrefusals, hgeneration]
    rw [hhandled] at hx
    rcases mem_append.mp hx with hx | hx
    · exact (h.refused x hx hrefused).imp_left (hemits.refusals _)
    obtain ⟨_, -, rfl⟩ := mem_map.mp hx
    rcases hwhy hrefused with hpush | hstale | hclosed
    · exact .inl (hemits.remembered hpush)
    · exact .inr (lt_of_isStale h.later (hcurrent ▸ hstale))
    · rw [he] at hclosed
      cases hclosed
  · rw [hnew, hhandled, hadmitted]
    refine hbalanced.settle ?_ ?_
    · rw [map_map]
      exact map_id' _
    rw [hout, map_map, flatMap_map]
    apply flatMap_congr
    intro p hp
    simp only [Function.comp_apply, Handled.left, hbalanced.inputs p (mem_append_left _ hp)]

theorem Tracked.step (he : Event.keepsRings e = true)
    (hstep : s.step e = some t) : Tracked t r generation batch := by
  rcases turn_or_spares hstep with ⟨i, tr, htr, hturn⟩ | hspares
  · by_cases hr : tr.request = r
    · exact h.turn he htr hr hturn
    · exact h.spares (hturn.spares htr h.apart hr)
  · exact h.spares (hspares r h.apart (.inl h.known))

end

end

theorem inputs_of_balanced {left : List (Nat × Input)} {batch : List Input}
    (h : Balanced left [] [] batch) : left.map (·.2) = batch := by
  have horder : left.map (·.1) = range batch.length := by
    rcases h.order with ⟨x, hx, -⟩ | horder
    · cases hx
    · exact horder
  have hlength : left.length = batch.length := by
    rw [← length_map, horder, length_range]
  apply ext_getElem
  · rw [length_map, hlength]
  intro i hi hi'
  rw [length_map] at hi
  have hplace : left[i].1 = i := by
    have hget := getElem_of_eq horder (by rwa [length_map])
    rwa [getElem_map, getElem_range] at hget
  have hinput := h.inputs left[i] (getElem_mem hi)
  rw [hplace, getElem?_eq_getElem hi'] at hinput
  rw [getElem_map]
  exact (Option.some.inj hinput).symm

/-- A request leaves the transactions alone, or adds one with all the members of its batch. -/
theorem accepts_handleSynthesizeInput (stream : Nat) (inputs : List Input) (route : Route)
    (allocOk sendOk : Bool) :
    (s.handleSynthesizeInput stream inputs route allocOk sendOk).nested = s.nested ∨
    ∃ tr : Transaction, Silent { s.newRequest stream (expandBatch inputs) (some {}) with
        nested := s.nested ++ [tr] }
        (s.handleSynthesizeInput stream inputs route allocOk sendOk) ∧
      tr.request = s.requests.length ∧ tr.inputGeneration = s.output.inputGeneration ∧
      tr.members.map Member.part =
        (expandBatch inputs).mapIdx fun place input => (place, input) := by
  have hanswer : ∀ status, ((s.newRequest stream [] none).reply s.requests.length stream status
      sendOk).nested = s.nested := fun status => (silent_reply ..).field System.nested
  unfold System.handleSynthesizeInput
  dsimp only
  split
  · exact .inl (hanswer _)
  · unfold System.sendDirect
    dsimp only
    split <;> exact .inl ((silent_reply ..).field System.nested)
  · split
    · exact .inl (hanswer _)
    split <;> exact .inl rfl
  split
  · exact .inl (hanswer _)
  split
  · exact .inl rfl
  split
  · exact .inl rfl
  split
  · exact .inl rfl
  split
  · exact .inl ((silent_beginAtomic
      s.requests.length).field System.nested)
  have hbegun := silent_beginAtomic (s := s.newRequest stream (expandBatch inputs) (some {}))
    s.requests.length
  have hadded : ∀ tr, Silent { s.newRequest stream (expandBatch inputs) (some {}) with
      nested := s.nested ++ [tr] }
      { (s.newRequest stream (expandBatch inputs) (some {})).beginAtomic s.requests.length with
        nested := ((s.newRequest stream (expandBatch inputs) (some {})).beginAtomic
          s.requests.length).nested ++ [tr] } := fun tr =>
    ⟨congrArg (fun u : System => { u with nested := u.nested ++ [tr] }) hbegun.1,
      hbegun.2.1, hbegun.2.2⟩
  refine .inr ⟨_, hadded _, rfl, rfl, ?_⟩
  rw [mapIdx_eq_zipIdx_map, mapIdx_eq_zipIdx_map, map_map]
  rfl

theorem Fresh.tracked {stream : Nat} {inputs : List Input} {route : Route} {allocOk sendOk : Bool}
    (h : Fresh s) (hrequest : s.step (.request stream inputs route allocOk sendOk) = some t)
    (htr : tr ∈ t.nested) (hnew : tr.request = s.requests.length) :
    Tracked t tr.request s.output.inputGeneration (expandBatch inputs) ∧
      tr.members.map (·.input) = expandBatch inputs := by
  cases hrequest
  have hnot : tr ∉ s.nested := by
    intro hold
    have hmem : tr ∈ s.ofRequest s.requests.length :=
      mem_filter.mpr ⟨hold, beq_iff_eq.mpr hnew⟩
    rw [h.nested _ (le_refl _)] at hmem
    cases hmem
  rcases accepts_handleSynthesizeInput (s := s) stream inputs route allocOk sendOk with
    hnested | ⟨tr', hsilent, hr, hgeneration, hparts⟩
  · rw [hnested] at htr
    exact absurd htr hnot
  generalize s.handleSynthesizeInput stream inputs route allocOk sendOk = t at *
  have hnested : t.nested = s.nested ++ [tr'] := hsilent.field System.nested
  obtain rfl : tr = tr' := by
    rw [hnested] at htr
    rcases mem_append.mp htr with htr | htr
    · exact absurd htr hnot
    · exact mem_singleton.mp htr
  have hof : t.ofRequest tr.request = [tr] := by
    have hold := h.nested s.requests.length (le_refl _)
    unfold ofRequest at hold ⊢
    rw [hnested, hnew, filter_append, hold]
    simp [hnew]
  have hapart : Apart t tr.request := by
    rw [hnew]
    exact (h.apart _ (le_refl _)).same (hsilent.field fun s => (s.hand, s.queue, s.lanes))
  have hhandled : t.handledOf tr.request = [] := by
    have hsame : t.handled = s.handled := hsilent.field System.handled
    rw [handledOf, hsame, hnew]
    exact h.handled _ (le_refl _)
  have hadmitted : t.admittedOf tr.request = [] := by
    have hsame : t.admitted = s.admitted := hsilent.field System.admitted
    rw [admittedOf, hsame, hnew]
    exact h.admitted _ (le_refl _)
  have hbalanced := balanced_new (expandBatch inputs)
  rw [← hparts] at hbalanced
  refine ⟨⟨?_, hapart, ?_, ?_, ?_, ?_, ?_⟩, ?_⟩
  · rw [hnew, hsilent.2.1]
    show _ < (s.requests ++ _).length
    simp
  · rw [hof]
    exact le_refl _
  · rw [hof]
    intro _ htr'
    rw [mem_singleton.mp htr']
    exact hgeneration
  · exact le_of_eq hsilent.2.2.symm
  · simp [hhandled]
  · rw [hof, hhandled, hadmitted, flatMap_singleton]
    exact hbalanced
  · rw [← inputs_of_balanced hbalanced, map_map]
    rfl

end System

end KeysharpInput.Synthesis
