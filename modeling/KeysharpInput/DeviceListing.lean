import KeysharpInput.Devices

/-!
What a client learns about the devices.
A client takes the listing at some generation and then applies the notices of later generations.
It fetches the listing in pages, and each page starts at a place in the table. A place is good as
long as no entry before it is taken out; the generation tells of every such entry but those that
are not listed.
-/

namespace KeysharpInput.Devices

open Transition List

variable {α : Type*} {gone : Option Nat} {l l' : List (Option (DeviceInfo α))}
  {label : Option (NoticeKind × DeviceInfo α)} {devices devices' : List (DeviceInfo α)}
  {before after : List (Option (DeviceInfo α))} {info : DeviceInfo α}

def applyNotice (devices : List (DeviceInfo α)) (p : NoticeKind × DeviceInfo α) :
    List (DeviceInfo α) :=
  match p.1 with
  | .added => devices ++ [p.2]
  | .removed => devices.filter fun d => d.deviceId != p.2.deviceId
  | .changed => devices.map fun d => if d.deviceId = p.2.deviceId then p.2 else d

def replay (devices : List (DeviceInfo α)) (notices : List (Notice α)) : List (DeviceInfo α) :=
  notices.foldl (fun devices n => applyNotice devices (n.kind, n.info)) devices

theorem perm_applyNotice (h : devices.Perm devices') (p : NoticeKind × DeviceInfo α) :
    (applyNotice devices p).Perm (applyNotice devices' p) := by
  unfold applyNotice
  split
  · exact h.append_right _
  · exact h.filter _
  · exact h.map _

theorem perm_foldl_applyNotice (h : devices.Perm devices') (ps : List (NoticeKind × DeviceInfo α)) :
    (ps.foldl applyNotice devices).Perm (ps.foldl applyNotice devices') := by
  induction ps generalizing devices devices' with
  | nil => exact h
  | cons p _ ih => exact ih (perm_applyNotice h p)

theorem exists_of_place {i : Nat} {x : Option (DeviceInfo α)} (h : l[i]? = some x) :
    ∃ before after, l = before ++ x :: after ∧ (∀ y, l.set i y = before ++ y :: after) ∧
      l.eraseIdx i = before ++ after := by
  obtain ⟨hi, rfl⟩ := List.getElem?_eq_some_iff.mp h
  refine ⟨l.take i, l.drop (i + 1), by simp, fun y => ?_, ?_⟩
  · rw [List.set_eq_take_append_cons_drop, if_pos hi]
  · rw [List.eraseIdx_eq_take_drop_succ]

theorem listing_append (a b : List (Option (DeviceInfo α))) :
    listing (a ++ b) = listing a ++ listing b := filterMap_append

theorem listing_none (a : List (Option (DeviceInfo α))) : listing (none :: a) = listing a := rfl

theorem listing_some (info : DeviceInfo α) (a : List (Option (DeviceInfo α))) :
    listing (some info :: a) = info :: listing a := rfl

section

variable (hn : ((listing (before ++ some info :: after)).map (·.deviceId)).Nodup)

include hn

theorem ne_of_listing_nodup :
    ∀ d ∈ listing before ++ listing after, d.deviceId ≠ info.deviceId := by
  intro d hd heq
  rw [listing_append] at hn
  have hperm : (listing before ++ info :: listing after).Perm
      (info :: (listing before ++ listing after)) := perm_middle
  have hnodup := (hperm.map (·.deviceId)).nodup_iff.mp hn
  rw [map_cons, nodup_cons] at hnodup
  exact hnodup.1 (heq ▸ mem_map_of_mem hd)

theorem applyNotice_removed :
    applyNotice (listing (before ++ some info :: after)) (.removed, info) =
      listing (before ++ after) := by
  have hkept := ne_of_listing_nodup hn
  unfold applyNotice
  rw [listing_append, listing_some, listing_append, filter_append, filter_cons,
    bne_self_eq_false, if_neg Bool.false_ne_true, ← filter_append, filter_eq_self]
  exact fun d hd => bne_iff_ne.mpr (hkept d hd)

end

theorem applyNotice_changed {info' : DeviceInfo α} (hid : info'.deviceId = info.deviceId)
    (hn : ((listing (before ++ some info :: after)).map (·.deviceId)).Nodup) :
    applyNotice (listing (before ++ some info :: after)) (.changed, info') =
      listing (before ++ some info' :: after) := by
  have hkept := ne_of_listing_nodup hn
  have hsame : ∀ devices : List (DeviceInfo α), (∀ d ∈ devices, d.deviceId ≠ info.deviceId) →
      devices.map (fun d => if d.deviceId = info'.deviceId then info' else d) = devices := by
    intro devices hne
    refine (map_congr_left fun d hd => ?_).trans (map_id devices)
    rw [hid, if_neg (hne d hd)]
    rfl
  unfold applyNotice
  rw [listing_append, listing_some, listing_append, listing_some, map_append, map_cons,
    if_pos hid.symm, hsame _ fun d hd => hkept d (mem_append_left _ hd),
    hsame _ fun d hd => hkept d (mem_append_right _ hd)]

theorem SlotStep.perm_listing (h : SlotStep gone l label l')
    (hn : ((listing l).map (·.deviceId)).Nodup) :
    (label.toList.foldl applyNotice (listing l)).Perm (listing l') := by
  cases h with
  | keep => exact .refl _
  | extend =>
    simp [listing]
  | drop i h =>
    obtain ⟨before, after, hl, -, herase⟩ := exists_of_place h
    rw [herase, hl, listing_append, listing_append]
    exact .refl _
  | add i info h =>
    obtain ⟨before, after, hl, hset, -⟩ := exists_of_place h
    rw [hset, hl, listing_append, listing_append]
    exact (perm_append_singleton info _).trans perm_middle.symm
  | append =>
    rw [listing_append]
    exact .refl _
  | remove _ _ h =>
    obtain ⟨before, after, hl, hset, -⟩ := exists_of_place h
    rw [hset, listing_append, listing_none, ← listing_append]
    rw [hl] at hn ⊢
    exact .of_eq (applyNotice_removed hn)
  | erase _ _ h =>
    obtain ⟨before, after, hl, -, herase⟩ := exists_of_place h
    rw [herase]
    rw [hl] at hn ⊢
    exact .of_eq (applyNotice_removed hn)
  | change _ _ _ h hid =>
    obtain ⟨_, _, hl, hset, -⟩ := exists_of_place h
    rw [hset]
    rw [hl] at hn ⊢
    exact .of_eq (applyNotice_changed hid hn)

section Snapshot

variable {s t : Table α}

def keepsIdentity (s : Table α) (e : Event α) : Prop := s.switchesIdentity e = false

structure Numbered (s : Table α) : Prop where
  generation : s.generation = s.notices.length + 1
  notices : s.notices.map (·.generation) = range' 2 s.notices.length

theorem Numbered.step (h : Numbered s) (hann : Announces s label t) : Numbered t := by
  obtain ⟨hgeneration, hnotices⟩ := hann
  cases label with
  | none =>
    simp only [Option.toList_none, length_nil, map_nil, append_nil] at hgeneration hnotices
    exact ⟨by rw [hgeneration, hnotices, h.generation], by rw [hnotices, h.notices]⟩
  | some =>
    simp only [Option.toList_some, length_singleton]
      at hgeneration hnotices
    have hlength : t.notices.length = s.notices.length + 1 := by simp [hnotices]
    refine ⟨by rw [hgeneration, h.generation, hlength], ?_⟩
    rw [hlength, range'_concat, ← h.notices, hnotices, hgeneration, h.generation]
    simp
    omega

theorem Numbered.le_generation (h : Numbered s) : ∀ n ∈ s.notices, n.generation ≤ s.generation := by
  intro n hn
  have hmem : n.generation ∈ range' 2 s.notices.length :=
    h.notices ▸ mem_map_of_mem hn
  rw [mem_range'_1] at hmem
  rw [h.generation]
  omega

structure Since (s t : Table α) : Prop where
  identified : Identified t
  numbered : Numbered t
  grows : s.generation ≤ t.generation
  later : ∃ later, t.notices = s.notices ++ later ∧ (∀ n ∈ later, s.generation < n.generation) ∧
    (replay (listing s.slots) later).Perm (listing t.slots)

theorem Since.refl (hidentified : Identified s) (hnumbered : Numbered s) : Since s s where
  identified := hidentified
  numbered := hnumbered
  grows := Nat.le_refl _
  later := ⟨[], by simp, by simp, .refl _⟩

variable [DecidableEq α] [Inhabited α]

def Table.next (s : Table α) (e : Event α) : Option (Table α) := some (s.step e)

theorem Since.step {u : Table α} (h : Since s t) {e : Event α} (hours : keepsIdentity t e)
    (hstep : t.next e = some u) : Since s u := by
  cases hstep
  obtain ⟨label, hslots, hann⟩ := h.identified.tableStep hours
  obtain ⟨later, hnotices, hafter, hreplay⟩ := h.later
  have hgrows : t.generation ≤ (t.step e).generation := by
    rw [hann.generation]
    exact Nat.le_add_right _ _
  refine ⟨h.identified.step e, h.numbered.step hann, Nat.le_trans h.grows hgrows, ?_⟩
  refine ⟨later ++ label.toList.map fun p =>
    { kind := p.1, info := p.2, generation := (t.step e).generation }, ?_, ?_, ?_⟩
  · rw [hann.notices, hnotices, append_assoc]
  · intro n hn
    obtain hold | hnew := mem_append.mp hn
    · exact hafter n hold
    obtain ⟨p, hp, rfl⟩ := mem_map.mp hnew
    have hone : 0 < label.toList.length := length_pos_of_mem hp
    have hgrows := h.grows
    dsimp only
    rw [hann.generation]
    omega
  · unfold replay at hreplay ⊢
    rw [foldl_append, foldl_map]
    refine List.Perm.trans ?_ (hslots.perm_listing h.identified.listing_nodup)
    exact perm_foldl_applyNotice hreplay label.toList

/-- In every run in which no node changes its identity while it is open, each notice raises the
generation by one, identities are never given twice, and the listing at any time with the notices
of later generations gives the listing at any later time, up to order. -/
theorem snapshot_and_notices (hs : Reaches Table.next keepsIdentity ({} : Table α) s)
    (ht : Reaches Table.next keepsIdentity s t) :
    t.generation = t.notices.length + 1 ∧ t.notices.map (·.generation) = range' 2 t.notices.length ∧
      t.assigned.Nodup ∧ ((listing t.slots).map (·.deviceId)).Nodup ∧
      (replay (listing s.slots)
        (t.notices.filter fun n => s.generation < n.generation)).Perm (listing t.slots) := by
  have hfirst : Since ({} : Table α) s :=
    hs.invariant (.refl identified_default ⟨rfl, rfl⟩) fun _ _ _ h hours hstep => h.step hours hstep
  have hthen : Since s t := ht.invariant (.refl hfirst.identified hfirst.numbered)
    fun _ _ _ h hours hstep => h.step hours hstep
  obtain ⟨later, hnotices, hafter, hreplay⟩ := hthen.later
  have hfilter : (t.notices.filter fun n => decide (s.generation < n.generation)) = later := by
    rw [hnotices, filter_append, filter_eq_nil_iff.mpr, nil_append, filter_eq_self.mpr]
    · exact fun n hn => decide_eq_true (hafter n hn)
    · intro n hn
      have hle := hfirst.numbered.le_generation n hn
      simpa using hle
  refine ⟨hthen.numbered.generation, hthen.numbered.notices, hthen.identified.once,
    hthen.identified.listing_nodup, ?_⟩
  rw [hfilter]
  exact hreplay

/-- A keyboard is listed, then closed by an error and opened again under a new identity. -/
theorem snapshot_and_notices_of_run :
    let s : Table Nat := Table.step {} (.track { path := 4, data := 7 } true)
    let t := (s.step (.close 0)).step (.track { path := 4, data := 8 } true)
    listing s.slots = [⟨1, 7⟩] ∧ listing t.slots = [⟨2, 8⟩] ∧ (replay (listing s.slots)
        (t.notices.filter fun n => s.generation < n.generation)).Perm (listing t.slots) := by
  intro s t
  have hs : Reaches Table.next keepsIdentity ({} : Table Nat) s :=
    Reaches.refl.tail (.track { path := 4, data := 7 } true) rfl rfl
  have hclosed : Reaches Table.next keepsIdentity s (s.step (.close 0)) :=
    Reaches.refl.tail (.close 0) rfl rfl
  have ht : Reaches Table.next keepsIdentity s t :=
    hclosed.tail (.track { path := 4, data := 8 } true) rfl rfl
  exact ⟨rfl, rfl, (snapshot_and_notices hs ht).2.2.2.2⟩

end Snapshot

/-- `KSI_DEVICE_LIST_PAGE_SIZE`. -/
def deviceListPageSize : Nat := 8

/-- The loop of `ksi_linux_devices_list` with the place it has come to and the room left. -/
def listFrom (index : Nat) : Nat → List (Option (DeviceInfo α)) → List (DeviceInfo α) × Nat
  | _, [] => ([], index)
  | 0, _ :: _ => ([], index)
  | capacity + 1, none :: slots => listFrom (index + 1) (capacity + 1) slots
  | capacity + 1, some info :: slots =>
    let (entries, last) := listFrom (index + 1) capacity slots
    (info :: entries, last)

/-- `ksi_linux_devices_list`: the entries and where the next page starts. -/
def devicesList (slots : List (Option (DeviceInfo α))) (offset capacity : Nat) :
    List (DeviceInfo α) × Nat :=
  let (entries, index) := listFrom offset capacity (slots.drop offset)
  (entries, if index < slots.length then index else 0)

/-- `devices_list_paged` between two requests. -/
structure Fetch (α : Type*) where
  offset : Nat := 0
  generation : Nat := 0
  collected : List (DeviceInfo α) := []
  finished : Bool := false

structure Paging (α : Type*) where
  table : Table α := {}
  fetch : Option (Fetch α) := none

inductive PageEvent (α : Type*)
  | device (e : Event α)
  /-- A client starts to enumerate. -/
  | start
  /-- It asks for the next page. -/
  | page

/-- One request of `devices_list_paged`, answered by `send_device_page`. A generation that has
passed is answered `BUSY`, and the enumeration fails. -/
def Fetch.page (f : Fetch α) (table : Table α) : Option (Fetch α) :=
  if f.generation ≠ 0 ∧ f.generation ≠ table.generation then none
  else
    let (entries, next) := devicesList table.slots f.offset deviceListPageSize
    if next ≠ 0 ∧ next ≤ f.offset then none
    else some
      { offset := next, generation := table.generation, collected := f.collected ++ entries
        finished := next == 0 }

theorem listFrom_spec (index capacity : Nat) (slots : List (Option (DeviceInfo α))) :
    ∃ n ≤ slots.length, (0 < capacity → slots ≠ [] → 0 < n) ∧
      listFrom index capacity slots = (listing (slots.take n), index + n) := by
  induction slots generalizing index capacity with
  | nil =>
    refine ⟨0, Nat.le_refl _, fun _ hne => absurd rfl hne, ?_⟩
    rfl
  | cons slot _ ih =>
    cases capacity with
    | zero => exact ⟨0, Nat.zero_le _, fun hpos => absurd hpos (Nat.lt_irrefl 0), rfl⟩
    | succ capacity =>
      cases slot with
      | none =>
        obtain ⟨n, hn, -, hlist⟩ := ih (index + 1) (capacity + 1)
        refine ⟨n + 1, Nat.succ_le_succ hn, fun _ _ => Nat.succ_pos n, ?_⟩
        rw [listFrom, hlist, take_succ_cons, listing_none, Nat.add_right_comm, Nat.add_assoc]
      | some =>
        obtain ⟨n, hn, -, hlist⟩ := ih (index + 1) capacity
        refine ⟨n + 1, Nat.succ_le_succ hn, fun _ _ => Nat.succ_pos n, ?_⟩
        rw [listFrom, hlist, take_succ_cons, listing_some, Nat.add_right_comm, Nat.add_assoc]

structure Fetch.Stands (f : Fetch α) (table : Table α) : Prop where
  past : f.generation ≤ table.generation
  fresh : f.generation = 0 → f.offset = 0 ∧ f.collected = [] ∧ f.finished = false
  collected : f.generation = table.generation → f.collected =
    if f.finished then listing table.slots else listing (table.slots.take f.offset)

structure Paging.Sound (p : Paging α) : Prop where
  identified : Identified p.table
  started : 0 < p.table.generation
  fetch : ∀ f, p.fetch = some f → f.Stands p.table

theorem Fetch.Stands.page {f f' : Fetch α} {table : Table α} (h : f.Stands table)
    (hpositive : 0 < table.generation) (hunfinished : f.finished = false)
    (hpage : f.page table = some f') : f'.Stands table := by
  have hso : f.collected = listing (table.slots.take f.offset) := by
    by_cases hzero : f.generation = 0
    · obtain ⟨hoffset, hcollected, -⟩ := h.fresh hzero
      rw [hoffset, hcollected]
      rfl
    have hgen : f.generation = table.generation := by
      by_contra hne
      simp [Fetch.page, hzero, hne] at hpage
    rw [h.collected hgen, hunfinished, if_neg Bool.false_ne_true]
  obtain ⟨n, hn, hgoes, hlist⟩ :=
    listFrom_spec f.offset deviceListPageSize (table.slots.drop f.offset)
  have hpast : ¬ (f.generation ≠ 0 ∧ f.generation ≠ table.generation) := by
    intro hbusy
    simp [Fetch.page, hbusy] at hpage
  unfold Fetch.page devicesList at hpage
  rw [hlist, if_neg hpast] at hpage
  dsimp only at hpage
  by_cases hmore : f.offset + n < table.slots.length
  · have hn : 0 < n := by
      refine hgoes (by decide) fun hnil => ?_
      rw [drop_eq_nil_iff] at hnil
      omega
    rw [if_pos hmore, if_neg (by omega)] at hpage
    cases hpage
    refine ⟨Nat.le_refl _, fun hzero => absurd hzero (Nat.ne_of_gt hpositive), fun _ => ?_⟩
    have hunfinished : (f.offset + n == 0) = false := beq_eq_false_iff_ne.mpr (by omega)
    rw [hso, ← listing_append, ← take_add, hunfinished, if_neg Bool.false_ne_true]
  · rw [if_neg hmore] at hpage
    cases hpage
    refine ⟨Nat.le_refl _, fun hzero => absurd hzero (Nat.ne_of_gt hpositive), fun _ => ?_⟩
    have hall : (table.slots.drop f.offset).length ≤ n := by
      rw [length_drop]
      omega
    rw [hso, ← listing_append, take_of_length_le hall, take_append_drop]
    rfl

theorem SlotStep.listing_of_silent (h : SlotStep gone l none l') : listing l' = listing l := by
  cases h with
  | keep => rfl
  | extend =>
    rw [listing_append]
    exact append_nil _
  | drop _ h =>
    obtain ⟨_, _, hl, -, herase⟩ := exists_of_place h
    rw [herase, hl, listing_append, listing_append, listing_none]

theorem SlotStep.take_of_silent (h : SlotStep gone l none l') {n : Nat}
    (hgone : ∀ i, gone = some i → l[i]? = some none → n ≤ i) :
    listing (l'.take n) = listing (l.take n) := by
  cases h with
  | keep => rfl
  | extend =>
    have hnone : listing (([none] : List (Option (DeviceInfo α))).take (n - l.length)) = [] := by
      cases n - l.length <;> simp [listing]
    rw [List.take_append, listing_append, hnone, List.append_nil]
  | drop i h hi =>
    have hle := hgone i hi h
    have hlt : i < l.length := (List.getElem?_eq_some_iff.mp h).1
    rw [List.eraseIdx_eq_take_drop_succ, List.take_append_of_le_length, List.take_take,
      Nat.min_eq_left hle]
    rw [List.length_take]
    omega

section Pages

variable [DecidableEq α] [Inhabited α]

def Paging.next (p : Paging α) : PageEvent α → Option (Paging α)
  | .device e => some { p with table := p.table.step e }
  | .start => some { p with fetch := some {} }
  | .page =>
    match p.fetch with
    | none => none
    | some f => if f.finished then none else some { p with fetch := f.page p.table }

/-- The event takes out an entry before the place where the next page starts, and that entry is
not listed. -/
def Paging.shifts (p : Paging α) : PageEvent α → Bool
  | .device e => p.fetch.any fun f => !f.finished && (p.table.takesOut e).any fun i =>
      decide (i < f.offset) && p.table.tracked[i]?.any fun d => !d.listed
  | _ => false

def Paging.switches (p : Paging α) : PageEvent α → Bool
  | .device e => p.table.switchesIdentity e
  | _ => false

/-- No unlisted entry before the next page is taken out, and no node changes its identity while
it is open. -/
def steady (p : Paging α) (e : PageEvent α) : Prop :=
  (p.shifts e || p.switches e) = false

def shiftedRun : List (PageEvent Nat) :=
  [.device (.track { path := 0, isSynthDevice := true, data := 0 } true)] ++
  (range 10).map (fun n => .device (.track { path := n + 1, data := n } true)) ++
  [.start, .page, .device (.untrack 0), .page]

theorem page_skips_device : ∃ p : Paging Nat, Reaches Paging.next always {} p ∧
    ∃ f, p.fetch = some f ∧ f.finished = true ∧ f.generation = p.table.generation ∧
      ∃ d ∈ listing p.table.slots, d ∉ f.collected := by
  obtain ⟨p, hp, hq⟩ := exists_reaches Paging.next ({} : Paging Nat) shiftedRun
    (q := fun p : Paging Nat => p.fetch.any fun f : Fetch Nat => f.finished = true ∧
      f.generation = p.table.generation ∧ ∃ d ∈ listing p.table.slots, d ∉ f.collected)
    (by decide +kernel)
  obtain ⟨f, hf, hq⟩ := (Option.any_eq_true _ _).mp hq
  exact ⟨p, hp, f, hf, of_decide_eq_true hq⟩

theorem Fetch.Stands.device {f : Fetch α} {table : Table α} {e : Event α} (h : f.Stands table)
    (hidentified : Identified table) (hours : table.switchesIdentity e = false)
    (hsteady : f.finished = false → ∀ i, table.takesOut e = some i →
      table.slots[i]? = some none → f.offset ≤ i) : f.Stands (table.step e) := by
  obtain ⟨label, hslots, hann⟩ := hidentified.tableStep hours
  have hgeneration := hann.generation
  refine ⟨Nat.le_trans h.past (by omega), h.fresh, fun hgen => ?_⟩
  cases label with
  | some =>
    have hpast := h.past
    rw [Option.toList_some, length_singleton] at hgeneration
    omega
  | none =>
    have hcollected := h.collected (hgen.trans hgeneration)
    cases hfinished : f.finished with
    | true =>
      rw [hfinished, if_pos rfl] at hcollected
      rw [if_pos rfl, hcollected, hslots.listing_of_silent]
    | false =>
      rw [hfinished, if_neg Bool.false_ne_true] at hcollected
      rw [if_neg Bool.false_ne_true, hcollected, hslots.take_of_silent (hsteady hfinished)]

theorem Paging.Sound.step {p q : Paging α} (h : p.Sound) {e : PageEvent α} (hsteady : steady p e)
    (hstep : p.next e = some q) : q.Sound := by
  rw [steady, Bool.or_eq_false_iff] at hsteady
  cases e with
  | device e =>
    cases hstep
    obtain ⟨hshifts, hours⟩ := hsteady
    refine ⟨h.identified.step e, ?_, fun f hf => ?_⟩
    · obtain ⟨_, -, hann⟩ := h.identified.tableStep hours
      have hstarted := h.started
      have hgeneration := hann.generation
      dsimp only
      omega
    refine (h.fetch f hf).device h.identified hours fun hunfinished i hi hat => ?_
    have hf' : p.fetch = some f := hf
    simp only [Paging.shifts, hf', hi, Option.any_some, hunfinished, Bool.not_false,
      Bool.true_and, Bool.and_eq_false_iff, decide_eq_false_iff_not, Nat.not_lt] at hshifts
    refine hshifts.resolve_right fun hlisted => ?_
    obtain ⟨d, hd, hslot⟩ : ∃ d, p.table.tracked[i]? = some d ∧ d.slot = none := by
      simpa [Table.slots] using hat
    rw [hd] at hlisted
    have hyes : d.listed = true := by simpa using hlisted
    rw [slot_of_listed hyes] at hslot
    cases hslot
  | start =>
    cases hstep
    refine ⟨h.identified, h.started, fun f hf => ?_⟩
    cases hf
    refine ⟨Nat.zero_le _, fun _ => ⟨rfl, rfl, rfl⟩, fun hgen => ?_⟩
    exact absurd hgen (Nat.ne_of_lt h.started)
  | page =>
    unfold Paging.next at hstep
    cases hfetch : p.fetch with
    | none => simp [hfetch] at hstep
    | some f =>
      simp only [hfetch, Option.ite_none_left_eq_some, Bool.not_eq_true, Option.some.injEq] at hstep
      obtain ⟨hunfinished, rfl⟩ := hstep
      exact ⟨h.identified, h.started, fun f' hf' =>
        (h.fetch f hfetch).page h.started hunfinished hf'⟩

/-- In every steady run, pages of one generation up to the last one hold every device that is
listed then, once and in the order of the table. -/
theorem pages_complete {p : Paging α} {f : Fetch α} (h : Reaches Paging.next steady {} p)
    (hfetch : p.fetch = some f) (hfinished : f.finished = true)
    (hgeneration : f.generation = p.table.generation) :
    f.collected = listing p.table.slots ∧ (f.collected.map (·.deviceId)).Nodup := by
  have hsound : p.Sound := by
    refine h.invariant ?_ fun _ _ _ hs hsteady hstep => hs.step hsteady hstep
    exact ⟨identified_default, Nat.one_pos, fun f hf => nomatch hf⟩
  have hcollected := (hsound.fetch f hfetch).collected hgeneration
  rw [hfinished] at hcollected
  exact ⟨hcollected, hcollected ▸ hsound.identified.listing_nodup⟩

/-- Ten devices in two pages, with an own clone that is plugged in between. -/
theorem pages_complete_of_run : ∃ p : Paging Nat, Reaches Paging.next steady {} p ∧
    ∃ f, p.fetch = some f ∧ f.finished = true ∧ f.collected.length = 10 ∧
      f.collected = listing p.table.slots := by
  let events : List (PageEvent Nat) :=
    (range 10).map (fun n => .device (.track { path := n + 1, data := n } true)) ++
    [.start, .page, .device (.track { path := 0, isSynthDevice := true, data := 0 } true), .page]
  have hguard : GuardedRun Paging.next steady ({} : Paging Nat) events :=
    guardedRun_of_check (fun p e => Bool.not_eq_true' _ |>.mp) (by decide +kernel :
      checkRun Paging.next (fun p e => !(p.shifts e || p.switches e)) ({} : Paging Nat) events =
        true)
  obtain ⟨p, hp, hq⟩ := Reaches.exists_of_run (q := fun p : Paging Nat =>
    p.fetch.any fun f : Fetch Nat =>
      f.finished = true ∧ f.generation = p.table.generation ∧ f.collected.length = 10)
    hguard (by decide +kernel)
  obtain ⟨f, hf, hq⟩ := (Option.any_eq_true _ _).mp hq
  obtain ⟨hfinished, hgeneration, hlength⟩ := of_decide_eq_true hq
  exact ⟨p, hp, f, hf, hfinished, hlength, (pages_complete hp hf hfinished hgeneration).1⟩

end Pages

end KeysharpInput.Devices
