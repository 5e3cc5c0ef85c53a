import KeysharpInput.Transition

/-!
The table of tracked input devices and its listing.
A node that udev reports is tracked under its path, opened, and closed again by a read error or its
removal. The daemon's own outputs are tracked as well, but they are not listed. A listed device that
appears, changes or goes is announced under a new generation of the table.
-/

namespace KeysharpInput.Devices

open Option Nat

section Model

variable {α : Type*}

/-- `ksi_device_info`: the identity that the daemon gives and what the node says of itself. -/
structure DeviceInfo (α : Type*) where
  deviceId : Nat
  data : α
  deriving DecidableEq

/-- An entry of `tracked_devices`; `isOpen` says that it has a descriptor. -/
structure TrackedDevice (α : Type*) where
  path : Nat
  isOpen : Bool := false
  injectedSource : Bool := false
  deviceId : Nat := 0
  publicInfo : DeviceInfo α

structure NodeInfo (α : Type*) where
  path : Nat
  idleCandidate : Bool := true
  isSynthDevice : Bool := false
  data : α

inductive NoticeKind
  | added
  | removed
  | changed
  deriving DecidableEq

structure Notice (α : Type*) where
  kind : NoticeKind
  info : DeviceInfo α
  generation : Nat

structure Table (α : Type*) where
  tracked : List (TrackedDevice α) := []
  nextDeviceId : Nat := 1
  generation : Nat := 1
  notices : List (Notice α) := []
  assigned : List Nat := []

/-- `KSI_MAX_TRACKED_DEVICES`. -/
def maxTrackedDevices : Nat := 256

/-- `find_listed_device`. -/
def TrackedDevice.listed (d : TrackedDevice α) : Bool := d.isOpen && !d.injectedSource

def TrackedDevice.slot (d : TrackedDevice α) : Option (DeviceInfo α) :=
  if d.listed then some d.publicInfo else none

namespace Table

variable (s : Table α)

def findTrackedDevice (path : Nat) : Option Nat := s.tracked.findIdx? (·.path == path)

def publish (kind : NoticeKind) (info : DeviceInfo α) : Table α :=
  { s with
    generation := s.generation + 1
    notices := s.notices ++ [{ kind := kind, info := info, generation := s.generation + 1 }] }

def closeTrackedDevice (i : Nat) : Table α :=
  match s.tracked[i]? with
  | none => s
  | some d =>
    let s := if d.listed then s.publish .removed d.publicInfo else s
    { s with tracked := s.tracked.set i { d with isOpen := false } }

def untrackDevice (path : Nat) : Table α :=
  match s.findTrackedDevice path with
  | none => s
  | some i =>
    let s := s.closeTrackedDevice i
    { s with tracked := s.tracked.eraseIdx i }

variable [DecidableEq α]

/-- The part of `track_device` after the entry is found or made; `opens` says whether
`open_tracked_device` succeeds. A 32-bit identity that wraps to zero ends the supply. -/
def refreshTrackedDevice (i : Nat) (info : NodeInfo α) (opens : Bool) : Table α :=
  match s.tracked[i]? with
  | none => s
  | some d =>
    let d := { d with path := info.path, injectedSource := info.isSynthDevice }
    let newlyOpened := !d.isOpen
    if newlyOpened && s.nextDeviceId == 0 then { s with tracked := s.tracked.set i d }
    else
      let deviceId := if newlyOpened then s.nextDeviceId else d.deviceId
      let s := if newlyOpened then
          { s with
            nextDeviceId := (s.nextDeviceId + 1) % 2 ^ 32
            assigned := s.assigned ++ [deviceId] }
        else s
      let publicInfo : DeviceInfo α := { deviceId := deviceId, data := info.data }
      let changed := d.publicInfo != publicInfo
      let d := { d with deviceId := deviceId, publicInfo := publicInfo }
      if newlyOpened && !opens then { s with tracked := s.tracked.set i d }
      else
        let s := { s with tracked := s.tracked.set i { d with isOpen := true } }
        if !d.injectedSource && (changed || newlyOpened) then
          s.publish (if newlyOpened then .added else .changed) publicInfo
        else s

variable [Inhabited α]

def blankDevice (path : Nat) : TrackedDevice α :=
  { path := path, publicInfo := { deviceId := 0, data := default } }

def trackDevice (info : NodeInfo α) (opens : Bool) : Table α :=
  if !info.idleCandidate then s
  else match s.findTrackedDevice info.path with
    | some i => s.refreshTrackedDevice i info opens
    | none =>
      if s.tracked.length ≥ maxTrackedDevices then s
      else
        { s with tracked := s.tracked ++ [blankDevice info.path] }.refreshTrackedDevice
          s.tracked.length info opens

end Table

inductive Event (α : Type*)
  | track (info : NodeInfo α) (opens : Bool)
  | untrack (path : Nat)
  /-- A read failed, or a grab could not be released. -/
  | close (i : Nat)

def Table.step [DecidableEq α] [Inhabited α] (s : Table α) : Event α → Table α
  | .track info opens => s.trackDevice info opens
  | .untrack path => s.untrackDevice path
  | .close i => s.closeTrackedDevice i

def Table.switchesIdentity (s : Table α) : Event α → Bool
  | .track info _ => info.idleCandidate &&
      ((s.findTrackedDevice info.path).bind fun i => s.tracked[i]?).any fun d =>
        d.isOpen && d.injectedSource != info.isSynthDevice
  | _ => false

def Table.takesOut (s : Table α) : Event α → Option Nat
  | .untrack path => s.findTrackedDevice path
  | _ => none

end Model

section Slots

variable {α : Type*} {s t : Table α} {i : Nat} {d : TrackedDevice α}

def Table.slots (s : Table α) : List (Option (DeviceInfo α)) := s.tracked.map (·.slot)

def listing (slots : List (Option (DeviceInfo α))) : List (DeviceInfo α) := slots.filterMap id

/-- What one step of the table does to the slots, with what it announces; `gone` is the place of
an entry that is taken out. -/
inductive SlotStep (gone : Option Nat) :
    List (Option (DeviceInfo α)) → Option (NoticeKind × DeviceInfo α) →
      List (Option (DeviceInfo α)) → Prop
  | keep (l) : SlotStep gone l none l
  | extend (l) : SlotStep gone l none (l ++ [none])
  | drop (l) (i : Nat) (h : l[i]? = some none) (hgone : gone = some i) :
      SlotStep gone l none (l.eraseIdx i)
  | add (l) (i : Nat) (info) (h : l[i]? = some none) :
      SlotStep gone l (some (.added, info)) (l.set i (some info))
  | append (l) (info) : SlotStep gone l (some (.added, info)) (l ++ [some info])
  | remove (l) (i : Nat) (info) (h : l[i]? = some (some info)) :
      SlotStep gone l (some (.removed, info)) (l.set i none)
  | erase (l) (i : Nat) (info) (h : l[i]? = some (some info)) :
      SlotStep gone l (some (.removed, info)) (l.eraseIdx i)
  | change (l) (i : Nat) (info info') (h : l[i]? = some (some info))
      (hid : info'.deviceId = info.deviceId) :
      SlotStep gone l (some (.changed, info')) (l.set i (some info'))

structure Announces (s : Table α) (label : Option (NoticeKind × DeviceInfo α)) (t : Table α) :
    Prop where
  generation : t.generation = s.generation + label.toList.length
  notices : t.notices = s.notices ++ label.toList.map fun p =>
    { kind := p.1, info := p.2, generation := t.generation }

def TableStep (gone : Option Nat) (s t : Table α) : Prop :=
  ∃ label, SlotStep gone s.slots label t.slots ∧ Announces s label t

theorem Announces.silent (hgeneration : t.generation = s.generation)
    (hnotices : t.notices = s.notices) : Announces s none t :=
  ⟨hgeneration, by simp [hnotices]⟩

theorem Announces.of_eq {u : Table α} {label : Option (NoticeKind × DeviceInfo α)}
    (h : Announces u label t) (hgeneration : u.generation = s.generation)
    (hnotices : u.notices = s.notices) : Announces s label t :=
  ⟨hgeneration ▸ h.generation, hnotices ▸ h.notices⟩

theorem announces_publish (s t : Table α) (kind : NoticeKind) (info : DeviceInfo α)
    (hgeneration : t.generation = s.generation) (hnotices : t.notices = s.notices) :
    Announces s (some (kind, info)) (t.publish kind info) :=
  ⟨by simp [Table.publish, hgeneration], by simp [Table.publish, hnotices]⟩

theorem slots_of_set (h : t.tracked = s.tracked.set i d) : t.slots = s.slots.set i d.slot := by
  simp [Table.slots, h]

theorem slots_getElem? (hd : s.tracked[i]? = some d) : s.slots[i]? = some d.slot := by
  simp [Table.slots, hd]

theorem slot_of_listed (h : d.listed = true) : d.slot = some d.publicInfo := by
  simp [TrackedDevice.slot, h]

theorem slot_of_not_listed (h : ¬ d.listed = true) : d.slot = none := by
  simp [TrackedDevice.slot, h]

theorem set_of_getElem? {l : List (Option (DeviceInfo α))} {x : Option (DeviceInfo α)}
    (h : l[i]? = some x) : l.set i x = l := by
  obtain ⟨hi, rfl⟩ := List.getElem?_eq_some_iff.mp h
  exact List.set_getElem_self hi

theorem slots_closeTrackedDevice (s : Table α) (i : Nat) :
    (s.closeTrackedDevice i).slots = s.slots.set i none := by
  unfold Table.closeTrackedDevice
  cases hd : s.tracked[i]? with
  | none =>
    have hlen : s.slots.length ≤ i := by simpa [Table.slots] using hd
    rw [List.set_eq_of_length_le hlen]
  | some d =>
    have hslot : TrackedDevice.slot { d with isOpen := false } = none := rfl
    dsimp only
    rw [← hslot]
    apply slots_of_set
    split <;> rfl

theorem announces_closeTrackedDevice (hd : s.tracked[i]? = some d) :
    Announces s (d.slot.map fun info => (.removed, info)) (s.closeTrackedDevice i) := by
  unfold Table.closeTrackedDevice
  rw [hd]
  dsimp only
  by_cases hlisted : d.listed = true
  · rw [if_pos hlisted, slot_of_listed hlisted]
    obtain ⟨hgeneration, hnotices⟩ := announces_publish s s .removed d.publicInfo rfl rfl
    exact ⟨hgeneration, hnotices⟩
  · rw [if_neg hlisted, slot_of_not_listed hlisted]
    exact .silent rfl rfl

theorem tableStep_closeTrackedDevice (s : Table α) (i : Nat) :
    TableStep none s (s.closeTrackedDevice i) := by
  cases hd : s.tracked[i]? with
  | none =>
    have hsame : s.closeTrackedDevice i = s := by
      unfold Table.closeTrackedDevice
      rw [hd]
    rw [hsame]
    exact ⟨none, .keep _, .silent rfl rfl⟩
  | some d =>
    have hat := slots_getElem? hd
    have hannounces := announces_closeTrackedDevice hd
    refine ⟨_, ?_, hannounces⟩
    rw [slots_closeTrackedDevice]
    cases hslot : d.slot with
    | none =>
      rw [hslot] at hat
      rw [set_of_getElem? hat]
      exact .keep _
    | some info => exact .remove _ i info (hslot ▸ hat)

theorem tableStep_untrackDevice (s : Table α) (path : Nat) :
    TableStep (s.findTrackedDevice path) s (s.untrackDevice path) := by
  unfold Table.untrackDevice
  cases hfind : s.findTrackedDevice path with
  | none => exact ⟨none, .keep _, .silent rfl rfl⟩
  | some i =>
    obtain ⟨hi, -⟩ := List.findIdx?_eq_some_iff_getElem.mp hfind
    have hd : s.tracked[i]? = some s.tracked[i] := List.getElem?_eq_getElem hi
    have hat := slots_getElem? hd
    obtain ⟨hgeneration, hnotices⟩ := announces_closeTrackedDevice hd
    have hslots : Table.slots { s.closeTrackedDevice i with
        tracked := (s.closeTrackedDevice i).tracked.eraseIdx i } = s.slots.eraseIdx i := by
      have hclosed := congrArg (List.eraseIdx · i) (slots_closeTrackedDevice s i)
      simpa [Table.slots, List.eraseIdx_map, List.eraseIdx_set_eq] using hclosed
    refine ⟨_, ?_, ⟨hgeneration, hnotices⟩⟩
    rw [hslots]
    cases hslot : s.tracked[i].slot with
    | none => exact .drop _ i (hslot ▸ hat) rfl
    | some info => exact .erase _ i info (hslot ▸ hat)

end Slots

section Tracking

variable {α : Type*} [DecidableEq α] {s : Table α} {i : Nat} {d : TrackedDevice α}

theorem refreshTrackedDevice_closed (hd : s.tracked[i]? = some d) (hclosed : d.isOpen = false)
    (info : NodeInfo α) (opens : Bool) :
    let t := s.refreshTrackedDevice i info opens
    (t.slots = s.slots ∧ Announces s none t) ∨
      ∃ new, t.slots = s.slots.set i (some new) ∧ Announces s (some (.added, new)) t := by
  have hslot : d.slot = none := slot_of_not_listed (by simp [TrackedDevice.listed, hclosed])
  have hsame : s.slots.set i none = s.slots := set_of_getElem? (hslot ▸ slots_getElem? hd)
  unfold Table.refreshTrackedDevice
  simp only [hd, hclosed, Bool.not_false, if_true, Bool.or_true]
  split
  · exact .inl ⟨(slots_of_set rfl).trans hsame, .silent rfl rfl⟩
  cases opens with
  | false => exact .inl ⟨(slots_of_set rfl).trans hsame, .silent rfl rfl⟩
  | true =>
    cases info.isSynthDevice with
    | true => exact .inl ⟨(slots_of_set rfl).trans hsame, .silent rfl rfl⟩
    | false => exact .inr ⟨_, (slots_of_set rfl).trans rfl, announces_publish s _ .added _ rfl rfl⟩

theorem refreshTrackedDevice_open (hd : s.tracked[i]? = some d) (hopen : d.isOpen = true)
    (hid : d.publicInfo.deviceId = d.deviceId) (info : NodeInfo α)
    (hours : d.injectedSource = info.isSynthDevice) (opens : Bool) :
    let t := s.refreshTrackedDevice i info opens
    (t.slots = s.slots ∧ Announces s none t) ∨
      ∃ old new, s.slots[i]? = some (some old) ∧ new.deviceId = old.deviceId ∧
        t.slots = s.slots.set i (some new) ∧ Announces s (some (.changed, new)) t := by
  have hat := slots_getElem? hd
  have hsame := set_of_getElem? hat
  unfold Table.refreshTrackedDevice
  simp only [hd, hopen, Bool.not_true, Bool.false_eq_true, if_false]
  cases hsynth : info.isSynthDevice with
  | true =>
    have hslot : d.slot = none := slot_of_not_listed (by simp [TrackedDevice.listed, hours, hsynth])
    rw [hslot] at hsame
    exact .inl ⟨(slots_of_set rfl).trans hsame, .silent rfl rfl⟩
  | false =>
    have hlisted : d.listed = true := by simp [TrackedDevice.listed, hopen, hours, hsynth]
    rw [slot_of_listed hlisted] at hsame hat
    by_cases hchanged : d.publicInfo = { deviceId := d.deviceId, data := info.data }
    · left
      simp only [hchanged, bne_self_eq_false]
      rw [hchanged] at hsame
      exact ⟨(slots_of_set rfl).trans hsame, .silent rfl rfl⟩
    right
    have hne : (d.publicInfo != { deviceId := d.deviceId, data := info.data }) = true :=
      bne_iff_ne.mpr hchanged
    simp only [hne]
    exact ⟨_, _, hat, hid.symm, (slots_of_set rfl).trans rfl,
      announces_publish s _ .changed _ rfl rfl⟩

variable [Inhabited α]

theorem tableStep_trackDevice (s : Table α) (info : NodeInfo α) (opens : Bool)
    (hids : ∀ d ∈ s.tracked, d.isOpen = true → d.publicInfo.deviceId = d.deviceId)
    (hours : s.switchesIdentity (.track info opens) = false) :
    TableStep none s (s.trackDevice info opens) := by
  unfold Table.trackDevice
  by_cases hidle : info.idleCandidate = true
  · simp only [hidle, Bool.not_true, Bool.false_eq_true, if_false]
    cases hfind : s.findTrackedDevice info.path with
    | some i =>
      obtain ⟨hi, -⟩ := List.findIdx?_eq_some_iff_getElem.mp hfind
      have hd : s.tracked[i]? = some s.tracked[i] := List.getElem?_eq_getElem hi
      generalize hdev : s.tracked[i] = d at hd
      cases hopen : d.isOpen with
      | false =>
        obtain ⟨hslots, hann⟩ | ⟨new, hslots, hann⟩ :=
          refreshTrackedDevice_closed hd hopen info opens
        · exact ⟨none, hslots ▸ .keep _, hann⟩
        · have hslot : d.slot = none := slot_of_not_listed (by simp [TrackedDevice.listed, hopen])
          exact ⟨_, hslots ▸ .add _ i new (hslot ▸ slots_getElem? hd), hann⟩
      | true =>
        have hsame : d.injectedSource = info.isSynthDevice := by
          simpa [Table.switchesIdentity, hidle, hfind, hd, hopen] using hours
        have hid := hids d (List.mem_of_getElem? hd) hopen
        obtain ⟨hslots, hann⟩ | ⟨old, new, hold, hid', hslots, hann⟩ :=
          refreshTrackedDevice_open hd hopen hid info hsame opens
        · exact ⟨none, hslots ▸ .keep _, hann⟩
        · exact ⟨_, hslots ▸ .change _ i old new hold hid', hann⟩
    | none =>
      dsimp only
      split
      · exact ⟨none, .keep _, .silent rfl rfl⟩
      obtain ⟨u, hu⟩ : ∃ u : Table α, u =
        { s with tracked := s.tracked ++ [Table.blankDevice info.path] } := ⟨_, rfl⟩
      have hd : u.tracked[s.tracked.length]? = some (Table.blankDevice info.path) := by
        rw [hu]
        exact List.getElem?_concat_length
      have hslots : u.slots = s.slots ++ [none] := by simp [hu, Table.slots]; rfl
      rw [← hu]
      obtain ⟨hkept, hann⟩ | ⟨new, hset, hann⟩ := refreshTrackedDevice_closed hd rfl info opens
      · refine ⟨none, ?_, hann.of_eq (by rw [hu]) (by rw [hu])⟩
        rw [hkept, hslots]
        exact .extend _
      have hlength : s.tracked.length = s.slots.length := by simp [Table.slots]
      refine ⟨_, ?_, hann.of_eq (by rw [hu]) (by rw [hu])⟩
      rw [hset, hslots, hlength, List.set_append_right _ _ (Nat.le_refl _), Nat.sub_self]
      exact .append _ new
  · simp only [hidle]
    exact ⟨none, .keep _, .silent rfl rfl⟩

end Tracking

section Identities

variable {α : Type*} {s t : Table α} {i : Nat} {d d' : TrackedDevice α}

def TrackedDevice.openId (d : TrackedDevice α) : Option Nat :=
  if d.isOpen then some d.deviceId else none

def Table.openIds (s : Table α) : List Nat := s.tracked.filterMap (·.openId)

structure Identified (s : Table α) : Prop where
  infos : ∀ d ∈ s.tracked, d.isOpen = true → d.publicInfo.deviceId = d.deviceId
  distinct : s.openIds.Nodup
  given : ∀ id ∈ s.openIds, id ∈ s.assigned
  once : s.assigned.Nodup
  below : s.nextDeviceId ≠ 0 → ∀ id ∈ s.assigned, id < s.nextDeviceId
  bounded : s.nextDeviceId < 2 ^ 32

theorem identified_default : Identified ({} : Table α) :=
  ⟨by simp, by simp [Table.openIds], by simp [Table.openIds], by simp, by simp,
    Nat.one_lt_two_pow (by decide)⟩

theorem Identified.of_sublist (h : Identified s)
    (hinfos : ∀ d ∈ t.tracked, d.isOpen = true → d.publicInfo.deviceId = d.deviceId)
    (hids : t.openIds.Subperm s.openIds) (hassigned : t.assigned = s.assigned)
    (hnext : t.nextDeviceId = s.nextDeviceId) : Identified t where
  infos := hinfos
  distinct := by
    obtain ⟨l, hperm, hsub⟩ := hids
    exact hperm.nodup_iff.mp (h.distinct.sublist hsub)
  given := fun id hid => hassigned ▸ h.given id (hids.subset hid)
  once := hassigned ▸ h.once
  below := by
    rw [hnext, hassigned]
    exact h.below
  bounded := hnext ▸ h.bounded

theorem openIds_set (hd : s.tracked[i]? = some d) (htracked : t.tracked = s.tracked.set i d') :
    t.openIds.Perm (d'.openId.toList ++ (s.tracked.eraseIdx i).filterMap (·.openId)) ∧
      s.openIds.Perm (d.openId.toList ++ (s.tracked.eraseIdx i).filterMap (·.openId)) := by
  obtain ⟨hi, rfl⟩ := List.getElem?_eq_some_iff.mp hd
  have hcons : ∀ (x : TrackedDevice α) (l : List (TrackedDevice α)),
      (x :: l).filterMap (·.openId) = x.openId.toList ++ l.filterMap (·.openId) := by
    intro x l
    cases hx : x.openId <;> simp [hx]
  refine ⟨?_, ?_⟩
  · rw [← hcons, Table.openIds, htracked]
    exact (List.set_perm_cons_eraseIdx hi d').filterMap _
  · rw [← hcons]
    exact (List.getElem_cons_eraseIdx_perm hi).symm.filterMap _

section

variable (h : Identified s)

include h

theorem infos_set (htracked : t.tracked = s.tracked.set i d')
    (hinfo : d'.isOpen = true → d'.publicInfo.deviceId = d'.deviceId) :
    ∀ d ∈ t.tracked, d.isOpen = true → d.publicInfo.deviceId = d.deviceId := by
  intro e he
  rw [htracked] at he
  obtain hold | rfl := List.mem_or_eq_of_mem_set he
  · exact h.infos e hold
  · exact hinfo

theorem Identified.set (d' : TrackedDevice α) (hd : s.tracked[i]? = some d)
    (htracked : t.tracked = s.tracked.set i d') (hassigned : t.assigned = s.assigned)
    (hnext : t.nextDeviceId = s.nextDeviceId)
    (hopen : d'.isOpen = true → d.isOpen = true ∧ d'.deviceId = d.deviceId ∧
      d'.publicInfo.deviceId = d'.deviceId) : Identified t := by
  obtain ⟨hafter, hbefore⟩ := openIds_set hd htracked
  refine h.of_sublist (infos_set h htracked fun ho => (hopen ho).2.2) ?_ hassigned hnext
  refine hafter.subperm.trans (List.Subperm.trans (List.Sublist.subperm ?_) hbefore.symm.subperm)
  refine List.Sublist.append_right ?_ _
  cases ho : d'.isOpen with
  | false => simp [TrackedDevice.openId, ho]
  | true =>
    obtain ⟨hwas, hid, -⟩ := hopen ho
    simp [TrackedDevice.openId, hwas, hid]

theorem Identified.give (d' : TrackedDevice α) (hd : s.tracked[i]? = some d)
    (hclosed : d.isOpen = false) (hsupply : s.nextDeviceId ≠ 0)
    (htracked : t.tracked = s.tracked.set i d')
    (hassigned : t.assigned = s.assigned ++ [s.nextDeviceId])
    (hnext : t.nextDeviceId = (s.nextDeviceId + 1) % 2 ^ 32) (hid : d'.deviceId = s.nextDeviceId)
    (hinfo : d'.publicInfo.deviceId = s.nextDeviceId) : Identified t := by
  obtain ⟨hafter, hbefore⟩ := openIds_set hd htracked
  have hfresh : s.nextDeviceId ∉ s.assigned := fun hmem =>
    Nat.lt_irrefl _ (h.below hsupply _ hmem)
  have hnone : d.openId = none := by simp [TrackedDevice.openId, hclosed]
  rw [hnone] at hbefore
  have hsub : ∀ id ∈ d'.openId.toList, id = s.nextDeviceId := by
    intro id hmem
    rw [mem_toList, TrackedDevice.openId, ite_none_right_eq_some, hid] at hmem
    exact (some.inj hmem.2).symm
  refine ⟨infos_set h htracked fun _ => hinfo.trans hid.symm, ?_, ?_, ?_, ?_, ?_⟩
  · refine hafter.nodup_iff.mpr (List.nodup_append.mpr ⟨?_, hbefore.nodup_iff.mp h.distinct, ?_⟩)
    · cases d'.openId <;> simp
    · rintro id hmem id' hmem' rfl
      rw [hsub id hmem] at hmem'
      exact hfresh (h.given _ (hbefore.mem_iff.mpr hmem'))
  · intro id hmem
    rw [hassigned, List.mem_append]
    obtain hnew | hold := List.mem_append.mp (hafter.mem_iff.mp hmem)
    · exact .inr (by simp [hsub id hnew])
    · exact .inl (h.given id (hbefore.mem_iff.mpr hold))
  · rw [hassigned]
    exact List.nodup_append.mpr ⟨h.once, by simp, fun id hmem id' hmem' heq => by
      rw [List.mem_singleton.mp hmem'] at heq
      exact hfresh (heq ▸ hmem)⟩
  · intro hmore id hmem
    rw [hnext] at hmore ⊢
    rw [hassigned, List.mem_append, List.mem_singleton] at hmem
    have hbounded := h.bounded
    have hstays : (s.nextDeviceId + 1) % 2 ^ 32 = s.nextDeviceId + 1 := by omega
    rw [hstays]
    obtain hold | rfl := hmem
    · exact lt_succ_of_lt (h.below hsupply id hold)
    · exact lt_succ_self _
  · rw [hnext]
    exact mod_lt _ (by decide)

theorem Identified.closeTrackedDevice (i : Nat) :
    Identified (s.closeTrackedDevice i) := by
  unfold Table.closeTrackedDevice
  cases hd : s.tracked[i]? with
  | none => exact h
  | some d =>
    dsimp only
    refine h.set { d with isOpen := false } hd ?_ ?_ ?_ (fun ho => nomatch ho) <;>
      split <;> rfl

theorem Identified.untrackDevice (path : Nat) :
    Identified (s.untrackDevice path) := by
  unfold Table.untrackDevice
  cases s.findTrackedDevice path with
  | none => exact h
  | some i =>
    have hclosed := h.closeTrackedDevice i
    refine hclosed.of_sublist (fun d hd => hclosed.infos d (List.mem_of_mem_eraseIdx hd)) ?_ rfl rfl
    exact ((List.eraseIdx_sublist _ i).filterMap _).subperm

end

theorem listing_sublist {l : List (TrackedDevice α)}
    (h : ∀ d ∈ l, d.isOpen = true → d.publicInfo.deviceId = d.deviceId) :
    ((listing (l.map (·.slot))).map (·.deviceId)).Sublist (l.filterMap (·.openId)) := by
  induction l with
  | nil => exact List.Sublist.refl _
  | cons d l ih =>
    obtain ⟨hd, hl⟩ := List.forall_mem_cons.mp h
    have hrest := ih hl
    unfold listing at hrest ⊢
    cases hopen : d.isOpen with
    | false =>
      simpa [TrackedDevice.slot, TrackedDevice.listed, TrackedDevice.openId, hopen] using hrest
    | true =>
      have hid := hd hopen
      cases hours : d.injectedSource with
      | true =>
        simpa [TrackedDevice.slot, TrackedDevice.listed, TrackedDevice.openId, hopen, hours]
          using hrest.cons d.deviceId
      | false =>
        simpa [TrackedDevice.slot, TrackedDevice.listed, TrackedDevice.openId, hopen, hours, hid]
          using hrest.cons_cons d.deviceId

theorem Identified.listing_nodup (h : Identified s) : ((listing s.slots).map (·.deviceId)).Nodup :=
  h.distinct.sublist (listing_sublist h.infos)

variable [DecidableEq α]

theorem Identified.refreshTrackedDevice (h : Identified s) (i : Nat) (info : NodeInfo α)
    (opens : Bool) : Identified (s.refreshTrackedDevice i info opens) := by
  unfold Table.refreshTrackedDevice
  cases hd : s.tracked[i]? with
  | none => exact h
  | some d =>
    cases hopen : d.isOpen with
    | true =>
      let d' : TrackedDevice α :=
        { path := info.path, isOpen := true, injectedSource := info.isSynthDevice
          deviceId := d.deviceId, publicInfo := { deviceId := d.deviceId, data := info.data } }
      simp only [hopen, Bool.not_true, Bool.false_and, Bool.false_eq_true, if_false]
      refine h.set d' hd ?_ ?_ ?_ (fun _ => ⟨hopen, rfl, rfl⟩) <;> split <;> rfl
    | false =>
      simp only [hopen, Bool.not_false, Bool.true_and, if_true]
      by_cases hsupply : s.nextDeviceId = 0
      · simp only [hsupply, beq_self_eq_true, if_true]
        refine h.set { d with path := info.path, injectedSource := info.isSynthDevice } hd ?_ rfl
          hsupply.symm fun ho => ?_
        · rw [hopen]
        · rw [hopen] at ho
          cases ho
      have hmore : (s.nextDeviceId == 0) = false := beq_eq_false_iff_ne.mpr hsupply
      let d' (isOpen : Bool) : TrackedDevice α :=
        { path := info.path, isOpen := isOpen, injectedSource := info.isSynthDevice
          deviceId := s.nextDeviceId
          publicInfo := { deviceId := s.nextDeviceId, data := info.data } }
      simp only [hmore]
      cases opens with
      | false => exact h.give (d' false) hd hopen hsupply rfl rfl rfl rfl rfl
      | true =>
        simp only [Bool.not_true, Bool.false_eq_true, if_false]
        refine h.give (d' true) hd hopen hsupply ?_ ?_ ?_ rfl rfl <;> split <;> rfl

variable [Inhabited α]

theorem Identified.trackDevice (h : Identified s) (info : NodeInfo α) (opens : Bool) :
    Identified (s.trackDevice info opens) := by
  unfold Table.trackDevice
  split
  · exact h
  cases s.findTrackedDevice info.path with
  | some i => exact h.refreshTrackedDevice i info opens
  | none =>
    dsimp only
    split
    · exact h
    refine Identified.refreshTrackedDevice (h.of_sublist (fun d hd => ?_) ?_ ?_ ?_) _ info opens
    · obtain hold | hnew := List.mem_append.mp hd
      · exact h.infos d hold
      · rw [List.mem_singleton.mp hnew]
        exact fun ho => nomatch ho
    · have hblank : Table.openIds { s with
          tracked := s.tracked ++ [Table.blankDevice info.path] } = s.openIds := by
        simp [Table.openIds, Table.blankDevice, TrackedDevice.openId]
      rw [hblank]
    · rfl
    · rfl

theorem Identified.step (h : Identified s) (e : Event α) : Identified (s.step e) := by
  cases e with
  | track info opens => exact h.trackDevice info opens
  | untrack path => exact h.untrackDevice path
  | close i => exact h.closeTrackedDevice i

theorem Identified.tableStep (h : Identified s) {e : Event α}
    (hours : s.switchesIdentity e = false) : TableStep (s.takesOut e) s (s.step e) := by
  cases e with
  | track info opens => exact tableStep_trackDevice s info opens h.infos hours
  | untrack path => exact tableStep_untrackDevice s path
  | close i => exact tableStep_closeTrackedDevice s i

end Identities

end KeysharpInput.Devices
