import KeysharpInput.SourcePlaces

/-!
Holds across an ungrab.
When a grab ends, the keys that the source still holds stay down at its outputs, and the reader
owes their releases. While a source is not grabbed, everything it holds downstream is owed: no
packet of an earlier grab reaches it under its new target, and synthesis only moves its holds
between output and displaced. A key leaves the owed set only with its release, or when the
source's forwarding is closed, which ends all of its output.
-/

namespace KeysharpInput.Output

open Forward OutputState ForwardPacket

def ForwardKeys.held (keys : ForwardKeys) : KeyBits := keys.output ∪ keys.displaced

theorem Forward.Within.held {keys keys' : ForwardKeys} (h : Within keys keys') :
    keys'.held ⊆ keys.held :=
  Finset.union_subset h.output h.displaced

theorem note_release (source : Bool) (keys : ForwardKeys) (code : Code) :
    keys.note source (keyEvent code 0) = if source then { keys with
        source := keys.source.erase code, displaced := keys.displaced.erase code }
      else { keys with output := keys.output.erase code } := by
  rw [ForwardKeys.note_keyEvent]
  simp [setKeyBit]

theorem held_note_release (source : Bool) (keys : ForwardKeys) (code : Code) :
    (keys.note source (keyEvent code 0)).held ⊆ keys.held := by
  rw [note_release]
  split
  · exact Finset.union_subset_union_right (Finset.erase_subset code _)
  · exact Finset.union_subset_union_left (Finset.erase_subset code _)

theorem pushPacket_release {s : OutputState} {packet : ForwardPacket} {code : Code} {j : Nat}
    (source : Bool) (hevents : packet.events = [keyEvent code 0])
    (hfind : s.backend.forward.findDevice packet.target .enqueued = some j) :
    s.pushPacket source packet s.inputGeneration = (false, s) ∨ ∃ t,
      s.pushPacket source packet s.inputGeneration = (true, t) ∧
      t.inputGeneration = s.inputGeneration ∧ t.queue.length = s.queue.length + 1 ∧
      let keys := ((s.backend.forward.device j).views .enqueued).note source (keyEvent code 0)
      Within keys ((t.backend.forward.device j).views .enqueued) ∧
        (source = true → (t.backend.forward.device j).views .enqueued = keys) := by
  have hcount : ¬ packetEvents < packet.events.length := by simp [hevents, packetEvents]
  have htransition : packet.transition = true := by
    simp [transition, ForwardPacket.keyValue, hevents, keyEvent, packetEvents]
  have hfresh : s.isStale s.inputGeneration = false := by simp [isStale]
  have hnote : ((s.backend.forward.noteKeys packet .enqueued source).device j).views .enqueued =
      ((s.backend.forward.device j).views .enqueued).note source (keyEvent code 0) := by
    unfold noteKeys
    rw [if_neg (by simp [hcount, htransition]), hfind]
    rw [device_congr (lt_length_of_findDevice hfind)]
    simp [ForwardingDevice.mapKeys, hevents]
  unfold pushPacket
  rw [if_neg hcount, if_neg (by simp [htransition]), if_neg (by simp [hfresh])]
  generalize s.isFull _ = full
  cases full with
  | true => exact .inl rfl
  | false =>
    refine .inr ?_
    rw [← hnote]
    cases source with
    | true => exact ⟨_, rfl, rfl, by simp [admitAction, pushAction], .refl _, fun _ => rfl⟩
    | false =>
      have hrelease := Backend.drops_physicalRelease
        { s.backend with forward := s.backend.forward.noteOutput packet } packet .enqueued
      exact ⟨_, rfl, rfl, by simp [admitAction, pushAction], hrelease.forward.views j,
        fun h => absurd h Bool.false_ne_true⟩

end KeysharpInput.Output

namespace KeysharpInput.LaneOrder

open Output OutputState Forward
open Session (HookType)

variable {code : Code}

/-- A release of an ungrabbed source takes nothing up. Once it counts as forwarded, it was
admitted and its key is not held any more. -/
theorem forwardUngrabbed_release {s : State} {event : LaneEvent} {j : Nat}
    (hs : WellFormed s.forward) (hevents : event.packet.events = [keyEvent code 0])
    (hgeneration : event.inputGeneration = s.output.inputGeneration)
    (hfind : s.forward.findDevice event.packet.target .enqueued = some j) (room : Bool) :
    let result := s.forwardUngrabbed event room
    ((result.2.forward.device j).views .enqueued).held ⊆
        ((s.forward.device j).views .enqueued).held ∧
      (result.1 = true → code ∉ ((result.2.forward.device j).views .enqueued).held ∧
        s.log.length < result.2.log.length) := by
  have hnoted := carries_pushPacket hs true event.packet event.inputGeneration
  unfold State.forwardUngrabbed
  rw [hgeneration] at hnoted ⊢
  rcases pushPacket_release true hevents hfind with hrefused | ⟨o, hadmitted, hsame, -, -, hkeys⟩
  · rw [hrefused]
    exact ⟨Finset.Subset.refl _, fun h => absurd h Bool.false_ne_true⟩
  rw [hadmitted] at hnoted ⊢
  have hkeys := hkeys rfl
  have hheld : ((o.backend.forward.device j).views .enqueued).held ⊆
      ((s.forward.device j).views .enqueued).held := by
    rw [hkeys]
    exact held_note_release true _ code
  cases room with
  | false => exact ⟨hheld, fun h => absurd h Bool.false_ne_true⟩
  | true =>
    have hfind' : o.backend.forward.findDevice event.packet.target .enqueued = some j :=
      hnoted.lasts.find _ j hfind
    dsimp only
    rw [← hsame]
    rcases pushPacket_release false hevents hfind' with
      hrefused | ⟨o', hadmitted', -, hlength, hwithin, -⟩
    · rw [hrefused]
      exact ⟨hheld, fun h => absurd h Bool.false_ne_true⟩
    rw [hadmitted']
    refine ⟨(hwithin.held.trans (held_note_release false _ code)).trans hheld, fun _ => ⟨?_, ?_⟩⟩
    · intro hmem
      have hlast := hwithin.held hmem
      rw [hkeys, note_release, note_release] at hlast
      simp [ForwardKeys.held] at hlast
    · have hgrew : o.queue.length < o'.queue.length := by omega
      simp [State.record, hgrew]

theorem pending_forwardUngrabbed (s : State) (event : LaneEvent) (room : Bool) :
    (s.forwardUngrabbed event room).2.pending = s.pending := by
  unfold State.forwardUngrabbed
  dsimp only
  split <;> rfl

theorem forwardPhysicalEvent_release {s : State} {packet : ForwardPacket} {j : Nat}
    (hs : WellFormed s.forward) (hevents : packet.events = [keyEvent code 0])
    (hungrabbed : packet.ungrabbed = true)
    (hfind : s.forward.findDevice packet.target .enqueued = some j) (k : HookType) (room : Bool) :
    let result := s.forwardPhysicalEvent k packet room
    result.2.pending = s.pending ∧ ((result.2.forward.device j).views .enqueued).held ⊆
        ((s.forward.device j).views .enqueued).held ∧
      (result.1 = true → code ∉ ((result.2.forward.device j).views .enqueued).held ∧
        s.log.length < result.2.log.length) := by
  obtain ⟨event, hevent⟩ : ∃ event : LaneEvent,
      event = ⟨s.arrivals, k, .replay, packet, true, s.output.inputGeneration⟩ := ⟨_, rfl⟩
  have hpacket : event.packet = packet := by rw [hevent]
  have hgeneration : event.inputGeneration = s.arrive.output.inputGeneration := by
    rw [hevent]
    rfl
  have hdirect : s.forwardPhysicalEvent k packet room = s.arrive.forwardUngrabbed event room := by
    unfold State.forwardPhysicalEvent
    rw [if_pos hungrabbed, hevent]
  rw [← hpacket] at hevents hfind
  have hrelease := forwardUngrabbed_release (s := s.arrive) hs hevents hgeneration hfind room
  rw [hdirect]
  exact ⟨pending_forwardUngrabbed s.arrive event room, hrelease⟩

end KeysharpInput.LaneOrder

namespace KeysharpInput.Grabs

open Output Forward LaneOrder
open Transition

variable {s t : Reader} {i j : Nat} {lanes : LaneOrder.State} {d : TrackedDevice}

/-- A key that was kept down at an ungrab: it is still owed, or its release was admitted, or the
source's forwarding was closed. -/
def Accounted (s : Reader) (target : Nat) (code : Code) : Prop :=
  (∃ i, (s.devices i).forwardingTarget = target ∧ code ∈ (s.devices i).ungrabHeldKeys) ∨
    (∃ origin, ⟨target, code, origin⟩ ∈ s.released) ∨ target ∈ s.closed

structure Owing (s : Reader) : Prop extends Placed s where
  issued : ∀ k, ∀ e ∈ s.lanes.pending k, e.packet.target < s.forward.nextSerial * 256
  idle : ∀ k, ∀ e ∈ s.lanes.pending k, ∀ i, (s.devices i).grabbed = false →
    (s.devices i).forwardingTarget ≠ 0 → e.packet.target ≠ (s.devices i).forwardingTarget
  held : ∀ i, (s.devices i).grabbed = false → ∀ j,
    s.forward.findDevice (s.devices i).forwardingTarget .enqueued = some j →
      ((s.forward.device j).views .enqueued).held ⊆ (s.devices i).ungrabHeldKeys
  settled : ∀ i, (s.devices i).grabbed = true → (s.devices i).ungrabHeldKeys = ∅ ∧
    ∃ keys, s.lastSnapshot i = some keys ∧ heldKeys keys = ∅
  untargeted : ∀ i, (s.devices i).forwardingTarget = 0 → (s.devices i).ungrabHeldKeys = ∅
  kept : ∀ entry ∈ s.kept, ∀ code ∈ entry.2, Accounted s entry.1 code

theorem Owing.moves (hs : Owing s) {P : Nat → Prop} (h : Moves P s.lanes lanes)
    (hP : ∀ target, P target →
      target < s.forward.nextSerial * 256 ∧ ∀ i, (s.devices i).grabbed = false →
        (s.devices i).forwardingTarget ≠ 0 → target ≠ (s.devices i).forwardingTarget) :
    Owing { s with lanes := lanes } := by
  have hserial : s.forward.nextSerial * 256 ≤ lanes.forward.nextSerial * 256 :=
    Nat.mul_le_mul_right 256 h.carries.lasts.serial
  refine ⟨hs.toPlaced.moves h, fun k e he => ?_, fun k e he i hgrabbed htarget => ?_,
    fun i hgrabbed j hfind => ?_, hs.settled, hs.untargeted, hs.kept⟩
  · rcases h.pending k e he with ⟨k', hold⟩ | hnew
    · exact (hs.issued k' e hold).trans_le hserial
    · exact (hP _ hnew).1.trans_le hserial
  · rcases h.pending k e he with ⟨k', hold⟩ | hnew
    · exact hs.idle k' e hold i hgrabbed htarget
    · exact (hP _ hnew).2 i hgrabbed htarget
  obtain ⟨hslot, -, -⟩ := findDevice_eq_some hfind
  have htarget := ne_zero_of_slotOf hslot
  obtain ⟨j', hfind'⟩ := hs.place i htarget
  have hlast := h.carries.lasts.find _ j' hfind'
  obtain rfl : j' = j := Option.some.inj (hlast.symm.trans hfind)
  have hkeys := h.carries.lasts.keys _ j' hfind'
    fun hnew => (hP _ hnew).2 i hgrabbed htarget rfl
  exact hkeys.held.trans (hs.held i hgrabbed j' hfind')

/-- A device as the invariant wants it after a step to `t`. -/
structure Fits (s t : Reader) (i : Nat) (d : TrackedDevice) : Prop where
  idle : ∀ k, ∀ e ∈ s.lanes.pending k, d.grabbed = false → d.forwardingTarget ≠ 0 →
    e.packet.target ≠ d.forwardingTarget
  held : d.grabbed = false → ∀ j, t.forward.findDevice d.forwardingTarget .enqueued = some j →
    ((t.forward.device j).views .enqueued).held ⊆ d.ungrabHeldKeys
  settled : d.grabbed = true → d.ungrabHeldKeys = ∅ ∧
    ∃ keys, t.lastSnapshot i = some keys ∧ heldKeys keys = ∅
  untargeted : d.forwardingTarget = 0 → d.ungrabHeldKeys = ∅
  /-- What the device owed stays accounted for. -/
  owed : ∀ code ∈ (s.devices i).ungrabHeldKeys,
    (d.forwardingTarget = (s.devices i).forwardingTarget ∧ code ∈ d.ungrabHeldKeys) ∨
      (∃ origin, ⟨(s.devices i).forwardingTarget, code, origin⟩ ∈ t.released) ∨
      (s.devices i).forwardingTarget ∈ t.closed

structure Records (s t : Reader) (d : TrackedDevice) : Prop where
  kept : ∀ entry ∈ t.kept, entry ∈ s.kept ∨
    entry.1 = d.forwardingTarget ∧ entry.2 ⊆ d.ungrabHeldKeys
  released : s.released ⊆ t.released
  closed : s.closed ⊆ t.closed

theorem Records.of_eq (hkept : t.kept = s.kept) (hreleased : t.released = s.released)
    (hclosed : t.closed = s.closed) : Records s t d :=
  ⟨fun _ h => .inl (hkept ▸ h), hreleased ▸ List.Subset.refl _, hclosed ▸ List.Subset.refl _⟩

section

variable (hs : Owing s)

include hs

theorem Owing.replace (hplaced : Placed t) (hdevices : t.devices = Function.update s.devices i d)
    (hspares : Spares i s t.forward) (hserial : s.forward.nextSerial ≤ t.forward.nextSerial)
    (hpending : t.lanes.pending = s.lanes.pending)
    (hsnapshot : ∀ i' ≠ i, t.lastSnapshot i' = s.lastSnapshot i') (hfits : Fits s t i d)
    (hrecords : Records s t d) : Owing t := by
  have hself : t.devices i = d := by rw [hdevices, Function.update_self]
  have hother : ∀ i', i' ≠ i → t.devices i' = s.devices i' := fun i' hi' => by
    rw [hdevices, Function.update_of_ne hi']
  refine ⟨hplaced, fun k e he => ?_, fun k e he i' hgrabbed htarget => ?_,
    fun i' hgrabbed j hfind => ?_, fun i' hgrabbed => ?_, fun i' htarget => ?_,
    fun entry hentry code hcode => ?_⟩
  · rw [hpending] at he
    exact (hs.issued k e he).trans_le (Nat.mul_le_mul_right 256 hserial)
  · rw [hpending] at he
    by_cases hi' : i' = i
    · subst hi'
      rw [hself] at hgrabbed htarget ⊢
      exact hfits.idle k e he hgrabbed htarget
    · rw [hother i' hi'] at hgrabbed htarget ⊢
      exact hs.idle k e he i' hgrabbed htarget
  · by_cases hi' : i' = i
    · subst hi'
      rw [hself] at hgrabbed hfind ⊢
      exact hfits.held hgrabbed j hfind
    rw [hother i' hi'] at hgrabbed hfind ⊢
    obtain ⟨hslot, -, -⟩ := findDevice_eq_some hfind
    obtain ⟨j', hfind'⟩ := hs.place i' (ne_zero_of_slotOf hslot)
    obtain ⟨hlast, hkeys⟩ := hspares i' hi' j' hfind'
    obtain rfl : j' = j := Option.some.inj (hlast.symm.trans hfind)
    exact hkeys.held.trans (hs.held i' hgrabbed j' hfind')
  · by_cases hi' : i' = i
    · subst hi'
      rw [hself] at hgrabbed ⊢
      exact hfits.settled hgrabbed
    · rw [hother i' hi'] at hgrabbed ⊢
      rw [hsnapshot i' hi']
      exact hs.settled i' hgrabbed
  · by_cases hi' : i' = i
    · subst hi'
      rw [hself] at htarget ⊢
      exact hfits.untargeted htarget
    · rw [hother i' hi'] at htarget ⊢
      exact hs.untargeted i' htarget
  rcases hrecords.kept entry hentry with hold | ⟨htarget, howed⟩
  · rcases hs.kept entry hold code hcode with ⟨i', htarget, howed⟩ | ⟨origin, hmem⟩ | hmem
    · by_cases hi' : i' = i
      · subst hi'
        rw [← htarget]
        rcases hfits.owed code howed with ⟨hsame, hstill⟩ | hrest
        · exact .inl ⟨i', by rw [hself]; exact hsame, by rw [hself]; exact hstill⟩
        · exact .inr hrest
      · rw [← hother i' hi'] at htarget howed
        exact .inl ⟨i', htarget, howed⟩
    · exact .inr (.inl ⟨origin, hrecords.released hmem⟩)
    · exact .inr (.inr (hrecords.closed hmem))
  · refine .inl ⟨i, ?_, ?_⟩
    · rw [hself]
      exact htarget.symm
    · rw [hself]
      exact howed hcode

theorem Owing.closeForwardingDevice (i now : Nat) : Owing (s.closeForwardingDevice i now) := by
  obtain ⟨hplaced, hspares, hserial⟩ := hs.toPlaced.closeForwardingDevice i now
  have hdevices := s.closeForwardingDevice_devices i now
  have hfits : ∀ t : Reader, (∀ code ∈ (s.devices i).ungrabHeldKeys,
      (s.devices i).forwardingTarget ∈ t.closed) → t.lastSnapshot = s.lastSnapshot →
      Fits s t i { s.devices i with
        forwardingTarget := 0, forwardingReady := false, ungrabHeldKeys := ∅ } := by
    intro t hclosed hsnapshot
    refine ⟨fun _ _ _ _ h => absurd rfl h, fun _ j hfind => ?_, fun hgrabbed => ⟨rfl, ?_⟩,
      fun _ => rfl, fun code hcode => .inr (.inr (hclosed code hcode))⟩
    · obtain ⟨hslot, -, -⟩ := findDevice_eq_some hfind
      exact absurd rfl (ne_zero_of_slotOf hslot)
    · rw [hsnapshot]
      exact (hs.settled i hgrabbed).2
  by_cases htarget : (s.devices i).forwardingTarget = 0
  · have hnone : ∀ code ∈ (s.devices i).ungrabHeldKeys,
        (s.devices i).forwardingTarget ∈ s.closed := by
      intro code hcode
      rw [hs.untargeted i htarget] at hcode
      exact absurd hcode (Finset.notMem_empty code)
    rw [s.closeForwardingDevice_of_zero now htarget] at *
    exact hs.replace hplaced hdevices hspares hserial rfl (fun _ _ => rfl) (hfits _ hnone rfl)
      (.of_eq rfl rfl rfl)
  · rw [s.closeForwardingDevice_of_ne now htarget] at *
    refine hs.replace hplaced hdevices hspares hserial rfl (fun _ _ => rfl) (hfits _ ?_ rfl)
      ⟨fun _ h => .inl h, List.Subset.refl _, List.subset_append_left _ _⟩
    exact fun _ _ => List.mem_append_right _ (List.mem_singleton_self _)

theorem Owing.endGrab (hgrabbed : (s.devices i).grabbed = true)
    (htarget : (s.devices i).forwardingTarget ≠ 0) : Owing (s.endGrab i) := by
  obtain ⟨hplaced, hspares, hserial, hfresh, j, hfound, howed, hkeys⟩ :=
    hs.toPlaced.endGrab htarget
  have hfits : Fits s (s.endGrab i) i ((s.endGrab i).devices i) := by
    refine ⟨fun k e he _ _ => ((hs.issued k e he).trans_le hfresh).ne, fun _ j' hfind => ?_,
      fun h => ?_, fun hzero => ?_, fun code hcode => ?_⟩
    · obtain rfl : j = j' := Option.some.inj (hfound.symm.trans hfind)
      rw [howed]
      exact hkeys.held.trans
        (Finset.union_subset Finset.inter_subset_right (Finset.empty_subset _))
    · exact absurd h (by simp [Reader.endGrab])
    · obtain ⟨hslot, -, -⟩ := findDevice_eq_some hfound
      exact absurd hzero (ne_zero_of_slotOf hslot)
    · rw [(hs.settled i hgrabbed).1] at hcode
      exact absurd hcode (Finset.notMem_empty code)
  refine hs.replace hplaced (s.endGrab_devices i) hspares hserial.le rfl (fun _ _ => rfl) hfits
    ⟨fun entry hentry => ?_, List.Subset.refl _, List.Subset.refl _⟩
  rw [s.endGrab_kept i, List.mem_append, List.mem_singleton] at hentry
  rcases hentry with hold | rfl
  · exact .inl hold
  · exact .inr ⟨rfl, Finset.Subset.refl _⟩

theorem Owing.openForwarding (info : SourceInfo)
    (htarget : (s.devices i).forwardingTarget = 0) : Owing (s.openForwarding i info) := by
  obtain ⟨hplaced, hspares, hserial, hself⟩ := hs.toPlaced.openForwarding i info
  obtain ⟨target, _, hdevices⟩ := s.openForwarding_devices i info
  have howed := hs.untargeted i htarget
  have htargetSelf : ((s.openForwarding i info).devices i).forwardingTarget = target := by
    rw [hdevices, Function.update_self]
  rw [htargetSelf] at hself
  have hhistory : (s.openForwarding i info).lanes.pending = s.lanes.pending ∧
      (s.openForwarding i info).lastSnapshot = s.lastSnapshot ∧
      (s.openForwarding i info).kept = s.kept ∧ (s.openForwarding i info).released = s.released ∧
      (s.openForwarding i info).closed = s.closed := by
    unfold Reader.openForwarding
    dsimp only
    split <;> exact ⟨rfl, rfl, rfl, rfl, rfl⟩
  obtain ⟨hpending, hsnapshot, hkept, hreleased, hclosed⟩ := hhistory
  refine hs.replace hplaced hdevices hspares hserial hpending (fun _ _ => congrFun hsnapshot _)
    ⟨fun k e he _ hne => ?_, fun _ j hfind => ?_, fun hgrabbed => ⟨howed, ?_⟩, fun _ => howed,
      fun code hcode => ?_⟩ (.of_eq hkept hreleased hclosed)
  · rcases hself with hzero | ⟨hfresh, -⟩
    · exact absurd hzero hne
    · exact ((hs.issued k e he).trans_le hfresh).ne
  · rcases hself with hzero | ⟨-, j', hfound, hempty⟩
    · obtain ⟨hslot, -, -⟩ := findDevice_eq_some hfind
      exact absurd hzero (ne_zero_of_slotOf hslot)
    · obtain rfl : j' = j := Option.some.inj (hfound.symm.trans hfind)
      rw [hempty]
      exact Finset.union_subset (Finset.empty_subset _) (Finset.empty_subset _)
  · rw [hsnapshot]
    exact (hs.settled i hgrabbed).2
  · rw [howed] at hcode
    exact absurd hcode (Finset.notMem_empty code)

theorem Owing.setDevice (htarget : d.forwardingTarget = (s.devices i).forwardingTarget)
    (howed : d.ungrabHeldKeys = (s.devices i).ungrabHeldKeys)
    (hended : (s.devices i).grabbed = true → d.grabbed = true ∨ d.forwardingTarget = 0)
    (hsettled : d.grabbed = true → d.ungrabHeldKeys = ∅ ∧
      ∃ keys, s.lastSnapshot i = some keys ∧ heldKeys keys = ∅) : Owing (s.setDevice i d) := by
  have hstill : d.grabbed = false → d.forwardingTarget ≠ 0 → (s.devices i).grabbed = false := by
    intro hgrabbed hne
    by_contra hwas
    rcases hended (by simpa using hwas) with h | h
    · exact Bool.false_ne_true (hgrabbed.symm.trans h)
    · exact hne h
  refine hs.replace (hs.toPlaced.setDevice rfl rfl htarget) rfl (.refl i s) (Nat.le_refl _) rfl
    (fun _ _ => rfl) ⟨fun k e he hgrabbed hne => ?_, fun hgrabbed j hfind => ?_, hsettled,
      fun hzero => ?_, fun code hcode => .inl ⟨htarget, howed ▸ hcode⟩⟩ (.of_eq rfl rfl rfl)
  · have hwas := hstill hgrabbed hne
    rw [htarget] at hne ⊢
    exact hs.idle k e he i hwas hne
  · obtain ⟨hslot, -, -⟩ := findDevice_eq_some hfind
    have hwas := hstill hgrabbed (ne_zero_of_slotOf hslot)
    rw [htarget] at hfind
    rw [howed]
    exact hs.held i hwas j hfind
  · rw [howed]
    exact hs.untargeted i (htarget ▸ hzero)

theorem Owing.forwardReleaseAfterUngrab (hgrabbed : (s.devices i).grabbed = false) (code : Code)
    (origin : Origin) (room : Bool) : Owing (s.forwardReleaseAfterUngrab i code origin room) := by
  unfold Reader.forwardReleaseAfterUngrab
  dsimp only
  split
  · exact hs
  rename_i hcode
  have howed : code ∈ (s.devices i).ungrabHeldKeys := not_not.mp hcode
  have htarget : (s.devices i).forwardingTarget ≠ 0 := by
    intro hzero
    rw [hs.untargeted i hzero] at howed
    exact Finset.notMem_empty code howed
  obtain ⟨j, hfind⟩ := hs.place i htarget
  obtain ⟨packet, hpacket⟩ : ∃ packet : ForwardPacket, packet =
      { (s.devices i).lanePacket ((s.devices i).rawForwardHookType code) [keyEvent code 0] true
        with ungrabbed := true } := ⟨_, rfl⟩
  have hpacketTarget : packet.target = (s.devices i).forwardingTarget := by
    rw [hpacket]
    rfl
  rw [← hpacket]
  have hmoves := moves_forwardPhysicalEvent hs.lined.wellFormed
    ((s.devices i).rawForwardHookType code) packet room
  have hrelease := forwardPhysicalEvent_release hs.lined.wellFormed (by rw [hpacket]; rfl)
    (by rw [hpacket]) (hpacketTarget ▸ hfind) ((s.devices i).rawForwardHookType code) room
  rw [hpacketTarget] at hmoves
  generalize s.lanes.forwardPhysicalEvent _ packet room = result at *
  obtain ⟨ok, lanes⟩ := result
  obtain ⟨hpending, hheld, hlost⟩ := hrelease
  have hfindLast := hmoves.carries.lasts.find _ j hfind
  have hspares : Spares i s lanes.forward := by
    intro i' hi' j' hfind'
    obtain ⟨hslot, -, -⟩ := findDevice_eq_some hfind'
    exact ⟨hmoves.carries.lasts.find _ j' hfind', hmoves.carries.lasts.keys _ j' hfind'
      fun hsame => hi' (hs.distinct i' i (ne_zero_of_slotOf hslot) hsame)⟩
  obtain ⟨owed, howedEq⟩ : ∃ owed : KeyBits, owed =
      if ok then (s.devices i).ungrabHeldKeys.erase code else (s.devices i).ungrabHeldKeys :=
    ⟨_, rfl⟩
  obtain ⟨released, hreleasedEq⟩ : ∃ released : List Release, released =
      if s.lanes.log.length < lanes.log.length then
        s.released ++ [⟨(s.devices i).forwardingTarget, code, origin⟩]
      else s.released := ⟨_, rfl⟩
  have hkept : s.released ⊆ released := by
    rw [hreleasedEq]
    split
    · exact List.subset_append_left _ _
    · exact List.Subset.refl _
  have hheldOwed : ((lanes.forward.device j).views .enqueued).held ⊆ owed := by
    have hold := hheld.trans (hs.held i hgrabbed j hfind)
    rw [howedEq]
    split
    · rename_i hok
      exact fun c hc => Finset.mem_erase.mpr ⟨fun h => (hlost hok).1 (h ▸ hc), hold hc⟩
    · exact hold
  have hlast : Owing { s with
      lanes := lanes
      released := released
      devices := Function.update s.devices i { s.devices i with ungrabHeldKeys := owed } } := by
    refine hs.replace ((hs.toPlaced.moves hmoves).setDevice rfl rfl rfl) rfl hspares
      hmoves.carries.lasts.serial hpending (fun _ _ => rfl) ⟨fun k e he => hs.idle k e he i,
        fun _ j' hfind' => ?_, fun h => absurd (hgrabbed.symm.trans h) Bool.false_ne_true,
        fun hzero => absurd hzero htarget, fun c hc => ?_⟩
      ⟨fun _ h => .inl h, hkept, List.Subset.refl _⟩
    · obtain rfl : j = j' := Option.some.inj (hfindLast.symm.trans hfind')
      exact hheldOwed
    cases ok with
    | false => exact .inl ⟨rfl, by rw [howedEq]; exact hc⟩
    | true =>
      by_cases hcc : c = code
      · refine .inr (.inl ⟨origin, ?_⟩)
        rw [hreleasedEq, if_pos (hlost rfl).2, hcc]
        exact List.mem_append_right _ (List.mem_singleton_self _)
      · refine .inl ⟨rfl, ?_⟩
        rw [howedEq]
        exact Finset.mem_erase.mpr ⟨hcc, hc⟩
  rw [howedEq, hreleasedEq] at hlast
  cases ok with
  | false =>
    have hsame : Function.update s.devices i { s.devices i with
        ungrabHeldKeys := (s.devices i).ungrabHeldKeys } = s.devices :=
      Function.update_eq_self i s.devices
    rw [if_neg Bool.false_ne_true, hsame] at hlast
    exact hlast
  | true => exact hlast

theorem Owing.readSnapshotKeys (hgrabbed : (s.devices i).grabbed = false)
    (keys : Option KeyBits) : Owing (s.readSnapshotKeys i keys) := by
  refine ⟨⟨hs.lined, hs.place, hs.distinct⟩, hs.issued, hs.idle, hs.held, fun i' hgrabbed' => ?_,
    hs.untargeted, hs.kept⟩
  have hi' : i' ≠ i := by
    rintro rfl
    exact Bool.false_ne_true (hgrabbed.symm.trans hgrabbed')
  obtain ⟨howed, held, hsnapshot, hheld⟩ := hs.settled i' hgrabbed'
  exact ⟨howed, held, (Function.update_of_ne hi' ..).trans hsnapshot, hheld⟩

theorem Owing.read (hgrabbed : (s.devices i).grabbed = true)
    (h : Moves (· = (s.devices i).forwardingTarget) s.lanes lanes) :
    Owing { s with lanes := lanes } := by
  refine hs.moves h ?_
  rintro _ rfl
  refine ⟨hs.toPlaced.target_lt i, fun i' hgrabbed' hne hsame => ?_⟩
  have hi' := hs.distinct i' i hne hsame.symm
  rw [hi'] at hgrabbed'
  exact Bool.false_ne_true (hgrabbed'.symm.trans hgrabbed)

end

theorem Act.owing (h : Act s t) (hs : Owing s) : Owing t := by
  have hf : WellFormed s.lanes.forward := hs.lined.wellFormed
  cases h with
  | lanes hreader hstep =>
    refine hs.moves (moves_step hs.lined hreader hstep) ?_
    rintro _ (rfl | ⟨k, e, he, rfl⟩)
    · have hserial : 0 < s.forward.nextSerial := hf.serial
      exact ⟨by omega, fun i _ hne => hne.symm⟩
    · exact ⟨hs.issued k e he, hs.idle k e he⟩
  | forwarded i k events reportEnd created hgrabbed =>
    have hmoves := moves_forwardPhysicalEvent hf k
      ((s.devices i).lanePacket k events reportEnd) created
    exact hs.read hgrabbed hmoves
  | hooked i k events reportEnd blockActive created hgrabbed =>
    have hmoves := moves_handleHookEvent hf k
      ((s.devices i).lanePacket k events reportEnd) false blockActive created
    exact hs.read hgrabbed hmoves
  | released i code origin room hgrabbed =>
    exact hs.forwardReleaseAfterUngrab hgrabbed code origin room
  | snapshot i keys hgrabbed => exact hs.readSnapshotKeys hgrabbed keys
  | closed i now => exact hs.closeForwardingDevice i now
  | opened i info htarget => exact hs.openForwarding info htarget
  | flagged i d htarget howed hgrabbed hended =>
    exact hs.setDevice htarget howed hended fun h => howed ▸ hs.settled i (hgrabbed h).1
  | policy =>
    exact ⟨⟨hs.lined, hs.place, hs.distinct⟩, hs.issued, hs.idle, hs.held, hs.settled,
      hs.untargeted, hs.kept⟩
  | ended i hgrabbed htarget => exact hs.endGrab hgrabbed htarget
  | grabbed _ keys _ _ hsnapshot hheld howed =>
    exact hs.setDevice rfl rfl (fun _ => .inl rfl) fun _ => ⟨howed, keys, hsnapshot, hheld⟩

theorem owing_start (outcome : Nat → Option Nat) (absOpens : Bool) :
    Owing (start outcome absOpens) := by
  refine ⟨placed_start outcome absOpens, fun k e he => ?_, fun k e he => ?_, fun i _ j hfind => ?_,
    fun _ h => absurd h Bool.false_ne_true, fun _ _ => rfl,
    fun _ h => absurd h List.not_mem_nil⟩
  · exact absurd he List.not_mem_nil
  · exact absurd he List.not_mem_nil
  · obtain ⟨hslot, -, -⟩ := findDevice_eq_some hfind
    exact absurd rfl (ne_zero_of_slotOf hslot)

/-- In every run, an ungrabbed source holds nothing downstream that is not owed. What was kept at
an ungrab is owed until its release was admitted, unless the source's forwarding was closed. A
grabbed source owes nothing, and the last snapshot before the grab showed no key down that holds
a grab off. -/
theorem holds_across_ungrab {outcome : Nat → Option Nat} {absOpens : Bool} {s : Reader}
    (h : Reaches Reader.step always (start outcome absOpens) s) :
    (∀ i, (s.devices i).grabbed = false → (s.devices i).forwardingTarget ≠ 0 →
      ∃ j, s.forward.findDevice (s.devices i).forwardingTarget .enqueued = some j ∧
        ((s.forward.device j).views .enqueued).output ⊆ (s.devices i).ungrabHeldKeys) ∧
      (∀ target keys code, (target, keys) ∈ s.kept → code ∈ keys →
        (∃ i, (s.devices i).forwardingTarget = target ∧ code ∈ (s.devices i).ungrabHeldKeys) ∨
          (∃ origin, ⟨target, code, origin⟩ ∈ s.released) ∨ target ∈ s.closed) ∧
      ∀ i, (s.devices i).grabbed = true → (s.devices i).ungrabHeldKeys = ∅ ∧
        ∃ keys, s.lastSnapshot i = some keys ∧ heldKeys keys = ∅ := by
  have hs : Owing s := invariant_of_acts (owing_start outcome absOpens) (fun h => h.owing) h
  refine ⟨fun i hgrabbed htarget => ?_, fun target keys code hkept hcode => ?_, hs.settled⟩
  · obtain ⟨j, hfind⟩ := hs.place i htarget
    exact ⟨j, hfind, Finset.subset_union_left.trans (hs.held i hgrabbed j hfind)⟩
  · exact hs.kept (target, keys) hkept code hcode

def ungrabRun : List Event :=
  [.track 0 true false, .ensureForwarding 0 { keyboard := true, hasCodes := true } 0,
    .cloneAdmitted 0, .sinkAdmitted (some 0), .grab 0 {},
    .read 0 (.key 30 1 true [{
      hook := false, hookType := .keyboard, events := [keyEvent 30 1], reportEnd := true }]),
    .ungrab 0 {}]

/-- The key that was down is owed, and nothing else is held. -/
theorem holds_across_ungrab_of_run :
    ∃ s, Reaches Reader.step always (start (fun _ => none) true) s ∧
      (s.devices 0).forwardingTarget = 513 ∧ (30 : Code) ∈ (s.devices 0).ungrabHeldKeys ∧
      ∃ j, s.forward.findDevice 513 .enqueued = some j ∧
        ((s.forward.device j).views .enqueued).output ⊆ (s.devices 0).ungrabHeldKeys := by
  obtain ⟨s, hs, hgrabbed, htarget, howed⟩ := exists_reaches Reader.step
    (start (fun _ => none) true) ungrabRun (q := fun s => (s.devices 0).grabbed = false ∧
      (s.devices 0).forwardingTarget = 513 ∧ (30 : Code) ∈ (s.devices 0).ungrabHeldKeys)
    (by decide +kernel)
  obtain ⟨hheld, -, -⟩ := holds_across_ungrab hs
  obtain ⟨j, hfind, houtput⟩ := hheld 0 hgrabbed (by rw [htarget]; decide)
  exact ⟨s, hs, htarget, howed, j, htarget ▸ hfind, houtput⟩

/-- A source that is closed owes nothing any more, although no release was admitted. -/
theorem close_forgets_owed_release :
    ∃ s t, Reaches Reader.step always (start (fun _ => none) true) s ∧
      s.step (.close 0 0) = some t ∧ (30 : Code) ∈ (s.devices 0).ungrabHeldKeys ∧
      (30 : Code) ∉ (t.devices 0).ungrabHeldKeys ∧ t.released = [] := by
  obtain ⟨s, hs, howed, hclose⟩ := exists_reaches Reader.step (start (fun _ => none) true) ungrabRun
    (q := fun s => (30 : Code) ∈ (s.devices 0).ungrabHeldKeys ∧ (s.step (.close 0 0)).any fun t =>
      (30 : Code) ∉ (t.devices 0).ungrabHeldKeys ∧ t.released = []) (by decide +kernel)
  obtain ⟨t, hstep, ht⟩ := (Option.any_eq_true _ _).mp hclose
  exact ⟨s, t, hs, hstep, howed, of_decide_eq_true ht⟩

end KeysharpInput.Grabs
