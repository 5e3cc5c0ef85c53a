import KeysharpInput.LaneSources

/-!
What a step of the reader is made of.
Every step is a sequence of acts: a turn of the lanes, one event read under a grab, one owed
release, a snapshot, or a change to one device. The conditions under which each act is taken
stand here once; an invariant of the reader is then a fact about single acts.
-/

namespace KeysharpInput.Grabs

open Session (HookType)
open Function Output Reader Transition Bool
open Relation (ReflTransGen)

variable {s t : Reader} {i : Nat} {P : Reader → Prop}

inductive Act : Reader → Reader → Prop
  | lanes {s : Reader} {e : LaneOrder.Event} {lanes : LaneOrder.State}
      (hreader : ofReader e = false) (hstep : s.lanes.step e = some lanes) :
      Act s { s with lanes := lanes }
  | forwarded {s : Reader} (i : Nat) (k : HookType) (events : List InputEvent)
      (reportEnd created : Bool) (hgrabbed : (s.devices i).grabbed = true) :
      Act s { s with lanes := (s.lanes.forwardPhysicalEvent k
        ((s.devices i).lanePacket k events reportEnd) created).2 }
  | hooked {s : Reader} (i : Nat) (k : HookType) (events : List InputEvent)
      (reportEnd blockActive created : Bool) (hgrabbed : (s.devices i).grabbed = true) :
      Act s { s with lanes := (s.lanes.handleHookEvent k
        ((s.devices i).lanePacket k events reportEnd) false blockActive created) }
  | released {s : Reader} (i : Nat) (code : Code) (origin : Origin) (room : Bool)
      (hgrabbed : (s.devices i).grabbed = false) :
      Act s (s.forwardReleaseAfterUngrab i code origin room)
  | snapshot {s : Reader} (i : Nat) (keys : Option KeyBits)
      (hgrabbed : (s.devices i).grabbed = false) : Act s (s.readSnapshotKeys i keys)
  | closed {s : Reader} (i now : Nat) : Act s (s.closeForwardingDevice i now)
  | opened {s : Reader} (i : Nat) (info : Forward.SourceInfo)
      (htarget : (s.devices i).forwardingTarget = 0) : Act s (s.openForwarding i info)
  /-- A grab that ends here is of a source without target. -/
  | flagged {s : Reader} (i : Nat) (d : TrackedDevice)
      (htarget : d.forwardingTarget = (s.devices i).forwardingTarget)
      (howed : d.ungrabHeldKeys = (s.devices i).ungrabHeldKeys)
      (hgrabbed : d.grabbed = true → (s.devices i).grabbed = true ∧ d.fd = true)
      (hended : (s.devices i).grabbed = true → d.grabbed = true ∨ d.forwardingTarget = 0) :
      Act s (s.setDevice i d)
  | policy {s : Reader} (keyboard mouse : Bool) (generation : Option Nat) : Act s { s with
        blockKeyboard := keyboard, blockMouse := mouse, sinkAdmittedGeneration := generation }
  | ended {s : Reader} (i : Nat) (hgrabbed : (s.devices i).grabbed = true)
      (htarget : (s.devices i).forwardingTarget ≠ 0) : Act s (s.endGrab i)
  | grabbed {s : Reader} (i : Nat) (keys : KeyBits) (hfd : (s.devices i).fd = true)
      (hgrabbed : (s.devices i).grabbed = false) (hsnapshot : s.lastSnapshot i = some keys)
      (hheld : heldKeys keys = ∅) (howed : (s.devices i).ungrabHeldKeys = ∅) :
      Act s (s.setDevice i { s.devices i with grabbed := true, foreignGrab := false })

abbrev Acts : Reader → Reader → Prop := ReflTransGen Act

theorem Acts.invariant (hP : ∀ {s t}, Act s t → P s → P t) (h : Acts s t) (hs : P s) : P t := by
  induction h with
  | refl => exact hs
  | tail _ hact ih => exact hP hact ih

theorem Acts.foldl {α : Type} {turn : Reader → α → Reader} (l : List α) (Q : Reader → Prop)
    (hturn : ∀ s a, Q s → Acts s (turn s a) ∧ Q (turn s a)) (s : Reader) (hs : Q s) :
    Acts s (l.foldl turn s) ∧ Q (l.foldl turn s) := by
  induction l generalizing s with
  | nil => exact ⟨.refl, hs⟩
  | cons a l ih =>
    obtain ⟨hacts, hQ⟩ := hturn s a hs
    obtain ⟨hrest, hlast⟩ := ih (turn s a) hQ
    exact ⟨hacts.trans hrest, hlast⟩

@[simp]
theorem Reader.setDevice_devices_self (s : Reader) (i : Nat) (d : TrackedDevice) :
    (s.setDevice i d).devices i = d := update_self ..

theorem Reader.closeForwardingDevice_of_zero (s : Reader) (now : Nat)
    (h : (s.devices i).forwardingTarget = 0) :
    s.closeForwardingDevice i now = s.setDevice i { s.devices i with
      forwardingTarget := 0, forwardingReady := false, ungrabHeldKeys := ∅ } := by
  unfold closeForwardingDevice
  dsimp only
  rw [if_pos h]

theorem Reader.closeForwardingDevice_of_ne (s : Reader) (now : Nat)
    (h : (s.devices i).forwardingTarget ≠ 0) :
    s.closeForwardingDevice i now =
      { s.setOutput (s.lanes.output.pushClose (s.devices i).forwardingTarget now) with
        closed := s.closed ++ [(s.devices i).forwardingTarget] }.setDevice i
          { s.devices i with
            forwardingTarget := 0, forwardingReady := false, ungrabHeldKeys := ∅ } := by
  unfold closeForwardingDevice
  dsimp only
  rw [if_neg h]

@[simp]
theorem Reader.closeForwardingDevice_devices (s : Reader) (i now : Nat) :
    (s.closeForwardingDevice i now).devices = update s.devices i { s.devices i with
      forwardingTarget := 0, forwardingReady := false, ungrabHeldKeys := ∅ } := by
  by_cases h : (s.devices i).forwardingTarget = 0
  · rw [s.closeForwardingDevice_of_zero now h]
    rfl
  · rw [s.closeForwardingDevice_of_ne now h]
    rfl

theorem Reader.endGrab_devices (s : Reader) (i : Nat) :
    (s.endGrab i).devices = update s.devices i ((s.endGrab i).devices i) := by
  unfold endGrab setDevice
  dsimp only
  rw [update_self]
  rfl

theorem Reader.endGrab_kept (s : Reader) (i : Nat) :
    (s.endGrab i).kept = s.kept ++ [(((s.endGrab i).devices i).forwardingTarget,
      ((s.endGrab i).devices i).ungrabHeldKeys)] := by
  unfold endGrab setDevice
  dsimp only
  rw [update_self]
  rfl

theorem Reader.openForwarding_devices (s : Reader) (i : Nat) (info : Forward.SourceInfo) :
    ∃ target ready, (s.openForwarding i info).devices = update s.devices i
      { s.devices i with forwardingTarget := target, forwardingReady := ready } := by
  unfold openForwarding
  dsimp only
  split <;> exact ⟨_, _, rfl⟩

theorem Reader.forwardReleaseAfterUngrab_devices (s : Reader) (i : Nat) (code : Code)
    (origin : Origin) (room : Bool) :
    ∃ owed, (s.forwardReleaseAfterUngrab i code origin room).devices =
      update s.devices i { s.devices i with ungrabHeldKeys := owed } := by
  have hsame : ∃ owed, s.devices = update s.devices i { s.devices i with ungrabHeldKeys := owed } :=
    ⟨(s.devices i).ungrabHeldKeys, (update_eq_self i s.devices).symm⟩
  unfold forwardReleaseAfterUngrab
  dsimp only
  split
  · exact hsame
  · split
    · exact ⟨_, rfl⟩
    · exact hsame

def Fastened (s : Reader) : Prop := ∀ i, (s.devices i).grabbed = true → (s.devices i).fd = true

theorem fastened_update {d : TrackedDevice} (hs : Fastened s)
    (ht : t.devices = update s.devices i d) (hd : d.grabbed = true → d.fd = true) : Fastened t := by
  intro j hj
  rw [ht] at hj ⊢
  by_cases hji : j = i
  · subst hji
    rw [update_self] at hj ⊢
    exact hd hj
  · rw [update_of_ne hji] at hj ⊢
    exact hs j hj

theorem Act.fastened (h : Act s t) (hs : Fastened s) : Fastened t := by
  cases h with
  | lanes | forwarded | hooked | snapshot | policy => exact hs
  | released i code origin room =>
    obtain ⟨_, hdevices⟩ := s.forwardReleaseAfterUngrab_devices i code origin room
    exact fastened_update hs hdevices (hs i)
  | closed i now => exact fastened_update hs (s.closeForwardingDevice_devices i now) (hs i)
  | opened i info =>
    obtain ⟨_, _, hdevices⟩ := s.openForwarding_devices i info
    exact fastened_update hs hdevices (hs i)
  | flagged i d _ _ hgrabbed => exact fastened_update hs rfl fun h => (hgrabbed h).2
  | ended => exact fastened_update hs rfl fun h => absurd h false_ne_true
  | grabbed _ _ hfd => exact fastened_update hs rfl fun _ => hfd

theorem Acts.fastened (h : Acts s t) (hs : Fastened s) : Fastened t :=
  h.invariant (fun hact hs => hact.fastened hs) hs

theorem acts_deliver (s : Reader) (i : Nat) (fragment : Fragment) :
    Acts s (s.deliver i fragment) := by
  unfold deliver
  dsimp only
  split_ifs with hgrabbed
  · exact .refl
  · exact .single (.hooked i _ _ _ _ _ (by simpa using hgrabbed))
  · exact .refl
  · exact .single (.forwarded i _ _ _ _ (by simpa using hgrabbed))

theorem deliver_devices (s : Reader) (i : Nat) (fragment : Fragment) :
    (s.deliver i fragment).devices = s.devices := by
  unfold deliver
  dsimp only
  split_ifs <;> rfl

theorem acts_delivers (s : Reader) (i : Nat) (fragments : List Fragment) :
    Acts s (fragments.foldl (·.deliver i ·) s) ∧
      (fragments.foldl (·.deliver i ·) s).devices = s.devices :=
  Acts.foldl fragments (fun t => t.devices = s.devices)
    (fun t fragment ht => ⟨acts_deliver t i fragment, (deliver_devices t i fragment).trans ht⟩)
    s rfl

theorem acts_closeTrackedDevice (s : Reader) (i now : Nat) :
    Acts s (s.closeTrackedDevice i now) := by
  refine .tail (.single (.closed i now)) (.flagged i _ rfl rfl ?_ ?_)
  · exact fun h => absurd h false_ne_true
  · exact fun _ => .inr (by simp)

theorem acts_ensureForwarding (s : Reader) (i : Nat) (info : Forward.SourceInfo) (now : Nat) :
    Acts s (s.ensureForwarding i info now) := by
  unfold ensureForwarding
  dsimp only
  split
  · exact .refl
  · exact .tail (.single (.closed i now)) (.opened i info (by simp))

theorem acts_handleInputEvent (s : Reader) (i : Nat) (e : Read) :
    Acts s (s.handleInputEvent i e) ∧ ((s.devices i).grabbed = false →
      ((s.handleInputEvent i e).devices i).grabbed = false) := by
  cases e with
  | key code value room fragments =>
    unfold handleInputEvent
    dsimp only
    split
    · rename_i hrelease
      have hgrabbed : (s.devices i).grabbed = false := by
        simpa using (and_eq_true_iff.mp hrelease).1
      obtain ⟨_, hdevices⟩ := s.forwardReleaseAfterUngrab_devices i code .stream room
      obtain ⟨hacts, hsame⟩ := acts_delivers (s.forwardReleaseAfterUngrab i code .stream room) i
        fragments
      refine ⟨.head (.released i code .stream room hgrabbed) hacts, fun _ => ?_⟩
      rw [hsame, hdevices, update_self]
      exact hgrabbed
    · obtain ⟨hacts, hsame⟩ := acts_delivers s i fragments
      exact ⟨hacts, fun hgrabbed => by rwa [hsame]⟩
  | other fragments =>
    obtain ⟨hacts, hsame⟩ := acts_delivers s i fragments
    refine ⟨hacts, fun hgrabbed => ?_⟩
    rw [handleInputEvent, hsame]
    exact hgrabbed
  | lost now =>
    refine ⟨acts_closeTrackedDevice s i now, fun _ => ?_⟩
    simp [handleInputEvent, closeTrackedDevice]

theorem acts_drainDeviceEvents (s : Reader) (i : Nat) (reads : List Read) :
    Acts s (s.drainDeviceEvents i reads) ∧ ((s.devices i).grabbed = false →
      ((s.drainDeviceEvents i reads).devices i).grabbed = false) := by
  have hturn : ∀ (t : Reader) (e : Read),
      let t' := if (t.devices i).fd then t.handleInputEvent i e else t
      Acts t t' ∧ ((t.devices i).grabbed = false → (t'.devices i).grabbed = false) := by
    intro t e
    split
    · exact acts_handleInputEvent t i e
    · exact ⟨.refl, fun h => h⟩
  refine ⟨(Acts.foldl reads (fun _ => True) (fun t e _ => ⟨(hturn t e).1, trivial⟩) s trivial).1,
    fun hgrabbed => ?_⟩
  exact (Acts.foldl reads (fun t => (t.devices i).grabbed = false)
    (fun t e ht => ⟨(hturn t e).1, (hturn t e).2 ht⟩) s hgrabbed).2

theorem acts_settleUngrabHolds (s : Reader) (i : Nat) (keys : Option KeyBits) (room : Code → Bool) :
    Acts s (s.settleUngrabHolds i keys room) ∧ ((s.devices i).grabbed = false →
      ((s.settleUngrabHolds i keys room).devices i).grabbed = false) := by
  unfold settleUngrabHolds
  dsimp only
  split
  · exact ⟨.refl, fun h => h⟩
  rename_i hunsettled
  have hgrabbed : (s.devices i).grabbed = false := by
    simpa using (not_or.mp fun h => hunsettled (or_eq_true_iff.mpr h)).1
  have hread : Acts s (s.readSnapshotKeys i keys) := .single (.snapshot i keys hgrabbed)
  cases keys with
  | none => exact ⟨hread, fun h => h⟩
  | some keys =>
    have hturn : ∀ (t : Reader) (code : Code), (t.devices i).grabbed = false →
        Acts t (t.forwardReleaseAfterUngrab i code .snapshot (room code)) ∧
          ((t.forwardReleaseAfterUngrab i code .snapshot (room code)).devices i).grabbed =
            false := by
      intro t code ht
      obtain ⟨owed, hdevices⟩ :=
        t.forwardReleaseAfterUngrab_devices i code .snapshot (room code)
      refine ⟨.single (.released i code .snapshot (room code) ht), ?_⟩
      rw [hdevices, update_self]
      exact ht
    dsimp only
    generalize setBits ((s.devices i).ungrabHeldKeys \ keys) = codes
    obtain ⟨hacts, hlast⟩ := Acts.foldl codes _ hturn (s.readSnapshotKeys i (some keys)) hgrabbed
    exact ⟨hread.trans hacts, fun _ => hlast⟩

theorem acts_ungrabDevice (hs : Fastened s) (i : Nat) (answers : UngrabAnswers) :
    Acts s (s.ungrabDevice i answers).2 ∧ ((s.ungrabDevice i answers).1 = true →
      (((s.ungrabDevice i answers).2).devices i).grabbed = false) := by
  have hopen : ∀ t, Fastened t → (t.devices i).fd ≠ true → (t.devices i).grabbed = false := by
    intro t ht hfd
    by_contra hgrabbed
    exact hfd (ht i (by simpa using hgrabbed))
  unfold ungrabDevice
  split
  · rename_i hfd
    exact ⟨.refl, fun _ => hopen s hs (by simpa using hfd)⟩
  obtain ⟨t, ht⟩ : ∃ t, t =
      if (s.devices i).grabbed then s.drainDeviceEvents i answers.drained else s := ⟨_, rfl⟩
  have hdrained : Acts s t := by
    rw [ht]
    split
    · exact (acts_drainDeviceEvents s i answers.drained).1
    · exact .refl
  dsimp only
  rw [← ht]
  split_ifs with hfd hgrabbed hungrabs htarget
  · exact ⟨hdrained, fun _ => hopen t (hdrained.fastened hs) (by simpa using hfd)⟩
  · have hnot : (t.devices i).grabbed = false := by simpa using hgrabbed
    refine ⟨.tail hdrained (.flagged i _ rfl rfl ?_ ?_), fun _ => by simpa using hnot⟩
    · exact fun h => absurd (hnot.symm.trans h) false_ne_true
    · exact fun h => absurd (hnot.symm.trans h) false_ne_true
  · exact ⟨hdrained.trans (acts_closeTrackedDevice t i answers.now), fun h => nomatch h⟩
  · refine ⟨.tail hdrained (.flagged i _ rfl rfl ?_ ?_), fun _ => by simp⟩
    · exact fun h => absurd h false_ne_true
    · exact fun _ => .inr htarget
  · refine ⟨.tail hdrained (.ended i (by simpa using hgrabbed) htarget), fun _ => ?_⟩
    simp [endGrab]

theorem deferGrabWhileHeld_eq_false {keys : Option KeyBits}
    (h : (s.deferGrabWhileHeld i keys).1 = false) :
    ∃ held, keys = some held ∧ heldKeys held = ∅ := by
  cases keys with
  | none => exact absurd h Bool.noConfusion
  | some held => exact ⟨held, rfl, by simpa [deferGrabWhileHeld] using h⟩

theorem acts_takeGrab (hs : (s.devices i).grabbed = false) (answers : GrabAnswers) :
    Acts s (s.takeGrab i answers).2 := by
  have hfirst : Acts s (s.deferGrabWhileHeld i answers.first).2 := .single (.snapshot i _ hs)
  have hgrabbed₁ : ((s.deferGrabWhileHeld i answers.first).2.devices i).grabbed = false := hs
  unfold takeGrab
  dsimp only
  generalize (s.deferGrabWhileHeld i answers.first).2 = s₁ at *
  split
  · exact hfirst
  split
  · exact hfirst
  obtain ⟨hdrain, hgrabbed₂⟩ := acts_drainDeviceEvents s₁ i answers.drained
  replace hgrabbed₂ := hgrabbed₂ hgrabbed₁
  generalize s₁.drainDeviceEvents i answers.drained = s₂ at *
  obtain ⟨hsettle, hgrabbed₃⟩ := acts_settleUngrabHolds s₂ i answers.settled answers.room
  replace hgrabbed₃ := hgrabbed₃ hgrabbed₂
  generalize s₂.settleUngrabHolds i answers.settled answers.room = s₃ at *
  have hsettled : Acts s s₃ := (hfirst.trans hdrain).trans hsettle
  split
  · exact hsettled
  rename_i hclosed
  have hfd : (s₃.devices i).fd = true := by simpa using hclosed
  have hsecond : Acts s (s₃.deferGrabWhileHeld i answers.second).2 :=
    .tail hsettled (.snapshot i _ hgrabbed₃)
  split
  · exact hsecond
  rename_i hready
  obtain ⟨hdeferred, howed⟩ := not_or.mp fun h => hready (or_eq_true_iff.mpr h)
  split
  · obtain ⟨held, hkeys, hheld⟩ := deferGrabWhileHeld_eq_false (by simpa using hdeferred)
    refine .tail hsecond (.grabbed i held hfd hgrabbed₃ ?_ hheld ?_)
    · rw [hkeys]
      exact update_self ..
    · simpa using howed
  · refine .tail hsecond (.flagged i _ rfl rfl ?_ ?_)
    · exact fun h => absurd (hgrabbed₃.symm.trans h) false_ne_true
    · exact fun h => absurd (hgrabbed₃.symm.trans h) false_ne_true

theorem acts_grabDevice (hs : Fastened s) (i : Nat) (answers : GrabAnswers) :
    Acts s (s.grabDevice i answers).2 := by
  unfold grabDevice
  split
  · exact .refl
  split
  · exact .refl
  -- Whatever the first part was, nothing is grabbed when the second begins.
  obtain ⟨result, hresult⟩ : ∃ result, result =
      if (s.devices i).grabbed then s.ungrabDevice i answers.ungrab else (true, s) := ⟨_, rfl⟩
  have hungrab : Acts s result.2 ∧ (result.1 = true → (result.2.devices i).grabbed = false) := by
    rw [hresult]
    split
    · exact acts_ungrabDevice hs i answers.ungrab
    · rename_i hgrabbed
      exact ⟨.refl, fun _ => by simpa using hgrabbed⟩
  rw [← hresult]
  dsimp only at hungrab ⊢
  split
  · exact hungrab.1
  rename_i hok
  split
  · exact hungrab.1
  split
  · exact hungrab.1
  exact hungrab.1.trans (acts_takeGrab (hungrab.2 (by simpa using hok)) answers)

theorem acts_step (hs : Fastened s) {e : Event} (hstep : s.step e = some t) : Acts s t := by
  cases e with
  | lanes e =>
    rw [step] at hstep
    split at hstep
    · exact absurd hstep (by simp)
    · rename_i hreader
      obtain ⟨_, hlanes, rfl⟩ := Option.map_eq_some_iff.mp hstep
      exact .single (.lanes (by simpa using hreader) hlanes)
  | track i =>
    rw [step] at hstep
    split at hstep
    · exact absurd hstep (by simp)
    · cases hstep
      exact .single (.flagged i _ rfl rfl (fun h => ⟨h, rfl⟩) fun h => .inl h)
  | ensureForwarding i info now =>
    cases hstep
    exact acts_ensureForwarding s i info now
  | cloneAdmitted i =>
    rw [step] at hstep
    split at hstep
    · exact absurd hstep (by simp)
    · cases hstep
      exact .single (.flagged i _ rfl rfl (fun h => ⟨h, hs i h⟩) fun h => .inl h)
  | sinkAdmitted generation =>
    cases hstep
    exact .single (.policy s.blockKeyboard s.blockMouse generation)
  | setBlockInput keyboard mouse =>
    cases hstep
    exact .single (.policy keyboard mouse s.sinkAdmittedGeneration)
  | read i e =>
    rw [step] at hstep
    split at hstep
    · cases hstep
      exact (acts_handleInputEvent s i e).1
    · exact absurd hstep (by simp)
  | grab i answers =>
    cases hstep
    exact acts_grabDevice hs i answers
  | ungrab i answers =>
    cases hstep
    exact (acts_ungrabDevice hs i answers).1
  | settle i keys room =>
    cases hstep
    exact (acts_settleUngrabHolds s i keys room).1
  | retire i now =>
    rw [step] at hstep
    split at hstep
    · exact absurd hstep (by simp)
    · cases hstep
      exact .single (.closed i now)
  | close i now =>
    cases hstep
    exact acts_closeTrackedDevice s i now

theorem invariant_of_acts {outcome : Nat → Option Nat} {absOpens : Bool}
    (hstart : P (start outcome absOpens)) (hact : ∀ {s t}, Act s t → P s → P t)
    (h : Reaches step always (start outcome absOpens) s) : P s := by
  have hboth : Fastened s ∧ P s := by
    refine h.invariant (P := fun s => Fastened s ∧ P s) ⟨?_, hstart⟩ ?_
    · exact fun i h => absurd h false_ne_true
    · intro s e t hs _ hstep
      have hacts := acts_step hs.1 hstep
      exact ⟨hacts.fastened hs.1, hacts.invariant hact hs.2⟩
  exact hboth.2

end KeysharpInput.Grabs
