import KeysharpInput.SourceTables

/-!
What the forwarding functions are made of.
A source lets go of its keys when a grab ends, when it is closed or retired and when synthesis
takes a key from it. All of that comes down to holds of single keys, to reports that are ended and
to changes of the table that no holder of a key on the sink notices. A property of the output
side that those parts keep is kept by the functions.
-/

namespace KeysharpInput.Output

open List Finset ForwardKeys

def ForwardingDevice.holdsOnSink (d : ForwardingDevice) (c : Code) : Bool :=
  d.live && d.onSink c && c ∈ (d.views .applied).output

theorem output_foldl_note (events : List InputEvent) (keys : ForwardKeys) :
    (events.foldl (note true) keys).output = keys.output := by
  induction events generalizing keys with
  | nil => rfl
  | cons _ _ ih =>
    rw [foldl_cons, ih]
    unfold note
    split
    · rfl
    · split <;> rfl

namespace Forward

open ForwardingDevice

structure ForwardRule (P : Forward → Prop) : Prop where
  inert : ∀ {f f' : Forward}, P f → f'.uinput = f.uinput → f'.sink = f.sink →
    (∀ i c, (f'.device i).holdsOnSink c = (f.device i).holdsOnSink c) → P f'
  setOutput : ∀ {f : Forward}, P f → ∀ i view code held, P (f.setOutput i view code held)
  writeClone : ∀ {f : Forward}, P f → ∀ i events, P (f.writeClone i events).2
  endReport : ∀ {f : Forward}, P f → P (f.writeSink [synReport]).2

namespace ForwardRule

variable {P : Forward → Prop} {f : Forward} {i : Nat}

section

variable (hP : ForwardRule P)

include hP

section

variable (h : P f)

include h

theorem modifyDevice {g : ForwardingDevice → ForwardingDevice}
    (hg : ∀ c, (g (f.device i)).holdsOnSink c = (f.device i).holdsOnSink c) :
    P (f.modifyDevice i g) := by
  refine hP.inert h rfl rfl fun j c => ?_
  rw [device_modifyDevice]
  split
  · rename_i hj
    rw [hj.1, hg]
  · rfl

theorem releaseOutputs (i : Nat) (view : View) (keep : KeyBits) :
    P (f.releaseOutputs i view keep) := by
  unfold Forward.releaseOutputs
  generalize setBits (((f.device i).views view).output \ keep) = codes
  have hfold := foldlRecOn (motive := P) codes _ h
    fun f hf code _ => hP.setOutput hf i view code false
  refine hP.modifyDevice hfold fun c => ?_
  cases view <;> rfl

theorem endOpenReports (i : Nat) : P (f.endOpenReports i) := by
  unfold Forward.endOpenReports
  dsimp only
  have hsink : P (if (f.device i).sinkReportOpen then (f.writeSink [synReport]).2 else f) := by
    split
    · exact hP.endReport h
    · exact h
  generalize (if (f.device i).sinkReportOpen then _ else f) = f₁
    at hsink ⊢
  have hclone : P (if (f.device i).cloneReportOpen then (f₁.writeClone i [synReport]).2
      else f₁) := by
    split
    · exact hP.writeClone hsink i _
    · exact hsink
  exact hP.modifyDevice hclone fun c => rfl

theorem endGrabLocked (i : Nat) (view : View)
    (keep : Option KeyBits) : P (f.endGrabLocked i view keep) := by
  unfold Forward.endGrabLocked
  dsimp only
  generalize hg : Forward.releaseOutputs _ i view _ = g
  have hrelease : P g := by
    rw [← hg]
    refine hP.releaseOutputs ?_ i view _
    split
    · exact hP.endOpenReports h i
    · exact h
  refine hP.inert (hP.modifyDevice hrelease fun c => ?_) rfl rfl fun _ _ => rfl
  cases view <;> rfl

theorem forwardOpen (info : SourceInfo) : P (f.forwardOpen info).2 := by
  unfold Forward.forwardOpen
  split
  · exact h
  rename_i i hfree
  split
  · exact h
  -- The slot was free, and the new source holds nothing yet.
  have hclosed : (f.device i).isOpen = false := by simpa using find?_some hfree
  refine hP.inert h rfl rfl fun j c => ?_
  have hold : ∀ d : ForwardingDevice, d.isOpen = false → d.holdsOnSink c = false := fun d hd => by
    simp [holdsOnSink, live, hd]
  unfold Forward.device at hclosed ⊢
  split
  · rw [getElem?_set]
    split
    · rename_i hij
      rw [← hij, hold _ hclosed]
      simp [holdsOnSink]
    · rfl
  · rw [getElem?_append]
    split
    · rfl
    · rename_i hlength
      rw [getElem?_eq_none (Nat.not_lt.mp hlength), getElem?_singleton]
      split <;> simp [holdsOnSink]

theorem forwardEndGrab (target : Nat) : P (f.forwardEndGrab target).2.2 := by
  unfold Forward.forwardEndGrab
  split
  · exact h
  rename_i i _
  have hend := hP.endGrabLocked h i .enqueued none
  generalize f.endGrabLocked i .enqueued none = g at hend ⊢
  exact hP.inert (hP.modifyDevice hend fun c => rfl) rfl rfl fun _ _ => rfl

theorem forwardApplyEndGrab (next : Nat) (held : Option KeyBits) :
    P (f.forwardApplyEndGrab next held) := by
  unfold Forward.forwardApplyEndGrab
  split
  · exact h
  split
  · rename_i i _ _
    have hend := hP.endGrabLocked h i .applied held
    exact hP.modifyDevice hend fun c => rfl
  · exact h

theorem forwardClose (target : Nat) : P (f.forwardClose target) := by
  unfold Forward.forwardClose
  split
  · exact h
  · exact hP.inert (hP.modifyDevice h fun c => rfl) rfl rfl fun _ _ => rfl

theorem forwardApplyClose (target now : Nat) : P (f.forwardApplyClose target now) := by
  unfold Forward.forwardApplyClose
  split
  · exact h
  split
  · rename_i i _ _
    have hrelease := hP.releaseOutputs (hP.endOpenReports h i) i .applied ∅
    obtain ⟨_, hkeys, hcore⟩ := (touches_releaseOutputs (f.endOpenReports i) i .applied ∅).keys i
    generalize (f.endOpenReports i).releaseOutputs i .applied ∅ = g at hrelease hcore ⊢
    have hnone : ((g.device i).views .applied).output = ∅ := by
      rw [only, if_pos rfl] at hkeys
      have hviews := congrArg (fun d : ForwardingDevice => (d.views .applied).output) hcore
      rw [hkeys] at hviews
      exact hviews.trans (eq_empty_of_forall_notMem fun c hc =>
        notMem_empty c (mem_inter.mp hc).2)
    refine hP.inert (hP.modifyDevice hrelease fun c => ?_) rfl rfl fun _ _ => rfl
    split <;> simp [holdsOnSink, hnone]
  · exact h

theorem forwardCollect (now : Nat) : P (f.forwardCollect now) := by
  refine hP.inert h rfl rfl fun j c => ?_
  unfold Forward.device Forward.forwardCollect
  rw [getElem?_map]
  cases f.devices[j]? with
  | none => rfl
  | some d =>
    simp only [Option.map_some]
    split
    · rename_i hretired
      simp only [Bool.and_eq_true] at hretired
      simp [holdsOnSink, live, hretired.1]
    · rfl

theorem forwardReleaseAll (view : View) : P (f.forwardReleaseAll view) := by
  refine foldlRecOn (motive := P) _ _ h fun g hg i _ => ?_
  split
  · exact hP.releaseOutputs hg i view ∅
  · exact hg

end

theorem shiftCode {acc : Bool × Forward} (h : P acc.2) (view : View) (restore : Bool) (i : Nat)
    (code : Code) : P (Forward.shiftCode view restore i acc code).2 := by
  unfold Forward.shiftCode
  dsimp only
  generalize (if restore then _ else _) = held
  split
  · exact h
  · refine hP.setOutput (hP.modifyDevice h fun c => ?_) i view code restore
    cases view <;> rfl

theorem shiftKey (h : P f) (code : Code) (view : View) (restore : Bool) :
    P (f.shiftKey code view restore).2 := by
  refine foldlRecOn (motive := fun acc : Bool × Forward => P acc.2)
    (range f.devices.length) _ h fun acc hacc i _ => ?_
  split
  · exact foldlRecOn (motive := fun acc : Bool × Forward => P acc.2)
      (codesOf code) _ hacc fun acc hacc code _ => hP.shiftCode hacc view restore i code
  · exact hacc

theorem noteSource (h : P f) (packet : ForwardPacket) (view : View) :
    P (f.noteSource packet view) := by
  unfold Forward.noteSource Forward.noteKeys
  split
  · exact h
  split
  · exact h
  refine hP.modifyDevice h fun c => ?_
  cases view with
  | applied =>
    simp [holdsOnSink, mapKeys, live, onSink, output_foldl_note]
  | enqueued => rfl

theorem noteOutput (h : P f) (packet : ForwardPacket) : P (f.noteOutput packet) := by
  unfold Forward.noteOutput Forward.noteKeys
  split
  · exact h
  split
  · exact h
  · exact hP.modifyDevice h fun c => rfl

end

end ForwardRule

end Forward

end KeysharpInput.Output
