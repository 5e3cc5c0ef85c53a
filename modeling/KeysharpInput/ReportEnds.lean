import KeysharpInput.ButtonPlacement
import KeysharpInput.Unicode

/-!
The reports of a synthesis batch.
A mouse record keeps two flags for the reports it has open, one for each generic device, while
buttons of the sink end a report as a side effect. As long as no write fails, a record that comes
to its end leaves neither device waiting. A record that is given up, for an X button that it does
not name or a hold that finds no place, may leave its motion in an unfinished report, which then
ends only with what the rest of the batch writes to the device.
-/

namespace KeysharpInput.Output

open List Nat

def lastEvent (device : OutputDevice) (ws : List Write) : Option InputEvent :=
  ((ws.filter (·.device = device)).flatMap (·.events)).getLast?

def Ended (device : OutputDevice) (ws : List Write) : Prop :=
  ∀ e, lastEvent device ws = some e → e = synReport

theorem Ended.append {device : OutputDevice} {ws : List Write} {w : Write}
    (h : if w.device = device then w.events.getLast? = some synReport else Ended device ws) :
    Ended device (ws ++ [w]) := by
  intro e he
  unfold lastEvent at he
  rw [filter_append, flatMap_append] at he
  by_cases hdevice : w.device = device
  · rw [if_pos hdevice] at h
    simp only [hdevice, decide_true, filter_cons_of_pos, filter_nil,
      flatMap_singleton, getLast?_append, h] at he
    exact (Option.some.inj he).symm
  · rw [if_neg hdevice] at h
    simp only [hdevice, decide_false, Bool.false_eq_true, not_false_eq_true,
      filter_cons_of_neg, filter_nil, flatMap_nil, append_nil] at he
    exact h e he

namespace Forward

variable {f₀ f f' : Forward} {rel abs rel' abs' : Bool}

/-- What was written since `f₀` ends with a report, on the sink unless `rel` holds and on the
absolute pointer unless `abs` holds. -/
structure Ends (f₀ : Forward) (rel abs : Bool) (f : Forward) : Prop where
  live : Live f
  written : ∃ ws, f.uinput.written = f₀.uinput.written ++ ws ∧ (rel = false → Ended .sink ws) ∧
    (abs = false → Ended .absolute ws)

namespace Ends

section

variable (h : Ends f₀ rel abs f)

include h

theorem mono (hrel : rel' = false → rel = false)
    (habs : abs' = false → abs = false) : Ends f₀ rel' abs' f := by
  obtain ⟨ws, hwritten, hsink, habsolute⟩ := h.written
  exact ⟨h.live, ws, hwritten, fun h => hsink (hrel h), fun h => habsolute (habs h)⟩

theorem write {device : OutputDevice} {events : List InputEvent}
    (hlive : Live f') (hwritten : f'.uinput.written = f.uinput.written ++ [⟨device, events⟩])
    (hrel : rel' = false → if device = .sink then events.getLast? = some synReport
      else rel = false)
    (habs : abs' = false → if device = .absolute then events.getLast? = some synReport
      else abs = false) : Ends f₀ rel' abs' f' := by
  obtain ⟨ws, hws, hsink, habsolute⟩ := h.written
  refine ⟨hlive, ws ++ [⟨device, events⟩], ?_, fun h => .append ?_, fun h => .append ?_⟩
  · rw [hwritten, hws, append_assoc]
  · have hend := hrel h
    split at hend
    · rwa [if_pos ‹_›]
    · rw [if_neg ‹_›]
      exact hsink hend
  · have hend := habs h
    split at hend
    · rwa [if_pos ‹_›]
    · rw [if_neg ‹_›]
      exact habsolute hend

theorem writeSink (events : List InputEvent) (hlast : events.getLast? = some synReport) :
    (f.writeSink events).1 = true ∧ Ends f₀ false abs (f.writeSink events).2 := by
  rw [h.live.writeSink_eq]
  exact ⟨rfl, h.write ⟨h.live.outcome, h.live.attached, h.live.sinkFailed⟩ rfl
    (fun _ => by rwa [if_pos rfl]) fun habs => by rwa [if_neg nofun]⟩

theorem reconcile (code : Code) :
    (f.reconcile code).1.isSome = true ∧ Ends f₀ rel abs (f.reconcile code).2 ∧
      ((f.reconcile code).1.any (0 < ·) = true → Ends f₀ false abs (f.reconcile code).2) := by
  unfold Forward.reconcile
  dsimp only
  split
  · exact ⟨rfl, h, nofun⟩
  unfold writeSinkKey
  obtain ⟨hok, hends⟩ := h.writeSink
    [keyEvent code (if f.sinkWants code then 1 else 0), synReport] rfl
  rw [hok]
  exact ⟨rfl, hends.mono (fun _ => rfl) id, fun _ => hends⟩

theorem tap (code : Code) : (f.tap code).1.isSome = true ∧ Ends f₀ rel abs (f.tap code).2 := by
  unfold Forward.tap
  dsimp only
  generalize (if decide (code ∈ f.sink.down) then (0 : Int) else 1) = first
  generalize (if decide (code ∈ f.sink.down) then (1 : Int) else 0) = second
  obtain ⟨hok, hends⟩ := h.writeSink
    [keyEvent code first, synReport, keyEvent code second, synReport] rfl
  rw [hok]
  exact ⟨rfl, hends.mono (fun _ => rfl) id⟩

theorem writeClone (i : Nat) (events : List InputEvent) :
    Ends f₀ rel abs (f.writeClone i events).2 := by
  unfold Forward.writeClone
  split
  · exact h
  · rw [h.live.outputWrite_eq]
    exact h.write ⟨h.live.outcome, h.live.attached, h.live.sinkFailed⟩ rfl
      (fun hrel => by rwa [if_neg nofun]) fun habs => by rwa [if_neg nofun]

theorem inert (huinput : f'.uinput = f.uinput) (hsink : f'.sink = f.sink) : Ends f₀ rel abs f' := by
  refine ⟨⟨?_, ?_, ?_⟩, ?_⟩
  · rw [huinput]
    exact h.live.outcome
  · rw [hsink]
    exact h.live.attached
  · rw [hsink]
    exact h.live.sinkFailed
  · rw [huinput]
    exact h.written

end

theorem rule (f₀ : Forward) (rel abs : Bool) : ForwardRule (Ends f₀ rel abs) where
  inert := fun h huinput hsink _ => h.inert huinput hsink
  setOutput := by
    intro f h i view code held
    unfold Forward.setOutput
    cases view with
    | enqueued => exact h.inert rfl rfl
    | applied =>
      have hnoted : Ends f₀ rel abs (f.modifyDevice i fun d => d.mapKeys .applied fun keys =>
          { keys with output := setKeyBit keys.output code held }) := h.inert rfl rfl
      dsimp only
      split
      · exact (hnoted.reconcile code).2.1
      split
      · exact hnoted.writeClone i _
      · exact hnoted
  writeClone := fun h i events => h.writeClone i events
  endReport := fun h => (h.writeSink _ rfl).2.mono (fun _ => rfl) id

end Ends

end Forward

namespace Backend

open Forward

variable {f₀ : Forward} {owner : SynthOwner} {rel abs rel' abs' : Bool} {b : Backend}

structure Writing (f₀ : Forward) (rel abs : Bool) (b : Backend) : Prop where
  ends : Ends f₀ rel abs b.forward
  failed : b.synthWriteFailed = false

def Stops (b : Backend) (moved active : Bool) (owner : SynthOwner)
    (transitions : List (Option Code × Bool)) (reports : OpenReports) : Prop :=
  ∃ before t after, transitions = before ++ t :: after ∧
    (b.routeMouseButtons moved active owner before reports).1 = true ∧
    ∀ button, t.1 = some button →
      ((b.routeMouseButtons moved active owner before reports).2.2.applyKey .applied button t.2
        (!moved) owner).1 = false

def routed (b : Backend) (input : MouseInput) (moved : Bool) (owner : SynthOwner) :
    Bool × OpenReports × Backend :=
  let motion := b.emitMotion input
  let wheels := motion.2.2.emitWheels input
  wheels.2.2.routeMouseButtons moved (moved && wheels.2.2.uinputAbsFd) owner
    (buttonTransitions input) { rel := motion.2.1 || wheels.2.1 }

def GivesUp (b : Backend) (input : MouseInput) (moved : Bool) (owner : SynthOwner) : Prop :=
  let motion := b.emitMotion input
  let wheels := motion.2.2.emitWheels input
  wheels.2.2.Stops moved (moved && wheels.2.2.uinputAbsFd) owner (buttonTransitions input)
    { rel := motion.2.1 || wheels.2.1 }

namespace Writing

section

variable (h : Writing f₀ rel abs b)

include h

theorem mono (hrel : rel' = false → rel = false)
    (habs : abs' = false → abs = false) : Writing f₀ rel' abs' b :=
  ⟨h.ends.mono hrel habs, h.failed⟩

theorem setHolds (holds : SynthHolds) : Writing f₀ rel abs (b.setHolds .applied holds) :=
  ⟨h.ends, h.failed⟩

theorem applyKey (code : Code) (down restore : Bool) (owner : SynthOwner) :
    Writing f₀ rel abs (b.applyKey .applied code down restore owner).2 := by
  unfold Backend.applyKey
  split
  · have hforward : Ends f₀ rel abs
        (if restore then b.forward.restoreKey code .applied else (false, b.forward)).2 := by
      split
      · exact (Ends.rule f₀ rel abs).shiftKey h.ends code .applied true
      · exact h.ends
    dsimp only
    generalize (if restore then _ else _) = r at hforward ⊢
    have hrestored : Writing f₀ rel abs { b with forward := r.2 } := ⟨hforward, h.failed⟩
    split
    · exact hrestored
    · exact hrestored.setHolds _
  split
  · split
    · exact h.setHolds _
    · exact h
  have hreleased : Writing f₀ rel abs
      { b with forward := b.forward.releaseKey code .applied } :=
    ⟨(Ends.rule f₀ rel abs).shiftKey h.ends code .applied false, h.failed⟩
  exact hreleased.setHolds _

theorem emit (device : OutputDevice) {event : InputEvent}
    (hrel : rel' = false → if device = .sink then [event].getLast? = some synReport
      else rel = false)
    (habs : abs' = false → if device = .absolute then [event].getLast? = some synReport
      else abs = false) : (b.emitEventTo device event).1 = true ∧
      Writing f₀ rel' abs' (b.emitEventTo device event).2 := by
  unfold emitEventTo
  rw [if_neg (by rw [h.failed]; nofun), h.ends.live.outputWrite_eq]
  exact ⟨rfl, h.ends.write ⟨h.ends.live.outcome, h.ends.live.attached, h.ends.live.sinkFailed⟩ rfl
    hrel habs, rfl⟩

theorem emitEvents {device : OutputDevice}
    (events : List InputEvent) (hrel : device = .sink → rel = true)
    (habs : device = .absolute → abs = true) : (b.emitEvents device events).1 = true ∧
      Writing f₀ rel abs (b.emitEvents device events).2 := by
  induction events generalizing b with
  | nil => exact ⟨rfl, h⟩
  | cons event events ih =>
    have hkept : ∀ {open' : Bool} {d : OutputDevice}, (device = d → open' = true) →
        open' = false → if device = d then [event].getLast? = some synReport
          else open' = false := by
      intro _ _ hopen hclosed
      split
      · exact absurd (hopen ‹_›) (by rw [hclosed]; nofun)
      · exact hclosed
    obtain ⟨hok, hfirst⟩ := h.emit device (hkept hrel) (hkept habs)
    unfold Backend.emitEvents
    dsimp only
    rw [if_pos hok]
    exact ih hfirst

theorem emitReport (events : List InputEvent) :
    (b.emitEvents .absolute (events ++ [synReport])).1 = true ∧
      Writing f₀ rel false (b.emitEvents .absolute (events ++ [synReport])).2 := by
  induction events generalizing b abs with
  | nil =>
    obtain ⟨hok, hlast⟩ : (b.emitEventTo .absolute synReport).1 = true ∧
        Writing f₀ rel false (b.emitEventTo .absolute synReport).2 :=
      h.emit .absolute (fun hrel => by rwa [if_neg (by decide)]) fun _ => rfl
    simp only [nil_append, Backend.emitEvents, hok, if_true]
    exact ⟨trivial, hlast⟩
  | cons event _ ih =>
    obtain ⟨hok, hfirst⟩ : (b.emitEventTo .absolute event).1 = true ∧
        Writing f₀ rel true (b.emitEventTo .absolute event).2 :=
      h.emit .absolute (fun hrel => by rwa [if_neg (by decide)]) (by simp)
    rw [cons_append]
    unfold Backend.emitEvents
    dsimp only
    rw [if_pos hok]
    exact ih hfirst

theorem sinkKey (code : Code) (held : Bool) :
    (b.sinkKey code held).1.isSome = true ∧ Writing f₀ rel abs (b.sinkKey code held).2 ∧
      ((b.sinkKey code held).1.any (0 < ·) = true →
        Writing f₀ false abs (b.sinkKey code held).2) := by
  have hset : Ends f₀ rel abs { b.forward with
      sink := { b.forward.sink with synth := setKeyBit b.forward.sink.synth code held } } :=
    ⟨⟨h.ends.live.outcome, h.ends.live.attached, h.ends.live.sinkFailed⟩, h.ends.written⟩
  obtain ⟨hsome, hends, hwritten⟩ := hset.reconcile code
  exact ⟨hsome, ⟨hends, h.failed⟩, fun hany => ⟨hwritten hany, h.failed⟩⟩

theorem updateGenericKey (code : Code) : (b.updateGenericKey code).1.isSome = true ∧
      Writing f₀ rel abs (b.updateGenericKey code).2 ∧
      ((b.updateGenericKey code).1.any (0 < ·) = true →
        Writing f₀ false abs (b.updateGenericKey code).2) := by
  unfold Backend.updateGenericKey
  dsimp only
  split
  · exact h.sinkKey code _
  split
  · exact ⟨rfl, h, nofun⟩
  have herased : Writing f₀ rel abs
      { b with buttonHeldOnAbs := b.buttonHeldOnAbs.erase code } := ⟨h.ends, h.failed⟩
  split
  · exact ⟨rfl, herased, nofun⟩
  obtain ⟨hok, hreport⟩ := herased.emitReport [keyEvent code 0]
  rw [singleton_append] at hok hreport
  rw [if_pos hok]
  exact ⟨rfl, hreport.mono id fun _ => rfl, nofun⟩

end

theorem routeMouseButton {reports : OpenReports} (h : Writing f₀ reports.rel reports.abs b)
    (button : Code) (down moved active : Bool) (owner : SynthOwner) :
    (b.routeMouseButton button down moved active reports owner).1 =
        (b.applyKey .applied button down (!moved) owner).1 ∧
      Writing f₀ (b.routeMouseButton button down moved active reports owner).2.1.rel
        (b.routeMouseButton button down moved active reports owner).2.1.abs
        (b.routeMouseButton button down moved active reports owner).2.2 := by
  have happlied := h.applyKey button down (!moved) owner
  unfold Backend.routeMouseButton
  dsimp only
  generalize b.applyKey .applied button down (!moved) owner = r at happlied ⊢
  obtain ⟨ok, b'⟩ := r
  cases ok with
  | false => exact ⟨rfl, happlied⟩
  | true =>
    simp only [Bool.not_true, Bool.false_eq_true, if_false]
    split
    · have hflag : Writing f₀ reports.rel reports.abs
          { b' with buttonHeldOnAbs := insert button b'.buttonHeldOnAbs } :=
        ⟨happlied.ends, happlied.failed⟩
      exact hflag.emit .absolute (fun hrel => by rwa [if_neg nofun]) nofun
    obtain ⟨hsome, hkept, hwritten⟩ := happlied.updateGenericKey button
    refine ⟨hsome, ?_⟩
    split
    · exact hwritten ‹_›
    · exact hkept

theorem routeMouseButtons (transitions : List (Option Code × Bool)) (reports : OpenReports)
    (h : Writing f₀ reports.rel reports.abs b) (moved active : Bool) (owner : SynthOwner) :
    Writing f₀ (b.routeMouseButtons moved active owner transitions reports).2.1.rel
      (b.routeMouseButtons moved active owner transitions reports).2.1.abs
      (b.routeMouseButtons moved active owner transitions reports).2.2 := by
  induction transitions generalizing b reports with
  | nil => exact h
  | cons transition _ ih =>
    obtain ⟨_ | button, down⟩ := transition
    · exact h
    have hfirst := (h.routeMouseButton button down moved active owner).2
    unfold Backend.routeMouseButtons
    dsimp only
    split
    · exact ih _ hfirst
    · exact hfirst

theorem emitMotion (h : Writing f₀ false false b) (input : MouseInput) :
    (b.emitMotion input).1 = true ∧
      Writing f₀ (b.emitMotion input).2.1 false (b.emitMotion input).2.2 := by
  unfold Backend.emitMotion
  split
  · exact ⟨rfl, h⟩
  split
  · split
    · exact ⟨rfl, h⟩
    · exact h.emitReport [⟨.abs, 0, input.dx⟩, ⟨.abs, 1, input.dy⟩]
  dsimp only
  generalize (if input.dx ≠ 0 then [InputEvent.mk .rel 0 input.dx] else []) ++
    (if input.dy ≠ 0 then [InputEvent.mk .rel 1 input.dy] else []) = events
  cases events with
  | nil => exact ⟨rfl, h⟩
  | cons =>
    have hopen : Writing f₀ true false b := h.mono nofun id
    exact hopen.emitEvents _ (fun _ => rfl) nofun

theorem wheels (h : Writing f₀ rel abs b) (vertical horizontal : Int) :
    Writing f₀ rel abs { b with
      wheelRemainder := vertical, horizontalWheelRemainder := horizontal } :=
  ⟨h.ends, h.failed⟩

theorem emitWheels (h : Writing f₀ rel false b) (input : MouseInput) :
    (b.emitWheels input).1 = true ∧
      Writing f₀ (rel || (b.emitWheels input).2.1) false (b.emitWheels input).2.2 := by
  by_cases hturned : .wheel ∈ input.flags ∨ .horizontalWheel ∈ input.flags
  · have hopen : Writing f₀ true false b := h.mono nofun id
    have hwheel : (if .wheel ∈ input.flags then b.emitWheel (toInt32 input.mouseData)
          else (true, b)).1 = true ∧ Writing f₀ true false (if .wheel ∈ input.flags then
          b.emitWheel (toInt32 input.mouseData) else (true, b)).2 := by
      split
      · exact (hopen.wheels _ b.horizontalWheelRemainder).emitEvents _ (fun _ => rfl) nofun
      · exact ⟨rfl, hopen⟩
    unfold Backend.emitWheels
    dsimp only
    rw [decide_eq_true hturned]
    generalize (if .wheel ∈ input.flags then _ else _) = r at hwheel ⊢
    rw [hwheel.1, if_neg (by nofun)]
    rw [Bool.or_true]
    split
    · exact (hwheel.2.wheels r.2.wheelRemainder _).emitEvents _ (fun _ => rfl) nofun
    · exact ⟨rfl, hwheel.2⟩
  · obtain ⟨hwheel, hhorizontal⟩ := not_or.mp hturned
    simp only [Backend.emitWheels, hwheel, hhorizontal, if_false, Bool.not_true,
      Bool.false_eq_true, or_self, decide_false, Bool.or_false]
    exact ⟨trivial, h⟩

theorem closeReports (reports : OpenReports) (h : Writing f₀ reports.rel reports.abs b) :
    Writing f₀ false false (b.closeReports reports).2 := by
  have hrel : (if reports.rel then b.emitEventTo .sink synReport else (true, b)).1 = true ∧
      Writing f₀ false reports.abs
        (if reports.rel then b.emitEventTo .sink synReport else (true, b)).2 := by
    split
    · exact h.emit .sink (fun _ => rfl) fun habs => by rwa [if_neg nofun]
    · rename_i hclosed
      exact ⟨rfl, h.mono (fun _ => Bool.not_eq_true _ ▸ hclosed) id⟩
  unfold Backend.closeReports
  dsimp only
  rw [hrel.1, if_neg (by nofun)]
  split
  · exact (hrel.2.emit .absolute (fun _ => by rw [if_neg nofun]) fun _ => rfl).2
  · rename_i hclosed
    exact hrel.2.mono id fun _ => Bool.not_eq_true _ ▸ hclosed

theorem stops_iff {transitions : List (Option Code × Bool)} (reports : OpenReports)
    (h : Writing f₀ reports.rel reports.abs b) (moved active : Bool) (owner : SynthOwner) :
    (b.routeMouseButtons moved active owner transitions reports).1 = false ↔
      b.Stops moved active owner transitions reports := by
  induction transitions generalizing b reports with
  | nil => simp [Backend.routeMouseButtons, Stops]
  | cons transition rest ih =>
    obtain ⟨_ | button, down⟩ := transition
    · simp only [Backend.routeMouseButtons, true_iff]
      exact ⟨[], (none, down), rest, rfl, rfl, by simp⟩
    obtain ⟨hok, hfirst⟩ := h.routeMouseButton button down moved active owner
    cases happlied : (b.applyKey .applied button down (!moved) owner).1 with
    | false =>
      simp only [Backend.routeMouseButtons, hok, happlied, Bool.false_eq_true, if_false, true_iff]
      refine ⟨[], (some button, down), rest, rfl, rfl, ?_⟩
      rintro _ ⟨⟩
      exact happlied
    | true =>
      rw [happlied] at hok
      simp only [Backend.routeMouseButtons, hok, if_true]
      rw [ih _ hfirst]
      constructor
      · rintro ⟨before, t, after, rfl, hbefore, hrefused⟩
        refine ⟨(some button, down) :: before, t, after, rfl, ?_, ?_⟩
        · simpa only [Backend.routeMouseButtons, hok, if_true] using hbefore
        · simpa only [Backend.routeMouseButtons, hok, if_true] using hrefused
      · rintro ⟨before, t, after, hsplit, hbefore, hrefused⟩
        cases before with
        | nil =>
          obtain ⟨rfl, -⟩ := cons.inj hsplit
          exact absurd (happlied.symm.trans (hrefused button rfl)) (by simp)
        | cons _ before =>
          obtain ⟨rfl, rfl⟩ := cons.inj hsplit
          simp only [Backend.routeMouseButtons, hok, if_true] at hbefore hrefused
          exact ⟨before, t, after, rfl, hbefore, hrefused⟩

theorem routed (h : Writing f₀ false false b) (input : MouseInput) (moved : Bool)
    (owner : SynthOwner) :
    (b.sendMouseInput input moved owner = if !(b.routed input moved owner).1
      then (false, (b.routed input moved owner).2.2)
      else (b.routed input moved owner).2.2.closeReports (b.routed input moved owner).2.1) ∧
    Writing f₀ (b.routed input moved owner).2.1.rel (b.routed input moved owner).2.1.abs
      (b.routed input moved owner).2.2 ∧
    ((b.routed input moved owner).1 = false ↔ b.GivesUp input moved owner) := by
  obtain ⟨hmotion, hmoved⟩ := h.emitMotion input
  obtain ⟨hwheels, hturned⟩ := hmoved.emitWheels input
  refine ⟨?_, Writing.routeMouseButtons _ { rel := _ || _ } hturned .., ?_⟩
  · simp only [Backend.sendMouseInput, hmotion, hwheels, Bool.not_true, Bool.false_eq_true,
      if_false]
    rfl
  · exact Writing.stops_iff { rel := _ || _ } hturned ..

theorem sendMouseInput (h : Writing f₀ false false b) (input : MouseInput) (moved : Bool)
    (owner : SynthOwner) : Writing f₀ true true (b.sendMouseInput input moved owner).2 ∧
      (¬ b.GivesUp input moved owner →
        Writing f₀ false false (b.sendMouseInput input moved owner).2) := by
  obtain ⟨heq, hrouted, hgives⟩ := h.routed input moved owner
  rw [heq, ← hgives]
  split
  · rename_i hgiven
    exact ⟨hrouted.mono nofun nofun, fun hnot => absurd (by simpa using hgiven) hnot⟩
  · have hclosed := closeReports _ hrouted
    exact ⟨hclosed.mono nofun nofun, fun _ => hclosed⟩

theorem sinkRepress (h : Writing f₀ rel abs b) (code : Code) :
    Writing f₀ rel abs { b with forward := (b.forward.sinkRepress code).2 } := by
  refine ⟨?_, h.failed⟩
  unfold Forward.sinkRepress
  split
  · exact (h.ends.tap code).2
  · exact h.ends

theorem sendKeyCode (h : Writing f₀ false false b) (keyCode : Code) (down : Bool) :
    Writing f₀ false false (b.sendKeyCode keyCode down owner).2 := by
  unfold Backend.sendKeyCode
  generalize canonicalButton keyCode = code
  have hrepress : Writing f₀ false false (if down && !(b.holds .applied).ownerHolds owner code
      then ((b.forward.sinkRepress code).1.isSome,
        { b with forward := (b.forward.sinkRepress code).2 }) else (true, b)).2 := by
    split
    · exact h.sinkRepress code
    · exact h
  dsimp only
  generalize (if down && _ then _ else _) = r at hrepress ⊢
  have happlied := hrepress.applyKey code down true owner
  split
  · exact (happlied.updateGenericKey code).2.1
  · exact happlied

end Writing

def writesSince (b b' : Backend) : List Write :=
  b'.forward.uinput.written.drop b.forward.uinput.written.length

variable {dead : Bool} {acc : Bool × Bool × Backend} {device : OutputDevice} {inputs : List Input}

theorem Writing.since (h : Writing b.forward rel abs acc.2.2) :
    acc.2.2.forward.uinput.written = b.forward.uinput.written ++ writesSince b acc.2.2 ∧
      (rel = false → Ended .sink (writesSince b acc.2.2)) ∧
      (abs = false → Ended .absolute (writesSince b acc.2.2)) := by
  obtain ⟨ws, hws, hended⟩ := h.ends.written
  have hsince : writesSince b acc.2.2 = ws := by
    rw [writesSince, hws, drop_left]
  exact hsince ▸ ⟨hws, hended⟩

theorem Writing.trans {b' : Backend} (h : Writing f₀ true true b)
    (g : Writing b.forward true true b') : Writing f₀ true true b' := by
  obtain ⟨ws, hws, -⟩ := h.ends.written
  obtain ⟨ws', hws', -⟩ := g.ends.written
  exact ⟨⟨g.ends.live, ws ++ ws', by rw [hws', hws, append_assoc], nofun, nofun⟩, g.failed⟩

section

variable (hlive : Live acc.2.2.forward) (hfailed : acc.2.2.synthWriteFailed = false)

include hlive hfailed

end

end Backend

end KeysharpInput.Output
