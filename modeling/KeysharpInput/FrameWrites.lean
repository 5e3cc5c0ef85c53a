import KeysharpInput.ClientWire
import KeysharpInput.Transition

/-!
Frames that the threads of the daemon write to one socket.
`hook_send_ref_send` keeps the send mutex until its frame is written or the socket is shut down.
`hook_send_ref_try_send` leaves the mutex before it invalidates a stream on which it wrote a part
of a frame, so another sender may come in between.
-/

namespace KeysharpInput.FrameWrites

open List Transition Client

abbrev Written := OutFrame × Nat

/-- A thread that has the send mutex, for a blocking send or for a single `sendmsg`. -/
structure Turn where
  frame : OutFrame
  written : Nat := 0
  blocking : Bool

structure State where
  valid : Bool := true
  shutDown : Bool := false
  turn : Option Turn := none
  /-- A `sendmsg` wrote a part of a frame. -/
  torn : Bool := false
  log : List Written := []

inductive Event
  /-- `hook_send_ref_send` or `hook_send_ref_try_send` gets the mutex. -/
  | lock (blocking : Bool) (frame : OutFrame)
  /-- A `write` of `write_exact`, which writes the header before the payload. -/
  | write (n : Nat)
  /-- `EINTR`, or the socket drains within the budget. -/
  | retry
  /-- A blocking send ends with its frame written, or refuses it. -/
  | finish
  /-- An error, a hang-up or an exhausted budget in `write_exact`. -/
  | fail
  /-- `sendmsg` takes so many bytes; none when it fails. -/
  | sendmsg (n : Nat)
  /-- The exchange of `hook_send_ref_invalidate`. -/
  | invalidate
  /-- The shutdown of `hook_send_ref_invalidate`. -/
  | shutdown

namespace State

variable {s t : State} {turn : Turn} {n : Nat} {e : Event}

def unlock (s : State) (turn : Turn) (n : Nat) : State :=
  { s with turn := none, log := s.log ++ [(turn.frame, n)] }

def step (s : State) : Event → Option State
  | .lock blocking frame =>
    if s.turn.isSome then none
    else some (if s.valid then { s with turn := some { frame, blocking } } else s)
  | .write n => s.turn.bind fun turn =>
    let stop := if turn.written < frameHeaderSize then frameHeaderSize else turn.frame.bytes.length
    if turn.blocking = true ∧ s.shutDown = false ∧ 0 < n ∧ turn.written + n ≤ stop then
      some { s with turn := some { turn with written := turn.written + n } }
    else none
  | .retry => some s
  | .finish => s.turn.bind fun turn =>
    if turn.blocking = true ∧ (turn.written = 0 ∨ turn.written = turn.frame.bytes.length) then
      some (s.unlock turn turn.written)
    else none
  | .fail => s.turn.bind fun turn =>
    if turn.blocking = true then some { s.unlock turn turn.written with shutDown := true }
    else none
  | .sendmsg n => s.turn.bind fun turn =>
    if turn.blocking = false ∧ n ≤ turn.frame.bytes.length ∧ (s.shutDown = true → n = 0) then
      some { s.unlock turn n with torn := s.torn || 0 < n && n < turn.frame.bytes.length }
    else none
  | .invalidate => some { s with valid := false }
  | .shutdown => if s.valid then none else some { s with shutDown := true }

def turns (s : State) : List Written := s.log ++ (s.turn.map fun t => (t.frame, t.written)).toList

def socket (s : State) : List Nat := (s.turns.map fun p => p.1.bytes.take p.2).flatten

def closes (s : State) : Event → Bool
  | .lock .. => !s.valid || !s.torn
  | _ => true

def Unbroken (p : Written) : Prop := p.2 = 0 ∨ p.2 = p.1.bytes.length

def Ordered (l : List Written) : Prop := l.Pairwise fun p q => 0 < q.2 → Unbroken p

structure Framed (s : State) : Prop where
  ordered : Ordered s.turns
  unbroken : s.shutDown = true ∨ (s.turn = none ∧ s.torn = true) ∨ ∀ p ∈ s.log, Unbroken p

theorem Framed.holder (h : s.Framed) (hturn : s.turn = some turn) :
    s.shutDown = true ∨ ∀ p ∈ s.log, Unbroken p := by
  have hunbroken := h.unbroken
  simpa [hturn] using hunbroken

theorem Framed.advance (h : s.Framed) (hturn : s.turn = some turn)
    (hopen : s.shutDown = true → n = turn.written ∨ n = 0) :
    Ordered (s.log ++ [(turn.frame, n)]) := by
  have hordered := h.ordered
  simp only [Ordered, turns, hturn, Option.map_some, Option.toList_some, pairwise_append,
    mem_singleton, forall_eq, pairwise_singleton, true_and] at hordered ⊢
  refine ⟨hordered.1, fun p hp hn => ?_⟩
  rcases h.holder hturn with hshut | hall
  · rcases hopen hshut with rfl | rfl
    · exact hordered.2 p hp hn
    · exact absurd hn (Nat.lt_irrefl 0)
  · exact hall p hp

theorem Framed.log (h : s.Framed) (hturn : s.turn = some turn) (hn : Unbroken (turn.frame, n)) :
    s.shutDown = true ∨ ∀ p ∈ (s.unlock turn n).log, Unbroken p := by
  refine (h.holder hturn).imp_right fun hall p hp => ?_
  rcases mem_append.mp hp with hp | hp
  · exact hall p hp
  · exact mem_singleton.mp hp ▸ hn

theorem Framed.step (h : s.Framed) (hguard : s.closes e = true) (hstep : s.step e = some t) :
    t.Framed := by
  cases e with
  | lock blocking frame =>
    obtain ⟨hfree, ⟨⟩⟩ := Option.ite_none_left_eq_some.mp hstep
    split
    · rename_i hvalid
      have htorn : s.torn = false := by simpa [closes, hvalid] using hguard
      have hordered := h.ordered
      have hunbroken := h.unbroken
      simp only [Ordered, turns, Option.not_isSome_iff_eq_none.mp hfree, Option.map_none,
        Option.toList_none, append_nil] at hordered
      refine ⟨by simp [Ordered, turns, pairwise_append, hordered], ?_⟩
      simpa [htorn] using hunbroken
    · exact h
  | write n =>
    obtain ⟨turn, hturn, hstep⟩ := Option.bind_eq_some_iff.mp hstep
    obtain ⟨⟨-, hopen, -⟩, ⟨⟩⟩ := Option.ite_none_right_eq_some.mp hstep
    have hordered := h.advance (n := turn.written + n) hturn (by simp [hopen])
    exact ⟨hordered, (h.holder hturn).imp_right .inr⟩
  | retry => exact Option.some.inj hstep ▸ h
  | finish =>
    obtain ⟨turn, hturn, hstep⟩ := Option.bind_eq_some_iff.mp hstep
    obtain ⟨⟨-, hwhole⟩, ⟨⟩⟩ := Option.ite_none_right_eq_some.mp hstep
    refine ⟨?_, (h.log hturn hwhole).imp_right .inr⟩
    simpa [turns, unlock] using h.advance hturn fun _ => .inl rfl
  | fail =>
    obtain ⟨turn, hturn, hstep⟩ := Option.bind_eq_some_iff.mp hstep
    obtain ⟨-, ⟨⟩⟩ := Option.ite_none_right_eq_some.mp hstep
    refine ⟨?_, .inl rfl⟩
    simpa [turns, unlock] using h.advance hturn fun _ => .inl rfl
  | sendmsg n =>
    obtain ⟨turn, hturn, hstep⟩ := Option.bind_eq_some_iff.mp hstep
    obtain ⟨⟨-, hn, hopen⟩, ⟨⟩⟩ := Option.ite_none_right_eq_some.mp hstep
    refine ⟨?_, ?_⟩
    · simpa [turns, unlock] using h.advance hturn fun hshut => .inr (hopen hshut)
    · by_cases hpart : 0 < n ∧ n < turn.frame.bytes.length
      · exact .inr (.inl ⟨rfl, by simp [hpart]⟩)
      · refine (h.log hturn ?_).imp_right .inr
        unfold Unbroken
        dsimp only
        omega
  | invalidate => exact Option.some.inj hstep ▸ ⟨h.ordered, h.unbroken⟩
  | shutdown =>
    obtain ⟨-, ⟨⟩⟩ := Option.ite_none_left_eq_some.mp hstep
    exact ⟨h.ordered, .inl rfl⟩

theorem part_of_ordered {l : List Written} (h : Ordered l) :
    (l.map fun p => p.1.bytes.take p.2).flatten <+:
      ((l.filter (0 < ·.2)).map (·.1.bytes)).flatten := by
  induction l with
  | nil => exact nil_prefix
  | cons p l ih =>
    obtain ⟨hp, hl⟩ := pairwise_cons.mp h
    rw [map_cons, flatten_cons]
    rcases Nat.eq_zero_or_pos p.2 with hzero | hpos
    · simpa [hzero] using ih hl
    rw [filter_cons_of_pos (by simpa using hpos), map_cons, flatten_cons]
    by_cases hwhole : p.2 = p.1.bytes.length
    · rw [hwhole, take_length]
      exact (prefix_append_right_inj _).mpr (ih hl)
    · have hnone : (l.map fun q => q.1.bytes.take q.2).flatten = [] := by
        simp only [flatten_eq_nil_iff, mem_map, forall_exists_index, and_imp]
        rintro _ q hq rfl
        have hq0 : ¬0 < q.2 := fun hq0 => (hp q hq hq0).elim (Nat.ne_of_gt hpos) hwhole
        simp [Nat.eq_zero_of_not_pos hq0]
      rw [hnone, append_nil]
      exact ( take_prefix _ _).trans ( prefix_append _ _)

end State

/-- Once a part of a frame is on the socket no other frame gets a byte. -/
theorem frames_unbroken {s : State}
    (h : Reaches State.step (fun s e => s.closes e = true) {} s) :
    (∃ frames : List OutFrame, (∀ f ∈ frames, ∃ n, (f, n) ∈ s.turns) ∧
      s.socket <+: (frames.map (·.bytes)).flatten) ∧
    s.turns.Pairwise fun p q => 0 < q.2 → p.2 = 0 ∨ p.2 = p.1.bytes.length := by
  have hframed := h.invariant (P := State.Framed) ⟨.nil, .inr (.inr nofun)⟩
    fun _ _ _ hs hguard hstep => hs.step hguard hstep
  have hpart := State.part_of_ordered hframed.ordered
  refine ⟨⟨(s.turns.filter (0 < ·.2)).map (·.1), fun f hf => ?_, ?_⟩, hframed.ordered⟩
  · obtain ⟨p, hp, rfl⟩ := mem_map.mp hf
    exact ⟨p.2, (mem_filter.mp hp).1⟩
  · rw [map_map]
    exact hpart

def bareFrame : OutFrame := ⟨1, 0, 1, []⟩

theorem frames_unbroken_failed :
    ∃ s, Reaches State.step (fun s e => s.closes e = true) {} s ∧ s.turns = [(bareFrame, 1)] ∧
      s.turns.Pairwise fun p q => 0 < q.2 → p.2 = 0 ∨ p.2 = p.1.bytes.length := by
  obtain ⟨s, hs, hturns⟩ := exists_reaches_of_check State.step State.closes {}
    [.lock true bareFrame, .write 1, .retry, .fail] (q := fun s => s.turns = [(bareFrame, 1)])
    (by decide) (by decide)
  exact ⟨s, hs, hturns, (frames_unbroken hs).2⟩

/-- A frame is written behind a part of another one, whose sender left the mutex before it
invalidated the stream. -/
theorem frame_behind_part :
    ∃ s, Reaches State.step always {} s ∧ s.turns = [(bareFrame, 1), (bareFrame, 24)] ∧
      ∀ frames : List OutFrame, ¬s.socket <+: (frames.map (·.bytes)).flatten := by
  obtain ⟨s, hs, hturns⟩ := exists_reaches State.step {}
    [.lock false bareFrame, .sendmsg 1, .lock true bareFrame, .write 24, .finish]
    (q := fun s => s.turns = [(bareFrame, 1), (bareFrame, 24)]) (by decide)
  refine ⟨s, hs, hturns, fun frames hpart => ?_⟩
  have hsocket : s.socket = 0x4b :: bareFrame.bytes := by
    rw [State.socket, hturns]
    decide
  rw [hsocket] at hpart
  cases frames with
  | nil => simp at hpart
  | cons f frames => simp [OutFrame.bytes, WireHeader.encode, frameMagic] at hpart

end KeysharpInput.FrameWrites
