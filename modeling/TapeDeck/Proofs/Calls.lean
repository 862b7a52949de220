import TapeDeck.Proofs.Loops

/-!
# What an owner does with a session

A session is driven by its owner, one call at a time: the owner selects a
tape, starts, stops and restarts the session, ticks it, hands it keys and
sets its observer.  Between calls it may also take pulses out of the sink,
one at a time or all at once, and reset the sink.  `Session.perform` carries
out one call and gives the pulses the session handed to its sink on the way;
`Session.performAll` carries out a list of calls.

*What reading leaves alone.*  Reading a tape moves its file and its
position, hands out bytes, logs and tells the observer; it never changes the
loop depth, the format, the counts of files the shelf opened and closed, or
the bytes of the open file (`Tape.Steady`, kept by every round).

*What calls keep.*  No call changes the loop depth, the capacity of the ring
or the depth of the sink (`Session.Kept`).

*The sink.*  A drain steps the generator only while the sink has room, and a
step gives at most one pulse, exactly when it reports `pulsed`
(`Generator.step_pulse_iff`).  So no pulse is ever written to a full sink:
whatever the calls, the sink counts as written exactly the pulses the session
handed to it, and its overflow flag is never raised by the session
(`Session.performAll_never_overflows`).

*The files.*  A session opens its file at the tick after a start and closes
it when it stops, when the file fails to open, and before opening it afresh.
Counted from the shelf the session was made with, the files opened and not
closed are exactly the file the session holds, none or one, and a session
that does not play holds none (`Session.performAll_balances_files`).
-/

namespace TapeDeck

/-! ## What reading leaves alone -/

namespace Tape

variable {t : Tape}

/-- What reading never changes: the loop depth, the format, the shelf's
counts of files opened and closed, and the bytes of the open file. -/
structure Steady (t t' : Tape) : Prop where
  loopDepth : t'.loopDepth = t.loopDepth
  format : t'.format = t.format
  opened : t'.shelf.opened = t.shelf.opened
  closed : t'.shelf.closed = t.shelf.closed
  bytes : t'.source.map (·.bytes) = t.source.map (·.bytes)

theorem Steady.refl (t : Tape) : Steady t t := ⟨rfl, rfl, rfl, rfl, rfl⟩

theorem Steady.trans {t₁ t₂ : Tape} (h₁ : Steady t t₁) (h₂ : Steady t₁ t₂) : Steady t t₂ :=
  ⟨h₂.loopDepth.trans h₁.loopDepth, h₂.format.trans h₁.format, h₂.opened.trans h₁.opened,
    h₂.closed.trans h₁.closed, h₂.bytes.trans h₁.bytes⟩

theorem Steady.isOpen {t' : Tape} (h : Steady t t') : t'.source.isSome = t.source.isSome := by
  simpa using congrArg Option.isSome h.bytes

/-- A change of the block and loop state alone. -/
theorem Steady.block (t : Tape) (fin : Bool) (hdr hp : List UInt8) (dp : Nat) (lp : List LoopFrame) :
    Steady t { t with finished := fin, header := hdr, headerPending := hp, dataPending := dp, loops := lp } :=
  ⟨rfl, rfl, rfl, rfl, rfl⟩

theorem steady_note (detail : String) : Steady t (t.note detail) := by
  rw [note_eq]
  exact ⟨rfl, rfl, rfl, rfl, rfl⟩

theorem steady_observe (o : Nat) (tm : Timing) (a : Action) : Steady t (t.observe o tm a) := by
  rw [observe_eq]
  exact ⟨rfl, rfl, rfl, rfl, rfl⟩

theorem steady_readBytes {n : Nat} {bs : List UInt8} {t' : Tape} (h : t.readBytes n = (bs, t')) :
    Steady t t' := by
  unfold readBytes at h
  split at h
  · next hs =>
    simp only [Prod.mk.injEq] at h
    rw [← h.2]
    exact Steady.refl t
  · next src hs =>
    simp only [Prod.mk.injEq] at h
    rw [← h.2]
    exact ⟨rfl, rfl, rfl, rfl, by simp [hs, Source.read]⟩

theorem steady_seekTo (o : Nat) : Steady t (t.seekTo o).1 := by
  rcases seekTo_eq t o with ⟨shelf, src, hsrc, h⟩ | ⟨shelf, log, console, h⟩ <;> rw [h]
  · -- a seek counts itself on the shelf and nothing else
    have hsh : shelf = { t.shelf with seeks := t.shelf.seeks + 1 } := by
      unfold seekTo at h
      rw [hsrc] at h
      rcases Shelf.seek_natCast t.shelf src o with h' | ⟨e, h'⟩ <;> simp [h'] at h
      exact h.symm
    exact ⟨rfl, rfl, by rw [hsh], by rw [hsh], by simp [hsrc]⟩
  · have hsh : shelf = t.shelf := by
      unfold seekTo at h
      split at h
      · simp only [Prod.mk.injEq] at h
        exact congrArg Tape.shelf h.1.symm
      · next src hsrc =>
        rcases Shelf.seek_natCast t.shelf src o with h' | ⟨e, h'⟩ <;> rw [h'] at h
        · simp at h
        · simp only [Prod.mk.injEq, and_true] at h
          rw [note_eq] at h
          exact congrArg Tape.shelf h.symm
    exact ⟨rfl, rfl, by rw [hsh], by rw [hsh], rfl⟩

/-- A seek whose failure finishes the tape. -/
theorem steady_seekOrFinish (o : Nat) :
    Steady t (match t.seekTo o with
      | (t, true) => t
      | (t, false) => { t with finished := true }) := by
  have h := steady_seekTo (t := t) o
  revert h
  rcases t.seekTo o with ⟨T, _ | _⟩ <;> intro h
  · exact ⟨h.loopDepth, h.format, h.opened, h.closed, h.bytes⟩
  · exact h

theorem steady_handleBlock (o : Nat) (tm : Timing) : Steady t (t.handleBlock o tm) := by
  unfold handleBlock
  dsimp only
  split
  · split
    · exact (Steady.block t t.finished t.header t.headerPending t.dataPending _).trans (steady_observe ..)
    · exact (steady_note _).trans (steady_observe ..)
  · split
    · split
      · exact steady_observe ..
      · split
        · exact ((Steady.block t t.finished t.header t.headerPending t.dataPending _).trans
            (steady_observe ..)).trans (steady_seekOrFinish _)
        · exact (Steady.block t t.finished t.header t.headerPending t.dataPending _).trans
            (steady_observe ..)
    · refine Steady.trans ?_ ((steady_observe ..).trans (steady_seekOrFinish _))
      split
      · exact steady_note _
      · exact Steady.refl t

/-- Every round leaves alone what reading never changes. -/
theorem steady_round (t : Tape) : Steady t t.round.tape := by
  unfold round
  dsimp only
  split
  · exact Steady.block t t.finished t.header _ t.dataPending t.loops
  · split
    · split
      · next b t₁ hr =>
        exact (steady_readBytes hr).trans (Steady.block _ t₁.finished t₁.header t₁.headerPending _ t₁.loops)
      · next bs t₁ _ hr =>
        exact (steady_readBytes hr).trans (Steady.block _ _ t₁.header t₁.headerPending _ t₁.loops)
    · split
      · exact Steady.refl t
      · split
        · exact Steady.block t _ t.header t.headerPending t.dataPending t.loops
        · split
          · next id t₁ hr₁ =>
            have h₁ := steady_readBytes hr₁
            generalize hr₂ : t₁.readBytes (headerSize id t₁.format - 1) = r₂
            obtain ⟨rest, t₂⟩ := r₂
            have h₂ := h₁.trans (steady_readBytes hr₂)
            dsimp only
            split
            · exact h₂.trans (Steady.block _ _ t₂.header t₂.headerPending t₂.dataPending t₂.loops)
            · split
              · exact (h₂.trans (Steady.block _ t₂.finished _ _ _ t₂.loops)).trans (steady_observe ..)
              · exact (h₂.trans (Steady.block _ t₂.finished _ t₂.headerPending t₂.dataPending
                  t₂.loops)).trans (steady_handleBlock ..)
          · next bs t₁ _ hr =>
            exact (steady_readBytes hr).trans (Steady.block _ _ t₁.header t₁.headerPending
              t₁.dataPending t₁.loops)

theorem Reads.steady {t' : Tape} {l : List UInt8} (h : Reads t l t') : Steady t t' := by
  induction h with
  | refl t => exact Steady.refl t
  | round _ ih => exact (steady_round _).trans ih

end Tape

/-! ## The sink -/

namespace Generator

/-- An outcome gives a pulse exactly when it reports one. -/
def Outcome.Honest (o : Outcome) : Prop := o.pulse.isSome = true ↔ o.result = .pulsed

variable {g : Generator} {r : ByteRing} {f : Bool}

theorem honest_pulsed (g : Generator) (r : ByteRing) (p : Pulse) : (pulsed g r p).Honest := by
  simp [pulsed, Outcome.Honest]

theorem honest_quiet {b : StepResult} (hb : b ≠ .pulsed) (g : Generator) (r : ByteRing) :
    (⟨b, none, g, r⟩ : Outcome).Honest := by
  simp [Outcome.Honest, hb]

theorem honest_starved (g : Generator) (r : ByteRing) (f : Bool) :
    ∀ o, g.starved r f = some o → o.Honest := by
  cases f <;> simp [Outcome.Honest]

/-- A part of a block gives a pulse exactly when it reports one, whatever it
reports when it gives nothing. -/
theorem honest_play {b : StepResult} (hb : b ≠ .pulsed) : (g.play r f b).Honest := by
  have hdata : ∀ o : Option Outcome, (∀ x, o = some x → x.Honest) → (o.getD ⟨b, none, g, r⟩).Honest := by
    intro o ho
    cases o with
    | none => exact honest_quiet hb g r
    | some x => exact ho x rfl
  cases hp : g.phase with
  | pilot | sync1 | sync2 | pause =>
    obtain ⟨g', p, hplay, -⟩ := play_lead (g := g) (by simp [hp]) (by simp [hp])
    rw [hplay]
    exact honest_pulsed ..
  | header => rw [play_header hp]; exact honest_quiet hb g r
  | data =>
    cases hc : g.timing.category with
    | audio =>
      rw [play_audio hp hc]
      refine hdata _ fun x hx => ?_
      by_cases h0 : g.dataBit = 0
      · cases hr : r.pull? with
        | none => exact honest_starved g r f x (by rw [← hx, audioStep_of_pull?_none h0 hr])
        | some q =>
          rw [audioStep_of_pull? h0 (show r.pull? = some (q.1, q.2) from hr)] at hx
          cases hx
          exact honest_pulsed ..
      · rw [audioStep_of_dataBit_ne_zero h0] at hx
        cases hx
        exact honest_pulsed ..
    | sequence =>
      rw [play_sequence hp hc]
      refine hdata _ fun x hx => ?_
      by_cases hl : r.toList.length < 2
      · exact honest_starved g r f x (by rw [← hx, sequenceStep_of_lt hl])
      · rw [sequenceStep_of_le (by omega)] at hx
        cases hx
        exact honest_pulsed ..
    | metadata =>
      rw [play_metadata hp hc]
      refine hdata _ fun x hx => ?_
      by_cases hl : r.toList = []
      · exact honest_starved g r f x (by rw [← hx, metadataStep_of_nil hl])
      · rw [metadataStep_of_ne_nil hl] at hx
        cases hx
        exact honest_quiet (by decide) _ _

/-- A step gives at most one pulse, and gives one exactly when it reports
`pulsed`. -/
theorem step_pulse_iff : (g.step r f).pulse.isSome = true ↔ (g.step r f).result = .pulsed := by
  show (g.step r f).Honest
  unfold step
  split
  · split
    · exact honest_play (by decide)
    · split
      · exact honest_quiet (by decide) _ _
      · exact honest_quiet (by decide) _ _
  · exact honest_play (by decide)

end Generator

namespace Session

/-- What a drain does: it steps the generator, each pulse going onto a sink
that has room, and leaves the session playing or stops it at the end of the
tape.  The ring keeps its capacity, and the sink its depth; the sink counts as
written every pulse handed to it, raises no flag, and holds them after what it
held, clamped. -/
theorem drain_shape (s : Session) :
    ∃ g r q, (s.drain.2 = { s with gen := g, ring := r, sink := q } ∨
        s.drain.2 = ({ s with gen := g, ring := r, sink := q }.note ("end of tape " ++ s.path)).stop) ∧
      r.capacity = s.ring.capacity ∧ q.depth = s.sink.depth ∧
      q.written = s.sink.written + s.drain.1.length ∧ q.overflow = s.sink.overflow ∧
      q.toList = s.sink.toList ++ s.drain.1.map fun p => ⟨min p.width maxWidth, p.high⟩ := by
  induction s using drain_induction with
  | halt s hgo =>
    rw [drain_eq, if_pos hgo]
    exact ⟨s.gen, s.ring, s.sink, .inl rfl, rfl, rfl, by simp, rfl, by simp⟩
  | next s hgo ih =>
    rw [drain_eq, if_neg (by simp [hgo])]
    have hfull : s.sink.isFull = false := (Bool.or_eq_false_iff.1 hgo).2
    have hroom : s.sink.toList.length < s.sink.depth := by
      have hle := s.sink.count_le
      rw [PulseQueue.isFull_eq, beq_eq_false_iff_ne, PulseQueue.length_toList] at hfull
      rw [PulseQueue.length_toList]
      omega
    have hpush : ∀ o : Option Pulse, (o.elim s.sink s.sink.push).depth = s.sink.depth ∧
        (o.elim s.sink s.sink.push).written = s.sink.written + o.toList.length ∧
        (o.elim s.sink s.sink.push).overflow = s.sink.overflow ∧
        (o.elim s.sink s.sink.push).toList =
          s.sink.toList ++ o.toList.map fun p => ⟨min p.width maxWidth, p.high⟩ := by
      intro o
      cases o with
      | none => exact ⟨rfl, rfl, rfl, by simp⟩
      | some p =>
        simp [Option.elim, PulseQueue.written_push_of_isFull_eq_false _ _ hfull,
          PulseQueue.overflow_push_of_isFull_eq_false _ _ hfull, PulseQueue.toList_push, hroom]
    have hcap := Generator.capacity_step s.gen s.ring s.finished
    dsimp only
    generalize s.gen.step s.ring s.finished = o at hcap ih ⊢
    obtain ⟨hd, hw, hov, hl⟩ := hpush o.pulse
    by_cases hi : o.result = .idle
    · rw [if_pos hi]
      exact ⟨o.gen, o.ring, _, .inl rfl, hcap, hd, hw, hov, hl⟩
    · rw [if_neg hi]
      by_cases he : o.result = .endOfTape
      · rw [if_pos he]
        exact ⟨o.gen, o.ring, _, .inr rfl, hcap, hd, hw, hov, hl⟩
      · rw [if_neg he]
        obtain ⟨g, r, q, hs, hr, hq, hqw, hqo, hql⟩ := ih hi he
        refine ⟨g, r, q, hs, hr.trans hcap, hq.trans hd, ?_, hqo.trans hov, ?_⟩
        · rw [hqw, hw, List.length_append]
          omega
        · rw [hql, hl, List.map_append, List.append_assoc]

variable {s : Session}

@[simp] theorem sink_fill (s : Session) : s.fill.sink = s.sink := by
  obtain ⟨-, -, -, -, h⟩ := fill_reads s
  rw [h]

@[simp] theorem sink_note (detail : String) : (s.note detail).sink = s.sink := rfl

@[simp] theorem sink_reset : s.reset.sink = s.sink := rfl

@[simp] theorem sink_close : s.close.sink = s.sink := rfl

@[simp] theorem sink_stop : s.stop.sink = s.sink := by
  unfold stop
  split <;> rfl

@[simp] theorem sink_reopened : s.reopened.sink = s.sink := rfl

@[simp] theorem sink_restart : s.restart.sink = s.sink := by
  unfold restart
  split <;> rfl

@[simp] theorem sink_start : s.start.sink = s.sink := by
  unfold start
  split
  · rfl
  · exact sink_restart

@[simp] theorem sink_handleKey (k : UInt8) : (s.handleKey k).1.sink = s.sink := by
  unfold handleKey
  split
  · rfl
  · split <;> simp

/-- A drain counts every pulse it hands over as written, raises no flag, and
leaves them in the sink after what it held, clamped. -/
theorem drain_sink (s : Session) :
    s.drain.2.sink.written = s.sink.written + s.drain.1.length ∧ s.drain.2.sink.overflow = s.sink.overflow ∧
      s.drain.2.sink.toList = s.sink.toList ++ s.drain.1.map fun p => ⟨min p.width maxWidth, p.high⟩ := by
  obtain ⟨g, r, q, hs, -, -, hw, ho, hl⟩ := drain_shape s
  rcases hs with hs | hs <;> rw [hs] <;> simp [hw, ho, hl]

/-- A tick writes to the sink the pulses it hands over, and nothing else: the
sink holds them, clamped, after what it held. -/
theorem advance_sink (s : Session) :
    s.advance.2.sink.written = s.sink.written + s.advance.1.length ∧
      s.advance.2.sink.overflow = s.sink.overflow ∧
      s.advance.2.sink.toList = s.sink.toList ++ s.advance.1.map fun p => ⟨min p.width maxWidth, p.high⟩ := by
  rw [advance_eq]
  split
  · simp
  · split
    · split
      · simpa using drain_sink s.reopened.fill
      · simp
    · simpa using drain_sink s.fill

/-- A call writes to the sink the pulses it hands over and nothing else, and
never raises the overflow flag; a reset of the sink lowers it. -/
theorem perform_sink (s : Session) (c : Call) :
    (s.perform c).2.sink.written = s.sink.written + (s.perform c).1.length ∧
      ((s.perform c).2.sink.overflow = true → s.sink.overflow = true) := by
  cases c with
  | select path => exact ⟨rfl, id⟩
  | start => simp [perform]
  | stop => simp [perform]
  | restart => simp [perform]
  | tick =>
    obtain ⟨hw, ho, -⟩ := advance_sink s
    exact ⟨hw, fun h => ho ▸ h⟩
  | key k => simp [perform]
  | watch o => exact ⟨rfl, id⟩
  | pop => simp [perform]
  | drainSink => simp [perform]
  | resetSink => simp [perform]

/-- Whatever the calls, and whatever the owner takes out of the sink or
resets in between, the session never writes a pulse to a full sink: a
generator step gives a pulse exactly when it reports `pulsed`, the sink counts
as written exactly the pulses the session handed to it, and the session never
raises the sink's overflow flag. -/
theorem performAll_never_overflows :
    (∀ (g : Generator) (r : ByteRing) (f : Bool),
      (g.step r f).pulse.isSome = true ↔ (g.step r f).result = .pulsed) ∧
    ∀ (s : Session) (cs : List Call),
      (s.performAll cs).2.sink.written = s.sink.written + (s.performAll cs).1.length ∧
      ((s.performAll cs).2.sink.overflow = true → s.sink.overflow = true) := by
  refine ⟨fun g r f => Generator.step_pulse_iff, fun s cs => ?_⟩
  induction cs generalizing s with
  | nil => exact ⟨by simp, id⟩
  | cons c cs ih =>
    obtain ⟨hw, ho⟩ := perform_sink s c
    obtain ⟨hw', ho'⟩ := ih (s.perform c).2
    rw [performAll_cons]
    refine ⟨?_, fun h => ho (ho' h)⟩
    rw [hw', hw, List.length_append]
    omega

end Session

/-! ## The files -/

/-- Opening a tape from a shelf gives a source and counts it as opened, or
gives an error and changes nothing. -/
theorem Shelf.openTape_cases (sh : Shelf) (name : String) (log : Log) :
    (∃ src, (sh.openTape name log).2.2 = .ok src ∧ (sh.openTape name log).1 = { sh with opened := sh.opened + 1 }) ∨
      (∃ e, (sh.openTape name log).2.2 = .error e ∧ (sh.openTape name log).1 = sh) := by
  unfold Shelf.openTape
  split
  · split
    · exact .inl ⟨_, rfl, rfl⟩
    · exact .inr ⟨_, rfl, rfl⟩
  · split
    · exact .inr ⟨_, rfl, rfl⟩
    · dsimp only
      split
      · exact .inl ⟨_, rfl, rfl⟩
      · exact .inr ⟨_, rfl, rfl⟩

/-- Files the shelf has opened and not closed. -/
def Shelf.unclosed (sh : Shelf) : Int := sh.opened - sh.closed

namespace Tape

variable {t : Tape}

/-- The files a tape holds: one while its file is open, none otherwise. -/
def holding (t : Tape) : Nat := if t.source.isSome then 1 else 0

/-- Files the shelf has opened and not closed, less the one the tape holds:
what no tape operation changes. -/
def balance (t : Tape) : Int := t.shelf.unclosed - t.holding

theorem Steady.balance {t' : Tape} (h : Steady t t') : t'.balance = t.balance := by
  simp only [Tape.balance, Shelf.unclosed, holding, h.opened, h.closed, h.isOpen]

/-- Closing the file counts it as closed, and the tape holds none. -/
theorem balance_close (t : Tape) : t.close.balance = t.balance ∧ t.close.source = none := by
  unfold close
  split
  · exact ⟨rfl, by assumption⟩
  · next src hs =>
    dsimp only
    have hc : ∀ T : Tape, T.shelf = (t.shelf.close src).1 → T.source = none → T.balance = t.balance := by
      intro T hsh hsrc
      rw [Shelf.close_fst] at hsh
      simp only [Tape.balance, Shelf.unclosed, holding, hsh, hsrc, hs]
      simp only [Option.isSome_none, Bool.false_eq_true, if_false, Option.isSome_some, if_true]
      omega
    split
    · exact ⟨hc _ (by rw [note_eq]) (by rw [note_eq]), by rw [note_eq]⟩
    · exact ⟨hc _ rfl rfl, rfl⟩

/-- Probing a freshly opened file for the preamble reads and seeks, and
counts no file as opened or closed. -/
theorem balance_probe {T R : Tape} {c : Prop} [Decidable c] {n : Nat} {ok : Bool}
    (h : (if c then
      (if isTzx (T.readBytes n).1 then
        ({ (T.readBytes n).2 with format := .tzx, pos := (T.readBytes n).1.length }, true)
      else (T.readBytes n).2.seekTo 0)
      else (T, true)) = (R, ok)) : R.balance = T.balance := by
  have hr : T.readBytes n = ((T.readBytes n).1, (T.readBytes n).2) := rfl
  split at h
  · split at h
    · cases h
      exact (steady_readBytes hr).balance
    · have h' := steady_seekTo (t := (T.readBytes n).2) 0
      rw [h] at h'
      exact ((steady_readBytes hr).trans h').balance
  · cases h
    rfl

/-- Opening a file afresh closes the old one first, and counts the new one as
opened exactly when the tape then holds it. -/
theorem balance_openTape (t : Tape) (path : String) : (t.openTape path).1.balance = t.balance := by
  obtain ⟨hb, hnone⟩ := balance_close t
  have hcases := Shelf.openTape_cases t.close.shelf path t.close.log
  unfold openTape
  dsimp only
  rcases hopen : t.close.shelf.openTape path t.close.log with ⟨sh, lg, e | src⟩
  · -- no file: the shelf is as the close left it
    have hsh : sh = t.close.shelf := by
      rcases hcases with ⟨src, hok, -⟩ | ⟨e', -, hsh⟩ <;> rw [hopen] at *
      · cases hok
      · exact hsh
    dsimp only
    rw [(steady_note _).balance, ← hb]
    simp only [Tape.balance, Shelf.unclosed, holding, hsh]
  · have hsh : sh = { t.close.shelf with opened := t.close.shelf.opened + 1 } := by
      rcases hcases with ⟨src', -, hsh⟩ | ⟨e', herr, -⟩ <;> rw [hopen] at *
      · exact hsh
      · cases herr
    have hT : ({ t.close with
        shelf := sh, log := lg, source := some src, size := src.size, pos := 0, format := .tap } : Tape).balance =
        t.balance := by
      rw [← hb]
      simp only [Tape.balance, Shelf.unclosed, holding, hsh, hnone]
      simp only [Option.isSome_some, if_true, Option.isSome_none, Bool.false_eq_true, if_false]
      omega
    dsimp only
    split
    · next R h => exact ((steady_note _).balance.trans (balance_probe h)).trans hT
    · next R h => exact (balance_probe h).trans hT

end Tape

namespace Session

variable {s : Session} {b : Int}

@[simp] theorem started_reset : s.reset.started = s.started := rfl

@[simp] theorem started_reopened : s.reopened.started = s.started := rfl

/-- The files of a session are accounted for: the shelf has opened and not
closed `b` files besides the one the session holds, and a session that does
not play holds none. -/
structure Accounted (b : Int) (s : Session) : Prop where
  balance : s.toTape.balance = b
  idle : s.started = false → s.source = none

theorem Accounted.note (h : Accounted b s) (detail : String) : Accounted b (s.note detail) :=
  ⟨(Tape.steady_note detail).balance.trans h.balance, by rw [Session.note, Tape.note_eq]; exact h.idle⟩

theorem Accounted.reset (h : Accounted b s) : Accounted b s.reset :=
  ⟨(Tape.Steady.block s.toTape false s.header [] 0 []).balance.trans h.balance, h.idle⟩

/-- A closed session holds no file, and its shelf has counted the close. -/
theorem accounted_close (h : s.toTape.balance = b) : Accounted b s.close :=
  ⟨(Tape.balance_close s.toTape).1.trans h, fun _ => (Tape.balance_close s.toTape).2⟩

theorem Accounted.stop (h : Accounted b s) : Accounted b s.stop := by
  unfold Session.stop
  split
  · exact h
  · exact accounted_close h.reset.balance

theorem Accounted.restart (h : Accounted b s) : Accounted b s.restart := by
  unfold Session.restart
  split
  · exact h.note _
  · exact ⟨h.reset.balance, fun h' => by cases h'⟩

theorem Accounted.start (h : Accounted b s) : Accounted b s.start := by
  unfold Session.start
  split
  · exact h
  · exact h.restart

theorem Accounted.fill (h : Accounted b s) : Accounted b s.fill := by
  obtain ⟨l, hr, -, -, hfill⟩ := fill_reads s
  have hst := hr.steady
  refine ⟨hst.balance.trans h.balance, fun hs => ?_⟩
  have hs' : s.started = false := by rw [hfill] at hs; exact hs
  have hsrc := hst.isOpen
  rw [show s.fill.toTape.source = s.fill.source from rfl, h.idle hs'] at hsrc
  simpa using hsrc

theorem Accounted.drain (h : Accounted b s) : Accounted b s.drain.2 := by
  obtain ⟨g, r, q, hs, -⟩ := drain_shape s
  have h' : Accounted b { s with gen := g, ring := r, sink := q } := ⟨h.balance, h.idle⟩
  rcases hs with hs | hs <;> rw [hs]
  · exact h'
  · exact (h'.note _).stop

/-- A tick keeps the files accounted for: the file opened at a start is
counted and held, one that fails to open, or to be probed, is closed at once,
and the end of the tape closes it. -/
theorem Accounted.advance (h : Accounted b s) : Accounted b s.advance.2 := by
  rw [advance_eq]
  split
  · exact h
  · next hst =>
    have hst' : s.started = true := by simpa using hst
    have hopen : (s.toTape.cleared.openTape s.path).1.balance = b :=
      (Tape.balance_openTape _ _).trans
        ((Tape.Steady.block s.toTape false s.header [] 0 []).balance.trans h.balance)
    split
    · split
      · exact (Accounted.fill ⟨hopen, fun h' => by simp [hst'] at h'⟩).drain
      · exact accounted_close hopen
    · exact h.fill.drain

theorem Accounted.perform (h : Accounted b s) (c : Call) : Accounted b (s.perform c).2 := by
  cases c with
  | select path => exact ⟨h.balance, h.idle⟩
  | start => exact h.start
  | stop => exact h.stop
  | restart => exact h.restart
  | tick => exact h.advance
  | key k =>
    show Accounted b (s.handleKey k).1
    unfold handleKey
    split
    · exact h
    · split
      · exact h.stop
      · exact h.start
  | watch o => exact ⟨h.balance, h.idle⟩
  | pop => exact ⟨h.balance, h.idle⟩
  | drainSink => exact ⟨h.balance, h.idle⟩
  | resetSink => exact ⟨h.balance, h.idle⟩

theorem Accounted.performAll (h : Accounted b s) (cs : List Call) : Accounted b (s.performAll cs).2 := by
  induction cs generalizing s with
  | nil => exact h
  | cons c cs ih => exact ih (h.perform c)

/-- Whatever the calls, and however the shelf misbehaves (tapes that do not
open, seeks that fail while probing a file or later, closes that report
errors), the files of a session made by `create` are accounted for: counted
from the shelf it was made with, the files opened and not closed are one
while the session holds a file and none otherwise, and a session that does
not play holds none.  As every prefix of the calls is itself a list of calls,
this holds after every call: no file is ever closed that is not open. -/
theorem performAll_balances_files (cfg : Config) (shelf : Shelf) (sink : PulseQueue) (log : Log)
    (cs : List Call) :
    (((create cfg shelf sink log).performAll cs).2.shelf.unclosed - shelf.unclosed =
      if ((create cfg shelf sink log).performAll cs).2.source.isSome then 1 else 0) ∧
    (((create cfg shelf sink log).performAll cs).2.started = false →
      ((create cfg shelf sink log).performAll cs).2.source = none ∧
      ((create cfg shelf sink log).performAll cs).2.shelf.unclosed = shelf.unclosed) := by
  have h₀ : Accounted shelf.unclosed (create cfg shelf sink log) :=
    ⟨by simp [Tape.balance, Tape.holding, create], fun _ => rfl⟩
  obtain ⟨hb, hidle⟩ := h₀.performAll cs
  have hb' : ((create cfg shelf sink log).performAll cs).2.shelf.unclosed - shelf.unclosed =
      ((create cfg shelf sink log).performAll cs).2.toTape.holding := by
    rw [← hb, Tape.balance]
    omega
  refine ⟨by rw [hb', Tape.holding]; split <;> rfl, fun hst => ⟨hidle hst, ?_⟩⟩
  have h0 : ((create cfg shelf sink log).performAll cs).2.toTape.holding = 0 := by
    simp [Tape.holding, show ((create cfg shelf sink log).performAll cs).2.toTape.source = none from hidle hst]
  omega

end Session

end TapeDeck
