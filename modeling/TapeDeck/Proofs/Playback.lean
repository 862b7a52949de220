import TapeDeck.Proofs.Queue
import TapeDeck.Proofs.Reader
import TapeDeck.Proofs.Stream

/-!
# Playing a tape to its end

A session plays a tape tick by tick: each tick fills the ring with what the
tape reads and drains the generator into the sink.  This module follows a
session from the tick that opens its tape to the tick that stops it.

*Filling.*  Filling runs rounds of reading and pushes the bytes they hand
out onto the ring (`Session.fill_reads`); as it stops when the ring is
full, no byte is lost.  On a sound tape it is the loop of the program: the
test that each round takes the tape lower never stops it
(`Session.fill_eq`).

*Draining.*  Each generator step of a drain takes bytes from the front of
what is still to come, the ring and then the bytes the tape will read, and
gives the pulse `Generator.playAll` gives there (`Session.drain_spec`).
Draining too is the loop of the program: every step that neither waits nor
ends the tape lowers the generator's load (`Session.drain_eq`).
So the pulses a session hands to its sink, over all its ticks, are
`playAll` of the whole stream of bytes its tape reads, whatever the size of
the ring and of the sink.

*Progress.*  A tick that does not stop the session lowers
`Session.progress`: the rank of its tape and then the generator's load, in
lexicographic order.  A tick either reads on, and the rank falls; or finds
the ring full, and the generator, which never waits with two bytes in the
ring, lowers its load; or finds reading over, and the generator, which never
waits once nothing more will come, lowers its load.  So every session that
starts stops (`Session.run_stops_of_restart`), and two runs that differ in
their rings and sinks alone hand over the same pulses
(`Session.run_eq_of_restart`).
-/

namespace TapeDeck

/-! ## Opening a tape -/

theorem Loader.openSource_pos {l : Loader} {fs : FileStore} {log : Log} {src : Source}
    (h : (l.openSource fs log).2.2 = .ok src) : src.pos = 0 := by
  unfold Loader.openSource at h
  split at h
  · -- a tape loaded into memory
    split at h
    · cases h
    · cases h
      rfl
  · -- a local file, read whole
    dsimp only at h
    split at h
    · cases h
    · split at h
      · cases h
      · cases h
      · split at h
        · cases h
          rfl
        · cases h

/-- A source a shelf opens is at its start. -/
theorem Shelf.openTape_pos {sh sh' : Shelf} {name : String} {log log' : Log} {src : Source}
    (h : sh.openTape name log = (sh', log', .ok src)) : src.pos = 0 := by
  unfold Shelf.openTape at h
  split at h
  · -- a tape held in memory
    split at h
    · simp only [Prod.mk.injEq, Except.ok.injEq] at h
      rw [← h.2.2]
      rfl
    · simp at h
  · -- a file on disk, opened by its loader
    split at h
    · simp at h
    · dsimp only at h
      split at h
      · next hr =>
        simp only [Prod.mk.injEq, Except.ok.injEq] at h
        rw [← h.2.2]
        exact Loader.openSource_pos hr
      · simp at h

namespace Tape

/-- The tape with no block or loop in hand and reading not over, as a
restart leaves it. -/
def cleared (t : Tape) : Tape :=
  { t with finished := false, headerPending := [], dataPending := 0, loops := [] }

theorem close_frame (t : Tape) :
    t.close.loops = t.loops ∧ t.close.finished = t.finished ∧ t.close.loopDepth = t.loopDepth ∧
      t.close.headerPending = t.headerPending ∧ t.close.dataPending = t.dataPending := by
  unfold close
  split
  · exact ⟨rfl, rfl, rfl, rfl, rfl⟩
  · dsimp only
    split <;> exact ⟨rfl, rfl, rfl, rfl, rfl⟩

/-- Probing a freshly opened file for the TZX preamble keeps the reader where
it was and the file's position in step with the tape's. -/
theorem probe_frame {T T₁ : Tape} (hs : T.Synced) (h0 : T.pos = 0) {c : Prop} [Decidable c] {n : Nat}
    (h : (if c then
      (if isTzx (T.readBytes n).1 then
        ({ (T.readBytes n).2 with format := .tzx, pos := (T.readBytes n).1.length }, true)
      else (T.readBytes n).2.seekTo 0)
      else (T, true)) = (T₁, true)) :
    T₁.Synced ∧ T₁.loops = T.loops ∧ T₁.finished = T.finished ∧ T₁.loopDepth = T.loopDepth ∧
      T₁.headerPending = T.headerPending ∧ T₁.dataPending = T.dataPending := by
  split at h
  · have hs₂ := readBytes_synced hs n
    have hR : T.readBytes n = ((T.readBytes n).1, (T.readBytes n).2) := rfl
    obtain ⟨hp₂, hl₂, hD₂, hf₂, hh₂, hd₂, -, -⟩ := readBytes_frame hR
    split at h
    · -- a TZX file: reading goes on after the preamble
      simp only [Prod.mk.injEq, and_true] at h
      subst h
      refine ⟨?_, hl₂, hf₂, hD₂, hh₂, hd₂⟩
      intro src hsrc
      rw [hs₂ src hsrc, hp₂, h0, Nat.zero_add]
    · -- a TAP file: back to the start, unless the seek fails
      rcases seekTo_eq (T.readBytes n).2 0 with ⟨sh, src, -, h'⟩ | ⟨sh, lg, cs, h'⟩
      · rw [h', Prod.mk.injEq] at h
        obtain ⟨rfl, -⟩ := h
        refine ⟨?_, hl₂, hf₂, hD₂, hh₂, hd₂⟩
        intro src' hsrc
        simp only [Option.some.injEq] at hsrc
        rw [← hsrc]
      · rw [h'] at h
        simp at h
  · simp only [Prod.mk.injEq, and_true] at h
    subst h
    exact ⟨hs, rfl, rfl, rfl, rfl, rfl⟩

/-- A tape opened afresh has its file in step with it and keeps its block and
loop state. -/
theorem openTape_fresh {t : Tape} {path : String} (hok : (t.openTape path).2 = true) :
    (t.openTape path).1.Synced ∧ (t.openTape path).1.loops = t.loops ∧
      (t.openTape path).1.finished = t.finished ∧ (t.openTape path).1.loopDepth = t.loopDepth ∧
      (t.openTape path).1.headerPending = t.headerPending ∧
      (t.openTape path).1.dataPending = t.dataPending := by
  obtain ⟨hl, hf, hD, hh, hd⟩ := close_frame t
  unfold openTape at hok ⊢
  dsimp only at hok ⊢
  revert hok
  rcases hsh : t.close.shelf.openTape path t.close.log with ⟨shelf, log, e | src⟩
  · simp
  · have hpos := Shelf.openTape_pos hsh
    dsimp only
    split
    · next T₁ heq =>
      intro _
      have key := probe_frame ?_ rfl heq
      · obtain ⟨h1, h2, h3, h4, h5, h6⟩ := key
        exact ⟨h1, h2.trans hl, h3.trans hf, h4.trans hD, h5.trans hh, h6.trans hd⟩
      · intro s' h'
        simp only [Option.some.injEq] at h'
        rw [← h', hpos]
    · intro h
      simp at h

theorem openTape_sound {t : Tape} {path : String} (hok : (t.cleared.openTape path).2 = true) :
    (t.cleared.openTape path).1.Sound := by
  obtain ⟨h1, h2, h3, -, -, -⟩ := openTape_fresh hok
  have hl : (t.cleared.openTape path).1.loops = [] := h2
  have hf : (t.cleared.openTape path).1.finished = false := h3
  exact ⟨h1, by simp [hl], by simp [hl], by simp [hl], by simp [hf]⟩

end Tape

namespace Session

variable {s : Session}

/-! ## Filling -/

/-- A round of filling that goes on: the tape's round goes on, and its byte,
if any, goes onto the ring. -/
theorem fillStep_more {s' : Session} (h : s.fillStep = .more s') :
    s.toTape.round.more = true ∧
      s' = { s with toTape := s.toTape.round.tape, ring := s.toTape.round.byte.elim s.ring s.ring.push } := by
  unfold fillStep at h
  cases hm : s.toTape.round.more <;> cases hb : s.toTape.round.byte <;> simp_all

/-- A round of filling that stops the filling. -/
theorem fillStep_done {s' : Session} (h : s.fillStep = .done s') :
    s.toTape.round.more = false ∧
      s' = { s with toTape := s.toTape.round.tape, ring := s.toTape.round.byte.elim s.ring s.ring.push } := by
  unfold fillStep at h
  cases hm : s.toTape.round.more <;> cases hb : s.toTape.round.byte <;> simp_all

/-- A round on a ring with room pushes its byte, if any, and keeps the
ring's capacity. -/
theorem ring_round (hfree : ¬s.ring.free = 0) :
    (s.toTape.round.byte.elim s.ring s.ring.push).toList = s.ring.toList ++ s.toTape.round.byte.toList ∧
      (s.toTape.round.byte.elim s.ring s.ring.push).capacity = s.ring.capacity := by
  have hroom : s.ring.toList.length < s.ring.capacity := by
    simp only [ByteRing.free, ByteRing.occupied_eq_length] at hfree
    omega
  cases s.toTape.round.byte <;> simp [hroom]

/-- Filling runs rounds of reading and pushes the bytes they hand out onto
the ring, and changes nothing else. -/
theorem fillFrom_reads (s : Session) (before : Tape.Stand) :
    ∃ l, Tape.Reads s.toTape l (s.fillFrom before).toTape ∧
      (s.fillFrom before).ring.toList = s.ring.toList ++ l ∧
      (s.fillFrom before).ring.capacity = s.ring.capacity ∧
      s.fillFrom before = { s with toTape := (s.fillFrom before).toTape, ring := (s.fillFrom before).ring } := by
  induction s, before using fillFrom.induct with
  | case1 s before hfree =>
    rw [fillFrom, if_pos hfree]
    exact ⟨[], .refl _, by simp, rfl, rfl⟩
  | case2 s before hfree s' hstep _ hlow ih =>
    obtain ⟨l, hr, hl, hc, he⟩ := ih
    obtain ⟨hring, hcap⟩ := ring_round hfree
    rw [fillFrom, if_neg hfree, hstep]
    dsimp only
    rw [dif_pos hlow]
    obtain ⟨-, rfl⟩ := fillStep_more hstep
    refine ⟨s.toTape.round.byte.toList ++ l, .round hr, ?_, hc.trans hcap, he.trans rfl⟩
    rw [hl, hring, List.append_assoc]
  | case3 s before hfree s' hstep _ hlow =>
    obtain ⟨hring, hcap⟩ := ring_round hfree
    rw [fillFrom, if_neg hfree, hstep]
    dsimp only
    rw [dif_neg hlow]
    obtain ⟨-, rfl⟩ := fillStep_more hstep
    exact ⟨_, .single _, hring, hcap, rfl⟩
  | case4 s before hfree s' hstep =>
    have hs' := (fillStep_done hstep).2
    obtain ⟨hring, hcap⟩ := ring_round hfree
    rw [fillFrom, if_neg hfree, hstep]
    subst hs'
    exact ⟨_, .single _, hring, hcap, rfl⟩

theorem fill_reads (s : Session) :
    ∃ l, Tape.Reads s.toTape l s.fill.toTape ∧ s.fill.ring.toList = s.ring.toList ++ l ∧
      s.fill.ring.capacity = s.ring.capacity ∧ s.fill = { s with toTape := s.fill.toTape, ring := s.fill.ring } :=
  fillFrom_reads s s.toTape.stand

/-- On a sound tape filling is the loop of the program: rounds while the ring
has room, each round that goes on followed by the rest of the filling.  The
test that each round takes the tape lower never stops it early. -/
theorem fill_eq (hs : s.toTape.Sound) :
    s.fill =
      if s.ring.free = 0 then s
      else match s.fillStep with
        | .more s' => s'.fill
        | .done s' => s' := by
  rw [fill, fillFrom]
  split
  · rfl
  · cases hstep : s.fillStep with
    | more s' =>
      obtain ⟨hm, rfl⟩ := fillStep_more hstep
      dsimp only
      rw [dif_pos (hs.lowers_round hm)]
      rfl
    | done s' => rfl

/-- A fill reads on and lowers the rank of the tape; or finds the ring full
and does nothing; or stops at once, at a round that finishes the tape, with
the ring and the generator as they were. -/
theorem fill_progress (hs : s.toTape.Sound) :
    s.fill.toTape.rank s.loopDepth < s.toTape.rank s.loopDepth ∨
      (s.ring.free = 0 ∧ s.fill = s) ∨
      (s.fill.finished = true ∧ s.fill.ring = s.ring ∧ s.fill.gen = s.gen) := by
  rw [fill_eq hs]
  by_cases hfree : s.ring.free = 0
  · exact .inr (.inl ⟨hfree, by rw [if_pos hfree]⟩)
  · rw [if_neg hfree]
    obtain ⟨hsr, hD, hlt, hstop⟩ := Tape.round_step hs
    cases hstep : s.fillStep with
    | more s' =>
      obtain ⟨hm, hs'⟩ := fillStep_more hstep
      have ht : s'.toTape = s.toTape.round.tape := by rw [hs']
      obtain ⟨l, hr, -⟩ := fill_reads s'
      rw [ht] at hr
      have hle := (hr.rank_le hsr).2
      rw [hD] at hle
      exact .inl (lt_of_le_of_lt hle (hlt hm))
    | done s' =>
      obtain ⟨hm, rfl⟩ := fillStep_done hstep
      obtain ⟨hbyte, hfin, -⟩ := hstop hm
      exact .inr (.inr ⟨hfin, by simp [hbyte], rfl⟩)

/-! ## Draining -/

/-- A step short of the end of the tape does not raise the generator's
load, and lowers it when the ring holds two bytes or nothing more will
come. -/
theorem Generator.step_load_le {g : Generator} {r : ByteRing} {f : Bool}
    (h : (g.step r f).result ≠ .endOfTape) :
    toLex ((g.step r f).gen.load (g.step r f).ring.toList) ≤ toLex (g.load r.toList) ∧
      (f = true ∨ 2 ≤ r.toList.length →
        toLex ((g.step r f).gen.load (g.step r f).ring.toList) < toLex (g.load r.toList)) := by
  rcases Generator.step_load g r f with he | hlt | ⟨hf, -, heq, hl⟩
  · exact absurd he h
  · exact ⟨le_of_lt hlt, fun _ => hlt⟩
  · refine ⟨le_of_eq (congrArg toLex heq), ?_⟩
    rintro (hf' | h2)
    · rw [hf] at hf'
      cases hf'
    · omega

/-- A step that neither waits nor ends the tape lowers the generator's load,
as draining tests at each step. -/
theorem Generator.ringLoad_step {g : Generator} {r : ByteRing} {f : Bool}
    (hi : (g.step r f).result ≠ .idle) (he : (g.step r f).result ≠ .endOfTape) :
    Generator.loadLt ((g.step r f).gen.ringLoad (g.step r f).ring) (g.ringLoad r) = true := by
  rw [Generator.loadLt_iff, Generator.ringLoad_eq, Generator.ringLoad_eq]
  rcases Generator.step_load g r f with h | h | ⟨-, h, -⟩
  · exact absurd h he
  · exact h
  · exact absurd h hi

/-- Draining is the loop of the program: steps while the session plays and
the sink has room, each pulse going to the sink, until the generator waits
or the tape ends.  The test that each step lowers the load never stops it
early. -/
theorem drain_eq (s : Session) :
    s.drain =
      if !s.started || s.sink.isFull then ([], s)
      else
        let o := s.gen.step s.ring s.finished
        let s' := { s with gen := o.gen, ring := o.ring, sink := o.pulse.elim s.sink s.sink.push }
        if o.result = .idle then (o.pulse.toList, s')
        else if o.result = .endOfTape then (o.pulse.toList, (s'.note ("end of tape " ++ s.path)).stop)
        else (o.pulse.toList ++ s'.drain.1, s'.drain.2) := by
  rw [drain]
  split
  · rfl
  · dsimp only
    have hload := @Generator.ringLoad_step s.gen s.ring s.finished
    generalize s.gen.step s.ring s.finished = o at hload ⊢
    cases hr : o.result with
    | idle => cases o.pulse <;> rfl
    | endOfTape => cases o.pulse <;> rfl
    | pulsed =>
      have h := hload (by simp [hr]) (by simp [hr])
      dsimp only
      rw [dif_pos h]
      cases o.pulse <;> rfl
    | progress =>
      have h := hload (by simp [hr]) (by simp [hr])
      dsimp only
      rw [dif_pos h]
      cases o.pulse <;> rfl

/-- Induction along the drain loop: what holds where the loop stops, and
holds of a session whose step goes on whenever it holds after that step,
holds of every session. -/
theorem drain_induction {motive : Session → Prop}
    (halt : ∀ s : Session, (!s.started || s.sink.isFull) = true → motive s)
    (next : ∀ s : Session, (!s.started || s.sink.isFull) = false →
      ((s.gen.step s.ring s.finished).result ≠ .idle → (s.gen.step s.ring s.finished).result ≠ .endOfTape →
        motive { s with gen := (s.gen.step s.ring s.finished).gen, ring := (s.gen.step s.ring s.finished).ring,
                        sink := (s.gen.step s.ring s.finished).pulse.elim s.sink s.sink.push }) →
      motive s)
    (s : Session) : motive s := by
  induction s using drain.induct with
  | case1 s h => exact halt s h
  | case2 s h o sink s' _ _ _ ih =>
    refine next s (by simpa using h) (fun hi he => ?_)
    have hm := ih (Generator.ringLoad_step hi he)
    cases hp : (s.gen.step s.ring s.finished).pulse <;> simpa [s', sink, o, hp] using hm

/-- A drain steps the generator.  Either the session plays on, with its tape
as it was: the pulses handed over, followed by `playAll` of what is left of
the stream, are `playAll` of what there was, and the generator's load is no
higher, and lower when the sink had room and the ring was full or reading
over.  Or the drain came to the end of the tape: it handed over all that was
left, and stopped the session. -/
theorem drain_spec (s : Session) (hst : s.started = true) {τ : List UInt8}
    (hτ : s.finished = true → τ = []) :
    (∃ g r q, s.drain.2 = { s with gen := g, ring := r, sink := q } ∧
      s.drain.1 ++ g.playAll (r.toList ++ τ) = s.gen.playAll (s.ring.toList ++ τ) ∧
      toLex (g.load r.toList) ≤ toLex (s.gen.load s.ring.toList) ∧
      (s.sink.isFull = false → (s.finished = true ∨ 2 ≤ s.ring.toList.length) →
        toLex (g.load r.toList) < toLex (s.gen.load s.ring.toList)) ∧
      r.capacity = s.ring.capacity ∧ q.depth = s.sink.depth) ∨
    (s.finished = true ∧ s.drain.1 = s.gen.playAll (s.ring.toList ++ τ) ∧
      ∃ g r q, s.drain.2 =
        ({ s with gen := g, ring := r, sink := q }.note ("end of tape " ++ s.path)).stop) := by
  induction s using drain_induction with
  | halt s hgo =>
    have hfull : s.sink.isFull = true := by simpa [hst] using hgo
    rw [drain_eq, if_pos hgo]
    exact .inl ⟨s.gen, s.ring, s.sink, rfl, rfl, le_refl _, fun h => absurd hfull (by simp [h]),
      rfl, rfl⟩
  | next s hgo ih =>
    rw [drain_eq, if_neg (by simp [hgo])]
    have hstep := Generator.playAll_step (g := s.gen) (r := s.ring) (f := s.finished) hτ
    have hload := Generator.step_load_le (g := s.gen) (r := s.ring) (f := s.finished)
    have hcap := Generator.capacity_step s.gen s.ring s.finished
    have hend := Generator.playAll_of_endOfTape (g := s.gen) (r := s.ring) (f := s.finished) hτ
    have hend' := @Generator.step_endOfTape s.gen s.ring s.finished
    dsimp only
    generalize s.gen.step s.ring s.finished = o at hstep hload hcap hend hend' ih ⊢
    have hdepth : (o.pulse.elim s.sink s.sink.push).depth = s.sink.depth := by
      cases o.pulse <;> simp
    by_cases hi : o.result = .idle
    · have he : o.result ≠ .endOfTape := by simp [hi]
      rw [if_pos hi]
      exact .inl ⟨o.gen, o.ring, _, rfl, by simpa using (hstep he).symm, (hload he).1,
        fun _ hgo => (hload he).2 hgo, hcap, hdepth⟩
    · rw [if_neg hi]
      by_cases he : o.result = .endOfTape
      · rw [if_pos he]
        obtain ⟨hf, hp⟩ := hend' he
        refine .inr ⟨hf, ?_, o.gen, o.ring, _, rfl⟩
        simp [hp, hend he]
      · rw [if_neg he]
        rcases ih hi he hst hτ with ⟨g, r, q, h1, h2, h3, -, h4, h5⟩ | ⟨hf, h1, g, r, q, h2⟩
        · refine .inl ⟨g, r, q, h1, ?_, le_trans h3 (hload he).1,
            fun _ hgo => lt_of_le_of_lt h3 ((hload he).2 hgo), h4.trans hcap, h5.trans hdepth⟩
          rw [List.append_assoc, h2, hstep he]
        · refine .inr ⟨hf, ?_, g, r, q, h2⟩
          rw [h1, hstep he]

/-! ## Ticks -/

/-- A session between two ticks while it plays an opened tape: its tape is
sound, its ring holds at least two bytes, and its sink is empty and has
room. -/
structure Playing (s : Session) : Prop where
  started : s.started = true
  opened : s.restartPending = false
  sound : s.toTape.Sound
  roomy : 2 ≤ s.ring.capacity
  sinkDepth : 0 < s.sink.depth
  sinkEmpty : s.sink.toList = []

/-- How far a session has to go, for tapes whose loops are nested at most
`D` deep: the rank of its tape, then the generator's load. -/
def progress (D : Nat) (s : Session) : Lex (Fin (2 * D + 2) → Nat) ×ₗ (Nat ×ₗ Nat) :=
  toLex (s.toTape.rank D, toLex (s.gen.load s.ring.toList))

theorem advance_of_playing (hp : Playing s) : s.advance = s.fill.drain := by
  simp [advance, hp.started, hp.opened]

theorem Playing.sink_isFull (hp : Playing s) : s.sink.isFull = false := by
  have hd := hp.sinkDepth
  rw [PulseQueue.isFull_eq, hp.sinkEmpty, List.length_nil, beq_eq_false_iff_ne]
  omega


theorem stop_started (h : s.started = true) : s.stop.started = false := by
  simp [stop, h, reset, close]

/-- Stopping clears the block and loop state and closes the file. -/
theorem toTape_stop (h : s.started = true) : s.stop.toTape = s.toTape.cleared.close := by
  unfold stop
  rw [if_neg (by simp [h])]
  rfl

/-- One tick of a playing session.  Either it stops the session at the end
of the tape, having handed over all that was left to play; the tape it
stops on is where reading ends.  Or the session plays on, lower in
`progress`, and the pulses handed over and `playAll` of what is left make up
`playAll` of what there was. -/
theorem tick_spec (hp : Playing s) {τ : List UInt8} {t_end : Tape} (hr : Tape.Reads s.toTape τ t_end)
    (he : t_end.atEnd) :
    (s.advance.2.started = false ∧ s.advance.1 = s.gen.playAll (s.ring.toList ++ τ) ∧
      ∃ S : Session, S.toTape = t_end ∧ S.started = true ∧ S.path = s.path ∧
        s.advance.2 = (S.note ("end of tape " ++ S.path)).stop) ∨
    (Playing { s.advance.2 with sink := s.advance.2.sink.drain.2 } ∧
      s.advance.2.loopDepth = s.loopDepth ∧ s.advance.2.path = s.path ∧
      progress s.loopDepth s.advance.2 < progress s.loopDepth s ∧
      ∃ τ₂, Tape.Reads s.advance.2.toTape τ₂ t_end ∧
        s.advance.1 ++ s.advance.2.gen.playAll (s.advance.2.ring.toList ++ τ₂) =
          s.gen.playAll (s.ring.toList ++ τ)) := by
  have hprog := fill_progress hp.sound
  rw [advance_of_playing hp]
  obtain ⟨l, hl, hring, hcap, hfill⟩ := fill_reads s
  have hgen : s.fill.gen = s.gen := by have := congrArg Session.gen hfill; exact this
  have hst : s.fill.started = true := by have := congrArg Session.started hfill; exact this.trans hp.started
  have hsink : s.fill.sink = s.sink := by have := congrArg Session.sink hfill; exact this
  have hpath : s.fill.path = s.path := by have := congrArg Session.path hfill; exact this
  have hopen : s.fill.restartPending = false := by
    have := congrArg Session.restartPending hfill
    exact this.trans hp.opened
  have hs₁ : s.fill.toTape.Sound := hl.sound hp.sound
  obtain ⟨hD, hle⟩ := hl.rank_le hp.sound
  obtain ⟨τ₁, hr₁, hτ⟩ := hl.rest hp.sound hr he
  have hτ₁ : s.fill.finished = true → τ₁ = [] := fun hf => (hr₁.of_atEnd ⟨hf, hs₁.settled hf⟩).1
  have hΦ : s.fill.gen.playAll (s.fill.ring.toList ++ τ₁) = s.gen.playAll (s.ring.toList ++ τ) := by
    rw [hgen, hring, hτ, List.append_assoc]
  rcases drain_spec s.fill hst hτ₁ with
    ⟨g, r, q, h1, h2, h3, h4, h5, h6⟩ | ⟨hf, h1, g, r, q, h2⟩
  · right
    rw [h1]
    refine ⟨⟨hst, hopen, hs₁, ?_, ?_, by simp⟩, hD, hpath, ?_, τ₁, hr₁, by rw [h2, hΦ]⟩
    · show 2 ≤ r.capacity
      rw [h5, hcap]
      exact hp.roomy
    · show 0 < q.drain.2.depth
      rw [PulseQueue.depth_drain_snd, h6, hsink]
      exact hp.sinkDepth
    · have hfull : s.fill.sink.isFull = false := by rw [hsink]; exact hp.sink_isFull
      rcases hprog with hlt | ⟨hfree, hfs⟩ | ⟨hfin, hring', hgen'⟩
      · exact Prod.Lex.toLex_lt_toLex.2 (.inl hlt)
      · have h2le : 2 ≤ s.fill.ring.toList.length := by
          rw [hfs]
          simp only [ByteRing.free, ByteRing.occupied_eq_length] at hfree
          have := hp.roomy
          omega
        have hlt := h4 hfull (.inr h2le)
        rw [hfs] at hlt
        refine Prod.Lex.toLex_lt_toLex.2 (.inr ⟨?_, hlt⟩)
        show s.fill.toTape.rank s.loopDepth = s.toTape.rank s.loopDepth
        rw [hfs]
      · have hlt := h4 hfull (.inl hfin)
        rw [hring', hgen'] at hlt
        rcases lt_or_eq_of_le hle with hrk | hrk
        · exact Prod.Lex.toLex_lt_toLex.2 (.inl hrk)
        · exact Prod.Lex.toLex_lt_toLex.2 (.inr ⟨hrk, hlt⟩)
  · left
    refine ⟨by rw [h2]; exact stop_started hst, by rw [h1, hΦ], ?_⟩
    have hend := (hr₁.of_atEnd ⟨hf, hs₁.settled hf⟩).2
    exact ⟨{ s.fill with gen := g, ring := r, sink := q }, hend.symm, hst, hpath, h2⟩

/-! ## Runs -/

/-- One tick of a run, with the sink emptied after it. -/
theorem runFor_succ (limit : Nat) (s : Session) (n : Nat) (acc given : List Pulse) :
    runFor (limit + 1) s n acc given =
      if !s.advance.2.started || limit = 0 then
        ⟨n + 1, (s.advance.2.sink.drain.1.reverse ++ acc).reverse, (s.advance.1.reverse ++ given).reverse,
          { s.advance.2 with sink := s.advance.2.sink.drain.2 }⟩
      else runFor limit { s.advance.2 with sink := s.advance.2.sink.drain.2 } (n + 1)
        (s.advance.2.sink.drain.1.reverse ++ acc) (s.advance.1.reverse ++ given) := rfl

/-- A playing session stops after finitely many ticks: each tick that does
not stop it lowers its `progress`, which is well founded. -/
theorem runFor_stops (hp : Playing s) (n : Nat) (acc given : List Pulse) :
    ∃ L, (runFor L s n acc given).session.started = false := by
  suffices h : ∀ (D : Nat) (x : Lex (Fin (2 * D + 2) → Nat) ×ₗ (Nat ×ₗ Nat)) (s : Session),
      Playing s → s.loopDepth = D → progress D s = x →
        ∀ n acc given, ∃ L, (runFor L s n acc given).session.started = false from
    h _ _ s hp rfl rfl n acc given
  intro D x
  induction x using WellFoundedLT.induction with
  | _ x ih =>
    intro s hp hD hx n acc given
    obtain ⟨τ, t_end, hr, he⟩ := Tape.reads_atEnd hp.sound
    rcases tick_spec hp hr he with ⟨hstop, -⟩ | ⟨hp₂, hD₂, -, hlt, -⟩
    · refine ⟨1, ?_⟩
      rw [runFor_succ]
      simp [hstop]
    · rw [hD, hx] at hlt
      obtain ⟨L, hL⟩ := ih _ hlt _ hp₂ (hD₂.trans hD) rfl (n + 1)
        (s.advance.2.sink.drain.1.reverse ++ acc) (s.advance.1.reverse ++ given)
      have hst₂ : s.advance.2.started = true := hp₂.started
      refine ⟨L + 1, ?_⟩
      rw [runFor_succ]
      by_cases hL0 : L = 0
      · -- no tick is left after this one, yet the session plays on
        subst hL0
        exact absurd hst₂ (by simpa [runFor] using hL)
      · rw [if_neg (by simp [hst₂, hL0])]
        exact hL

/-- What a run that stopped handed to the sink, and where it left the tape:
all of `playAll` of the stream that was left, and the tape where reading
ended, with the end logged and the session stopped. -/
theorem runFor_spec (L : Nat) (hp : Playing s) {τ : List UInt8} {t_end : Tape}
    (hr : Tape.Reads s.toTape τ t_end) (he : t_end.atEnd) (n : Nat) (acc given : List Pulse)
    (hstop : (runFor L s n acc given).session.started = false) :
    (runFor L s n acc given).pushed = given.reverse ++ s.gen.playAll (s.ring.toList ++ τ) ∧
      (runFor L s n acc given).session.toTape = (t_end.note ("end of tape " ++ s.path)).cleared.close := by
  induction L generalizing s τ n acc given with
  | zero => exact absurd hp.started (by simpa [runFor] using hstop)
  | succ L ih =>
    rw [runFor_succ] at hstop ⊢
    rcases tick_spec hp hr he with ⟨hst₂, hps, S, hS, hSst, hSp, hadv⟩ | ⟨hp₂, -, hpath, -, τ₂, hr₂, hΦ⟩
    · -- the tick stopped the session
      rw [if_pos (by simp [hst₂])]
      refine ⟨by simp [hps], ?_⟩
      show s.advance.2.toTape = _
      rw [hadv, toTape_stop (s := S.note _) hSst, ← hS, ← hSp]
      rfl
    · have hst₂ : s.advance.2.started = true := hp₂.started
      by_cases hL0 : L = 0
      · subst hL0
        rw [if_pos (by simp)] at hstop
        exact absurd hst₂ (by simpa using hstop)
      · rw [if_neg (by simp [hst₂, hL0])] at hstop ⊢
        obtain ⟨hpush, hfin⟩ := ih hp₂ hr₂ _ _ _ hstop
        refine ⟨?_, hfin.trans (by rw [hpath])⟩
        rw [hpush, ← hΦ]
        simp

/-! ## Starting -/

/-- The session a restart opens its tape into, when the tape opens: block and
loop state cleared, the ring emptied, a generator for the tape's format. -/
def reopened (s : Session) : Session :=
  { s.reset with
    toTape := (s.toTape.cleared.openTape s.path).1, restartPending := false,
    gen := Generator.start (s.toTape.cleared.openTape s.path).1.format }

/-- The tick after a start opens the tape afresh: it plays on from there when
the tape opens, and stops the session with nothing handed over when not. -/
theorem advance_of_restart (hst : s.started = true) (hrp : s.restartPending = true) :
    s.advance = if (s.toTape.cleared.openTape s.path).2 then s.reopened.fill.drain
      else ([], { s.reset with
        toTape := (s.toTape.cleared.openTape s.path).1, restartPending := false,
        started := false }.close) := by
  have hopen : ({ s with restartPending := false }.reset).openTape =
      ({ s.reset with toTape := (s.toTape.cleared.openTape s.path).1, restartPending := false },
        (s.toTape.cleared.openTape s.path).2) := rfl
  unfold advance
  rw [if_neg (by simp [hst])]
  dsimp only
  rw [if_pos hrp, hopen]
  cases (s.toTape.cleared.openTape s.path).2 <;> rfl

/-- A tick: nothing when the session does not play; after a start, the tape
opened afresh and then filled and drained, or the session stopped when it
does not open; otherwise a fill and a drain. -/
theorem advance_eq (s : Session) :
    s.advance =
      if !s.started then ([], s)
      else if s.restartPending then
        if (s.toTape.cleared.openTape s.path).2 then s.reopened.fill.drain
        else ([], { s.reset with
          toTape := (s.toTape.cleared.openTape s.path).1, restartPending := false,
          started := false }.close)
      else s.fill.drain := by
  cases hst : s.started with
  | false => simp [advance, hst]
  | true =>
    cases hrp : s.restartPending with
    | true => simp [advance_of_restart hst hrp]
    | false => simp [advance, hst, hrp]

theorem playing_reopened (hst : s.started = true) (hroomy : 2 ≤ s.ring.capacity)
    (hdepth : 0 < s.sink.depth) (hempty : s.sink.toList = [])
    (hok : (s.toTape.cleared.openTape s.path).2 = true) : Playing s.reopened :=
  ⟨hst, rfl, Tape.openTape_sound hok, by simpa [reopened, reset] using hroomy, hdepth, hempty⟩

/-- A tick after a start that opens the tape is a tick of the reopened session. -/
theorem advance_eq_reopened (hst : s.started = true) (hrp : s.restartPending = true)
    (hok : (s.toTape.cleared.openTape s.path).2 = true) (hp : Playing s.reopened) :
    s.advance = s.reopened.advance := by
  rw [advance_of_restart hst hrp, if_pos hok, advance_of_playing hp]

theorem runFor_congr {s' : Session} (h : s.advance = s'.advance) (L n : Nat) (acc given : List Pulse) :
    runFor (L + 1) s n acc given = runFor (L + 1) s' n acc given := by
  rw [runFor_succ, runFor_succ, h]

theorem run_eq_runFor (s : Session) (n : Nat) : ∃ L, s.run n = runFor (L + 1) s 0 [] [] :=
  ⟨max n 1 - 1, by rw [run, Nat.sub_add_cancel (by omega : 1 ≤ max n 1)]⟩

/-- A run from a start stops. -/
theorem run_stops_of_restart (hst : s.started = true) (hrp : s.restartPending = true)
    (hroomy : 2 ≤ s.ring.capacity) (hdepth : 0 < s.sink.depth) (hempty : s.sink.toList = []) :
    ∃ n, (s.run n).session.started = false := by
  by_cases hok : (s.toTape.cleared.openTape s.path).2 = true
  · -- the tape opened: from the next tick on the session plays it
    have hp₀ := playing_reopened hst hroomy hdepth hempty hok
    have hadv := advance_eq_reopened hst hrp hok hp₀
    obtain ⟨L, hL⟩ := runFor_stops hp₀ 0 [] []
    cases L with
    | zero => exact absurd hp₀.started (by simpa [runFor] using hL)
    | succ L =>
      refine ⟨L + 1, ?_⟩
      rw [run, show max (L + 1) 1 = L + 1 by omega, runFor_congr hadv]
      exact hL
  · -- the tape did not open: the first tick stops the session
    refine ⟨0, ?_⟩
    rw [run, show max 0 1 = 0 + 1 from rfl, runFor_succ, advance_of_restart hst hrp, if_neg hok]
    simp [close]

/-- What a run from a start hands to the sink and leaves on the tape, once it
has stopped.  When the tape opens, it is `playAll` of all the tape reads, from
a fresh generator, and the tape where reading ends, closed; when it does not,
nothing, and the tape that failed to open, closed. -/
theorem run_of_restart (hst : s.started = true) (hrp : s.restartPending = true)
    (hroomy : 2 ≤ s.ring.capacity) (hdepth : 0 < s.sink.depth) (hempty : s.sink.toList = [])
    {n : Nat} (hstop : (s.run n).session.started = false) :
    ((s.toTape.cleared.openTape s.path).2 = false ∧ (s.run n).pushed = [] ∧
        (s.run n).session.toTape = (s.toTape.cleared.openTape s.path).1.close) ∨
      ((s.toTape.cleared.openTape s.path).2 = true ∧
        ∀ τ t_end, Tape.Reads (s.toTape.cleared.openTape s.path).1 τ t_end → t_end.atEnd →
          (s.run n).pushed = (Generator.start (s.toTape.cleared.openTape s.path).1.format).playAll τ ∧
          (s.run n).session.toTape = (t_end.note ("end of tape " ++ s.path)).cleared.close) := by
  obtain ⟨L, hL⟩ := run_eq_runFor s n
  rw [hL] at hstop ⊢
  cases hok : (s.toTape.cleared.openTape s.path).2 with
  | false =>
    left
    refine ⟨rfl, ?_⟩
    rw [runFor_succ, advance_of_restart hst hrp, hok, if_neg Bool.false_ne_true]
    simp [close]
  | true =>
    right
    refine ⟨rfl, fun τ t_end hr he => ?_⟩
    have hp₀ := playing_reopened hst hroomy hdepth hempty hok
    have hadv := advance_eq_reopened hst hrp hok hp₀
    rw [runFor_congr hadv] at hstop ⊢
    obtain ⟨h1, h2⟩ := runFor_spec (L + 1) hp₀ hr he 0 [] [] hstop
    refine ⟨?_, h2⟩
    rw [h1]
    simp [reopened, reset]

theorem start_of_stopped (h : s.started = false) :
    s.start = if s.path = "" then s.note "no tape selected"
      else { s.reset with restartPending := true, started := true } := by
  unfold start restart
  rw [if_neg (by simp [h])]

/-- A stopped session's run takes one tick and changes nothing. -/
theorem run_of_stopped (h : s.started = false) (n : Nat) :
    (s.run n).pushed = [] ∧ (s.run n).session.toTape = s.toTape ∧
      (s.run n).session.started = false := by
  obtain ⟨L, hL⟩ := run_eq_runFor s n
  have hadv : s.advance = ([], s) := by simp [advance, h]
  rw [hL, runFor_succ, hadv]
  simp [h]

/-- Two runs from a start on the same tape and path hand the same pulses to
their sinks and leave the same tape, whatever their rings and sinks. -/
theorem run_eq_of_restart {u : Session} (hT : s.toTape = u.toTape) (hpath : s.path = u.path)
    (hst : s.started = true) (hrp : s.restartPending = true) (hroomy : 2 ≤ s.ring.capacity)
    (hdepth : 0 < s.sink.depth) (hempty : s.sink.toList = [])
    (hst' : u.started = true) (hrp' : u.restartPending = true) (hroomy' : 2 ≤ u.ring.capacity)
    (hdepth' : 0 < u.sink.depth) (hempty' : u.sink.toList = [])
    {n n' : Nat} (hstop : (s.run n).session.started = false)
    (hstop' : (u.run n').session.started = false) :
    (s.run n).pushed = (u.run n').pushed ∧ (s.run n).session.toTape = (u.run n').session.toTape := by
  rcases run_of_restart hst hrp hroomy hdepth hempty hstop with ⟨hok, h1, h2⟩ | ⟨hok, h⟩ <;>
    rcases run_of_restart hst' hrp' hroomy' hdepth' hempty' hstop' with
      ⟨hok', h1', h2'⟩ | ⟨hok', h'⟩ <;>
    rw [← hT, ← hpath] at hok'
  · -- the tape opened neither time
    rw [h1, h1', h2, h2', ← hT, ← hpath]
    exact ⟨rfl, rfl⟩
  · rw [hok] at hok'
    cases hok'
  · rw [hok] at hok'
    cases hok'
  · -- the tape opened both times: both runs play what it reads
    rw [← hT, ← hpath] at h'
    obtain ⟨τ, t_end, hr, he⟩ := Tape.reads_atEnd (Tape.openTape_sound hok)
    obtain ⟨h1, h2⟩ := h τ t_end hr he
    obtain ⟨h1', h2'⟩ := h' τ t_end hr he
    exact ⟨h1.trans h1'.symm, h2.trans h2'.symm⟩

/-- Two runs from a start of sessions alike but for their rings and sinks,
each until it stops, hand the same pulses over and leave the same tape. -/
theorem start_run_eq {u : Session} (hT : s.toTape = u.toTape) (hpath : s.path = u.path)
    (hst : s.started = false) (hroomy : 2 ≤ s.ring.capacity) (hdepth : 0 < s.sink.depth)
    (hempty : s.sink.toList = []) (hst' : u.started = false) (hroomy' : 2 ≤ u.ring.capacity)
    (hdepth' : 0 < u.sink.depth) (hempty' : u.sink.toList = []) {n n' : Nat}
    (hstop : (s.start.run n).session.started = false)
    (hstop' : (u.start.run n').session.started = false) :
    (s.start.run n).pushed = (u.start.run n').pushed ∧
      (s.start.run n).session.toTape = (u.start.run n').session.toTape := by
  rw [start_of_stopped hst] at hstop ⊢
  rw [start_of_stopped hst', ← hpath] at hstop' ⊢
  by_cases hp : s.path = ""
  · -- no tape selected: neither session starts
    rw [if_pos hp, if_pos hp]
    obtain ⟨h1, h2, -⟩ := run_of_stopped (s := s.note "no tape selected") hst n
    obtain ⟨h1', h2', -⟩ := run_of_stopped (s := u.note "no tape selected") hst' n'
    rw [h1, h1', h2, h2']
    exact ⟨rfl, by simp only [note, hT]⟩
  · rw [if_neg hp] at hstop ⊢
    rw [if_neg hp] at hstop' ⊢
    exact run_eq_of_restart (s := { s.reset with restartPending := true, started := true })
      (u := { u.reset with restartPending := true, started := true }) (by simp only [reset, hT]) hpath
      rfl rfl (by simpa [reset] using hroomy) hdepth hempty rfl rfl (by simpa [reset] using hroomy')
      hdepth' hempty' hstop hstop'

/-- A run from a start of a stopped session, with room for two bytes in its
ring and an empty sink, stops. -/
theorem start_run_stops (hst : s.started = false) (hroomy : 2 ≤ s.ring.capacity)
    (hdepth : 0 < s.sink.depth) (hempty : s.sink.toList = []) :
    ∃ n, (s.start.run n).session.started = false := by
  rw [start_of_stopped hst]
  split
  · exact ⟨0, (run_of_stopped (s := s.note _) hst 0).2.2⟩
  · exact run_stops_of_restart rfl rfl (by simpa [reset] using hroomy) hdepth hempty

/-! ## Runs within a bound

The loops of a tick recurse on a rank, which the kernel does not unfold.
Their copies here count their turns instead and give up, with `none`, when
the turns run out; an answer they do give is the loop's own.  So a run on a
given image can be evaluated, by `decide`, through them. -/

/-- Filling as `fillFrom` fills, for at most `fuel` rounds. -/
def fillWithin : Nat → Session → Tape.Stand → Option Session
  | 0, _, _ => none
  | fuel + 1, s, before =>
    if s.ring.free = 0 then some s
    else match s.fillStep with
      | .more s' => if s'.toTape.stand.lowers before then fillWithin fuel s' s'.toTape.stand else some s'
      | .done s' => some s'

theorem fillFrom_of_fillWithin : ∀ {fuel : Nat} {s : Session} {before : Tape.Stand} {s' : Session},
    fillWithin fuel s before = some s' → s.fillFrom before = s'
  | 0, _, _, _, h => by cases h
  | fuel + 1, s, before, s', h => by
    rw [fillWithin] at h
    rw [fillFrom]
    by_cases hf : s.ring.free = 0
    · rw [if_pos hf] at h ⊢
      exact Option.some.inj h
    · rw [if_neg hf] at h ⊢
      cases hstep : s.fillStep with
      | more u =>
        rw [hstep] at h
        dsimp only at h ⊢
        by_cases hlow : u.toTape.stand.lowers before = true
        · rw [if_pos hlow] at h
          rw [dif_pos hlow]
          exact fillFrom_of_fillWithin h
        · rw [if_neg hlow] at h
          rw [dif_neg hlow]
          exact Option.some.inj h
      | done u =>
        rw [hstep] at h
        exact Option.some.inj h

/-- Draining as `drain` drains, for at most `fuel` steps. -/
def drainWithin : Nat → Session → Option (List Pulse × Session)
  | 0, _ => none
  | fuel + 1, s =>
    if !s.started || s.sink.isFull then some ([], s)
    else
      let o := s.gen.step s.ring s.finished
      let s' := { s with gen := o.gen, ring := o.ring, sink := o.pulse.elim s.sink s.sink.push }
      if o.result = .idle then some (o.pulse.toList, s')
      else if o.result = .endOfTape then some (o.pulse.toList, (s'.note ("end of tape " ++ s.path)).stop)
      else (drainWithin fuel s').map fun r => (o.pulse.toList ++ r.1, r.2)

theorem drain_of_drainWithin : ∀ {fuel : Nat} {s : Session} {r : List Pulse × Session},
    drainWithin fuel s = some r → s.drain = r
  | 0, _, _, h => by cases h
  | fuel + 1, s, r, h => by
    rw [drainWithin] at h
    rw [drain_eq]
    dsimp only at h ⊢
    split_ifs at h ⊢
    · exact Option.some.inj h
    · exact Option.some.inj h
    · exact Option.some.inj h
    · obtain ⟨r', hr', rfl⟩ := Option.map_eq_some_iff.1 h
      rw [drain_of_drainWithin hr']

/-- A tick, with at most `fuel` rounds of filling and steps of draining. -/
def advanceWithin (fuel : Nat) (s : Session) : Option (List Pulse × Session) :=
  if !s.started then some ([], s)
  else if s.restartPending then
    if (s.toTape.cleared.openTape s.path).2 then
      (fillWithin fuel s.reopened s.reopened.toTape.stand).bind (drainWithin fuel)
    else some ([], { s.reset with
      toTape := (s.toTape.cleared.openTape s.path).1, restartPending := false,
      started := false }.close)
  else (fillWithin fuel s s.toTape.stand).bind (drainWithin fuel)

theorem advance_of_advanceWithin {fuel : Nat} {r : List Pulse × Session}
    (h : advanceWithin fuel s = some r) : s.advance = r := by
  have hfd : ∀ u : Session, (fillWithin fuel u u.toTape.stand).bind (drainWithin fuel) = some r →
      u.fill.drain = r := by
    intro u hu
    obtain ⟨u', hu', hd⟩ := Option.bind_eq_some_iff.1 hu
    rw [fill, fillFrom_of_fillWithin hu', drain_of_drainWithin hd]
  rw [advanceWithin] at h
  rw [advance_eq]
  split_ifs at h ⊢
  · exact Option.some.inj h
  · exact hfd _ h
  · exact Option.some.inj h
  · exact hfd _ h

/-- A run of at most `limit` ticks, each within `fuel`. -/
def runForWithin (fuel : Nat) : Nat → Session → Nat → List Pulse → List Pulse → Option Run
  | 0, s, n, acc, given => some ⟨n, acc.reverse, given.reverse, s⟩
  | limit + 1, s, n, acc, given =>
    (advanceWithin fuel s).bind fun a =>
      let s' := { a.2 with sink := a.2.sink.drain.2 }
      let acc := a.2.sink.drain.1.reverse ++ acc
      let given := a.1.reverse ++ given
      if !a.2.started || limit = 0 then some ⟨n + 1, acc.reverse, given.reverse, s'⟩
      else runForWithin fuel limit s' (n + 1) acc given

theorem runFor_of_runForWithin {fuel : Nat} :
    ∀ {limit : Nat} {s : Session} {n : Nat} {acc given : List Pulse} {r : Run},
      runForWithin fuel limit s n acc given = some r → runFor limit s n acc given = r
  | 0, _, _, _, _, _, h => Option.some.inj h
  | limit + 1, s, n, acc, given, r, h => by
    rw [runForWithin] at h
    obtain ⟨a, ha, h⟩ := Option.bind_eq_some_iff.1 h
    rw [runFor_succ, advance_of_advanceWithin ha]
    dsimp only at h
    split_ifs at h ⊢
    · exact Option.some.inj h
    · exact runFor_of_runForWithin h

/-- A run that ends within the bounds is the run. -/
theorem run_of_runForWithin {fuel n : Nat} {r : Run}
    (h : runForWithin fuel (max n 1) s 0 [] [] = some r) : s.run n = r :=
  runFor_of_runForWithin h

/-! ## Sessions from the start -/

theorem capacity_create (cfg : Config) (shelf : Shelf) (q : PulseQueue) (log : Log) :
    2 ≤ (create cfg shelf q log).ring.capacity := by
  simp only [create, ByteRing.ofCapacity]
  omega

theorem PulseQueue.depth_ofDepth (d : Int) : 0 < (PulseQueue.ofDepth d).depth :=
  (PulseQueue.ofDepth d).depth_pos

theorem PulseQueue.toList_ofDepth (d : Int) : (PulseQueue.ofDepth d).toList = [] := rfl

/-- A started session stops: every run of a session made by `create`, given
a tape and started, has stopped after some number of ticks, whatever the
configuration, the shelf and its faults, and the depth of the sink.  And the
generator does not wait with a full ring: when it reports that it waits, it
has taken every byte. -/
theorem started_session_stops (cfg : Config) (shelf : Shelf) (depth : Int) (log : Log)
    (path : String) :
    (∃ n, ((((create cfg shelf (PulseQueue.ofDepth depth) log).select path).start).run n).session.started =
        false) ∧
      ∀ (g : Generator) (r : ByteRing) (f : Bool), r.free = 0 → 2 ≤ r.capacity →
        (g.step r f).result = .idle → (g.step r f).ring.toList = [] := by
  refine ⟨start_run_stops (s := (create cfg shelf (PulseQueue.ofDepth depth) log).select path) rfl
    (capacity_create cfg shelf (PulseQueue.ofDepth depth) log) (PulseQueue.depth_ofDepth depth)
    (PulseQueue.toList_ofDepth depth),
    fun g r f hfull hcap hidle => ?_⟩
  · have hlen : 2 ≤ r.toList.length := by
      simp only [ByteRing.free, ByteRing.occupied_eq_length] at hfull
      omega
    rcases Generator.step_idle hidle with h | ⟨-, h⟩
    · exact h
    · omega

/-- The size of the ring and the depth of the sink change nothing a whole run
hands over or leaves behind.  Two sessions made alike but for those, with the
same observer, each stop once started; and two runs of them, each until it
stops, push the same pulses to their sinks and leave the same tape: the same
observer events, console and log. -/
theorem run_independent_of_buffers (cfg : Config) (shelf : Shelf) (log : Log) (o : Observer)
    (path : String) (ring₁ ring₂ depth₁ depth₂ : Int) :
    let s₁ := ((create { cfg with ringDepth := ring₁ } shelf (PulseQueue.ofDepth depth₁) log).observedBy o).select path
    let s₂ := ((create { cfg with ringDepth := ring₂ } shelf (PulseQueue.ofDepth depth₂) log).observedBy o).select path
    (∃ n, (s₁.start.run n).session.started = false) ∧ (∃ n, (s₂.start.run n).session.started = false) ∧
      ∀ n₁ n₂, (s₁.start.run n₁).session.started = false → (s₂.start.run n₂).session.started = false →
        (s₁.start.run n₁).pushed = (s₂.start.run n₂).pushed ∧
          (s₁.start.run n₁).session.toTape = (s₂.start.run n₂).session.toTape := by
  intro s₁ s₂
  have hroomy₁ : 2 ≤ s₁.ring.capacity := capacity_create _ shelf (PulseQueue.ofDepth depth₁) log
  have hroomy₂ : 2 ≤ s₂.ring.capacity := capacity_create _ shelf (PulseQueue.ofDepth depth₂) log
  refine ⟨start_run_stops (s := s₁) rfl hroomy₁ (PulseQueue.depth_ofDepth depth₁) (PulseQueue.toList_ofDepth depth₁),
    start_run_stops (s := s₂) rfl hroomy₂ (PulseQueue.depth_ofDepth depth₂) (PulseQueue.toList_ofDepth depth₂),
    fun n₁ n₂ h₁ h₂ => ?_⟩
  exact start_run_eq (s := s₁) (u := s₂) rfl rfl rfl hroomy₁ (PulseQueue.depth_ofDepth depth₁) (PulseQueue.toList_ofDepth depth₁)
    rfl hroomy₂ (PulseQueue.depth_ofDepth depth₂) (PulseQueue.toList_ofDepth depth₂) h₁ h₂

/-- A TZX image holding one pure tone of two pulses. -/
def twoPulseTone : ByteArray :=
  ⟨#[0x5A, 0x58, 0x54, 0x61, 0x70, 0x65, 0x21, 0x1A, 0x01, 0x14, 0x12, 0xE8, 0x03, 0x02, 0x00]⟩

end Session

end TapeDeck
