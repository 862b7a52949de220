import Mathlib
import TapeDeck.Command.Launch
import TapeDeck.Proofs.Calls

/-!
# Recording a tape to a WAV file

The WAV mode starts a session on a tape and ticks it once; then, while the
session plays, it takes every pulse out of the sink into a `WavWriter` and
ticks again, and a last drain takes what the final tick left
(`Command.mix`).  The loop goes on only while each tick lowers the session's
rank (`Session.rank`).

*The loop.*  A tick that leaves a playing session playing lowers its
`progress` (`Session.tick_spec`), and with it its rank, which lists the same
numbers padded to one length (`Session.rank_below_of_progress`).  So the loop
never stops early: after one tick of a playing session, the mix renders
exactly the pulses a run of the session takes out of its sink, and ends
where the run ends (`Command.mix_advance`).  A run from an empty sink takes
out what it handed over, clamped to fifteen bits (`Session.runFor_pulses`).

*Samples.*  A renderer with clock `C`, rate `R` and carry `k` gives a
pulse of `w` ticks `(k + w * R) / C` samples and keeps `(k + w * R) % C`,
provided `k + w * R` fits in a signed 64-bit word (`Renderer.pulse_count`).
From no carry, pulses of `T` ticks in all then give `T * R / C` samples.
Where `C + w * R` does not fit, the carry wraps round and the count is off:
a clock and rate near `2 ^ 63` give a tape of one pause no samples at all.

Main statement: writing an image whose catalogue is whole and has no loop
start, and whose pulses are at most fifteen bits wide, buffers
`c.ticks * R / C` samples, the length the catalogue gives the tape
(`Command.mix_buffers_catalogue_ticks`).
-/

namespace TapeDeck

/-! ## Ranks -/

namespace Session

variable {s s' : Session}

/-- A session lower in `progress` than another with the same loop depth is
lower in rank: the padded standing of its tape is lower, or the same with a
lower load. -/
theorem rank_below_of_progress (hD : s'.loopDepth = s.loopDepth)
    (h : progress s.loopDepth s' < progress s.loopDepth s) : s'.rank.Below s.rank := by
  refine ⟨by simp [rank, hD], ?_⟩
  simp only [rank, hD]
  rcases Prod.Lex.toLex_lt_toLex.1 h with hr | ⟨hr, hl⟩
  · -- the standing is lower at some place and the same before it
    obtain ⟨i, hj, hi⟩ := hr
    refine List.lt_iff_exists.2 (.inr ⟨i, by simp; omega, by simp; omega, fun j hj' => ?_, ?_⟩)
    · have hjN : j < 2 * s.loopDepth + 2 := by omega
      have := hj ⟨j, hjN⟩ hj'
      simp only [Tape.rank, Pi.toLex_apply] at this
      simpa [List.getElem_append_left, hjN] using this
    · simpa [Tape.rank, List.getElem_append_left] using hi
  · -- the same standing, and a lower load
    have hst : ∀ i < 2 * s.loopDepth + 2, s'.toTape.standing.getD i 0 = s.toTape.standing.getD i 0 :=
      fun i hi => congrFun hr ⟨i, hi⟩
    rw [List.map_congr_left (fun i hi => hst i (List.mem_range.1 hi))]
    apply List.append_left_lt
    rcases Prod.Lex.toLex_lt_toLex.1 hl with ha | ⟨ha, hb⟩
    · exact List.Lex.rel ha
    · rw [ha]
      exact List.Lex.cons (List.Lex.rel hb)

/-- A tick that leaves a playing session playing lowers its rank. -/
theorem Playing.rank_tick (hp : Playing s) (hst : s.tick.started = true) : s.tick.rank.Below s.rank := by
  obtain ⟨τ, t_end, hr, he⟩ := Tape.reads_atEnd hp.sound
  rcases tick_spec hp hr he with ⟨hstop, -⟩ | ⟨-, hD, -, hlt, -⟩
  · exact absurd hst (by simp [tick, hstop])
  · exact rank_below_of_progress hD hlt

/-! ## What a run takes out of the sink -/

/-- A run from a session with an empty sink takes out of the sink exactly the
pulses it handed over, each clamped to fifteen bits. -/
theorem runFor_pulses (L : Nat) (s : Session) (n : Nat) (acc given : List Pulse)
    (hs : s.sink.toList = []) (hacc : acc = given.map fun p => ⟨min p.width maxWidth, p.high⟩) :
    (runFor L s n acc given).pulses =
      (runFor L s n acc given).pushed.map fun p => ⟨min p.width maxWidth, p.high⟩ := by
  induction L generalizing s n acc given with
  | zero => simp [runFor, hacc, List.map_reverse]
  | succ L ih =>
    have hps : s.advance.2.sink.drain.1 = s.advance.1.map fun p => ⟨min p.width maxWidth, p.high⟩ := by
      rw [PulseQueue.drain_fst, (advance_sink s).2.2, hs, List.nil_append]
    have hacc' : s.advance.2.sink.drain.1.reverse ++ acc =
        (s.advance.1.reverse ++ given).map fun p => ⟨min p.width maxWidth, p.high⟩ := by
      rw [hps, hacc, List.map_append, List.map_reverse]
    rw [runFor_succ]
    split
    · rw [hacc', List.map_reverse]
    · exact ih _ _ _ _ (PulseQueue.toList_drain_snd _) hacc'

/-- Clamping pulses at most fifteen bits wide leaves them as they are. -/
theorem map_clamp_of_le {ps : List Pulse} (h : ∀ p ∈ ps, p.width ≤ maxWidth) :
    (ps.map fun p => ⟨min p.width maxWidth, p.high⟩) = ps := by
  conv_rhs => rw [← List.map_id ps]
  apply List.map_congr_left
  intro p hp
  show (⟨if p.width ≤ maxWidth then p.width else maxWidth, p.high⟩ : Pulse) = p
  rw [if_pos (h p hp)]

end Session

/-! ## The loop -/

namespace Command

variable {s : Session}

theorem render_nil (w : WavWriter) : render w [] = w := rfl

theorem render_cons (w : WavWriter) (p : Pulse) (ps : List Pulse) :
    render w (p :: ps) = render (w.pulse p.width p.high) ps := rfl

theorem render_append (w : WavWriter) (ps qs : List Pulse) :
    render w (ps ++ qs) = render (render w ps) qs :=
  List.foldl_append ..

theorem feed_of_stopped (h : s.started = false) (w : WavWriter) : feed s w = (s, w, true) := by
  rw [feed, if_pos (by simp [h])]

/-- A session that has stopped is mixed by one last drain. -/
theorem mix_of_stopped (h : s.started = false) (w : WavWriter) :
    mix s w = ({ s with sink := s.sink.drain.2 }, render w s.sink.drain.1, true) := by
  simp only [mix, feed_of_stopped h]

/-- One round of the loop: a session that plays is drained into the writer
and ticked, and the loop goes on from the tick, when that tick lowers its rank
whenever it leaves it playing. -/
theorem feed_of_started (hst : s.started = true)
    (hlow : ({ s with sink := s.sink.drain.2 }.tick).started = true →
      ({ s with sink := s.sink.drain.2 }.tick).rank.Below s.rank) (w : WavWriter) :
    feed s w = feed { s with sink := s.sink.drain.2 }.tick (render w s.sink.drain.1) := by
  rw [feed, if_neg (by simp [hst])]
  by_cases h : ({ s with sink := s.sink.drain.2 }.tick).started = true
  · simp only [h, Bool.not_true, Bool.false_eq_true, if_false]
    rw [dif_pos (hlow h)]
  · simp only [Bool.not_eq_true] at h
    simp only [h, Bool.not_false, if_true]
    rw [feed_of_stopped h]

theorem mix_of_started (hst : s.started = true)
    (hlow : ({ s with sink := s.sink.drain.2 }.tick).started = true →
      ({ s with sink := s.sink.drain.2 }.tick).rank.Below s.rank) (w : WavWriter) :
    mix s w = mix { s with sink := s.sink.drain.2 }.tick (render w s.sink.drain.1) := by
  simp only [mix, feed_of_started hst hlow]

/-- After one tick of a playing session, the mix renders, after the pulses
`acc` already taken, every pulse a run of the session takes out of its sink,
and ends stopped where the run ends.  By induction on `progress`, as the run
itself stops (`Session.runFor_stops`). -/
theorem mix_advance {u : Session} (hp : Session.Playing u) (w : WavWriter) (n : Nat)
    (acc given : List Pulse) :
    ∃ L, (Session.runFor (L + 1) u n acc given).session.started = false ∧
      mix u.advance.2 (render w acc.reverse) =
        ((Session.runFor (L + 1) u n acc given).session, render w (Session.runFor (L + 1) u n acc given).pulses,
          true) := by
  suffices h : ∀ (D : Nat) (x : Lex (Fin (2 * D + 2) → Nat) ×ₗ (Nat ×ₗ Nat)) (u : Session),
      Session.Playing u → u.loopDepth = D → Session.progress D u = x → ∀ n acc given,
        ∃ L, (Session.runFor (L + 1) u n acc given).session.started = false ∧
          mix u.advance.2 (render w acc.reverse) =
            ((Session.runFor (L + 1) u n acc given).session,
              render w (Session.runFor (L + 1) u n acc given).pulses, true) from
    h _ _ u hp rfl rfl n acc given
  intro D x
  induction x using WellFoundedLT.induction with
  | _ x ih =>
    intro u hp hD hx n acc given
    obtain ⟨τ, t_end, hr, he⟩ := Tape.reads_atEnd hp.sound
    rcases Session.tick_spec hp hr he with ⟨hstop, -⟩ | ⟨hp₂, hD₂, -, hlt, -⟩
    · -- the tick stops the session: the last drain takes what it left
      refine ⟨0, by simp [Session.runFor_succ, hstop], ?_⟩
      rw [mix_of_stopped hstop, Session.runFor_succ, if_pos (by simp [hstop])]
      simp [render_append]
    · -- the session plays on, lower in progress, and the loop goes round
      have hst₂ : u.advance.2.started = true := hp₂.started
      rw [hD, hx] at hlt
      obtain ⟨L, hL, hmix⟩ := ih _ hlt _ hp₂ (hD₂.trans hD) rfl (n + 1)
        (u.advance.2.sink.drain.1.reverse ++ acc) (u.advance.1.reverse ++ given)
      have hrun : Session.runFor (L + 1 + 1) u n acc given = Session.runFor (L + 1)
          { u.advance.2 with sink := u.advance.2.sink.drain.2 } (n + 1)
          (u.advance.2.sink.drain.1.reverse ++ acc) (u.advance.1.reverse ++ given) := by
        rw [Session.runFor_succ, if_neg (by simp [hst₂])]
      refine ⟨L + 1, hrun ▸ hL, ?_⟩
      rw [mix_of_started hst₂ (fun h => hp₂.rank_tick h), hrun, ← render_append, ← hmix]
      simp [Session.tick]

end Command

/-! ## Samples -/

namespace Renderer

theorem toInt_width (x : UInt32) : x.toUInt64.toInt64.toInt = x.toNat := by
  have h := x.toNat_lt
  rw [Int64.toInt, BitVec.toInt_eq_toNat_cond]
  simp only [Int64.toBitVec]
  simp
  omega

theorem bmod_of_lt {x : Int} (h0 : 0 ≤ x) (h : x < 2 ^ 63) : x.bmod (2 ^ 64) = x :=
  Int.bmod_eq_of_le (by omega) (by omega)

/-- A setting of zero or less is the default, and a setting that fits in a
signed 64-bit word is kept as it is. -/
theorem toInt_setting (x : Int) (d : Nat) (hd : d < 2 ^ 63) (hx : x < 2 ^ 63) :
    (if x ≤ 0 then (d : Int) else x).toInt64.toInt = ((if x ≤ 0 then d else x.toNat : Nat) : Int) := by
  split
  · rw [Int.toInt64, Int64.toInt_ofInt_of_le (by omega) (by omega)]
  · rw [Int.toInt64, Int64.toInt_ofInt_of_le (by omega) hx]
    omega

/-- Samples given before a carry and after it add up as one count. -/
theorem div_add_mod_add (K S C : Nat) (hC : 0 < C) : K / C + (K % C + S) / C = (K + S) / C := by
  conv_rhs => rw [← Nat.div_add_mod K C, Nat.add_assoc, Nat.mul_add_div hC]

variable {r : Renderer} {width : UInt32} {high : Bool}

@[simp] theorem clock_pulse : (r.pulse width high).1.clock = r.clock := rfl

@[simp] theorem rate_pulse : (r.pulse width high).1.rate = r.rate := rfl

/-- A pulse of `w` ticks, from a carry `k`, at clock `C` and rate `R`, gives
`(k + w * R) / C` samples and keeps `(k + w * R) % C`, when `k + w * R` fits in
a signed 64-bit word: then no sum, product or quotient wraps round. -/
theorem pulse_count {C R k : Nat} (hC : r.clock.toInt = C) (hR : r.rate.toInt = R)
    (hk : r.carry.toInt = k) (hC0 : 0 < C) (hfit : k + width.toNat * R < 2 ^ 63) :
    (r.pulse width high).2.2.toInt = ((k + width.toNat * R) / C : Nat) ∧
      (r.pulse width high).1.carry.toInt = ((k + width.toNat * R) % C : Nat) := by
  have hmul : (width.toUInt64.toInt64 * r.rate).toInt = (width.toNat * R : Nat) := by
    rw [Int64.toInt_mul, toInt_width, hR]
    push_cast
    exact bmod_of_lt (by positivity) (by push_cast at hfit ⊢; omega)
  have hsum : (r.carry + width.toUInt64.toInt64 * r.rate).toInt = (k + width.toNat * R : Nat) := by
    rw [Int64.toInt_add, hk, hmul]
    push_cast
    exact bmod_of_lt (by positivity) (by omega)
  have hq : (k + width.toNat * R) / C ≤ k + width.toNat * R := Nat.div_le_self _ _
  have hdiv : ((r.carry + width.toUInt64.toInt64 * r.rate) / r.clock).toInt =
      ((k + width.toNat * R) / C : Nat) := by
    rw [Int64.toInt_div, hsum, hC, Int.tdiv_eq_ediv_of_nonneg (by positivity), ← Int.natCast_div]
    exact bmod_of_lt (by positivity) (by omega)
  refine ⟨hdiv, ?_⟩
  have hm := Nat.div_add_mod' (k + width.toNat * R) C
  have hmod := Nat.mod_lt (k + width.toNat * R) hC0
  have hprod : ((r.carry + width.toUInt64.toInt64 * r.rate) / r.clock * r.clock).toInt =
      ((k + width.toNat * R) / C * C : Nat) := by
    rw [Int64.toInt_mul, hdiv, hC, ← Int.natCast_mul]
    exact bmod_of_lt (by positivity) (by omega)
  have hsub : ((k + width.toNat * R : Nat) : Int) - ((k + width.toNat * R) / C * C : Nat) =
      ((k + width.toNat * R) % C : Nat) := by omega
  show (r.carry + width.toUInt64.toInt64 * r.rate -
    (r.carry + width.toUInt64.toInt64 * r.rate) / r.clock * r.clock).toInt = _
  rw [Int64.toInt_sub, hsum, hprod, hsub]
  exact bmod_of_lt (by positivity) (by omega)

end Renderer

/-- A writer made without error: clock and rate are not negative, no sample
is buffered and the renderer is new. -/
theorem WavWriter.create_ok {name : String} {clock rate : Int} {w : WavWriter}
    (h : WavWriter.create name clock rate = .ok w) :
    0 ≤ clock ∧ 0 ≤ rate ∧ w.levels = [] ∧ w.renderer = Renderer.create clock rate := by
  unfold WavWriter.create at h
  split at h
  · cases h
  · split at h
    · cases h
    · cases h
      exact ⟨by omega, by omega, rfl, rfl⟩

namespace Command

theorem length_levels_pulse (w : WavWriter) (width : UInt32) (high : Bool) :
    (w.pulse width high).levels.length = (w.renderer.pulse width high).2.2.toInt.toNat + w.levels.length := by
  simp [WavWriter.pulse]

/-- Rendering pulses whose widths add up to `T`, from a carry `k` below the
clock `C`, at rate `R`, buffers `(k + T * R) / C` samples more, when no pulse
makes the carry overflow.  By induction on the pulses, the carry going from
one to the next. -/
theorem length_levels_render (ps : List Pulse) (w : WavWriter) {C R k : Nat}
    (hC : w.renderer.clock.toInt = C) (hR : w.renderer.rate.toInt = R) (hk : w.renderer.carry.toInt = k)
    (hC0 : 0 < C) (hkC : k < C) (hfit : ∀ p ∈ ps, C + p.width.toNat * R ≤ 2 ^ 63) :
    (render w ps).levels.length = w.levels.length + (k + (ps.map (·.width.toNat)).sum * R) / C := by
  induction ps generalizing w k with
  | nil => simp [render_nil, Nat.div_eq_of_lt hkC]
  | cons p ps ih =>
    obtain ⟨hn, hcarry⟩ := @Renderer.pulse_count w.renderer p.width p.high _ _ _ hC hR hk hC0
      (by have := hfit p (by simp); omega)
    rw [render_cons, ih (w.pulse p.width p.high) hC hR hcarry (Nat.mod_lt _ hC0)
      (fun q hq => hfit q (by simp [hq])), length_levels_pulse, hn, Int.toNat_natCast]
    have hsplit := Renderer.div_add_mod_add (k + p.width.toNat * R)
      ((ps.map (·.width.toNat)).sum * R) C hC0
    rw [List.map_cons, List.sum_cons, Nat.add_mul, ← Nat.add_assoc, ← hsplit]
    omega

/-! ## Writing a tape -/

/-- Writing a tape that a shelf serves under a name renders exactly the
pulses its catalogue lists, when the catalogue is whole, has no loop start and
lists pulses at most fifteen bits wide: the session started on the name and
ticked once is mixed to the end, stopped and not cut off.  And when the
catalogue has ticks, the first tick leaves the session playing or pulses in
its sink, so the WAV mode goes on to the mix. -/
theorem mix_renders_catalogue (cfg : Config) (shelf : Shelf) (depth : Int) (log : Log) (path : String)
    (D : ByteArray) (c : Catalogue) (w : WavWriter) (hpath : path ≠ "") (hserve : shelf.Serves path D)
    (hc : Catalogue.ofBytes D = .ok c) (htr : c.truncated = false)
    (hloop : ∀ e ∈ c.entries, e.id ≠ BlockId.loopStart)
    (hwidth : ∀ p ∈ c.pulses D, p.width ≤ maxWidth) :
    let s := (((Session.create cfg shelf (PulseQueue.ofDepth depth) log).select path).start).tick
    (0 < c.ticks → (s.started || !s.sink.isEmpty) = true) ∧
      (mix s w).1.started = false ∧ (mix s w).2.2 = true ∧ (mix s w).2.1 = render w (c.pulses D) := by
  intro s
  set u : Session :=
    { ((Session.create cfg shelf (PulseQueue.ofDepth depth) log).select path).reset with
      restartPending := true, started := true } with hu
  have hstart : ((Session.create cfg shelf (PulseQueue.ofDepth depth) log).select path).start = u := by
    have hpath' : ((Session.create cfg shelf (PulseQueue.ofDepth depth) log).select path).path ≠ "" :=
      hpath
    rw [Session.start_of_stopped rfl, if_neg hpath']
  obtain ⟨hok, hA, hfmt, hloops, -⟩ := Tape.openTape_of_serves (t := u.toTape) hserve
  change (u.toTape.cleared.openTape u.path).2 = true at hok
  have hroomy : 2 ≤ u.ring.capacity := by
    simpa [hu, Session.reset, Session.select] using Session.capacity_create cfg _ (PulseQueue.ofDepth depth) log
  have hp₀ := Session.playing_reopened (s := u) rfl hroomy (Session.PulseQueue.depth_ofDepth depth)
    (Session.PulseQueue.toList_ofDepth depth) hok
  have hadv := Session.advance_eq_reopened rfl rfl hok hp₀
  have hs : s = u.reopened.advance.2 := by
    show (((Session.create cfg _ _ log).select path).start).advance.2 = _
    rw [hstart, hadv]
  obtain ⟨L, hL, hmix⟩ := mix_advance hp₀ w 0 [] []
  have hrun : u.run (L + 1) = Session.runFor (L + 1) u.reopened 0 [] [] := by
    rw [Session.run, show max (L + 1) 1 = L + 1 by omega, Session.runFor_congr hadv]
  rw [← hrun, List.reverse_nil, render_nil, ← hs] at hmix
  rw [← hrun] at hL
  have hpush := Session.run_pushes_catalogue (s := u) rfl rfl hroomy (Session.PulseQueue.depth_ofDepth depth)
    (Session.PulseQueue.toList_ofDepth depth) ⟨hok, hA, hfmt, hloops⟩ hc htr hloop hL
  have hpulses : (u.run (L + 1)).pulses = c.pulses D := by
    have h := Session.runFor_pulses (max (L + 1) 1) u 0 [] [] (Session.PulseQueue.toList_ofDepth depth) rfl
    rw [← Session.run] at h
    rw [h, hpush, Session.map_clamp_of_le hwidth]
  refine ⟨fun hticks => ?_, ?_⟩
  · -- a first tick that stops with an empty sink would leave the run nothing to play
    cases hst : s.started
    · have hfirst : (u.run (L + 1)).pulses = s.sink.drain.1 := by
        rw [hrun, Session.runFor_succ, ← hs, if_pos (by simp [hst])]
        simp
      rw [hpulses, PulseQueue.drain_fst] at hfirst
      have hne : s.sink.toList ≠ [] := by
        intro h0
        rw [← Catalogue.sum_pulses hc htr, hfirst, h0] at hticks
        simp at hticks
      simpa [PulseQueue.isEmpty, PulseQueue.toList_eq_nil_iff] using hne
    · rfl
  · rw [hmix, hpulses]
    exact ⟨hL, rfl, rfl⟩

/-- Writing a tape to a WAV file buffers as many samples as the tape lasts.
A session on a shelf that serves an image under a name (as a shelf on a file
store serves a local tape file, `Shelf.serves_disk`) is started on the name
and ticked once, and mixed into a writer made with a clock and a rate, zero
meaning the renderer's defaults, so that they come to `C` and `R`.  When the
catalogue of the image is whole and has no loop start, its pulses are at most
fifteen bits wide, and each of them added to a carry below the clock fits in
a signed 64-bit word, the mix stops with the session and buffers
`c.ticks * R / C` samples.  And when the catalogue has ticks, the first tick
leaves the session playing or pulses in its sink, so the WAV mode goes on to
the mix. -/
theorem mix_buffers_catalogue_ticks (cfg : Config) (shelf : Shelf) (depth : Int) (log : Log)
    (path out : String) (D : ByteArray) (c : Catalogue) (clock rate : Int) (C R : Nat) (w : WavWriter)
    (hpath : path ≠ "") (hserve : shelf.Serves path D)
    (hc : Catalogue.ofBytes D = .ok c) (htr : c.truncated = false)
    (hloop : ∀ e ∈ c.entries, e.id ≠ BlockId.loopStart)
    (hwidth : ∀ p ∈ c.pulses D, p.width ≤ maxWidth)
    (hw : WavWriter.create out clock rate = .ok w)
    (hC : C = if clock ≤ 0 then Renderer.defaultClock else clock.toNat)
    (hR : R = if rate ≤ 0 then Renderer.defaultRate else rate.toNat)
    (hclock : clock < 2 ^ 63) (hrate : rate < 2 ^ 63)
    (hfit : ∀ p ∈ c.pulses D, C + p.width.toNat * R ≤ 2 ^ 63) :
    let s := (((Session.create cfg shelf (PulseQueue.ofDepth depth) log).select path).start).tick
    (0 < c.ticks → (s.started || !s.sink.isEmpty) = true) ∧
      (mix s w).1.started = false ∧ (mix s w).2.2 = true ∧
      (mix s w).2.1.levels.length = c.ticks * R / C := by
  intro s
  obtain ⟨hgate, hstop, hend, hrender⟩ :=
    mix_renders_catalogue cfg shelf depth log path D c w hpath hserve hc htr hloop hwidth
  obtain ⟨-, -, hlevels, hrend⟩ := WavWriter.create_ok hw
  have hC0 : 0 < C := by
    rw [hC]
    split
    · decide
    · omega
  have hsamples := length_levels_render (c.pulses D) w (k := 0)
    (by rw [hrend, hC]; exact Renderer.toInt_setting clock _ (by decide) hclock)
    (by rw [hrend, hR]; exact Renderer.toInt_setting rate _ (by decide) hrate) (by rw [hrend]; rfl) hC0 hC0 hfit
  rw [hlevels, Catalogue.sum_pulses hc htr] at hsamples
  refine ⟨hgate, hstop, hend, ?_⟩
  rw [hrender]
  simpa using hsamples

/-- The tone of two pulses of a thousand ticks, served from memory, written
with the default clock and rate. -/
theorem twoPulseTone_mix_buffers : ∃ c, Catalogue.ofBytes Session.twoPulseTone = .ok c ∧
    c.truncated = false ∧ (∀ e ∈ c.entries, e.id ≠ BlockId.loopStart) ∧
    (∀ p ∈ c.pulses Session.twoPulseTone, p.width ≤ maxWidth) ∧
    (∀ p ∈ c.pulses Session.twoPulseTone, 3885000 + p.width.toNat * 44100 ≤ 2 ^ 63) ∧
    let s := (((Session.create {} { rack := .memory [("a.tzx", Session.twoPulseTone)] }
      (PulseQueue.ofDepth 0) (Log.ofCapacity 8)).select "a.tzx").start).tick
    let w : WavWriter := { filename := "a.wav", renderer := Renderer.create 0 0 }
    (0 < c.ticks → (s.started || !s.sink.isEmpty) = true) ∧ (mix s w).1.started = false ∧
      (mix s w).2.2 = true ∧ (mix s w).2.1.levels.length = c.ticks * 44100 / 3885000 := by
  have hok : ((Catalogue.ofBytes Session.twoPulseTone).toOption.map fun c =>
      (!c.truncated && c.entries.all fun e => e.id != BlockId.loopStart) &&
        (c.pulses Session.twoPulseTone).all fun p =>
          decide (p.width ≤ maxWidth) && decide (3885000 + p.width.toNat * 44100 ≤ 2 ^ 63)) = some true := by
    decide +kernel
  obtain ⟨c, hc, hok⟩ := Catalogue.ok_of_check hok
  simp only [Bool.and_eq_true, Bool.not_eq_true', List.all_eq_true, bne_iff_ne, ne_eq,
    decide_eq_true_eq] at hok
  obtain ⟨⟨htr, hloop⟩, hp⟩ := hok
  exact ⟨c, hc, htr, hloop, fun p h => (hp p h).1, fun p h => (hp p h).2,
    mix_buffers_catalogue_ticks {} { rack := .memory [("a.tzx", Session.twoPulseTone)] } 0
      (Log.ofCapacity 8) "a.tzx" "a.wav" Session.twoPulseTone c 0 0 3885000 44100
      { filename := "a.wav", renderer := Renderer.create 0 0 } (by decide)
      (Shelf.serves_memory rfl rfl rfl rfl) hc htr hloop (fun p h => (hp p h).1)
      (by simp [WavWriter.create]) rfl rfl (by decide) (by decide) (fun p h => (hp p h).2)⟩

/-- A TZX image of one pause of a millisecond. -/
def pauseTape : ByteArray :=
  ⟨#[0x5A, 0x58, 0x54, 0x61, 0x70, 0x65, 0x21, 0x1A, 0x01, 0x14, 0x20, 0x01, 0x00]⟩

/-- At a clock and a rate of `2 ^ 63 - 1` the pause of 3500 ticks should last
3500 samples, but the carry wraps round and none are buffered. -/
theorem pauseTape_mix_wraps_at_top_rate : ∃ c, Catalogue.ofBytes pauseTape = .ok c ∧
    c.ticks = 3500 ∧ c.ticks * (2 ^ 63 - 1) / (2 ^ 63 - 1) = 3500 ∧
    let s := (((Session.create {} { rack := .memory [("p.tzx", pauseTape)] } (PulseQueue.ofDepth 0)
      (Log.ofCapacity 8)).select "p.tzx").start).tick
    let w : WavWriter := { filename := "p.wav", renderer := Renderer.create (2 ^ 63 - 1) (2 ^ 63 - 1) }
    (mix s w).2.1.levels.length = 0 := by
  have hok : ((Catalogue.ofBytes pauseTape).toOption.map fun c =>
      (!c.truncated && c.entries.all fun e => e.id != BlockId.loopStart) &&
        c.pulses pauseTape == [⟨3500, false⟩]) = some true := by
    decide +kernel
  obtain ⟨c, hc, hok⟩ := Catalogue.ok_of_check hok
  simp only [Bool.and_eq_true, Bool.not_eq_true', List.all_eq_true, bne_iff_ne, ne_eq,
    beq_iff_eq] at hok
  obtain ⟨⟨htr, hloop⟩, hp⟩ := hok
  have hticks : c.ticks = 3500 := by
    rw [← Catalogue.sum_pulses hc htr, hp]
    rfl
  obtain ⟨-, -, -, hrender⟩ := mix_renders_catalogue {} { rack := .memory [("p.tzx", pauseTape)] } 0
    (Log.ofCapacity 8) "p.tzx" pauseTape c
    { filename := "p.wav", renderer := Renderer.create (2 ^ 63 - 1) (2 ^ 63 - 1) } (by decide)
    (Shelf.serves_memory rfl rfl rfl rfl) hc htr hloop (by rw [hp]; decide)
  refine ⟨c, hc, hticks, by rw [hticks]; decide, ?_⟩
  intro s w
  rw [hrender, hp]
  decide

end Command

end TapeDeck
