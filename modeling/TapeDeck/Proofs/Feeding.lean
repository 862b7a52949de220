import TapeDeck.Proofs.Blocks

/-!
# Feeding a generator through a ring

A generator does not read a stream; it is fed one through a byte ring, a few
bytes at a time, and stepped in between.  A `Feed` follows that: the
generator, the ring, the bytes of the stream still to push, the pulses the
steps gave, and whether a step has ended the tape.  A feeder pushes the next
byte when the ring has room, or steps the generator, telling it whether the
whole stream has been pushed.  Steps give their pulses to the caller, so
whatever sink the caller keeps does not change what they give.

*Any schedule.*  A feeder is honest (`Feed.fairRun`) when it says the stream
is all pushed only once it is.  Then what the steps gave, followed by what
the generator would give for the bytes in the ring and those still to push,
never changes (`Feed.promised_run`): it is what the generator gives for the
whole stream at once (`Generator.playAll`).  When a step ends the tape,
nothing more is promised, so the steps gave exactly that.

*Some schedule ends.*  With a ring of two bytes or more, the feeder that
pushes whenever it can and steps otherwise ends the tape from any state
(`Feed.exists_ending`): pushing lowers the bytes still to push more than it
raises the generator's load, and a step either ends the tape or lowers the
load, since a generator never waits with two bytes in its ring.  With one
byte of room a two-byte sequence word is never there whole, so the stream
can never be pushed to its end.

*Whole blocks.*  For a stream of whole blocks the generator gives their
trains one after another (`Generator.playAll_blocks`), so an honest feeder
sees those trains, and sees all of them when the tape ends
(`fed_blocks_play_trains`).
-/

namespace TapeDeck

namespace Generator

/-- A generator fed a stream through a ring. -/
structure Feed where
  /-- The generator. -/
  gen : Generator
  /-- The ring between the stream and the generator. -/
  ring : ByteRing
  /-- The bytes of the stream not yet pushed. -/
  rest : List UInt8
  /-- The pulses the steps gave, oldest first. -/
  out : List Pulse
  /-- Whether a step ended the tape. -/
  ended : Bool

/-- What a feeder does next. -/
inductive Move where
  /-- Push the next byte of the stream, if the ring has room for it. -/
  | push
  /-- Step the generator, telling it whether the stream has all been pushed. -/
  | step (finished : Bool)

namespace Feed

/-- A generator of a format after a reset, fed a stream through an empty ring
of a capacity. -/
def start (fmt : Format) (c : Int) (bytes : List UInt8) : Feed :=
  ⟨Generator.start fmt, ByteRing.ofCapacity c, bytes, [], false⟩

/-- A move of the feeder. -/
def move (s : Feed) : Move → Feed
  | .push =>
    match s.rest with
    | b :: bs => if 0 < s.ring.free then { s with ring := s.ring.push b, rest := bs } else s
    | [] => s
  | .step fin =>
    let o := s.gen.step s.ring fin
    { s with gen := o.gen, ring := o.ring, out := s.out ++ o.pulse.toList,
             ended := o.result = .endOfTape }

/-- Moves made in turn, up to the step that ends the tape. -/
def run (s : Feed) : List Move → Feed
  | [] => s
  | m :: ms => if s.ended then s else (s.move m).run ms

/-- Whether a move is honest: a step says the stream has all been pushed
only once it has. -/
def fair (s : Feed) : Move → Bool
  | .push => true
  | .step fin => !fin || s.rest.isEmpty

/-- Whether moves made in turn are honest, up to the end of the tape. -/
def fairRun (s : Feed) : List Move → Bool
  | [] => true
  | m :: ms => s.ended || (s.fair m && (s.move m).fairRun ms)

/-- What the steps gave, and what the generator would give, played to the
end, for the bytes in the ring and those still to push. -/
def promised (s : Feed) : List Pulse :=
  s.out ++ if s.ended then [] else s.gen.playAll (s.ring.toList ++ s.rest)

variable {s : Feed}

/-! ## Any schedule -/

theorem promised_push (he : s.ended = false) : (s.move .push).promised = s.promised := by
  cases hr : s.rest with
  | nil => simp only [move, hr]
  | cons b bs =>
    by_cases hroom : 0 < s.ring.free
    · have hlt : s.ring.toList.length < s.ring.capacity := by
        simp only [ByteRing.free] at hroom
        simpa using hroom
      simp only [move, hr, if_pos hroom, promised, he, ByteRing.toList_push, if_pos hlt]
      simp
    · simp only [move, hr, if_neg hroom]

theorem promised_step (he : s.ended = false) {fin : Bool} (hf : s.fair (.step fin) = true) :
    (s.move (.step fin)).promised = s.promised := by
  have hτ : fin = true → s.rest = [] := by
    intro hfin
    simpa [fair, hfin] using hf
  simp only [move, promised, he]
  by_cases hend : (s.gen.step s.ring fin).result = .endOfTape
  · rw [playAll_of_endOfTape hτ hend, (step_endOfTape hend).2]
    simp [hend]
  · rw [playAll_step hτ hend]
    simp [hend]

/-- An honest move keeps what is promised. -/
theorem promised_move (he : s.ended = false) {m : Move} (hf : s.fair m = true) :
    (s.move m).promised = s.promised := by
  cases m with
  | push => exact promised_push he
  | step fin => exact promised_step he hf

/-- Honest moves made in turn keep what is promised. -/
theorem promised_run {ms : List Move} (h : s.fairRun ms = true) : (s.run ms).promised = s.promised := by
  induction ms generalizing s with
  | nil => rfl
  | cons m ms ih =>
    simp only [run]
    cases he : s.ended with
    | true => rfl
    | false =>
      simp only [fairRun, he, Bool.false_or, Bool.and_eq_true] at h
      rw [if_neg Bool.false_ne_true, ih h.2, promised_move he h.1]

theorem promised_start (fmt : Format) (c : Int) (bytes : List UInt8) :
    (start fmt c bytes).promised = (Generator.start fmt).playAll bytes := by
  simp [promised, start]

/-- Once the tape has ended, the steps gave all that was promised. -/
theorem out_eq_promised (he : s.ended = true) : s.out = s.promised := by
  simp [promised, he]

theorem out_prefix_promised : s.out <+: s.promised :=
  List.prefix_append _ _

/-! ## Some schedule ends -/

/-- The move of a feeder that keeps the ring as full as it can: it pushes
while the stream has bytes and the ring room, and steps otherwise. -/
def next (s : Feed) : Move :=
  if s.rest ≠ [] ∧ 0 < s.ring.free then .push else .step s.rest.isEmpty

/-- What a feed has left to do: the bytes still to push, each counting three
times, and the generator's load, its bytes in the ring counting twice. -/
def work (s : Feed) : ℕ ×ₗ ℕ :=
  toLex (3 * s.rest.length + (s.gen.load s.ring.toList).1, (s.gen.load s.ring.toList).2)

theorem fair_next (s : Feed) : s.fair s.next = true := by
  unfold next
  split
  · rfl
  · simp [fair]

@[simp] theorem capacity_move (s : Feed) (m : Move) : (s.move m).ring.capacity = s.ring.capacity := by
  cases m with
  | push =>
    simp only [move]
    split
    · split <;> simp
    · rfl
  | step fin => simp [move]

@[simp] theorem capacity_run (s : Feed) (ms : List Move) : (s.run ms).ring.capacity = s.ring.capacity := by
  induction ms generalizing s with
  | nil => rfl
  | cons m ms ih =>
    simp only [run]
    split
    · rfl
    · rw [ih, capacity_move]

/-- A step that lowers the generator's load lowers the work left. -/
theorem work_step_lt {fin : Bool}
    (h : Prod.Lex (· < ·) (· < ·) ((s.gen.step s.ring fin).gen.load (s.gen.step s.ring fin).ring.toList)
      (s.gen.load s.ring.toList)) :
    (s.move (.step fin)).work < s.work := by
  simp only [work, move]
  rw [Prod.lex_def] at h
  rcases h with h | ⟨h₁, h₂⟩
  · exact Prod.Lex.toLex_lt_toLex.2 (.inl (by omega))
  · exact Prod.Lex.toLex_lt_toLex.2 (.inr ⟨by omega, h₂⟩)

/-- Unless it ends the tape, the next move of a feeder that keeps the ring
full lowers the work left, once the ring holds two bytes or more. -/
theorem work_next_lt (hc : 2 ≤ s.ring.capacity) (he : (s.move s.next).ended = false) :
    (s.move s.next).work < s.work := by
  unfold next at he ⊢
  by_cases hpush : s.rest ≠ [] ∧ 0 < s.ring.free
  · -- a push moves a byte from the stream into the ring
    rw [if_pos hpush]
    obtain ⟨b, bs, hr⟩ := List.exists_cons_of_ne_nil hpush.1
    have hlt : s.ring.toList.length < s.ring.capacity := by
      have := hpush.2
      simp only [ByteRing.free] at this
      simpa using this
    simp only [work, move, hr, if_pos hpush.2, ByteRing.toList_push, if_pos hlt, load]
    refine Prod.Lex.toLex_lt_toLex.2 (.inl ?_)
    simp only [List.length_cons, List.length_append, List.length_nil]
    omega
  · rw [if_neg hpush] at he ⊢
    have hend : (s.gen.step s.ring s.rest.isEmpty).result ≠ .endOfTape := by
      simpa [move] using he
    cases hrest : s.rest.isEmpty with
    | true =>
      rw [hrest] at hend
      exact work_step_lt (step_load_lt hend)
    | false =>
      have hfull : s.ring.capacity ≤ s.ring.toList.length := by
        have hne : s.rest ≠ [] := by simpa using hrest
        have : ¬ 0 < s.ring.free := fun h => hpush ⟨hne, h⟩
        simp only [ByteRing.free] at this
        simp at this
        omega
      rw [hrest] at hend
      rcases step_load s.gen s.ring false with hE | hlt | ⟨-, -, -, hl⟩
      · exact absurd hE hend
      · exact work_step_lt hlt
      · omega

/-- With a ring of two bytes or more, from any state some honest moves end
the tape: those of the feeder that keeps the ring full. -/
theorem exists_ending (hc : 2 ≤ s.ring.capacity) :
    ∃ ms, s.fairRun ms = true ∧ (s.run ms).ended = true := by
  suffices h : ∀ (x : ℕ ×ₗ ℕ) (s : Feed), s.work = x → 2 ≤ s.ring.capacity →
      ∃ ms, s.fairRun ms = true ∧ (s.run ms).ended = true from h _ s rfl hc
  intro x
  induction x using WellFoundedLT.induction with
  | _ x ih =>
    intro s hx hc
    cases he : s.ended with
    | true => exact ⟨[], rfl, he⟩
    | false =>
      cases he' : (s.move s.next).ended with
      | true => exact ⟨[s.next], by simp [fairRun, fair_next], by simp [run, he, he']⟩
      | false =>
        obtain ⟨ms, hf, hend⟩ := ih _ (hx ▸ work_next_lt hc he') (s.move s.next) rfl
          (by rwa [capacity_move])
        exact ⟨s.next :: ms, by simp [fairRun, fair_next, hf], by simp [run, he, hend]⟩

/-- After honest moves from a reset generator fed a stream, what the steps
gave is the start of what the generator gives for the whole stream at once,
and all of it once the tape has ended; with a ring of two bytes or more,
honest moves that end the tape exist from there. -/
theorem run_plays {fmt : Format} {c : Int} {bytes : List UInt8} {ms : List Move}
    (hms : (start fmt c bytes).fairRun ms = true) :
    let s := (start fmt c bytes).run ms
    s.out <+: (Generator.start fmt).playAll bytes ∧
      (s.ended = true → s.out = (Generator.start fmt).playAll bytes) ∧
      (2 ≤ c → ∃ ms', s.fairRun ms' = true ∧ (s.run ms').ended = true ∧
        (s.run ms').out = (Generator.start fmt).playAll bytes) := by
  intro s
  have hs : s.promised = (Generator.start fmt).playAll bytes := by
    rw [promised_run hms, promised_start]
  refine ⟨hs ▸ out_prefix_promised, fun he => hs ▸ out_eq_promised he, fun hc => ?_⟩
  have hcap : 2 ≤ s.ring.capacity := by
    simp only [s, capacity_run, start, ByteRing.capacity_ofCapacity]
    omega
  obtain ⟨ms', hf, hend⟩ := exists_ending hcap
  exact ⟨ms', hf, hend, by rw [out_eq_promised hend, promised_run hf, hs]⟩

end Feed

/-! ## Whole blocks -/

/-- A stream of whole blocks played from a reset generator gives the blocks'
trains. -/
theorem playAll_start_blocks (fmt : Format) (l : List (List UInt8 × List UInt8))
    (hl : ∀ b ∈ l, WholeBlock fmt b.1 b.2) :
    (Generator.start fmt).playAll (l.flatMap fun b => b.1 ++ b.2) =
      l.flatMap fun b => (blockTiming fmt b.1 b.2).train b.2 :=
  playAll_blocks fmt l (Generator.start fmt) rfl rfl rfl hl

/-- A whole TAP block with data has the short pilot of a data block when its
flag byte is `0x80` or more, and the long one of a header block otherwise. -/
theorem pilotCount_blockTiming_tap {hdr data : List UInt8} {flag : UInt8}
    (hb : WholeBlock .tap hdr (flag :: data)) :
    (blockTiming .tap hdr (flag :: data)).pilotCount =
      if 0x80 ≤ flag.toNat then Timing.dataPilots else Timing.headerPilots := by
  obtain ⟨c, cs, rfl, hs⟩ := hb.size
  obtain ⟨d, rfl⟩ : ∃ d, cs = [d] := List.length_eq_one_iff.1 (by simp [headerSize] at hs; omega)
  have hlen := hb.length
  unfold blockTiming decodable at hlen ⊢
  by_cases h0 : 0 < (Timing.decode [c, d] .tap).length
  · -- the flag byte is decoded with the header
    rw [if_pos ⟨rfl, h0⟩]
    simp [Timing.decode, Timing.ofTapHeader, Header.byteAt]
  · -- a block of length zero has no data, yet this one has a flag byte
    simp only [h0, and_false, if_false, Option.getD_some] at hlen
    simp at h0 hlen
    omega

/-- A generator of either format, reset and fed a stream of whole blocks
through a ring by a feeder that says the stream is all pushed only once it
is, gives the blocks' trains: after any honest moves, what the steps gave is
the start of the trains, one block after another, and once a step has ended
the tape it is all of them.  With a ring of two bytes or more, honest moves
that end the tape exist after any honest moves, and with them the steps give
all the trains. -/
theorem fed_blocks_play_trains (fmt : Format) (l : List (List UInt8 × List UInt8))
    (hl : ∀ b ∈ l, WholeBlock fmt b.1 b.2) (c : Int) (ms : List Move)
    (hms : (Feed.start fmt c (l.flatMap fun b => b.1 ++ b.2)).fairRun ms = true) :
    let s := (Feed.start fmt c (l.flatMap fun b => b.1 ++ b.2)).run ms
    let trains := l.flatMap fun b => (blockTiming fmt b.1 b.2).train b.2
    s.out <+: trains ∧ (s.ended = true → s.out = trains) ∧
      (2 ≤ c → ∃ ms', s.fairRun ms' = true ∧ (s.run ms').ended = true ∧ (s.run ms').out = trains) := by
  intro s trains
  have hplay : (Generator.start fmt).playAll (l.flatMap fun b => b.1 ++ b.2) = trains :=
    playAll_start_blocks fmt l hl
  rw [← hplay]
  exact Feed.run_plays hms

/-- A pure tone of two pulses and then a millisecond of pause, pushed through
a two-byte ring as soon as it has room, with the generator stepped whenever
the ring is full or the stream all pushed: the moves are honest, they end the
tape, and the steps give the two trains. -/
theorem toneThenPause_fed_plays :
    let l : List (List UInt8 × List UInt8) :=
      [([0x12, 0x10, 0x00, 0x02, 0x00], []), ([0x20, 0x01, 0x00], [])]
    let ms : List Move := [.push, .push, .step false, .push, .push, .step false, .push, .push,
      .step false, .step false, .push, .step false, .push, .step true, .step true]
    let s := (Feed.start .tzx 2 (l.flatMap fun b => b.1 ++ b.2)).run ms
    let trains := l.flatMap fun b => (blockTiming .tzx b.1 b.2).train b.2
    (∀ b ∈ l, WholeBlock .tzx b.1 b.2) ∧
      (Feed.start .tzx 2 (l.flatMap fun b => b.1 ++ b.2)).fairRun ms = true ∧ s.ended = true ∧
      (s.out <+: trains ∧ (s.ended = true → s.out = trains) ∧
        (2 ≤ (2 : Int) → ∃ ms', s.fairRun ms' = true ∧ (s.run ms').ended = true ∧
          (s.run ms').out = trains)) := by
  intro l ms s trains
  have hl : ∀ b ∈ l, WholeBlock .tzx b.1 b.2 := by
    simp only [l, List.mem_cons, List.not_mem_nil, or_false, forall_eq_or_imp, forall_eq]
    exact ⟨⟨⟨0x12, [0x10, 0x00, 0x02, 0x00], rfl, by decide⟩, by decide, by decide⟩,
      ⟨⟨0x20, [0x01, 0x00], rfl, by decide⟩, by decide, by decide⟩⟩
  have hms : (Feed.start .tzx 2 (l.flatMap fun b => b.1 ++ b.2)).fairRun ms = true := by decide
  exact ⟨hl, hms, by decide, fed_blocks_play_trains .tzx l hl 2 ms hms⟩

end Generator

end TapeDeck
