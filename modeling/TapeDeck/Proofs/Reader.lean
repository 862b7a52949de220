import Mathlib
import TapeDeck.Session

/-!
# Reading a tape file

Filling the ring is a run of rounds of `Tape.round`, each of which hands out
at most one byte.  This module says where such a run goes.

*Sources.*  A source reads the bytes at its position and moves past them; a
seek to a position the shelf allows moves there.  A tape is *synced* when
its open file stands where the tape says it does.

*Soundness.*  `Tape.Sound` is what every round keeps: the tape is synced,
every loop starts at or before the position, inner loops start no earlier
than outer ones, no more loops are open than the depth allows, and a
finished tape has nothing of a block left to hand out.  Each step a round
takes keeps it, given what that step needs: a loop opens while the depth
allows (`Tape.Sound.openLoop`), a seek goes no earlier than any open loop
(`Tape.Sound.seekOrFinish`), a tape finishes with nothing of a block left
(`Tape.Sound.finish`).

*Standing.*  Reading need not move forward: a loop end seeks back to the
start of its loop.  What does go down is `Tape.standing`, compared
lexicographically: for each open loop, outermost first, how far its start
lies from the end of the file and the repeats it has left, then how far the
position lies from the end, then the bytes of the queued block still to hand
out.  A rewind lowers the repeats of the innermost loop; every other round
that goes on moves past a byte or hands one out.  As no more than
`loopDepth` loops are open, the standing fits a fixed length, and
`Tape.rank` compares it as a function on `Fin (2 * loopDepth + 2)`, whose
lexicographic order is well founded.

*Runs.*  `Tape.Reads t l t'` says that rounds take `t` to `t'` handing out
the bytes `l`.  From a sound tape reading always comes to an end
(`Tape.reads_atEnd`), and where it ends and what it hands out on the way
are determined (`Tape.Reads.unique`).
-/

namespace TapeDeck

/-! ## Sources -/

namespace Source

/-- A read takes the bytes at the position, as many as are asked for and
there. -/
theorem read_fst (s : Source) (n : Nat) :
    (s.read n).1 = (s.bytes.data.toList.drop s.pos).take n := by
  simp [read, byteArray_toList, Array.toList_extract, List.extract_eq_take_drop]

theorem length_read_fst_le (s : Source) (n : Nat) : (s.read n).1.length ≤ n := by
  simp [read_fst]

/-- Bytes read lie before the end of the source's bytes. -/
theorem read_fst_length_le (s : Source) (n : Nat) (h : (s.read n).1 ≠ []) :
    s.pos + (s.read n).1.length ≤ s.bytes.size := by
  rw [read_fst] at h ⊢
  have hpos : s.pos < s.bytes.data.toList.length := by
    by_contra hle
    exact h (by simp [List.drop_eq_nil_of_le (Nat.le_of_not_lt hle)])
  simp only [List.length_take, List.length_drop, Array.length_toList, ByteArray.size_data] at hpos ⊢
  omega

/-- A seek to a position that is a natural number goes there. -/
theorem seek_natCast (s : Source) (o : Nat) : s.seek o = .ok { s with pos := o } := by
  simp [seek]

end Source

namespace Shelf

/-- A shelf's seek to a natural position goes there, or fails and counts
nothing. -/
theorem seek_natCast (sh : Shelf) (src : Source) (o : Nat) :
    sh.seek src o = ({ sh with seeks := sh.seeks + 1 }, .ok { src with pos := o }) ∨
      ∃ e, sh.seek src o = (sh, .error e) := by
  unfold seek
  split
  · split
    · exact .inr ⟨_, rfl⟩
    · simp [Source.seek_natCast]
  · simp [Source.seek_natCast]

end Shelf

namespace Tape

variable {t : Tape}

/-! ## What rounds leave alone -/

theorem note_eq (t : Tape) (detail : String) :
    t.note detail = { t with log := (t.note detail).log, console := (t.note detail).console } :=
  rfl

theorem observe_eq (t : Tape) (offset : Nat) (tm : Timing) (a : Action) :
    t.observe offset tm a =
      { t with events := (t.observe offset tm a).events,
               console := (t.observe offset tm a).console } := by
  rcases t with ⟨_, _, _, _, _, _, _ | _ | _⟩
  · rfl
  · rfl
  · by_cases ha : a = .queued <;> simp [observe, ha]

/-- A read of the open file moves the position past the bytes read. -/
theorem readBytes_eq (t : Tape) (n : Nat) :
    ∃ source, t.readBytes n = ((t.readBytes n).1,
      { t with source, pos := t.pos + (t.readBytes n).1.length }) := by
  unfold readBytes
  split
  · exact ⟨t.source, by simp⟩
  · exact ⟨_, rfl⟩

theorem length_readBytes_le (t : Tape) (n : Nat) : (t.readBytes n).1.length ≤ n := by
  unfold readBytes
  split
  · simp
  · exact Source.length_read_fst_le _ n

/-- A seek either goes to the offset, or fails and moves nothing. -/
theorem seekTo_eq (t : Tape) (o : Nat) :
    (∃ shelf src, t.source = some src ∧
      t.seekTo o = ({ t with shelf, source := some { src with pos := o }, pos := o }, true)) ∨
    (∃ shelf log console, t.seekTo o = ({ t with shelf, log, console }, false)) := by
  unfold seekTo
  split
  · exact .inr ⟨t.shelf, t.log, t.console, rfl⟩
  · next src hsrc =>
    rcases Shelf.seek_natCast t.shelf src o with h | ⟨e, h⟩
    · exact .inl ⟨{ t.shelf with seeks := t.shelf.seeks + 1 }, src, hsrc, by simp [h]⟩
    · rw [h]
      exact .inr ⟨_, _, _, rfl⟩

/-! ## Soundness -/

/-- The open file stands where the tape says it does. -/
def Synced (t : Tape) : Prop := ∀ src, t.source = some src → src.pos = t.pos

/-- What every round of reading keeps. -/
structure Sound (t : Tape) : Prop where
  synced : t.Synced
  loops_le : ∀ f ∈ t.loops, f.offset ≤ t.pos
  loops_sorted : t.loops.Pairwise fun inner outer => outer.offset ≤ inner.offset
  depth : t.loops.length ≤ t.loopDepth
  settled : t.finished = true → t.headerPending = [] ∧ t.dataPending = 0

theorem readBytes_synced (hs : t.Synced) (n : Nat) : (t.readBytes n).2.Synced := by
  unfold readBytes
  split
  · simpa using hs
  · next src hsrc =>
    intro src' h
    simp only [Option.some.injEq] at h
    subst h
    simp [Source.read, hs src hsrc]

theorem span_readBytes (t : Tape) (n : Nat) : (t.readBytes n).2.span = t.span := by
  unfold readBytes
  split
  · rfl
  · next src hsrc => simp [span, hsrc, Source.read]

/-- Bytes read from a synced tape lie before its span. -/
theorem readBytes_lt_span (hs : t.Synced) {n : Nat} (h : (t.readBytes n).1 ≠ []) :
    t.pos + (t.readBytes n).1.length < t.span := by
  unfold readBytes at h ⊢
  split at h
  · simp at h
  · next src hsrc =>
    simp only [span, hsrc]
    have := Source.read_fst_length_le src n h
    rw [hs src hsrc] at this
    omega

theorem seekTo_synced (hs : t.Synced) (o : Nat) : (t.seekTo o).1.Synced := by
  rcases seekTo_eq t o with ⟨shelf, src, hsrc, h⟩ | ⟨shelf, log, console, h⟩
  · rw [h]
    intro src' h'
    simp only [Option.some.injEq] at h'
    rw [← h']
  · rw [h]
    exact hs

theorem span_seekTo (t : Tape) (o : Nat) : (t.seekTo o).1.span = t.span := by
  rcases seekTo_eq t o with ⟨shelf, src, hsrc, h⟩ | ⟨shelf, log, console, h⟩
  · rw [h]
    simp [span, hsrc]
  · rw [h]
    rfl

theorem readBytes_eq_mk {n : Nat} {bs : List UInt8} {t' : Tape} (h : t.readBytes n = (bs, t')) :
    ∃ source, t' = { t with source, pos := t.pos + bs.length } := by
  obtain ⟨source, hr⟩ := readBytes_eq t n
  rw [h] at hr
  simp only [Prod.mk.injEq, true_and] at hr
  exact ⟨source, hr⟩

/-- A read changes the open file and the position, and nothing else that
reading looks at. -/
theorem readBytes_frame {n : Nat} {bs : List UInt8} {t' : Tape} (h : t.readBytes n = (bs, t')) :
    t'.pos = t.pos + bs.length ∧ t'.loops = t.loops ∧ t'.loopDepth = t.loopDepth ∧
      t'.finished = t.finished ∧ t'.headerPending = t.headerPending ∧
      t'.dataPending = t.dataPending ∧ t'.format = t.format ∧ t'.span = t.span := by
  have hsp := span_readBytes t n
  rw [h] at hsp
  obtain ⟨source, rfl⟩ := readBytes_eq_mk h
  exact ⟨rfl, rfl, rfl, rfl, rfl, rfl, rfl, hsp⟩

theorem Sound.readBytes (hs : t.Sound) {n : Nat} {bs : List UInt8} {t' : Tape}
    (h : t.readBytes n = (bs, t')) : t'.Sound := by
  have hsy := readBytes_synced hs.synced n
  rw [h] at hsy
  obtain ⟨source, rfl⟩ := readBytes_eq_mk h
  exact ⟨hsy, fun f hf => Nat.le_add_right_of_le (hs.loops_le f hf), hs.loops_sorted, hs.depth,
    hs.settled⟩

/-! ## Steps that keep a tape sound -/

section Frames

variable (detail : String) (o : Nat) (tm : Timing) (a : Action)

@[simp] theorem loops_note : (t.note detail).loops = t.loops := by rw [note_eq]
@[simp] theorem loopDepth_note : (t.note detail).loopDepth = t.loopDepth := by rw [note_eq]
@[simp] theorem pos_note : (t.note detail).pos = t.pos := by rw [note_eq]
@[simp] theorem span_note : (t.note detail).span = t.span := by rw [note_eq]; rfl
@[simp] theorem headerPending_note : (t.note detail).headerPending = t.headerPending := by rw [note_eq]
@[simp] theorem dataPending_note : (t.note detail).dataPending = t.dataPending := by rw [note_eq]

@[simp] theorem loops_observe : (t.observe o tm a).loops = t.loops := by rw [observe_eq]
@[simp] theorem loopDepth_observe : (t.observe o tm a).loopDepth = t.loopDepth := by rw [observe_eq]
@[simp] theorem pos_observe : (t.observe o tm a).pos = t.pos := by rw [observe_eq]
@[simp] theorem span_observe : (t.observe o tm a).span = t.span := by rw [observe_eq]; rfl
@[simp] theorem headerPending_observe : (t.observe o tm a).headerPending = t.headerPending := by
  rw [observe_eq]
@[simp] theorem dataPending_observe : (t.observe o tm a).dataPending = t.dataPending := by
  rw [observe_eq]

theorem Sound.note (hs : t.Sound) : (t.note detail).Sound := by
  rw [note_eq]
  exact ⟨hs.synced, hs.loops_le, hs.loops_sorted, hs.depth, hs.settled⟩

theorem Sound.observe (hs : t.Sound) : (t.observe o tm a).Sound := by
  rw [observe_eq]
  exact ⟨hs.synced, hs.loops_le, hs.loops_sorted, hs.depth, hs.settled⟩

end Frames

/-- A tape with nothing of a block left may finish. -/
theorem Sound.finish (hs : t.Sound) (hpend : t.headerPending = [] ∧ t.dataPending = 0) :
    { t with finished := true }.Sound :=
  ⟨hs.synced, hs.loops_le, hs.loops_sorted, hs.depth, fun _ => hpend⟩

/-- Opening a loop at the position keeps a tape sound while the depth allows
one more. -/
theorem Sound.openLoop (hs : t.Sound) (hroom : t.loops.length < t.loopDepth) (c : Nat) :
    { t with loops := ⟨t.pos, c⟩ :: t.loops }.Sound := by
  refine ⟨hs.synced, ?_, .cons (fun f hf => hs.loops_le f hf) hs.loops_sorted, ?_, hs.settled⟩
  · intro f hf
    rcases List.mem_cons.1 hf with rfl | hf
    · exact Nat.le_refl _
    · exact hs.loops_le f hf
  · simp only [List.length_cons]
    omega

section Innermost

variable {top : LoopFrame} {outer : List LoopFrame} (hs : t.Sound) (hl : t.loops = top :: outer)
include hs hl

/-- No open loop starts after the innermost one. -/
theorem Sound.le_innermost : ∀ f ∈ outer, f.offset ≤ top.offset := by
  have hsorted := hs.loops_sorted
  rw [hl] at hsorted
  exact (List.pairwise_cons.1 hsorted).1

/-- Closing the innermost loop keeps a tape sound. -/
theorem Sound.closeLoop : { t with loops := outer }.Sound := by
  have hsorted := hs.loops_sorted
  have hdepth := hs.depth
  rw [hl] at hsorted hdepth
  refine ⟨hs.synced, fun f hf => hs.loops_le f (by simp [hl, hf]), (List.pairwise_cons.1 hsorted).2,
    ?_, hs.settled⟩
  simp only [List.length_cons] at hdepth
  show outer.length ≤ t.loopDepth
  omega

/-- Counting the innermost loop down keeps a tape sound: the loops still
start where they did. -/
theorem Sound.countDown (c : Nat) : { t with loops := { top with counter := c } :: outer }.Sound := by
  have hsorted := hs.loops_sorted
  have hdepth := hs.depth
  rw [hl] at hsorted hdepth
  refine ⟨hs.synced, ?_, .cons (fun f hf => (hs.le_innermost hl f hf : f.offset ≤ top.offset))
    (List.pairwise_cons.1 hsorted).2, hdepth, hs.settled⟩
  intro f hf
  rcases List.mem_cons.1 hf with rfl | hf
  · exact hs.loops_le top (by simp [hl])
  · exact hs.loops_le f (by simp [hl, hf])

end Innermost

/-- A seek that finishes the tape when it fails keeps a tape with nothing of
a block left sound, when it goes no earlier than the start of any open
loop. -/
theorem Sound.seekOrFinish (hs : t.Sound) (hpend : t.headerPending = [] ∧ t.dataPending = 0)
    {o : Nat} (ho : ∀ f ∈ t.loops, f.offset ≤ o) :
    (match t.seekTo o with
      | (t, true) => t
      | (t, false) => { t with finished := true }).Sound := by
  have hsy := seekTo_synced hs.synced o
  rcases seekTo_eq t o with ⟨shelf, src, -, h⟩ | ⟨shelf, log, console, h⟩ <;> rw [h] at hsy ⊢ <;>
    dsimp only
  · -- the file and the tape both stand at the offset
    exact ⟨hsy, ho, hs.loops_sorted, hs.depth, fun _ => hpend⟩
  · exact ⟨hsy, hs.loops_le, hs.loops_sorted, hs.depth, fun _ => hpend⟩

/-- The same seek keeps the loops, the depth and the span, and leaves the
tape at the offset or where it stood. -/
theorem seekOrFinish_frame (t : Tape) (o : Nat) :
    let t' := match t.seekTo o with
      | (t, true) => t
      | (t, false) => { t with finished := true }
    t'.loops = t.loops ∧ t'.loopDepth = t.loopDepth ∧ t'.span = t.span ∧
      (t'.pos = o ∨ t'.pos = t.pos) := by
  have hsp := span_seekTo t o
  rcases seekTo_eq t o with ⟨shelf, src, -, h⟩ | ⟨shelf, log, console, h⟩ <;> rw [h] at hsp ⊢
  · exact ⟨rfl, rfl, hsp, .inl rfl⟩
  · exact ⟨rfl, rfl, hsp, .inr rfl⟩

/-! ## Standing -/

/-- The standing as a function on `Fin (2 * D + 2)`, in lexicographic order. -/
def rank (D : Nat) (t : Tape) : Lex (Fin (2 * D + 2) → Nat) :=
  toLex fun i => t.standing.getD i 0

theorem loopStanding_cons {t : Tape} {f : LoopFrame} {outer : List LoopFrame}
    (h : t.loops = f :: outer) :
    t.loopStanding = (outer.reverse.flatMap fun f => [t.span - f.offset, f.counter]) ++
      [t.span - f.offset, f.counter] := by
  simp [loopStanding, h]

/-- The rank goes down when the standing goes down at one place and agrees
before it. -/
theorem rank_lt_of_standing {D : Nat} {t t' : Tape} {P X Y : List Nat} {a b : Nat}
    (h' : t'.standing = P ++ b :: X) (h : t.standing = P ++ a :: Y) (ha : b < a)
    (hP : P.length < 2 * D + 2) : rank D t' < rank D t := by
  refine ⟨⟨P.length, hP⟩, fun j hj => ?_, ?_⟩
  · have hj' : j.val < P.length := hj
    simp only [rank, Pi.toLex_apply, h', h, List.getD_append _ _ _ _ hj']
  · simpa [rank, h', h] using ha

theorem rank_eq_of {D : Nat} {t t' : Tape} (hl : t'.loops = t.loops) (hsp : t'.span = t.span)
    (hp : t'.pos = t.pos) (hh : t'.headerPending = t.headerPending)
    (hd : t'.dataPending = t.dataPending) : rank D t' = rank D t := by
  simp [rank, standing, loopStanding, hl, hsp, hp, hh, hd]

section Compare

variable {D : Nat} {t t' : Tape} (hd : t.loops.length ≤ D) (hsp : t'.span = t.span)
include hd hsp

/-- Moving forward with the same loops lowers the rank. -/
theorem rank_lt_of_pos (hl : t'.loops = t.loops) (hp : t.pos < t'.pos) (hps : t.pos < t.span) :
    rank D t' < rank D t := by
  have hls : t'.loopStanding = t.loopStanding := by simp [loopStanding, hl, hsp]
  refine rank_lt_of_standing (P := t.loopStanding) (a := t.span - t.pos) (b := t'.span - t'.pos)
    (X := [t'.headerPending.length + t'.dataPending]) (Y := [t.headerPending.length + t.dataPending])
    (by simp [standing, hls]) (by simp [standing]) (by omega) ?_
  rw [length_loopStanding]
  omega

/-- Opening a loop past the position lowers the rank. -/
theorem rank_lt_of_push {f : LoopFrame} (hl : t'.loops = f :: t.loops) (hf : t.pos < f.offset)
    (hps : t.pos < t.span) : rank D t' < rank D t := by
  have hls : t'.loopStanding = t.loopStanding ++ [t.span - f.offset, f.counter] := by
    rw [loopStanding_cons hl, hsp]
    rfl
  refine rank_lt_of_standing (P := t.loopStanding) (a := t.span - t.pos) (b := t.span - f.offset)
    (X := [f.counter, t'.span - t'.pos, t'.headerPending.length + t'.dataPending])
    (Y := [t.headerPending.length + t.dataPending])
    (by simp [standing, hls]) (by simp [standing]) (by omega) ?_
  rw [length_loopStanding]
  omega

/-- Closing the innermost loop past its start lowers the rank. -/
theorem rank_lt_of_pop {top : LoopFrame} (hl : t.loops = top :: t'.loops)
    (ho : top.offset < t'.pos) (hos : top.offset < t.span) : rank D t' < rank D t := by
  have hls : t.loopStanding = t'.loopStanding ++ [t.span - top.offset, top.counter] := by
    rw [loopStanding_cons hl, ← hsp]
    rfl
  refine rank_lt_of_standing (P := t'.loopStanding) (a := t.span - top.offset)
    (b := t'.span - t'.pos) (X := [t'.headerPending.length + t'.dataPending])
    (Y := [top.counter, t.span - t.pos, t.headerPending.length + t.dataPending])
    (by simp [standing]) (by simp [standing, hls]) (by omega) ?_
  rw [length_loopStanding]
  rw [hl] at hd
  simp at hd
  omega

/-- Counting down the innermost loop lowers the rank. -/
theorem rank_lt_of_counter {top : LoopFrame} {outer : List LoopFrame} {c : Nat}
    (hl : t.loops = top :: outer) (hl' : t'.loops = { top with counter := c } :: outer)
    (hc : c < top.counter) : rank D t' < rank D t := by
  have hP : (outer.reverse.flatMap fun f => [t.span - f.offset, f.counter]).length = 2 * outer.length := by
    have := length_loopStanding { t with loops := outer }
    simpa [loopStanding] using this
  refine rank_lt_of_standing
    (P := (outer.reverse.flatMap fun f => [t.span - f.offset, f.counter]) ++ [t.span - top.offset])
    (a := top.counter) (b := c) (X := [t'.span - t'.pos, t'.headerPending.length + t'.dataPending])
    (Y := [t.span - t.pos, t.headerPending.length + t.dataPending])
    (by simp [standing, loopStanding_cons hl', hsp])
    (by simp [standing, loopStanding_cons hl]) hc ?_
  rw [hl] at hd
  simp only [List.length_cons] at hd
  simp only [List.length_append, hP, List.length_singleton]
  omega

/-- Handing out a byte of the queued block lowers the rank. -/
theorem rank_lt_of_pending (hl : t'.loops = t.loops) (hp : t'.pos = t.pos)
    (hpd : t'.headerPending.length + t'.dataPending < t.headerPending.length + t.dataPending) :
    rank D t' < rank D t := by
  have hls : t'.loopStanding = t.loopStanding := by simp [loopStanding, hl, hsp]
  refine rank_lt_of_standing (P := t.loopStanding ++ [t.span - t.pos])
    (a := t.headerPending.length + t.dataPending) (b := t'.headerPending.length + t'.dataPending)
    (X := []) (Y := []) (by simp [standing, hls, hsp, hp]) (by simp [standing]) hpd ?_
  simp only [List.length_append, length_loopStanding, List.length_singleton]
  omega

end Compare

/-! ## Blocks that are not queued -/

/-- Skipping a block's data from a sound tape that stands past `t₀`, with
the same loops, keeps it sound and takes the rank below that of `t₀`: the
position only moves on, whether the seek works or not. -/
theorem seekPast_step {t₀ : Tape} (hd₀ : t₀.loops.length ≤ t₀.loopDepth) (hs : t.Sound)
    (hl : t.loops = t₀.loops) (hsp : t.span = t₀.span) (hD : t.loopDepth = t₀.loopDepth)
    (hp : t₀.pos < t.pos) (hps : t₀.pos < t₀.span)
    (hpend : t.headerPending = [] ∧ t.dataPending = 0) (n : Nat) :
    let t' := match t.seekTo (t.pos + n) with
      | (t, true) => t
      | (t, false) => { t with finished := true }
    t'.Sound ∧ t'.loopDepth = t₀.loopDepth ∧ rank t₀.loopDepth t' < rank t₀.loopDepth t₀ := by
  obtain ⟨hl', hD', hsp', hp'⟩ := seekOrFinish_frame t (t.pos + n)
  refine ⟨hs.seekOrFinish hpend fun f hf => Nat.le_add_right_of_le (hs.loops_le f hf), hD'.trans hD,
    ?_⟩
  exact rank_lt_of_pos hd₀ (hsp'.trans hsp) (hl'.trans hl) (by omega) hps

/-- A block header handled after it was read from `t₀` keeps the tape sound
and takes the rank below that of `t₀`: a loop start opens a loop past the
position or is passed over, a loop end closes its loop or counts it down
and goes back to its start, and any other block is skipped. -/
theorem handleBlock_step {t₀ : Tape} (hs₀ : t₀.Sound) (hs : t.Sound) (hl : t.loops = t₀.loops)
    (hsp : t.span = t₀.span) (hD : t.loopDepth = t₀.loopDepth) (hp : t₀.pos < t.pos)
    (hps : t₀.pos < t₀.span) (hpend : t.headerPending = [] ∧ t.dataPending = 0)
    (offset : Nat) (tm : Timing) :
    (t.handleBlock offset tm).Sound ∧ (t.handleBlock offset tm).loopDepth = t₀.loopDepth ∧
      rank t₀.loopDepth (t.handleBlock offset tm) < rank t₀.loopDepth t₀ := by
  have hd₀ := hs₀.depth
  unfold handleBlock
  dsimp only
  split
  · -- a loop start opens a loop, or is passed over when too deep
    split
    · next hroom =>
      refine ⟨(hs.openLoop hroom _).observe .., (loopDepth_observe ..).trans hD, ?_⟩
      exact rank_lt_of_push (f := ⟨t.pos, Timing.loopCount t.header⟩) hd₀ ((span_observe ..).trans hsp)
        (by simp [hl]) hp hps
    · refine ⟨(hs.note _).observe .., by simpa using hD, ?_⟩
      exact rank_lt_of_pos hd₀ (by simpa using hsp) (by simpa using hl) (by simpa using hp) hps
  · split
    · -- a loop end closes the innermost loop, or counts it down and goes back
      split
      · refine ⟨hs.observe .., (loopDepth_observe ..).trans hD, ?_⟩
        exact rank_lt_of_pos hd₀ ((span_observe ..).trans hsp) ((loops_observe ..).trans hl)
          (by simpa using hp) hps
      · next top outer hloops =>
        have htop : top.offset ≤ t₀.pos := hs₀.loops_le top (by simp [← hl, hloops])
        split
        · -- the counted-down loop is what lowers the rank, whether the seek works or not
          next hc =>
          obtain ⟨hl', hD', hsp', -⟩ := seekOrFinish_frame
            ({ t with loops := { top with counter := top.counter - 1 } :: outer }.observe offset tm
              .loopRepeat) top.offset
          refine ⟨((hs.countDown hloops _).observe ..).seekOrFinish (by simpa using hpend) ?_,
            hD'.trans ((loopDepth_observe ..).trans hD), ?_⟩
          · intro f hf
            simp only [loops_observe, List.mem_cons] at hf
            rcases hf with rfl | hf
            · exact Nat.le_refl _
            · exact hs.le_innermost hloops f hf
          · exact rank_lt_of_counter hd₀ (hsp'.trans ((span_observe ..).trans hsp))
              (by rw [← hl, hloops]) (hl'.trans (loops_observe ..)) (by omega)
        · refine ⟨(hs.closeLoop hloops).observe .., (loopDepth_observe ..).trans hD, ?_⟩
          have hpop : t₀.loops = top :: ({ t with loops := outer }.observe offset tm .loopEnd).loops := by
            simp [← hl, hloops]
          exact rank_lt_of_pop hd₀ ((span_observe ..).trans hsp) hpop (by simp; omega) (by omega)
    · -- any other block is skipped, noted first when its kind is unknown
      by_cases hk : t.format = .tzx ∧ (!BlockId.known (t.header.headD 0)) = true
      · rw [if_pos hk]
        exact seekPast_step hd₀ ((hs.note _).observe ..) (by simpa using hl) (by simpa using hsp)
          (by simpa using hD) (by simpa using hp) hps (by simpa using hpend) tm.length
      · rw [if_neg hk]
        exact seekPast_step hd₀ (hs.observe ..) (by simpa using hl) (by simpa using hsp)
          (by simpa using hD) (by simpa using hp) hps (by simpa using hpend) tm.length

/-- A read of one byte that did not give one gave none. -/
theorem readBytes_one_eq_nil {bs : List UInt8} {t' : Tape} (h : t.readBytes 1 = (bs, t'))
    (hne : ∀ b, bs = [b] → False) : bs = [] := by
  have hlen := length_readBytes_le t 1
  rw [h] at hlen
  match bs, hlen, hne with
  | [], _, _ => rfl
  | [b], _, hne => exact absurd rfl (hne b)
  | _ :: _ :: _, hlen, _ => simp at hlen

/-! ## One round -/

/-- One round keeps a sound tape sound and keeps its loop depth.  A round
that goes on lowers the rank; one that stops hands out nothing, finishes the
tape and does not raise the rank. -/
theorem round_step (hs : t.Sound) :
    t.round.tape.Sound ∧ t.round.tape.loopDepth = t.loopDepth ∧
      (t.round.more = true → rank t.loopDepth t.round.tape < rank t.loopDepth t) ∧
      (t.round.more = false → t.round.byte = none ∧ t.round.tape.finished = true ∧
        rank t.loopDepth t.round.tape ≤ rank t.loopDepth t) := by
  have hd := hs.depth
  unfold round
  dsimp only
  split
  · -- a byte of the queued header goes out
    next b rest hh =>
    dsimp only
    refine ⟨⟨hs.synced, hs.loops_le, hs.loops_sorted, hs.depth, fun hf => ?_⟩, rfl, fun _ => ?_,
      fun h => by cases h⟩
    · have := (hs.settled hf).1
      rw [hh] at this
      cases this
    · exact rank_lt_of_pending hd rfl rfl rfl (by simp [hh])
  · next hh =>
    split
    · next hdp =>
      split
      · -- a byte of the queued data goes out
        next b t₁ hr =>
        dsimp only
        have hs₁ := hs.readBytes hr
        have hlt := readBytes_lt_span hs.synced (n := 1) (by rw [hr]; simp)
        have hsp := span_readBytes t 1
        rw [hr] at hlt hsp
        obtain ⟨src, rfl⟩ := readBytes_eq_mk hr
        refine ⟨⟨hs₁.synced, hs₁.loops_le, hs₁.loops_sorted, hs₁.depth, fun hf => ?_⟩, rfl, fun _ => ?_,
          fun h => by cases h⟩
        · have := (hs.settled hf).2
          omega
        · simp only [List.length_singleton] at hlt
          exact rank_lt_of_pos hd hsp rfl (by simp) (by omega)
      · -- the data ran out
        next bs t₁ hne hr =>
        dsimp only
        have hs₁ := hs.readBytes hr
        have hsp := span_readBytes t 1
        rw [hr] at hsp
        obtain rfl := readBytes_one_eq_nil hr hne
        obtain ⟨src, rfl⟩ := readBytes_eq_mk hr
        refine ⟨⟨hs₁.synced, hs₁.loops_le, hs₁.loops_sorted, hs₁.depth, fun _ => ⟨hh, rfl⟩⟩, rfl, ?_, ?_⟩
        · intro h
          cases h
        · intro _
          refine ⟨rfl, rfl, le_of_lt (rank_lt_of_pending hd hsp rfl (by simp) ?_)⟩
          simp only [hh]
          simp
          omega
    · next hdp =>
      have hdp0 : t.dataPending = 0 := by omega
      split
      · -- a finished tape stays as it is
        next hf =>
        refine ⟨hs, rfl, ?_, fun _ => ⟨rfl, hf, le_refl _⟩⟩
        intro h
        cases h
      · split
        · -- the end of the file
          refine ⟨hs.finish ⟨hh, hdp0⟩, rfl, ?_, fun _ => ⟨rfl, rfl, le_refl _⟩⟩
          intro h
          cases h
        · next hf hsize =>
          split
          · -- a block header
            next id t₁ hr₁ =>
            have hs₁ := hs.readBytes hr₁
            have hlt := readBytes_lt_span hs.synced (n := 1) (by rw [hr₁]; simp)
            rw [hr₁] at hlt
            simp only [List.length_singleton] at hlt
            obtain ⟨hp₁, hl₁, hD₁, hf₁, hh₁, hd₁, -, hsp₁⟩ := readBytes_frame hr₁
            simp only [List.length_singleton] at hp₁
            generalize hr₂ : t₁.readBytes (headerSize id t₁.format - 1) = r₂
            obtain ⟨rest, t₂⟩ := r₂
            have hs₂ := hs₁.readBytes hr₂
            obtain ⟨hp₂, hl₂, hD₂, hf₂, hh₂, hd₂, -, hsp₂⟩ := readBytes_frame hr₂
            have hp : t.pos < t₂.pos := by omega
            have hfin : t₂.finished = false := by simpa [hf₂, hf₁] using hf
            dsimp only
            split
            · -- the header is cut short
              refine ⟨hs₂.finish ⟨by rw [hh₂, hh₁, hh], by rw [hd₂, hd₁, hdp0]⟩, hD₂.trans hD₁, ?_,
                fun _ => ⟨rfl, rfl, le_of_lt ?_⟩⟩
              · intro h
                cases h
              · exact rank_lt_of_pos hd (hsp₂.trans hsp₁) (hl₂.trans hl₁) hp (by omega)
            · split
              · -- a block that makes a sound is queued
                rw [observe_eq]
                refine ⟨⟨hs₂.synced, hs₂.loops_le, hs₂.loops_sorted, hs₂.depth, fun h => ?_⟩,
                  hD₂.trans hD₁, fun _ => ?_, fun h => by cases h⟩
                · rw [hfin] at h
                  cases h
                · exact rank_lt_of_pos hd (hsp₂.trans hsp₁) (hl₂.trans hl₁) hp (by omega)
              · -- any other block is handled
                obtain ⟨h1, h2, h3⟩ := handleBlock_step (t := { t₂ with header := id :: rest }) hs
                  ⟨hs₂.synced, hs₂.loops_le, hs₂.loops_sorted, hs₂.depth, hs₂.settled⟩
                  (hl₂.trans hl₁) (hsp₂.trans hsp₁) (hD₂.trans hD₁) hp (by omega)
                  ⟨by simp [hh₂, hh₁, hh], by simp [hd₂, hd₁, hdp0]⟩ t.pos
                  (Timing.decode (id :: rest) t₂.format)
                exact ⟨h1, h2, fun _ => h3, fun h => by cases h⟩
          · -- no block header could be read
            next bs t₁ hne hr =>
            obtain rfl := readBytes_one_eq_nil hr hne
            have hs₁ := hs.readBytes hr
            obtain ⟨hp₁, hl₁, hD₁, hf₁, hh₁, hd₁, -, hsp₁⟩ := readBytes_frame hr
            dsimp only
            refine ⟨hs₁.finish ⟨by rw [hh₁, hh], by rw [hd₁, hdp0]⟩, hD₁, ?_,
              fun _ => ⟨rfl, rfl, le_of_eq (rank_eq_of hl₁ hsp₁ (by simpa using hp₁) hh₁ hd₁)⟩⟩
            intro h
            cases h

theorem Sound.round (hs : t.Sound) : t.round.tape.Sound := (round_step hs).1

/-- A round that goes on takes a sound tape lower, in the order filling tests
at each round: so on a sound tape the test never stops the filling. -/
theorem Sound.lowers_round (hs : t.Sound) (hm : t.round.more = true) :
    t.round.tape.stand.lowers t.stand = true := by
  obtain ⟨hs', hD, hlt, -⟩ := round_step hs
  obtain ⟨i, hj, hi⟩ := hlt hm
  have hpad : Rank.padLt t.round.tape.standing t.standing = true :=
    Rank.padLt_of_lt_at i.val _ _ (fun j hj' => hj ⟨j, by omega⟩ hj') hi
  simp only [Stand.lowers, stand, Bool.and_eq_true, beq_iff_eq, decide_eq_true_eq, List.length_reverse]
  refine ⟨⟨⟨hD, hs'.depth⟩, hs.depth⟩, ?_⟩
  rw [Stand.entriesLt_eq]
  exact hpad

/-! ## Runs of rounds -/

/-- Reading is over: the tape is finished and nothing of a block is left to
hand out. -/
def atEnd (t : Tape) : Prop := t.finished = true ∧ t.headerPending = [] ∧ t.dataPending = 0

/-- At the end of reading a round does nothing. -/
theorem round_of_atEnd (h : t.atEnd) : t.round = ⟨t, none, false⟩ := by
  obtain ⟨hf, hh, hd⟩ := h
  simp [round, hf, hh, hd]

/-- Rounds of reading take `t` to `t'` and hand out the bytes `l`. -/
inductive Reads : Tape → List UInt8 → Tape → Prop
  | refl (t : Tape) : Reads t [] t
  | round {t : Tape} {l : List UInt8} {t' : Tape} :
      Reads t.round.tape l t' → Reads t (t.round.byte.toList ++ l) t'

theorem Reads.single (t : Tape) : Reads t t.round.byte.toList t.round.tape := by
  simpa using Reads.round (Reads.refl t.round.tape)

theorem Reads.trans {t t' t'' : Tape} {l l' : List UInt8} (h : Reads t l t') (h' : Reads t' l' t'') :
    Reads t (l ++ l') t'' := by
  induction h with
  | refl => exact h'
  | round _ ih => simpa using Reads.round (ih h')

theorem Reads.sound {t t' : Tape} {l : List UInt8} (h : Reads t l t') (hs : t.Sound) : t'.Sound := by
  induction h with
  | refl => exact hs
  | round _ ih => exact ih hs.round

/-- Along a run the loop depth stays and the rank does not rise. -/
theorem Reads.rank_le {t t' : Tape} {l : List UInt8} (h : Reads t l t') (hs : t.Sound) :
    t'.loopDepth = t.loopDepth ∧ rank t.loopDepth t' ≤ rank t.loopDepth t := by
  induction h with
  | refl => exact ⟨rfl, le_refl _⟩
  | @round t l t' h ih =>
    obtain ⟨hs', hD, hlt, hstop⟩ := round_step hs
    obtain ⟨hD', hle⟩ := ih hs'
    rw [hD] at hle
    refine ⟨hD'.trans hD, le_trans hle ?_⟩
    cases hm : t.round.more with
    | true => exact le_of_lt (hlt hm)
    | false => exact (hstop hm).2.2

/-- Nothing is read past the end. -/
theorem Reads.of_atEnd {t t' : Tape} {l : List UInt8} (h : Reads t l t') (he : t.atEnd) :
    l = [] ∧ t' = t := by
  induction h with
  | refl => exact ⟨rfl, rfl⟩
  | round _ ih =>
    have hr := round_of_atEnd he
    rw [hr] at ih ⊢
    obtain ⟨rfl, rfl⟩ := ih he
    exact ⟨rfl, rfl⟩

/-- Where reading ends, and the bytes it hands out on the way, are
determined by where it starts. -/
theorem Reads.unique {t t₁ t₂ : Tape} {l₁ l₂ : List UInt8} (h₁ : Reads t l₁ t₁) (he₁ : t₁.atEnd)
    (h₂ : Reads t l₂ t₂) (he₂ : t₂.atEnd) : l₁ = l₂ ∧ t₁ = t₂ := by
  induction h₁ generalizing l₂ t₂ with
  | refl t =>
    obtain ⟨rfl, rfl⟩ := h₂.of_atEnd he₁
    exact ⟨rfl, rfl⟩
  | @round t l t₁ h ih =>
    by_cases he : t.atEnd
    · obtain ⟨hl, rfl⟩ := (Reads.round h).of_atEnd he
      obtain ⟨rfl, rfl⟩ := h₂.of_atEnd he
      exact ⟨hl, rfl⟩
    · cases h₂ with
      | refl => exact absurd he₂ he
      | round h₂ =>
        obtain ⟨rfl, rfl⟩ := ih he₁ h₂ he₂
        exact ⟨rfl, rfl⟩

/-- From a sound tape, reading comes to an end: the rank goes down with
every round that goes on, and a round that stops leaves the tape at its end. -/
theorem reads_atEnd (hs : t.Sound) : ∃ l t', Reads t l t' ∧ t'.atEnd := by
  suffices h : ∀ (D : Nat) (r : Lex (Fin (2 * D + 2) → Nat)) (t : Tape), t.loopDepth = D →
      rank D t = r → t.Sound → ∃ l t', Reads t l t' ∧ t'.atEnd from h _ _ t rfl rfl hs
  intro D r
  induction r using WellFoundedLT.induction with
  | _ r ih =>
    intro t hD hr hs
    obtain ⟨hs', hD', hlt, hstop⟩ := round_step hs
    cases hm : t.round.more with
    | true =>
      have hlt' := hlt hm
      rw [hD, hr] at hlt'
      obtain ⟨l, t', h, he⟩ := ih _ hlt' t.round.tape (hD'.trans hD) rfl hs'
      exact ⟨_, t', .round h, he⟩
    | false =>
      obtain ⟨-, hf, -⟩ := hstop hm
      exact ⟨_, _, .single t, hf, hs'.settled hf⟩

/-- A run from a sound tape that has not ended goes on to the same end, and
hands out the rest of the same bytes. -/
theorem Reads.rest {t₀ t t_end : Tape} {l L : List UInt8} (hs : t₀.Sound) (h : Reads t₀ l t)
    (hL : Reads t₀ L t_end) (he : t_end.atEnd) : ∃ l', Reads t l' t_end ∧ L = l ++ l' := by
  obtain ⟨l', t', h', he'⟩ := reads_atEnd (h.sound hs)
  obtain ⟨hl, rfl⟩ := (h.trans h').unique he' hL he
  exact ⟨l', h', hl.symm⟩

end Tape

end TapeDeck
