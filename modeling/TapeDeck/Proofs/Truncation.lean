import TapeDeck.Proofs.Feeding

/-!
# Streams cut short

A stream of whole blocks may end short: in the middle of a header, or in the
data of a block whose header is whole.  The generator plays the whole blocks
to their trains, and of the block cut short its lead, its pilot and sync
pulses, and then the data there is: all sixteen pulses of every audio byte,
a pulse for every whole pair of sequence data, nothing for metadata.  No
pause follows, and no other pulse.  A header cut short gives no pulse, and a
TAP block whose flag byte is missing gives none at all, since the flag byte
picks its pilot (`Generator.CutEnd`).

*Data cut short.*  While a block's data is cut short its last byte is never
reached, so no bit of the bytes there goes unused and each plays whole
(`Generator.playAll_audio_cut`); sequence data plays pair by pair
(`Generator.playAll_sequence_cut`).  When the stream runs dry, the finished
generator drops what is left of the block, its pause with it.

*Left-over bytes.*  A byte of sequence data left over is taken for the start
of a header.  A lone byte is a header cut short, or the whole header of a
group end or a loop end, which is silent (`Generator.Between.playAll_single`).

*Feeding.*  Fed such a stream through a ring by an honest feeder, the
generator gives these pulses, as it does for whole blocks
(`Generator.fed_cut_blocks_play`).
-/

namespace TapeDeck

namespace Timing

/-- The pulses of the data of a block cut short, for the bytes there are:
all eight bits of every audio byte, a pulse per whole pair of sequence data,
none for metadata. -/
def cutDataPulses (t : Timing) (payload : List UInt8) : List Pulse :=
  match t.category with
  | .audio => payload.flatMap (t.bitPulses · 8)
  | .sequence => sequencePulses payload
  | .metadata => []

/-- The pulses of a block cut short in its data: its pilot and sync pulses,
then the data there is, and no pause. -/
def cutTrain (t : Timing) (payload : List UInt8) : List Pulse :=
  List.replicate t.pilotCount ⟨t.pilot, true⟩ ++
    (if 2 ≤ t.syncPhase then [⟨t.sync1, true⟩] else []) ++
    (if 1 ≤ t.syncPhase then [⟨t.sync2, true⟩] else []) ++
    t.cutDataPulses payload

/-- A TZX header of one byte, a group end or a loop end, has nothing to play. -/
theorem isEmpty_decode_of_headerSize_one :
    ∀ b : UInt8, headerSize b .tzx = 1 → (decode [b] .tzx).isEmpty = true := by
  decide +kernel

end Timing

namespace Generator

/-! ## How a stream ends short -/

/-- How a stream of whole blocks can end short, and the pulses the generator
gives for its end. -/
inductive CutEnd (fmt : Format) : List UInt8 → List Pulse → Prop where
  /-- A header cut short gives no pulse. -/
  | header {c : UInt8} {cs : List UInt8} (hs : cs.length + 1 < headerSize c fmt) :
      CutEnd fmt (c :: cs) []
  /-- A block whose header is whole, with the flag byte after it in a TAP
  stream, and whose data is cut short gives its lead and the data there is. -/
  | data {c : UInt8} {cs payload : List UInt8} (hs : headerSize c fmt = cs.length + 1)
      (hflag : fmt = .tzx ∨ payload ≠ [])
      (hl : payload.length < (blockTiming fmt (c :: cs) payload).length) :
      CutEnd fmt (c :: cs ++ payload) ((blockTiming fmt (c :: cs) payload).cutTrain payload)
  /-- A TAP block with data whose flag byte is missing gives no pulse. -/
  | flagless {c d : UInt8} (hf : fmt = .tap) (hl : 0 < (Timing.decode [c, d] .tap).length) :
      CutEnd fmt [c, d] []

/-- A header decodes once the byte after it is there, or in a TZX stream. -/
theorem decodable_isSome {fmt : Format} {hdr payload : List UInt8} (hflag : fmt = .tzx ∨ payload ≠ []) :
    (decodable fmt hdr payload.head?).isSome := by
  unfold decodable
  split
  · next ht =>
    obtain ⟨b, bs, rfl⟩ := List.exists_cons_of_ne_nil (hflag.resolve_left (by rw [ht.1]; decide))
    rfl
  · rfl

/-! ## Between blocks -/

/-- A generator between two blocks of a stream of a format: no header begun
and nothing left of a block. -/
structure Between (fmt : Format) (g : Generator) : Prop where
  format : g.format = fmt
  header : g.header = []
  empty : g.timing.isEmpty = true

variable {fmt : Format} {g : Generator}

/-- With the stream at its end, nothing more is played. -/
theorem Between.playAll_nil (hg : Between fmt g) : g.playAll [] = [] := by
  rw [playAll_of_isEmpty hg.empty, hg.header]
  simp [headerIn, gather, headerNeed, isWhole]

/-- A finished generator that ran dry in the middle of data has dropped the
block, and is between blocks. -/
theorem between_starved (hh : g.header = []) :
    Between g.format { g with timing := g.timing.clear, dataBit := 0 } :=
  ⟨rfl, hh, by simp [Timing.clear, Timing.isEmpty]⟩

/-- A header cut short gives no pulse. -/
theorem Between.playAll_header_cut (hg : Between fmt g) {c : UInt8} {cs : List UInt8}
    (hs : cs.length + 1 < headerSize c fmt) : g.playAll (c :: cs) = [] := by
  have hin : headerIn fmt [] (c :: cs) = none := by
    have hle : (c :: cs).length ≤ headerSize c fmt := by
      simp only [List.length_cons]
      omega
    simp only [headerIn, gather, headerNeed, List.take_of_length_le hle, List.nil_append, isWhole,
      decide_eq_true_eq]
    rw [if_neg (by omega)]
  rw [playAll_of_isEmpty hg.empty, hg.format, hg.header, hin]

/-- A lone byte between blocks gives no pulse: it is a header cut short, or
the whole header of a group end or a loop end. -/
theorem Between.playAll_single (hg : Between fmt g) (b : UInt8) : g.playAll [b] = [] := by
  by_cases hs : headerSize b fmt = 1
  · -- a TAP header has two bytes, so this is a TZX block of one byte
    have hz : fmt = .tzx := by
      cases fmt with
      | tap => simp [headerSize] at hs
      | tzx => rfl
    subst hz
    have hin : headerIn .tzx [] [b] = some [b] := by
      simp [headerIn, gather, headerNeed, hs, isWhole, decodable]
    have hgat : (gather .tzx [] [b]).2 = [] := by
      simp [gather, headerNeed, hs]
    rw [playAll_of_isEmpty hg.empty, hg.format, hg.header, hin, hgat]
    have hb : Between .tzx (g.begin [b]) := by
      refine ⟨hg.format, rfl, ?_⟩
      simp only [begin, hg.format]
      exact Timing.isEmpty_decode_of_headerSize_one b hs
    exact hb.playAll_nil
  · have := headerSize_pos b fmt
    exact hg.playAll_header_cut (by simp only [List.length_nil]; omega)

/-- A whole block off the front of the stream plays as its train, and the
generator is between blocks again for the rest. -/
theorem Between.playAll_whole (hg : Between fmt g) {hdr payload : List UInt8}
    (hb : WholeBlock fmt hdr payload) (rest : List UInt8) :
    ∃ g', Between fmt g' ∧
      g.playAll (hdr ++ payload ++ rest) = (blockTiming fmt hdr payload).train payload ++ g'.playAll rest := by
  obtain ⟨rfl, hh, he⟩ := hg
  obtain ⟨g', hh', he', hf', hplay⟩ := playAll_block hh he hb rest
  exact ⟨g', ⟨hf', hh', he'⟩, hplay⟩

/-- Whole blocks off the front of the stream play as their trains, and the
generator is between blocks again for the rest. -/
theorem Between.playAll_blocks_append (hg : Between fmt g) (l : List (List UInt8 × List UInt8))
    (hl : ∀ b ∈ l, WholeBlock fmt b.1 b.2) (rest : List UInt8) :
    ∃ g', Between fmt g' ∧ g.playAll ((l.flatMap fun b => b.1 ++ b.2) ++ rest) =
      (l.flatMap fun b => (blockTiming fmt b.1 b.2).train b.2) ++ g'.playAll rest := by
  induction l generalizing g with
  | nil => exact ⟨g, hg, rfl⟩
  | cons b l ih =>
    obtain ⟨g₁, hg₁, hplay⟩ := hg.playAll_whole (hl b List.mem_cons_self)
      ((l.flatMap fun b => b.1 ++ b.2) ++ rest)
    obtain ⟨g', hg', hrest⟩ := ih hg₁ (fun b hb => hl b (List.mem_cons_of_mem _ hb))
    refine ⟨g', hg', ?_⟩
    rw [List.append_assoc] at hplay
    simp only [List.flatMap_cons, List.append_assoc]
    rw [hplay, hrest]

/-! ## Data cut short -/

/-- Audio data cut short plays all sixteen pulses of every byte there: the
block's last byte is never reached, so no bit goes unused.  When the stream
runs dry, the rest of the block is dropped, its pause with it. -/
theorem playAll_audio_cut : ∀ (payload : List UInt8) (g : Generator),
    g.header = [] → g.timing.pilotCount = 0 → g.timing.syncPhase = 0 → g.timing.category = .audio →
    g.timing.lastBit % 2 = 0 → g.dataBit = 0 → payload.length < g.timing.length →
    g.playAll payload = payload.flatMap (g.timing.bitPulses · 8)
  | [], g, hh, hp, hs, hc, _, h0, hl => by
    have hd : g.phase = .data := Phase.ofTiming_eq_data_iff.2 ⟨hp, hs, hl⟩
    rw [playAll_of_isEmpty_false (Timing.isEmpty_eq_false.2 (by omega)), play_audio hd hc,
      audioStep_of_pull?_none h0 (ByteRing.pull?_eq_none_iff.2 (by simp)), starved_true]
    simp only [Option.getD_some, Option.toList_none, List.nil_append, ByteRing.toList_ofList,
      List.flatMap_nil]
    exact (between_starved hh).playAll_nil
  | b :: bs, g, hh, hp, hs, hc, he, h0, hl => by
    simp only [List.length_cons] at hl
    have hu : unusedBits g.timing = 0 := by
      simp only [unusedBits]
      rw [if_neg (by omega)]
    have ih := playAll_audio_cut bs
      { g with
        data := (fun x : UInt8 => x <<< 1)^[7 + 1] b, dataBit := 0,
        timing := { g.timing with length := g.timing.length - 1 } } hh hp hs hc he rfl (by simp only; omega)
    rw [playAll_load hp hs hc (by omega) h0 b bs,
      playAll_held bs 7 { g with data := b, dataBit := 16 } hp hs hc (show 0 < g.timing.length by omega) he
        (show 16 = 2 * 7 + 2 + 2 * unusedBits g.timing by rw [hu]),
      heldPulses_eq_bitPulses _ _ le_rfl, List.flatMap_cons]
    exact congrArg₂ (· ++ ·) rfl ih

/-- Sequence data with fewer than two bytes left in the stream: the finished
generator drops the rest of the block, and the bytes stay for the next
header. -/
theorem playAll_sequence_dry {payload : List UInt8} (hp : g.timing.pilotCount = 0)
    (hs : g.timing.syncPhase = 0) (hc : g.timing.category = .sequence) (hl : 0 < g.timing.length)
    (h2 : payload.length < 2) :
    g.playAll payload = { g with timing := g.timing.clear, dataBit := 0 }.playAll payload := by
  have hd : g.phase = .data := Phase.ofTiming_eq_data_iff.2 ⟨hp, hs, hl⟩
  rw [playAll_of_isEmpty_false (Timing.isEmpty_eq_false.2 (by omega)), play_sequence hd hc,
    sequenceStep_of_lt (by simpa using h2), starved_true]
  simp only [Option.getD_some, Option.toList_none, List.nil_append, ByteRing.toList_ofList]

/-- Sequence data cut short plays a pulse per whole pair there; a byte left
over is taken for the start of a header, and gives no pulse. -/
theorem playAll_sequence_cut : ∀ (payload : List UInt8) (g : Generator),
    g.header = [] → g.timing.pilotCount = 0 → g.timing.syncPhase = 0 → g.timing.category = .sequence →
    payload.length < g.timing.length → g.playAll payload = Timing.sequencePulses payload
  | lo :: hi :: bs, g, hh, hp, hs, hc, hl => by
    simp only [List.length_cons] at hl
    have hd : g.phase = .data := Phase.ofTiming_eq_data_iff.2 ⟨hp, hs, by omega⟩
    rw [playAll_of_isEmpty_false (Timing.isEmpty_eq_false.2 (by omega)), play_sequence hd hc,
      sequenceStep_of_le (by simp)]
    simp only [pulsed, Option.getD_some, Option.toList_some, ByteRing.toList_ofList,
      ByteRing.toList_pullMany_snd, List.getD_cons_zero, List.getD_cons_succ, List.drop_succ_cons,
      List.drop_zero, List.singleton_append]
    exact congrArg _ (playAll_sequence_cut bs { g with timing := { g.timing with length := g.timing.length - 2 } }
      hh hp hs hc (by simp only; omega))
  | [], g, hh, hp, hs, hc, hl => by
    rw [playAll_sequence_dry hp hs hc hl (by simp)]
    exact (between_starved hh).playAll_nil
  | [b], g, hh, hp, hs, hc, hl => by
    rw [playAll_sequence_dry hp hs hc (by simp at hl; omega) (by simp)]
    exact (between_starved hh).playAll_single b

/-- Metadata cut short is dropped in silence, the rest of the block with it. -/
theorem playAll_metadata_cut {payload : List UInt8} (hh : g.header = []) (hp : g.timing.pilotCount = 0)
    (hs : g.timing.syncPhase = 0) (hc : g.timing.category = .metadata)
    (hl : payload.length < g.timing.length) : g.playAll payload = [] := by
  rw [playAll_metadata (Phase.ofTiming_eq_data_iff.2 ⟨hp, hs, by omega⟩) hc, if_neg (by omega)]
  exact (between_starved hh).playAll_nil

/-- A regular timing whose data is cut short in the stream plays its lead
and the data there is. -/
theorem playAll_timing_cut {payload : List UInt8} (hh : g.header = []) (hr : g.timing.Regular)
    (h0 : g.dataBit = 0) (hl : payload.length < g.timing.length) :
    g.playAll payload = g.timing.cutTrain payload := by
  rw [playAll_pilots _ rfl,
    playAll_syncs (g := { g with timing := { g.timing with pilotCount := 0 } }) rfl hr.syncPhase_le]
  have hdata : ({ g with timing := { g.timing with pilotCount := 0, syncPhase := 0 } } : Generator).playAll
      payload = g.timing.cutDataPulses payload := by
    cases hc : g.timing.category with
    | audio =>
      rw [playAll_audio_cut payload { g with timing := { g.timing with pilotCount := 0, syncPhase := 0 } }
        hh rfl rfl hc hr.lastBit_even h0 hl]
      simp only [Timing.cutDataPulses, hc]
      rfl
    | sequence =>
      rw [playAll_sequence_cut payload { g with timing := { g.timing with pilotCount := 0, syncPhase := 0 } }
        hh rfl rfl hc hl]
      simp only [Timing.cutDataPulses, hc]
    | metadata =>
      rw [playAll_metadata_cut (g := { g with timing := { g.timing with pilotCount := 0, syncPhase := 0 } })
        hh rfl rfl hc hl]
      simp only [Timing.cutDataPulses, hc]
  rw [hdata]
  simp only [Timing.cutTrain, List.append_assoc]

/-- A block cut short in its data, its header whole and decodable, plays its
lead and the data there is, and nothing after. -/
theorem Between.playAll_block_cut (hg : Between fmt g) {c : UInt8} {cs payload h : List UInt8}
    (hs : headerSize c fmt = cs.length + 1) (hd : decodable fmt (c :: cs) payload.head? = some h)
    (hl : payload.length < (Timing.decode h fmt).length) :
    g.playAll (c :: cs ++ payload) = (Timing.decode h fmt).cutTrain payload := by
  obtain ⟨rfl, hh, he⟩ := hg
  have hgat : gather g.format [] (c :: cs ++ payload) = (c :: cs, payload) := by
    simp [gather, headerNeed, hs]
  have hin : headerIn g.format [] (c :: cs ++ payload) = some h := by
    unfold headerIn
    rw [hgat]
    simp only [isWhole, hs, le_refl, decide_true, if_true]
    exact hd
  rw [playAll_of_isEmpty he, hh, hin, hgat]
  exact playAll_timing_cut (g := g.begin h) rfl (Timing.regular_decode h g.format) rfl hl

/-- A TAP block with data whose flag byte is missing gives no pulse. -/
theorem Between.playAll_flagless (hg : Between .tap g) {c d : UInt8}
    (hl : 0 < (Timing.decode [c, d] .tap).length) : g.playAll [c, d] = [] := by
  have hin : headerIn .tap [] [c, d] = none := by
    simp [headerIn, gather, headerNeed, headerSize, isWhole, decodable, hl]
  rw [playAll_of_isEmpty hg.empty, hg.format, hg.header, hin]

/-- The end of a stream cut short plays as `CutEnd` says, from any
generator between blocks. -/
theorem Between.playAll_cutEnd (hg : Between fmt g) {tail : List UInt8} {out : List Pulse}
    (ht : CutEnd fmt tail out) : g.playAll tail = out := by
  cases ht with
  | header hs => exact hg.playAll_header_cut hs
  | @data c cs payload hs hflag hl =>
    have hsome : (decodable fmt (c :: cs) payload.head?).isSome := decodable_isSome hflag
    obtain ⟨h, hd⟩ := Option.isSome_iff_exists.1 hsome
    have hbt : blockTiming fmt (c :: cs) payload = Timing.decode h fmt := by
      simp [blockTiming, hd]
    rw [hbt] at hl ⊢
    exact hg.playAll_block_cut hs hd hl
  | flagless hf hl =>
    subst hf
    exact hg.playAll_flagless hl

/-! ## Streams cut short -/

/-- Whole blocks followed by an end cut short play as the blocks' trains and
then the pulses of the end. -/
theorem playAll_start_cut (fmt : Format) (l : List (List UInt8 × List UInt8))
    (hl : ∀ b ∈ l, WholeBlock fmt b.1 b.2) {tail : List UInt8} {out : List Pulse}
    (ht : CutEnd fmt tail out) :
    (Generator.start fmt).playAll ((l.flatMap fun b => b.1 ++ b.2) ++ tail) =
      (l.flatMap fun b => (blockTiming fmt b.1 b.2).train b.2) ++ out := by
  have hstart : Between fmt (Generator.start fmt) := ⟨rfl, rfl, rfl⟩
  obtain ⟨g', hg', hplay⟩ := hstart.playAll_blocks_append l hl tail
  rw [hplay, hg'.playAll_cutEnd ht]

/-- A generator of either format, reset and fed through a ring a stream of
whole blocks that ends short, by a feeder that says the stream is all pushed
only once it is, gives the blocks' trains and then the pulses of the end:
after any honest moves what the steps gave is the start of them, and once a
step has ended the tape it is all of them.  With a ring of two bytes or
more, honest moves that end the tape exist after any honest moves. -/
theorem fed_cut_blocks_play (fmt : Format) (l : List (List UInt8 × List UInt8))
    (hl : ∀ b ∈ l, WholeBlock fmt b.1 b.2) {tail : List UInt8} {out : List Pulse}
    (ht : CutEnd fmt tail out) (c : Int) (ms : List Move)
    (hms : (Feed.start fmt c ((l.flatMap fun b => b.1 ++ b.2) ++ tail)).fairRun ms = true) :
    let s := (Feed.start fmt c ((l.flatMap fun b => b.1 ++ b.2) ++ tail)).run ms
    let sound := (l.flatMap fun b => (blockTiming fmt b.1 b.2).train b.2) ++ out
    s.out <+: sound ∧ (s.ended = true → s.out = sound) ∧
      (2 ≤ c → ∃ ms', s.fairRun ms' = true ∧ (s.run ms').ended = true ∧ (s.run ms').out = sound) := by
  intro s sound
  have hplay : (Generator.start fmt).playAll ((l.flatMap fun b => b.1 ++ b.2) ++ tail) = sound :=
    playAll_start_cut fmt l hl ht
  rw [← hplay]
  exact Feed.run_plays hms

end Generator

end TapeDeck
