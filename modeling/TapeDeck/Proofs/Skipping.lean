import TapeDeck.Proofs.Events
import TapeDeck.Proofs.Tiling
import TapeDeck.Proofs.Truncation

/-!
# Skipping silent blocks

A session does not hand its generator the whole image: its reader passes
over the blocks that make no sound, and stops at a header cut short.  The
generator, given the bytes of the image as they are, would play those blocks
as silence, so the session sounds as the generator does on the image itself.

*Entries.*  From a whole entry on, the image is the entry's header, its
data, and the image from where the entry ends (`Catalogue.drop_entryAt`).
A silent block plays no pulse (`Timing.train_of_silent`).  From an entry
whose data runs past the end, the image is a stream cut short
(`Catalogue.cutEnd_entryAt`), and silent when the entry is.

*The image.*  By induction on the walk of the catalogue, any generator
between blocks plays the image from a block on as it plays what the reader
hands out from there (`Catalogue.playAll_drop_eq_readOut`).

*Sessions.*  A session on an image whose catalogue has no loop start hands
its sink what the generator gives for the image from its first block
(`Session.start_run_plays_image`); so a stream cut short sounds the same
fed to a generator and played from a file (`cut_stream_plays_lead_and_data`).
A loop start breaks this, since the session plays the loop's body again
(`Session.loopedCutData_session_repeats`).
-/

namespace TapeDeck

namespace Timing

variable {t : Timing} {payload : List UInt8}

/-- What a silent timing leaves: no pilot, no sync, no pause, and data only
if it is metadata. -/
theorem silent_iff : t.isAudible = false ↔
    t.pilotCount = 0 ∧ t.syncPhase = 0 ∧ t.pause = 0 ∧ (0 < t.length → t.category = .metadata) := by
  simp only [isAudible, Bool.or_eq_false_iff, decide_eq_false_iff_not, Bool.and_eq_false_iff,
    bne_eq_false_iff_eq, Nat.pos_iff_ne_zero, or_iff_not_imp_left, ne_eq, not_not, and_assoc]

/-- A silent block plays no pulse. -/
theorem train_of_silent (ha : t.isAudible = false) (hl : t.length = payload.length) :
    t.train payload = [] := by
  obtain ⟨hp, hs, hpa, hm⟩ := silent_iff.1 ha
  have hdata : t.dataPulses payload = [] := by
    cases hc : t.category with
    | metadata => simp [dataPulses, hc]
    | audio =>
      have hnil : payload = [] := List.length_eq_zero_iff.1 (by have := mt hm; simp_all)
      simp [dataPulses, hc, hnil, audioPulses]
    | sequence =>
      have hnil : payload = [] := List.length_eq_zero_iff.1 (by have := mt hm; simp_all)
      simp [dataPulses, hc, hnil, sequencePulses]
  simp [train, hp, hs, hpa, hdata]

/-- A silent block cut short in its data plays no pulse: its data is
metadata. -/
theorem cutTrain_of_silent (ha : t.isAudible = false) (hl : 0 < t.length) :
    t.cutTrain payload = [] := by
  obtain ⟨hp, hs, -, hm⟩ := silent_iff.1 ha
  simp [cutTrain, cutDataPulses, hp, hs, hm hl]

end Timing

namespace Catalogue

variable {D : ByteArray} {f : Format} {pos size : Nat} {c : UInt8}

/-! ## Entries -/

/-- The timing of an entry is the one the generator decodes from its header
with the rest of the image after it. -/
theorem entryTiming_eq_blockTiming_drop (hfit : pos + size ≤ D.size) :
    entryTiming D f pos size =
      Generator.blockTiming f ((D.data.toList.drop pos).take size) (D.data.toList.drop (pos + size)) := by
  by_cases hlt : pos + size < D.size
  · refine entryTiming_eq_blockTiming fun _ => ⟨hlt, ?_⟩
    rw [List.head?_drop, getElem?_get! hlt]
  · -- the header ends the image: no flag byte on either side
    have hnil : D.data.toList.drop (pos + size) = [] :=
      List.drop_eq_nil_of_le (by rw [length_data_toList]; omega)
    unfold entryTiming
    rw [dif_neg (fun h => hlt h.2.2), hnil, header_bytes]
    unfold Generator.blockTiming Generator.decodable
    split <;> rfl

/-- From a whole entry on, the image is the entry's header, its data, and
the image from where the entry ends. -/
theorem drop_entryAt (htr : (entryAt D f pos size).truncated = false) :
    D.data.toList.drop pos = (entryAt D f pos size).header D ++ (entryAt D f pos size).payload D ++
      D.data.toList.drop (entryStop D f pos size) := by
  have hw := fits_of_truncated htr
  rw [header_entryAt, payload_entryAt hw, entryStop_eq hw, List.append_assoc]
  calc D.data.toList.drop pos
      = (D.data.toList.drop pos).take size ++ (D.data.toList.drop pos).drop size :=
        (List.take_append_drop _ _).symm
    _ = (D.data.toList.drop pos).take size ++
          ((D.data.toList.drop (pos + size)).take (entryTiming D f pos size).length ++
            (D.data.toList.drop (pos + size)).drop (entryTiming D f pos size).length) := by
        rw [List.drop_drop, List.take_append_drop]
    _ = _ := by rw [List.drop_drop]

/-- From an entry whose data runs past the end, the image is the entry's
header and the data there is. -/
theorem drop_entryAt_cut (hcut : D.size < pos + size + (entryTiming D f pos size).length) :
    D.data.toList.drop pos = (entryAt D f pos size).header D ++ (entryAt D f pos size).payload D := by
  have hrest : (D.data.toList.drop (pos + size)).take (D.size - (pos + size)) =
      D.data.toList.drop (pos + size) :=
    List.take_of_length_le (by rw [List.length_drop, length_data_toList])
  rw [header_entryAt, payload_entryAt_cut hcut, hrest, ← List.drop_drop, List.take_append_drop]

/-- From an entry whose data runs past the end, the image is a stream cut
short in that block's data, and silent when the entry is. -/
theorem cutEnd_entryAt (hc : D.data.toList[pos]? = some c) (hfit : pos + headerSize c f ≤ D.size)
    (htr : (entryAt D f pos (headerSize c f)).truncated = true) :
    ∃ out, Generator.CutEnd f (D.data.toList.drop pos) out ∧
      ((entryAt D f pos (headerSize c f)).audible = false → out = []) := by
  obtain ⟨n, hn⟩ : ∃ n, headerSize c f = n + 1 :=
    ⟨_, (Nat.succ_pred_eq_of_pos (headerSize_pos c f)).symm⟩
  have hhdr : (D.data.toList.drop pos).take (headerSize c f) = c :: (D.data.toList.drop (pos + 1)).take n := by
    rw [Tape.drop_eq_cons hc, hn, List.take_succ_cons]
  have hcs : ((D.data.toList.drop (pos + 1)).take n).length = n := by
    simp
    omega
  have hsplit : D.data.toList.drop pos =
      c :: (D.data.toList.drop (pos + 1)).take n ++ D.data.toList.drop (pos + headerSize c f) := by
    rw [← hhdr, ← List.drop_drop, List.take_append_drop]
  have ht := entryTiming_eq_blockTiming_drop (f := f) hfit
  rw [hhdr] at ht
  have hcut : D.size < pos + headerSize c f + (entryTiming D f pos (headerSize c f)).length := by
    simpa using htr
  have hlen : (D.data.toList.drop (pos + headerSize c f)).length <
      (Generator.blockTiming f (c :: (D.data.toList.drop (pos + 1)).take n)
        (D.data.toList.drop (pos + headerSize c f))).length := by
    rw [← ht, List.length_drop, length_data_toList]
    omega
  rw [hsplit]
  by_cases hflag : f = .tzx ∨ D.data.toList.drop (pos + headerSize c f) ≠ []
  · refine ⟨_, .data (by omega) hflag hlen, fun ha => ?_⟩
    rw [← ht]
    exact Timing.cutTrain_of_silent (by rwa [audible_entryAt] at ha) (by omega)
  · -- a TAP block with data whose flag byte is missing
    obtain ⟨rfl, hnil⟩ : f = .tap ∧ D.data.toList.drop (pos + headerSize c .tap) = [] := by
      cases f <;> simp_all
    obtain ⟨d, hd⟩ : ∃ d, (D.data.toList.drop (pos + 1)).take n = [d] :=
      List.length_eq_one_iff.1 (by simp only [headerSize] at hn; omega)
    rw [hd, hnil] at hlen ⊢
    have hdec : (Generator.blockTiming .tap [c, d] []).length = (Timing.decode [c, d] .tap).length := by
      unfold Generator.blockTiming Generator.decodable
      split <;> rfl
    exact ⟨[], .flagless rfl (by simpa [hdec] using hlen), fun _ => rfl⟩

/-! ## The image -/

theorem readOut_audible {e : CatalogueEntry} (ha : e.audible = true) :
    readOut D [e] = e.header D ++ e.payload D := by
  simp [readOut, ha]

theorem readOut_silent {e : CatalogueEntry} (ha : e.audible = false) : readOut D [e] = [] := by
  simp [readOut, ha]

/-- Any generator between blocks plays an image from a block on as any other
plays what a reader hands out from there: the header and data there are of
every audible entry.  A silent block, whole or cut short, and a header cut
short give no pulse, so passing over them changes nothing.  By induction on
the walk of the catalogue. -/
theorem playAll_drop_eq_readOut {g g' : Generator} (hg : Generator.Between f g)
    (hg' : Generator.Between f g') :
    g.playAll (D.data.toList.drop pos) = g'.playAll (readOut D (entriesFrom D f pos).1) := by
  fun_induction entriesFrom D f pos generalizing g g' with
  | case1 p hp size =>
    rename_i hs
    rw [readOut_nil, hg'.playAll_nil, Tape.drop_eq_cons (getElem?_getElem hp)]
    exact hg.playAll_header_cut (by simp; omega)
  | case2 p hp size hs rest cut heq =>
    rename_i ih
    have hc := getElem?_getElem hp
    rw [readOut_cons]
    cases htr : (entryAt D f p size).truncated with
    | false =>
      rw [heq] at ih
      have hb := wholeBlock_entryAt hc htr
      have htime := timing_eq_blockTiming htr
      obtain ⟨g₁, hg₁, hplay⟩ := hg.playAll_whole hb (D.data.toList.drop (entryStop D f p size))
      rw [drop_entryAt htr, hplay]
      cases ha : (entryAt D f p size).audible with
      | true =>
        obtain ⟨g₁', hg₁', hplay'⟩ := hg'.playAll_whole hb (readOut D rest)
        rw [readOut_audible ha, hplay', ih hg₁ hg₁']
      | false =>
        have hsilent : (entryAt D f p size).timing.isAudible = false := by
          rw [timing_entryAt, ← audible_entryAt]
          exact ha
        rw [readOut_silent ha, List.nil_append, ← htime,
          Timing.train_of_silent hsilent (htime ▸ hb.length).symm, List.nil_append]
        exact ih hg₁ hg'
    | true =>
      have hcut : D.size < p + size + (entryTiming D f p size).length := by simpa using htr
      have hstop : entryStop D f p size = D.size := by
        unfold entryStop
        omega
      rw [hstop, entriesFrom_of_le le_rfl, Prod.mk.injEq] at heq
      obtain ⟨rfl, -⟩ := heq
      obtain ⟨out, hend, hquiet⟩ := cutEnd_entryAt hc (by omega) htr
      rw [hg.playAll_cutEnd hend, readOut_nil, List.append_nil]
      cases ha : (entryAt D f p size).audible with
      | true =>
        rw [readOut_audible ha, ← drop_entryAt_cut hcut, hg'.playAll_cutEnd hend]
      | false =>
        rw [hquiet ha, readOut_silent ha, hg'.playAll_nil]
  | case3 p hp =>
    rw [List.drop_eq_nil_of_le (by rw [length_data_toList]; omega), readOut_nil, hg.playAll_nil,
      hg'.playAll_nil]

end Catalogue

/-! ## Sessions -/

namespace Session

/-- A session reads an image that a shelf serves under a name, and plays it
until it stops, which it does.  When the catalogue of the image has no loop
start, the session hands its sink exactly what the generator gives for the
image from its first block on, whether the image is cut short or not. -/
theorem start_run_plays_image (cfg : Config) (shelf : Shelf) (depth : Int) (log : Log)
    (path : String) (D : ByteArray) (c : Catalogue) (hpath : path ≠ "") (hserve : shelf.Serves path D)
    (hc : Catalogue.ofBytes D = .ok c) (hloop : ∀ e ∈ c.entries, e.id ≠ BlockId.loopStart) :
    (∃ n, ((((create cfg shelf (PulseQueue.ofDepth depth) log).select path).start).run n).session.started =
      false) ∧
    ∀ n, ((((create cfg shelf (PulseQueue.ofDepth depth) log).select path).start).run n).session.started =
        false →
      ((((create cfg shelf (PulseQueue.ofDepth depth) log).select path).start).run n).pushed =
        (Generator.start c.format).playAll (D.data.toList.drop (Catalogue.origin D)) := by
  have hpath' : ((create cfg shelf (PulseQueue.ofDepth depth) log).select path).path ≠ "" := hpath
  have hroomy : 2 ≤ ({ ((create cfg shelf (PulseQueue.ofDepth depth) log).select path).reset with
      restartPending := true, started := true } : Session).ring.capacity := by
    simpa [reset, select] using capacity_create cfg shelf (PulseQueue.ofDepth depth) log
  rw [start_of_stopped rfl, if_neg hpath']
  refine ⟨run_stops_of_restart rfl rfl hroomy (PulseQueue.depth_ofDepth depth)
    (PulseQueue.toList_ofDepth depth), fun n hstop => ?_⟩
  obtain ⟨hok, hA, hfmt, hl, -⟩ := Tape.openTape_of_serves
    (t := ((create cfg shelf (PulseQueue.ofDepth depth) log).select path).reset.toTape) hserve
  obtain ⟨hcf, hent, -⟩ := Catalogue.ofBytes_eq hc
  rw [hent] at hloop
  have hf := hfmt.trans hcf.symm
  obtain ⟨t_end, hp, he⟩ := Catalogue.passes_entriesFrom hA hf hl hloop
  rcases run_of_restart rfl rfl hroomy (PulseQueue.depth_ofDepth depth) (PulseQueue.toList_ofDepth depth)
    hstop with ⟨hno, -⟩ | ⟨-, hrun⟩
  · exact absurd (hno.symm.trans hok) Bool.false_ne_true
  obtain ⟨hpush, -⟩ := hrun _ t_end hp.reads he
  have hplay : (Generator.start c.format).playAll
      (Catalogue.readOut D (Catalogue.entriesFrom D c.format (Catalogue.origin D)).1) =
        (Generator.start c.format).playAll (D.data.toList.drop (Catalogue.origin D)) :=
    (Catalogue.playAll_drop_eq_readOut ⟨rfl, rfl, rfl⟩ ⟨rfl, rfl, rfl⟩).symm
  exact hpush.trans ((congrArg (fun g => (Generator.start g).playAll _) hf).trans hplay)

/-- A TZX image whose stream is a loop, run twice, of a tone of two pulses,
then pure data whose five bytes are cut short after the first. -/
def loopedCutData : ByteArray :=
  ⟨#[0x5A, 0x58, 0x54, 0x61, 0x70, 0x65, 0x21, 0x1A, 0x01, 0x14,
    0x24, 0x02, 0x00, 0x12, 0x10, 0x00, 0x02, 0x00, 0x25,
    0x14, 0x00, 0x01, 0x00, 0x02, 0x08, 0x00, 0x00, 0x05, 0x00, 0x00, 0xFF]⟩

/-- A loop start parts the session from the generator: the session plays the
loop's body twice and hands its sink 20 pulses, while the stream of the
image, whole blocks and then data cut short, sounds as 18. -/
theorem loopedCutData_session_repeats :
    let l : List (List UInt8 × List UInt8) :=
      [([0x24, 0x02, 0x00], []), ([0x12, 0x10, 0x00, 0x02, 0x00], []), ([0x25], [])]
    let tail : List UInt8 := [0x14, 0x00, 0x01, 0x00, 0x02, 0x08, 0x00, 0x00, 0x05, 0x00, 0x00, 0xFF]
    let out := (Generator.blockTiming .tzx (tail.take 11) [0xFF]).cutTrain [0xFF]
    let s := (((create {} { rack := .memory [("t.tzx", loopedCutData)] } (PulseQueue.ofDepth 64)
      (Log.ofCapacity 8)).select "t.tzx").start).run 1
    (∀ b ∈ l, Generator.WholeBlock .tzx b.1 b.2) ∧ Generator.CutEnd .tzx tail out ∧
      isTzx loopedCutData.toList = true ∧
      loopedCutData.data.toList.drop (Catalogue.origin loopedCutData) = (l.flatMap fun b => b.1 ++ b.2) ++ tail ∧
      s.session.started = false ∧ s.pushed.length = 20 ∧
      ((l.flatMap fun b => (Generator.blockTiming .tzx b.1 b.2).train b.2) ++ out).length = 18 := by
  intro l tail out s
  have hl : ∀ b ∈ l, Generator.WholeBlock .tzx b.1 b.2 := by
    simp only [l, List.mem_cons, List.not_mem_nil, or_false, forall_eq_or_imp, forall_eq]
    exact ⟨⟨⟨0x24, [0x02, 0x00], rfl, by decide⟩, by decide, by decide⟩,
      ⟨⟨0x12, [0x10, 0x00, 0x02, 0x00], rfl, by decide⟩, by decide, by decide⟩,
      ⟨⟨0x25, [], rfl, by decide⟩, by decide, by decide⟩⟩
  have ht : Generator.CutEnd .tzx tail out :=
    @Generator.CutEnd.data .tzx 0x14 [0x00, 0x01, 0x00, 0x02, 0x08, 0x00, 0x00, 0x05, 0x00, 0x00] [0xFF]
      (by decide) (.inl rfl) (by decide)
  have htzx : isTzx loopedCutData.toList = true := by decide +kernel
  have hstream : loopedCutData.data.toList.drop (Catalogue.origin loopedCutData) =
      (l.flatMap fun b => b.1 ++ b.2) ++ tail := by
    rw [Catalogue.origin, if_pos htzx]
    decide
  have hw : (runForWithin 1000 1 (((create {} { rack := .memory [("t.tzx", loopedCutData)] }
      (PulseQueue.ofDepth 64) (Log.ofCapacity 8)).select "t.tzx").start) 0 [] []).map
        (fun r => (r.session.started, r.pushed.length)) = some (false, 20) := by
    decide +kernel
  obtain ⟨r, hr, hrr⟩ := Option.map_eq_some_iff.1 hw
  have hrun : s.session.started = false ∧ s.pushed.length = 20 := by
    rw [show s = r from run_of_runForWithin (n := 1) hr]
    simpa using hrr
  exact ⟨hl, ht, htzx, hstream, hrun.1, hrun.2, by decide +kernel⟩

end Session

/-- A stream of whole blocks that ends short, in a header or in the data of
a block whose header is whole, sounds as the blocks' trains and then the
pulses `Generator.CutEnd` gives its end: of a block cut short its lead and
the data there is, with no pause, and nothing for a header cut short or for
a TAP block whose flag byte is missing.  A reset generator of the stream's
format, fed the stream through a ring by an honest feeder, gives these
pulses: what its steps give is the start of them, and all of them once a
step ends the tape, which honest moves can always reach with a ring of two
bytes or more.  A session that plays an image of the stream (the stream
itself for TAP, and after the preamble for TZX) from a shelf that serves it
under a name stops, and once stopped has handed its sink the same pulses,
when the image's catalogue lists no loop start. -/
theorem cut_stream_plays_lead_and_data (fmt : Format) (l : List (List UInt8 × List UInt8))
    (hl : ∀ b ∈ l, Generator.WholeBlock fmt b.1 b.2) (tail : List UInt8) (out : List Pulse)
    (ht : Generator.CutEnd fmt tail out) :
    let stream := (l.flatMap fun b => b.1 ++ b.2) ++ tail
    let sound := (l.flatMap fun b => (Generator.blockTiming fmt b.1 b.2).train b.2) ++ out
    (∀ (c : Int) (ms : List Generator.Move), (Generator.Feed.start fmt c stream).fairRun ms = true →
      let s := (Generator.Feed.start fmt c stream).run ms
      s.out <+: sound ∧ (s.ended = true → s.out = sound) ∧
        (2 ≤ c → ∃ ms', s.fairRun ms' = true ∧ (s.run ms').ended = true ∧ (s.run ms').out = sound)) ∧
    ∀ (cfg : Config) (shelf : Shelf) (depth : Int) (log : Log) (path : String) (D : ByteArray)
      (cat : Catalogue), path ≠ "" → shelf.Serves path D →
      (if isTzx D.toList then Format.tzx else .tap) = fmt → D.data.toList.drop (Catalogue.origin D) = stream →
      Catalogue.ofBytes D = .ok cat → (∀ e ∈ cat.entries, e.id ≠ BlockId.loopStart) →
      (∃ n, ((((Session.create cfg shelf (PulseQueue.ofDepth depth) log).select path).start).run
        n).session.started = false) ∧
      ∀ n, ((((Session.create cfg shelf (PulseQueue.ofDepth depth) log).select path).start).run
          n).session.started = false →
        ((((Session.create cfg shelf (PulseQueue.ofDepth depth) log).select path).start).run n).pushed =
          sound := by
  intro stream sound
  refine ⟨fun c ms hms => Generator.fed_cut_blocks_play fmt l hl ht c ms hms, ?_⟩
  intro cfg shelf depth log path D cat hpath hserve hfmt hD hc hloop
  obtain ⟨hstops, hpush⟩ := Session.start_run_plays_image cfg shelf depth log path D cat hpath hserve hc hloop
  refine ⟨hstops, fun n hstop => ?_⟩
  have hcf : cat.format = fmt := (Catalogue.ofBytes_eq hc).1.trans hfmt
  rw [hpush n hstop, hcf, hD]
  exact Generator.playAll_start_cut fmt l hl ht

/-- A pure tone of two pulses, then a pulse sequence of two pulses whose data
holds three of its four bytes: the sequence gives one pulse, and the byte
left over none. -/
theorem toneThenCutSequence_plays :
    let l : List (List UInt8 × List UInt8) := [([0x12, 0x10, 0x00, 0x02, 0x00], [])]
    let tail : List UInt8 := [0x13, 0x02, 0x64, 0x00, 0x10]
    let out := (Generator.blockTiming .tzx [0x13, 0x02] [0x64, 0x00, 0x10]).cutTrain [0x64, 0x00, 0x10]
    (∀ b ∈ l, Generator.WholeBlock .tzx b.1 b.2) ∧ Generator.CutEnd .tzx tail out ∧
    let stream := (l.flatMap fun b => b.1 ++ b.2) ++ tail
    let sound := (l.flatMap fun b => (Generator.blockTiming .tzx b.1 b.2).train b.2) ++ out
    (∀ (c : Int) (ms : List Generator.Move), (Generator.Feed.start .tzx c stream).fairRun ms = true →
      let s := (Generator.Feed.start .tzx c stream).run ms
      s.out <+: sound ∧ (s.ended = true → s.out = sound) ∧
        (2 ≤ c → ∃ ms', s.fairRun ms' = true ∧ (s.run ms').ended = true ∧ (s.run ms').out = sound)) ∧
    ∀ (cfg : Config) (shelf : Shelf) (depth : Int) (log : Log) (path : String) (D : ByteArray)
      (cat : Catalogue), path ≠ "" → shelf.Serves path D →
      (if isTzx D.toList then Format.tzx else .tap) = .tzx → D.data.toList.drop (Catalogue.origin D) = stream →
      Catalogue.ofBytes D = .ok cat → (∀ e ∈ cat.entries, e.id ≠ BlockId.loopStart) →
      (∃ n, ((((Session.create cfg shelf (PulseQueue.ofDepth depth) log).select path).start).run
        n).session.started = false) ∧
      ∀ n, ((((Session.create cfg shelf (PulseQueue.ofDepth depth) log).select path).start).run
          n).session.started = false →
        ((((Session.create cfg shelf (PulseQueue.ofDepth depth) log).select path).start).run n).pushed =
          sound := by
  intro l tail out
  have hl : ∀ b ∈ l, Generator.WholeBlock .tzx b.1 b.2 := by
    simp only [l, List.mem_cons, List.not_mem_nil, or_false, forall_eq]
    exact ⟨⟨0x12, [0x10, 0x00, 0x02, 0x00], rfl, by decide⟩, by decide, by decide⟩
  have ht : Generator.CutEnd .tzx tail out :=
    @Generator.CutEnd.data .tzx 0x13 [0x02] [0x64, 0x00, 0x10] (by decide) (.inl rfl) (by decide)
  exact ⟨hl, ht, cut_stream_plays_lead_and_data .tzx l hl tail out ht⟩

end TapeDeck
