import TapeDeck.Proofs.Reader

/-!
# Reading an image block by block

A tape that reads an image `D` from a source in step with it, with no loop
open and seeks that do not fail, reads it as a listing would: block after
block, from the header each first byte sizes.

*Positions.*  `Tape.At t D p k` says that `t` reads `D` at byte `p`, with no
header byte left to hand out and `k` data bytes of the queued block still to
come.  Every read of the image is taken from `D.data.toList` at the position
(`Tape.readBytes_of`).

*Blocks.*  From a position between blocks one round reads the header of the
next block.  A block that makes a sound is queued: its header and then its
data are handed out, a byte a round.  Any other block, loops aside, is
skipped by a seek past its data.  Either way the tape is between blocks
again right after the block (`Tape.At.block`), and past the last byte
reading is over (`Tape.round_end`).
-/

namespace TapeDeck

namespace Tape

variable {t : Tape} {D : ByteArray} {p k : Nat}

/-- The tape reads the image `D` at byte `p`, its file in step with it: with
no header byte in hand, `k` data bytes of a block still to come, and seeks
that do not fail. -/
structure At (t : Tape) (D : ByteArray) (p k : Nat) : Prop where
  source : ∃ src, t.source = some src ∧ src.bytes = D ∧ src.pos = p
  pos : t.pos = p
  size : t.size = D.size
  finished : t.finished = false
  headerPending : t.headerPending = []
  dataPending : t.dataPending = k
  seeks : t.shelf.faults.seekLimit = none

/-- The tape with its file moved on to byte `q`. -/
def movedTo (t : Tape) (q : Nat) : Tape :=
  { t with source := t.source.map fun src => { src with pos := q }, pos := q }

/-- A read takes the bytes at the position of the file's bytes and moves the
file on past them. -/
theorem readBytes_of {src : Source} (hs : t.source = some src) (hp : src.pos = t.pos) (n : Nat) :
    t.readBytes n = ((src.bytes.data.toList.drop t.pos).take n,
      t.movedTo (t.pos + ((src.bytes.data.toList.drop t.pos).take n).length)) := by
  have hr : src.read n = ((src.read n).1, { src with pos := src.pos + (src.read n).1.length }) := rfl
  simp only [readBytes, hs, movedTo, Option.map_some]
  rw [hr, Source.read_fst, hp]

@[simp] theorem format_movedTo (q : Nat) : (t.movedTo q).format = t.format := rfl

theorem movedTo_pending (q : Nat) :
    ({ t with dataPending := k } : Tape).movedTo q = { t.movedTo q with dataPending := k } := rfl

theorem movedTo_movedTo (q q' : Nat) : (t.movedTo q).movedTo q' = t.movedTo q' := by
  simp [Tape.movedTo, Option.map_map, Function.comp_def]

/-! ## What reading keeps -/

/-- What a recording observer has kept: the offset and the action of each
event, oldest first. -/
def trail (t : Tape) : List (Nat × Action) := t.events.toList.map fun e => (e.offset, e.action)

/-- What the tape's observer keeps of a list of events: all of it when it
records, nothing otherwise. -/
def kept (t : Tape) (l : List (Nat × Action)) : List (Nat × Action) :=
  if t.observer = .record then l else []

/-- What reading never changes: the format, the observer and the loop depth. -/
structure Alike (t t' : Tape) : Prop where
  format : t'.format = t.format
  observer : t'.observer = t.observer
  loopDepth : t'.loopDepth = t.loopDepth

theorem Alike.refl (t : Tape) : Alike t t := ⟨rfl, rfl, rfl⟩

theorem Alike.trans {t₁ t₂ : Tape} (h₁ : Alike t t₁) (h₂ : Alike t₁ t₂) : Alike t t₂ :=
  ⟨h₂.format.trans h₁.format, h₂.observer.trans h₁.observer, h₂.loopDepth.trans h₁.loopDepth⟩

theorem Alike.kept {t' : Tape} (h : Alike t t') (l : List (Nat × Action)) : t'.kept l = t.kept l := by
  rw [Tape.kept, Tape.kept, h.observer]

theorem kept_append (l l' : List (Nat × Action)) : t.kept (l ++ l') = t.kept l ++ t.kept l' := by
  unfold kept
  split <;> simp

section Frames

variable (detail : String) (o q : Nat) (tm : Timing) (a : Action) (l : List (Nat × Action))

@[simp] theorem observer_note : (t.note detail).observer = t.observer := by rw [note_eq]
@[simp] theorem format_note : (t.note detail).format = t.format := by rw [note_eq]
@[simp] theorem trail_note : (t.note detail).trail = t.trail := by rw [note_eq]; rfl
@[simp] theorem kept_note : (t.note detail).kept l = t.kept l := by rw [note_eq]; rfl

@[simp] theorem observer_observe : (t.observe o tm a).observer = t.observer := by rw [observe_eq]
@[simp] theorem format_observe : (t.observe o tm a).format = t.format := by rw [observe_eq]
@[simp] theorem kept_observe : (t.observe o tm a).kept l = t.kept l := by rw [observe_eq]; rfl

/-- Telling the observer adds the event to its trail when it records. -/
@[simp] theorem trail_observe : (t.observe o tm a).trail = t.trail ++ t.kept [(o, a)] := by
  unfold observe kept
  cases t.observer with
  | none => simp
  | record => simp [trail]
  | printQueued => by_cases ha : a = .queued <;> simp [ha, trail]

/-- The same, for a tape given field by field. -/
@[simp] theorem map_events_observe :
    (t.observe o tm a).events.toList.map (fun e => (e.offset, e.action)) = t.trail ++ t.kept [(o, a)] :=
  trail_observe o tm a

@[simp] theorem events_note : (t.note detail).events = t.events := by rw [note_eq]

@[simp] theorem trail_mk (ld : Nat) (pm : Permission) (sh : Shelf) (lg : Log) (cs : String)
    (ev : Array Event) (ob : Observer) (src : Option Source) (sz : Int) (ps : Nat) (fm : Format)
    (fin : Bool) (hd hp : List UInt8) (dp : Nat) (lp : List LoopFrame) :
    (Tape.mk ld pm sh lg cs ev ob src sz ps fm fin hd hp dp lp).trail =
      ev.toList.map fun e => (e.offset, e.action) := rfl

@[simp] theorem kept_mk (ld : Nat) (pm : Permission) (sh : Shelf) (lg : Log) (cs : String)
    (ev : Array Event) (ob : Observer) (src : Option Source) (sz : Int) (ps : Nat) (fm : Format)
    (fin : Bool) (hd hp : List UInt8) (dp : Nat) (lp : List LoopFrame) :
    (Tape.mk ld pm sh lg cs ev ob src sz ps fm fin hd hp dp lp).kept l =
      if ob = .record then l else [] := rfl

@[simp] theorem events_movedTo : (t.movedTo q).events = t.events := rfl
@[simp] theorem loops_movedTo : (t.movedTo q).loops = t.loops := rfl
@[simp] theorem observer_movedTo : (t.movedTo q).observer = t.observer := rfl
@[simp] theorem loopDepth_movedTo : (t.movedTo q).loopDepth = t.loopDepth := rfl
@[simp] theorem trail_movedTo : (t.movedTo q).trail = t.trail := rfl
@[simp] theorem kept_movedTo : (t.movedTo q).kept l = t.kept l := rfl

end Frames

theorem At.moved (hA : t.At D p k) (q : Nat) : (t.movedTo q).At D q k := by
  obtain ⟨src, hs, hb, -⟩ := hA.source
  exact ⟨⟨{ src with pos := q }, by simp [Tape.movedTo, hs], hb, rfl⟩, rfl, hA.size, hA.finished,
    hA.headerPending, hA.dataPending, hA.seeks⟩

/-- Moving a tape to where it stands changes nothing. -/
theorem At.movedTo_self (hA : t.At D p k) : { t.movedTo p with dataPending := k } = t := by
  obtain ⟨src, hs, -, hsp⟩ := hA.source
  have hp := hA.pos
  have hd := hA.dataPending
  cases t
  cases src
  simp_all [Tape.movedTo]

theorem At.pending (hA : t.At D p k) (k' : Nat) : { t with dataPending := k' }.At D p k' :=
  ⟨hA.source, hA.pos, hA.size, hA.finished, hA.headerPending, rfl, hA.seeks⟩

theorem At.header (hA : t.At D p k) (hdr : List UInt8) : { t with header := hdr }.At D p k :=
  ⟨hA.source, hA.pos, hA.size, hA.finished, hA.headerPending, hA.dataPending, hA.seeks⟩

theorem At.note (hA : t.At D p k) (detail : String) : (t.note detail).At D p k := by
  rw [note_eq]
  exact ⟨hA.source, hA.pos, hA.size, hA.finished, hA.headerPending, hA.dataPending, hA.seeks⟩

theorem At.observe (hA : t.At D p k) (o : Nat) (tm : Timing) (a : Action) :
    (t.observe o tm a).At D p k := by
  rw [observe_eq]
  exact ⟨hA.source, hA.pos, hA.size, hA.finished, hA.headerPending, hA.dataPending, hA.seeks⟩

/-- Reads of the image take its bytes from the position. -/
theorem At.readBytes (hA : t.At D p k) (n : Nat) :
    t.readBytes n = ((D.data.toList.drop p).take n,
      t.movedTo (p + ((D.data.toList.drop p).take n).length)) := by
  obtain ⟨src, hs, hb, hsp⟩ := hA.source
  rw [readBytes_of hs (hsp.trans hA.pos.symm), hb, hA.pos]

/-- With no limit on seeks, a seek of the image goes where it is told. -/
theorem At.seekTo (hA : t.At D p k) (q : Nat) :
    t.seekTo q = ({ t.movedTo q with shelf := { t.shelf with seeks := t.shelf.seeks + 1 } }, true) := by
  obtain ⟨src, hs, -, -⟩ := hA.source
  have hseek : t.shelf.seek src q =
      ({ t.shelf with seeks := t.shelf.seeks + 1 }, .ok { src with pos := q }) := by
    unfold Shelf.seek
    split
    · next h => simp [hA.seeks] at h
    · simp [Source.seek_natCast]
  simp [Tape.seekTo, hs, hseek, Tape.movedTo]

theorem At.seeked (hA : t.At D p k) (q : Nat) :
    { t.movedTo q with shelf := { t.shelf with seeks := t.shelf.seeks + 1 } }.At D q k :=
  let hA' := hA.moved q
  ⟨hA'.source, hA'.pos, hA'.size, hA'.finished, hA'.headerPending, hA'.dataPending, hA.seeks⟩

/-- Past the last byte, reading is over. -/
theorem round_end (hA : t.At D p 0) (hp : D.size ≤ p) :
    t.round = ⟨{ t with finished := true }, none, false⟩ := by
  have hle : t.size ≤ (t.pos : Int) := by
    rw [hA.size, hA.pos]
    exact_mod_cast hp
  simp [round, hA.headerPending, hA.dataPending, hA.finished, hle]

theorem atEnd_round_end (hA : t.At D p 0) : ({ t with finished := true } : Tape).atEnd :=
  ⟨rfl, hA.headerPending, hA.dataPending⟩

/-! ## Headers -/

theorem drop_eq_cons {l : List UInt8} {c : UInt8} (hc : l[p]? = some c) :
    l.drop p = c :: l.drop (p + 1) := by
  obtain ⟨hp, rfl⟩ := List.getElem?_eq_some_iff.1 hc
  exact List.drop_eq_getElem_cons hp

theorem headD_take {l : List UInt8} {c : UInt8} (hc : l[p]? = some c) {n : Nat} (hn : 0 < n) :
    ((l.drop p).take n).headD 0 = c := by
  obtain ⟨m, rfl⟩ : ∃ m, n = m + 1 := ⟨n - 1, by omega⟩
  rw [drop_eq_cons hc, List.take_succ_cons]
  rfl

/-- Between blocks, a round reads the header of the next block, the size its
first byte gives.  A block that makes a sound is queued, header and data to be
handed out; any other is handled there and then. -/
theorem round_header (hA : t.At D p 0) {c : UInt8} (hc : D.data.toList[p]? = some c)
    (hfit : p + headerSize c t.format ≤ D.size) :
    t.round =
      let hdr := (D.data.toList.drop p).take (headerSize c t.format)
      let t₁ : Tape := { t.movedTo (p + headerSize c t.format) with header := hdr }
      let tm := Timing.decode hdr t.format
      if tm.isAudible then
        ⟨{ t₁ with headerPending := hdr, dataPending := tm.length }.observe p tm .queued, none, true⟩
      else ⟨t₁.handleBlock p tm, none, true⟩ := by
  have hsz := headerSize_pos c t.format
  have hp : p < D.size := by
    have := (List.getElem?_eq_some_iff.1 hc).1
    simpa using this
  have h1 : t.readBytes 1 = ([c], t.movedTo (p + 1)) := by
    rw [hA.readBytes, drop_eq_cons hc]
    simp
  have hlen : ((D.data.toList.drop (p + 1)).take (headerSize c t.format - 1)).length + 1 =
      headerSize c t.format := by
    simp
    omega
  have h2 : (t.movedTo (p + 1)).readBytes (headerSize c t.format - 1) =
      ((D.data.toList.drop (p + 1)).take (headerSize c t.format - 1),
        t.movedTo (p + headerSize c t.format)) := by
    rw [(hA.moved (p + 1)).readBytes, movedTo_movedTo]
    congr 2
    omega
  have hhdr : c :: (D.data.toList.drop (p + 1)).take (headerSize c t.format - 1) =
      (D.data.toList.drop p).take (headerSize c t.format) := by
    obtain ⟨n, hn⟩ : ∃ n, headerSize c t.format = n + 1 := ⟨_, (Nat.succ_pred_eq_of_pos hsz).symm⟩
    rw [drop_eq_cons hc, hn]
    simp
  have hle : ¬ t.size ≤ (p : Int) := by
    rw [hA.size]
    omega
  simp only [round, hA.headerPending, hA.dataPending, hA.finished, lt_irrefl, if_false, hle, h1,
    format_movedTo, h2, hlen, ne_eq, not_true_eq_false, hhdr, hA.pos, Bool.false_eq_true]

theorem Reads.of_round {T t' : Tape} {b : Option UInt8} {m : Bool} {l : List UInt8}
    (hr : t.round = ⟨T, b, m⟩) (h : Reads T l t') : Reads t (b.toList ++ l) t' := by
  have h' := Reads.round (t := t) (l := l) (by rw [hr]; exact h)
  rwa [hr] at h'

/-- A header in hand is handed out a byte a round. -/
theorem reads_headerPending : ∀ (l : List UInt8) (t : Tape), t.headerPending = l →
    Reads t l { t with headerPending := [] }
  | [], t, h => by
    have ht : ({ t with headerPending := [] } : Tape) = t := by rw [← h]
    rw [ht]
    exact Reads.refl t
  | b :: l, t, h => by
    have hr : t.round = ⟨{ t with headerPending := l }, some b, true⟩ := by simp [round, h]
    exact Reads.of_round hr (reads_headerPending l _ rfl)

/-! ## Data bytes -/

/-- A data byte still to come is read and handed out. -/
theorem round_data (hA : t.At D p (k + 1)) {c : UInt8} (hc : D.data.toList[p]? = some c) :
    t.round = ⟨{ t.movedTo (p + 1) with dataPending := k }, some c, true⟩ := by
  obtain ⟨src, hs, hb, hsp⟩ := hA.source
  have hread := readBytes_of hs (hsp.trans hA.pos.symm) 1
  rw [hA.pos, hb, drop_eq_cons hc] at hread
  simp [round, hA.headerPending, hA.dataPending, hread, Tape.movedTo]

/-- Data bytes the image holds are handed out, `j` more still to come. -/
theorem reads_data_upto : ∀ (k : Nat) (t : Tape) (p j : Nat), t.At D p (k + j) → p + k ≤ D.size →
    Reads t ((D.data.toList.drop p).take k) { t.movedTo (p + k) with dataPending := j }
  | 0, t, p, j, hA, _ => by
    rw [Nat.zero_add] at hA
    rw [Nat.add_zero, hA.movedTo_self]
    simpa using Reads.refl t
  | k + 1, t, p, j, hA, hk => by
    obtain ⟨c, hc⟩ : ∃ c, D.data.toList[p]? = some c :=
      Option.isSome_iff_exists.1 (by simp; omega)
    rw [show k + 1 + j = k + j + 1 by omega] at hA
    have h := Reads.of_round (round_data hA hc)
      (reads_data_upto k _ (p + 1) j ((hA.moved (p + 1)).pending (k + j)) (by omega))
    rw [drop_eq_cons hc]
    rw [show p + 1 + k = p + (k + 1) by omega, movedTo_pending, movedTo_movedTo] at h
    exact h

/-- The data bytes still to come are handed out, and the tape is between
blocks right after them. -/
theorem reads_data (k : Nat) (t : Tape) (p : Nat) (hA : t.At D p k) (hk : p + k ≤ D.size) :
    Reads t ((D.data.toList.drop p).take k) { t.movedTo (p + k) with dataPending := 0 } :=
  reads_data_upto k t p 0 hA hk

/-! ## Blocks -/

/-- `t` reads on to `t'`, handing out `bytes` and recording `evs`, with what
reading keeps unchanged. -/
structure Passes (t : Tape) (bytes : List UInt8) (evs : List (Nat × Action)) (t' : Tape) : Prop where
  reads : Reads t bytes t'
  alike : Alike t t'
  trail : t'.trail = t.trail ++ t.kept evs

theorem Passes.refl (t : Tape) : Passes t [] [] t :=
  ⟨Reads.refl t, Alike.refl t, by simp [Tape.kept]⟩

theorem Passes.trans {t₁ t₂ : Tape} {b b' : List UInt8} {e e' : List (Nat × Action)}
    (h : Passes t b e t₁) (h' : Passes t₁ b' e' t₂) : Passes t (b ++ b') (e ++ e') t₂ :=
  ⟨h.reads.trans h'.reads, h.alike.trans h'.alike,
    by rw [h'.trail, h.trail, h.alike.kept, kept_append, List.append_assoc]⟩

/-- One round that hands out nothing. -/
theorem Passes.round {T : Tape} {m : Bool} (hr : t.round = ⟨T, none, m⟩) (ha : Alike t T)
    {evs : List (Nat × Action)} (ht : T.trail = t.trail ++ t.kept evs) : Passes t [] evs T :=
  ⟨by simpa using Reads.of_round hr (Reads.refl T), ha, ht⟩

/-- The event a block handled on the spot gives: a loop end, with no loop
open, or a block passed over. -/
def spotAction (t : Tape) : Action :=
  if t.format = .tzx ∧ t.header.headD 0 = BlockId.loopEnd then .loopEnd else .skipped

/-- A block handled on the spot, neither a loop start nor a loop end with a
loop open, is passed over by a seek past its data. -/
theorem At.handleBlock (hA : t.At D q 0) (o : Nat) (tm : Timing)
    (hstart : ¬(t.format = .tzx ∧ t.header.headD 0 = BlockId.loopStart))
    (hend : t.format = .tzx ∧ t.header.headD 0 = BlockId.loopEnd → t.loops = [] ∧ tm.length = 0) :
    (t.handleBlock o tm).At D (q + tm.length) 0 ∧ (t.handleBlock o tm).loops = t.loops ∧
      Alike t (t.handleBlock o tm) ∧
      (t.handleBlock o tm).trail = t.trail ++ t.kept [(o, t.spotAction)] := by
  unfold Tape.handleBlock
  simp only [if_neg hstart]
  split
  · next h =>
    obtain ⟨hl, hlen⟩ := hend h
    simp only [hl, hlen, Nat.add_zero]
    exact ⟨hA.observe o tm .loopEnd, by simp [hl], ⟨by simp, by simp, by simp⟩,
      by rw [trail_observe, spotAction, if_pos h]⟩
  · next h =>
    have hskip : t.spotAction = .skipped := if_neg h
    by_cases hk : t.format = .tzx ∧ (!BlockId.known (t.header.headD 0)) = true
    · rw [if_pos hk, ((hA.note _).observe o tm .skipped).seekTo,
        ((hA.note _).observe o tm .skipped).pos]
      exact ⟨((hA.note _).observe o tm .skipped).seeked _, by simp, ⟨by simp, by simp, by simp⟩,
        by simp [hskip]⟩
    · rw [if_neg hk, (hA.observe o tm .skipped).seekTo, (hA.observe o tm .skipped).pos]
      exact ⟨(hA.observe o tm .skipped).seeked _, by simp, ⟨by simp, by simp, by simp⟩,
        by simp [hskip]⟩

/-- A header queued with its data hands out the header first, the data bytes
still to come. -/
theorem At.queue (hA : t.At D q 0) (hdr : List UInt8) (n o : Nat) (tm : Timing) :
    ({ t with headerPending := hdr, dataPending := n }.observe o tm .queued).headerPending = hdr ∧
      { { t with headerPending := hdr, dataPending := n }.observe o tm .queued with
        headerPending := [] }.At D q n := by
  rw [observe_eq]
  exact ⟨rfl, hA.source, hA.pos, hA.size, hA.finished, rfl, rfl, hA.seeks⟩

theorem length_decode_loopEnd {hdr : List UInt8} (h : hdr.headD 0 = BlockId.loopEnd) :
    (Timing.decode hdr .tzx).length = 0 := by
  have hb : Header.byteAt hdr 0 = 0x25 := by
    cases hdr <;> simp_all [Header.byteAt, BlockId.loopEnd]
  simp [Timing.decode, Timing.ofTzxHeader, hb, Timing.standard]

/-- The event a block read between blocks gives: queued when it sounds, else
a loop end, with no loop open, or a block passed over. -/
def blockAction (f : Format) (c : UInt8) (tm : Timing) : Action :=
  if tm.isAudible then .queued else if f = .tzx ∧ c = BlockId.loopEnd then .loopEnd else .skipped

/-- Between blocks the tape passes over a block that makes no sound, loop
starts aside, by a seek past its data, whether the image holds the data or
not. -/
theorem At.passOver (hA : t.At D p 0) {c : UInt8} (hc : D.data.toList[p]? = some c)
    (hstart : ¬(t.format = .tzx ∧ c = BlockId.loopStart))
    (hend : t.format = .tzx ∧ c = BlockId.loopEnd → t.loops = []) {size : Nat} {hdr : List UInt8}
    {tm : Timing} (hsize : headerSize c t.format = size)
    (hhdr : (D.data.toList.drop p).take size = hdr) (htm : Timing.decode hdr t.format = tm)
    (hfit : p + size ≤ D.size) (haud : tm.isAudible = false) :
    ∃ t', Passes t [] [(p, blockAction t.format c tm)] t' ∧ t'.loops = t.loops ∧
      t'.At D (p + size + tm.length) 0 := by
  subst hsize hhdr htm
  have hround := round_header hA hc hfit
  have hhd := headD_take hc (headerSize_pos c t.format)
  simp only [haud, Bool.false_eq_true, if_false] at hround
  have hlen : t.format = .tzx ∧ c = BlockId.loopEnd →
      (Timing.decode ((D.data.toList.drop p).take (headerSize c t.format)) t.format).length = 0 := by
    intro h
    have hle := length_decode_loopEnd (hhd.trans h.2)
    rwa [← h.1] at hle
  obtain ⟨hA', hl', ha', ht'⟩ := ((hA.moved (p + headerSize c t.format)).header
    ((D.data.toList.drop p).take (headerSize c t.format))).handleBlock p
    (Timing.decode ((D.data.toList.drop p).take (headerSize c t.format)) t.format)
    (by
      show ¬(t.format = .tzx ∧
        ((D.data.toList.drop p).take (headerSize c t.format)).headD 0 = BlockId.loopStart)
      rw [hhd]
      exact hstart)
    (fun h => by
      change t.format = .tzx ∧
        ((D.data.toList.drop p).take (headerSize c t.format)).headD 0 = BlockId.loopEnd at h
      rw [hhd] at h
      exact ⟨hend h, hlen h⟩)
  refine ⟨_, ⟨Reads.of_round hround (Reads.refl _), ⟨ha'.format, ha'.observer, ha'.loopDepth⟩, ?_⟩,
    hl', hA'⟩
  have hhd' : ((D.data.toList.drop p).take (headerSize c t.format)).head?.getD 0 = c := by
    simpa using hhd
  rw [ht']
  simp [spotAction, blockAction, haud, hhd', Tape.trail, Tape.kept]

/-- Between blocks the tape reads a whole block: a block that makes a sound is
handed out, header then data, and any other, loop starts aside, is passed
over.  Either way the tape is between blocks right after the block. -/
theorem At.block (hA : t.At D p 0) {c : UInt8} (hc : D.data.toList[p]? = some c)
    (hstart : ¬(t.format = .tzx ∧ c = BlockId.loopStart))
    (hend : t.format = .tzx ∧ c = BlockId.loopEnd → t.loops = []) {size : Nat} {hdr : List UInt8}
    {tm : Timing} (hsize : headerSize c t.format = size)
    (hhdr : (D.data.toList.drop p).take size = hdr) (htm : Timing.decode hdr t.format = tm)
    (hfit : p + size + tm.length ≤ D.size) :
    ∃ t', Passes t (if tm.isAudible then hdr ++ (D.data.toList.drop (p + size)).take tm.length
      else []) [(p, blockAction t.format c tm)] t' ∧ t'.loops = t.loops ∧
      t'.At D (p + size + tm.length) 0 := by
  subst hsize hhdr htm
  have hround := round_header hA hc (by omega)
  have hhd := headD_take hc (headerSize_pos c t.format)
  split
  · next haud =>
    simp only [haud, if_true] at hround
    obtain ⟨hpend, hA₁⟩ := (((hA.moved (p + headerSize c t.format)).header
      ((D.data.toList.drop p).take (headerSize c t.format))).queue
      ((D.data.toList.drop p).take (headerSize c t.format))
      (Timing.decode ((D.data.toList.drop p).take (headerSize c t.format)) t.format).length p
      (Timing.decode ((D.data.toList.drop p).take (headerSize c t.format)) t.format))
    refine ⟨_, ⟨Reads.of_round hround ((reads_headerPending _ _ hpend).trans (reads_data _ _ _ hA₁ hfit)),
      ⟨by simp, by simp, by simp⟩, by simp [blockAction, haud, Tape.trail, Tape.kept]⟩, by simp, ?_⟩
    exact ((hA₁.moved _).pending 0)
  · next haud =>
    exact hA.passOver hc hstart hend rfl rfl rfl (by omega) (by simpa using haud)

end Tape

end TapeDeck
