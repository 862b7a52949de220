import TapeDeck.Catalogue
import TapeDeck.Proofs.Blocks
import TapeDeck.Proofs.Playback
import TapeDeck.Proofs.Walk

/-!
# A tape plays what its catalogue lists

The catalogue of an image lists its blocks without playing it, and the
session plays it through a reader, a ring and a generator.  The two agree:
a session that reads an image whose catalogue is whole, with no loop start,
hands its sink, block after block, the pulse train of each audible entry of
the catalogue, and no other pulse; so the widths it hands over add up to the
ticks of the catalogue.

*Entries.*  Where a header fits in the image, the entry there has that
header, and, unless truncated, the data its timing says right after it
(`Catalogue.header_entryAt`, `Catalogue.payload_entryAt`).  The timing
of a TAP entry is decoded with the flag byte after the header; that byte
picks only the pilot, so the entry has the length and the sound the header
alone gives (`Catalogue.length_entryTiming`).  Every entry of a listing is
such an entry (`Catalogue.mem_entriesFrom`).

*Reading.*  From the first block on, a reader in step with the image reads
the header and data of the audible entries and passes over the others
(`Catalogue.reads_entriesFrom`).

*Ticks.*  The widths of an entry's train add up to the ticks the catalogue
counts for it (`Timing.ticks_train`).
-/

namespace TapeDeck

/-- The header bytes of an entry, in the image it lists. -/
def CatalogueEntry.header (e : CatalogueEntry) (D : ByteArray) : List UInt8 :=
  (D.extract e.offset (e.offset + e.headerSize)).toList

/-- The data bytes of an entry, in the image it lists. -/
def CatalogueEntry.payload (e : CatalogueEntry) (D : ByteArray) : List UInt8 :=
  (D.extract (e.offset + e.headerSize) (e.offset + e.headerSize + e.length)).toList

/-- The pulses a catalogue lists for its image: the train of each audible
entry, from its timing and its data, in file order. -/
def Catalogue.pulses (c : Catalogue) (D : ByteArray) : List Pulse :=
  (c.entries.filter (·.audible)).flatMap fun e => e.timing.train (e.payload D)

/-- The pulse trains of the audible ones of entries `l` of an image, in order. -/
def Catalogue.trains (D : ByteArray) (l : List CatalogueEntry) : List Pulse :=
  (l.filter (·.audible)).flatMap fun e => e.timing.train (e.payload D)

/-- The bytes a reader hands out for entries `l` of an image: the header and
data of each audible one, in order. -/
def Catalogue.readOut (D : ByteArray) (l : List CatalogueEntry) : List UInt8 :=
  (l.filter (·.audible)).flatMap fun e => e.header D ++ e.payload D

/-- What a reader records for an entry read between loops: the block is
queued when it sounds, a loop end is a loop end, and any other block is
skipped. -/
def CatalogueEntry.action (e : CatalogueEntry) : Action :=
  if e.audible then .queued else if e.id = BlockId.loopEnd then .loopEnd else .skipped

namespace Catalogue

@[simp] theorem readOut_nil (D : ByteArray) : readOut D [] = [] := rfl

theorem readOut_append (D : ByteArray) (l l' : List CatalogueEntry) :
    readOut D (l ++ l') = readOut D l ++ readOut D l' := by
  simp [readOut]

theorem readOut_cons (D : ByteArray) (e : CatalogueEntry) (l : List CatalogueEntry) :
    readOut D (e :: l) = readOut D [e] ++ readOut D l :=
  readOut_append D [e] l

variable {D : ByteArray} {f : Format} {pos size : Nat}

theorem length_data_toList (D : ByteArray) : D.data.toList.length = D.size :=
  Array.length_toList

theorem extract_toList (D : ByteArray) (a b : Nat) :
    (D.extract a b).toList = (D.data.toList.drop a).take (b - a) := by
  simp [byteArray_toList, Array.toList_extract, List.extract_eq_take_drop]

/-! ## Entries -/

@[simp] theorem offset_entryAt : (entryAt D f pos size).offset = pos := by cases f <;> rfl

@[simp] theorem headerSize_entryAt : (entryAt D f pos size).headerSize = size := by
  cases f <;> rfl

@[simp] theorem timing_entryAt : (entryAt D f pos size).timing = entryTiming D f pos size := by
  cases f <;> rfl

@[simp] theorem audible_entryAt :
    (entryAt D f pos size).audible = (entryTiming D f pos size).isAudible := by
  cases f <;> rfl

@[simp] theorem length_entryAt :
    (entryAt D f pos size).length = (D.extract (pos + size) (entryStop D f pos size)).toList.length := by
  cases f <;> rfl

@[simp] theorem truncated_entryAt :
    (entryAt D f pos size).truncated = decide (D.size < pos + size + (entryTiming D f pos size).length) := by
  cases f <;> rfl

@[simp] theorem ticks_entryAt :
    (entryAt D f pos size).ticks = if (entryTiming D f pos size).isAudible then
      blockTicks (entryTiming D f pos size) (D.extract (pos + size) (entryStop D f pos size)).toList
      else 0 := by
  cases f <;> rfl

theorem id_entryAt : (entryAt D f pos size).id =
    if f = .tzx then (D.extract pos (pos + size)).toList.headD 0 else 0 := by
  cases f <;> rfl

/-! ## Entries whose header fits -/

theorem header_bytes : (D.extract pos (pos + size)).toList = (D.data.toList.drop pos).take size := by
  simp [extract_toList]

theorem getElem?_get! (h : pos < D.size) : D.data.toList[pos]? = some (D.get! pos) := by
  simp [ByteArray.get!, h]

theorem getElem_eq_get! (h : pos < D.size) : D[pos] = D.get! pos := by
  simp [ByteArray.get!, h]
  rfl

theorem getElem?_getElem (h : pos < D.size) : D.data.toList[pos]? = some D[pos] := by
  rw [getElem?_get! h, getElem_eq_get! h]

/-- The flag byte after a TAP header picks the pilot only. -/
theorem length_decode_tap_append {h : List UInt8} (hl : 2 ≤ h.length) (b : UInt8) :
    (Timing.decode (h ++ [b]) .tap).length = (Timing.decode h .tap).length := by
  match h, hl with
  | x :: y :: rest, _ => simp [Timing.decode, Timing.ofTapHeader, Header.word, Header.byteAt]

/-- A TAP block always sounds: it has a pilot. -/
theorem isAudible_decode_tap (h : List UInt8) : (Timing.decode h .tap).isAudible = true := by
  simp [Timing.decode, Timing.ofTapHeader, Timing.isAudible]

section Fit

variable {c : UInt8}

/-- An entry's timing has the length and the sound its header alone gives. -/
theorem length_entryTiming (hfit : pos + headerSize c f ≤ D.size) :
    (entryTiming D f pos (headerSize c f)).length =
      (Timing.decode ((D.data.toList.drop pos).take (headerSize c f)) f).length := by
  unfold entryTiming
  simp only [header_bytes]
  split
  · next h =>
    obtain ⟨rfl, -, -⟩ := h
    exact length_decode_tap_append (by simp [headerSize] at hfit ⊢; omega) _
  · rfl

theorem isAudible_entryTiming :
    (entryTiming D f pos size).isAudible =
      (Timing.decode ((D.data.toList.drop pos).take size) f).isAudible := by
  unfold entryTiming
  simp only [header_bytes]
  split
  · next h =>
    obtain ⟨rfl, -, -⟩ := h
    rw [isAudible_decode_tap, isAudible_decode_tap]
  · rfl

end Fit

/-! ## Entries that are not truncated -/

theorem fits_of_truncated (h : (entryAt D f pos size).truncated = false) :
    pos + size + (entryTiming D f pos size).length ≤ D.size := by
  simpa using h

section Whole

variable (h : pos + size + (entryTiming D f pos size).length ≤ D.size)
include h

theorem entryStop_eq : entryStop D f pos size = pos + size + (entryTiming D f pos size).length := by
  unfold entryStop
  omega

theorem payload_bytes : (D.extract (pos + size) (entryStop D f pos size)).toList =
    (D.data.toList.drop (pos + size)).take (entryTiming D f pos size).length := by
  rw [entryStop_eq h, extract_toList, Nat.add_sub_cancel_left]

theorem payload_entryAt : (entryAt D f pos size).payload D =
    (D.data.toList.drop (pos + size)).take (entryTiming D f pos size).length := by
  have hl : ((D.data.toList.drop (pos + size)).take (entryTiming D f pos size).length).length =
      (entryTiming D f pos size).length := by
    simp
    omega
  rw [CatalogueEntry.payload, offset_entryAt, headerSize_entryAt, length_entryAt, payload_bytes h, hl,
    extract_toList, Nat.add_sub_cancel_left]

theorem head?_payload (hl : 0 < (entryTiming D f pos size).length) :
    ((D.data.toList.drop (pos + size)).take (entryTiming D f pos size).length).head? =
      some (D.get! (pos + size)) := by
  rw [List.head?_take, if_neg (Nat.pos_iff_ne_zero.1 hl), List.head?_drop, getElem?_get! (by omega)]

end Whole

/-- The timing a catalogue gives a block is the one the generator decodes
from its header and, for a TAP block with data, the flag byte after it. -/
theorem entryTiming_eq_blockTiming {payload : List UInt8}
    (hflag : 0 < (Timing.decode ((D.data.toList.drop pos).take size) f).length →
      pos + size < D.size ∧ payload.head? = some (D.get! (pos + size))) :
    entryTiming D f pos size =
      Generator.blockTiming f ((D.data.toList.drop pos).take size) payload := by
  unfold entryTiming Generator.blockTiming Generator.decodable
  simp only [header_bytes]
  by_cases ht : f = .tap ∧ 0 < (Timing.decode ((D.data.toList.drop pos).take size) f).length
  · obtain ⟨rfl, hl⟩ := ht
    obtain ⟨hlt, hh⟩ := hflag hl
    rw [dif_pos ⟨rfl, hl, hlt⟩, if_pos ⟨rfl, hl⟩, hh, getElem_eq_get! hlt]
    rfl
  · have ht' : ¬(f = .tap ∧ 0 < (Timing.decode ((D.data.toList.drop pos).take size) .tap).length) :=
      fun h' => ht ⟨h'.1, by rw [h'.1]; exact h'.2⟩
    rw [dif_neg (fun h' => ht ⟨h'.1, h'.2.1⟩), if_neg ht']
    rfl

theorem header_entryAt : (entryAt D f pos size).header D = (D.data.toList.drop pos).take size := by
  rw [CatalogueEntry.header, offset_entryAt, headerSize_entryAt, header_bytes]

/-- `e` is the entry of a block the image `D`, read as `f`, holds whole: the
entry of a block whose header starts at its offset, with nothing cut off. -/
structure Whole (D : ByteArray) (f : Format) (e : CatalogueEntry) : Prop where
  listed : ∃ p c, D.data.toList[p]? = some c ∧ e = entryAt D f p (headerSize c f)
  truncated : e.truncated = false

section Listed

variable {c : UInt8} (hc : D.data.toList[pos]? = some c)
  (h : (entryAt D f pos (headerSize c f)).truncated = false)

include h in
theorem timing_eq_blockTiming :
    (entryAt D f pos (headerSize c f)).timing = Generator.blockTiming f
      ((entryAt D f pos (headerSize c f)).header D) ((entryAt D f pos (headerSize c f)).payload D) := by
  have hw := fits_of_truncated h
  rw [timing_entryAt, header_entryAt, payload_entryAt hw]
  apply entryTiming_eq_blockTiming
  intro hl
  rw [← length_entryTiming (by omega)] at hl
  exact ⟨by omega, head?_payload hw hl⟩

include hc in
theorem id_entryAt_of : (entryAt D f pos (headerSize c f)).id = if f = .tzx then c else 0 := by
  rw [id_entryAt, header_bytes, Tape.headD_take hc (headerSize_pos c f)]

include hc in
/-- The event a reader records for the entry at `pos` is the one the block
there gives. -/
theorem action_entryAt :
    (entryAt D f pos (headerSize c f)).action =
      Tape.blockAction f c (Timing.decode ((D.data.toList.drop pos).take (headerSize c f)) f) := by
  rw [CatalogueEntry.action, Tape.blockAction, audible_entryAt, isAudible_entryTiming, id_entryAt_of hc]
  by_cases hz : f = .tzx
  · simp [hz]
  · simp [hz, BlockId.loopEnd]

include hc h in
/-- An entry of a whole image is a whole block for the generator. -/
theorem wholeBlock_entryAt : Generator.WholeBlock f ((entryAt D f pos (headerSize c f)).header D)
    ((entryAt D f pos (headerSize c f)).payload D) := by
  have hw := fits_of_truncated h
  refine ⟨?_, ?_, ?_⟩
  · -- the header is the byte that sizes it and the bytes after
    obtain ⟨n, hn⟩ : ∃ n, headerSize c f = n + 1 :=
      ⟨_, (Nat.succ_pred_eq_of_pos (headerSize_pos c f)).symm⟩
    refine ⟨c, (D.data.toList.drop (pos + 1)).take n, ?_, ?_⟩
    · rw [header_entryAt, Tape.drop_eq_cons hc, hn, List.take_succ_cons]
    · simp
      omega
  · rw [header_entryAt, payload_entryAt hw]
    unfold Generator.decodable
    split
    · next ht =>
      have hl : 0 < (entryTiming D f pos (headerSize c f)).length := by
        rw [length_entryTiming (by omega)]
        rw [← ht.1] at ht
        exact ht.2
      rw [head?_payload hw hl]
      rfl
    · rfl
  · rw [← timing_eq_blockTiming h, timing_entryAt, payload_entryAt hw]
    simp
    omega

include hc h in
/-- A reader between blocks, in step with the image, reads the block of a
whole entry that starts no loop, and ends none while a loop is open: it hands
out the header and data of an audible entry and passes over any other, and
is between blocks where the entry ends. -/
theorem passes_entryAt {t : Tape} (hA : t.At D pos 0) (hf : t.format = f)
    (hstart : (entryAt D f pos (headerSize c f)).id ≠ BlockId.loopStart)
    (hend : (entryAt D f pos (headerSize c f)).id = BlockId.loopEnd → t.loops = []) :
    ∃ t', Tape.Passes t (readOut D [entryAt D f pos (headerSize c f)])
      [(pos, (entryAt D f pos (headerSize c f)).action)] t' ∧ t'.loops = t.loops ∧
      t'.At D (entryStop D f pos (headerSize c f)) 0 := by
  have hw := fits_of_truncated h
  have hlen : (entryTiming D f pos (headerSize c f)).length =
      (Timing.decode ((D.data.toList.drop pos).take (headerSize c f)) f).length :=
    length_entryTiming (by omega)
  have hid := id_entryAt_of (f := f) hc
  subst hf
  obtain ⟨t', hp, hl, hA'⟩ := hA.block hc (fun h' => hstart (by rw [hid, if_pos h'.1, h'.2]))
    (fun h' => hend (by rw [hid, if_pos h'.1, h'.2])) rfl rfl rfl (by rw [← hlen]; exact hw)
  rw [← hlen, ← entryStop_eq hw] at hA'
  refine ⟨t', ?_, hl, hA'⟩
  have hbytes : readOut D [entryAt D t.format pos (headerSize c t.format)] =
      if (Timing.decode ((D.data.toList.drop pos).take (headerSize c t.format)) t.format).isAudible then
        (D.data.toList.drop pos).take (headerSize c t.format) ++
          (D.data.toList.drop (pos + headerSize c t.format)).take
            (Timing.decode ((D.data.toList.drop pos).take (headerSize c t.format)) t.format).length
      else [] := by
    rw [← hlen, ← isAudible_entryTiming]
    by_cases ha : (entryTiming D t.format pos (headerSize c t.format)).isAudible = true
    · simp [readOut, ha, header_entryAt, payload_entryAt hw]
    · simp [readOut, ha]
  rw [hbytes, action_entryAt hc]
  exact hp

end Listed

/-! ## Listings -/

/-- Every entry of a listing is the entry of a block whose header starts at
its offset. -/
theorem mem_entriesFrom {e : CatalogueEntry} (he : e ∈ (entriesFrom D f pos).1) :
    ∃ p c, D.data.toList[p]? = some c ∧ e = entryAt D f p (headerSize c f) := by
  fun_induction entriesFrom D f pos with
  | case1 => simp at he
  | case2 p hp _ _ rest cut heq ih =>
    rw [heq] at ih
    rcases List.mem_cons.1 he with rfl | he
    · exact ⟨p, _, getElem?_getElem hp, rfl⟩
    · exact ih he
  | case3 => simp at he

/-- Reading an image from a block on hands out, in file order, the header
and data of every audible entry the listing from there has, and then
reading is over: so long as no header is cut short, no entry is truncated,
and no entry starts a loop. -/
theorem reads_entriesFrom {t : Tape} (hA : t.At D pos 0) (hf : t.format = f) (hl : t.loops = [])
    (hcut : (entriesFrom D f pos).2 = false)
    (htr : ∀ e ∈ (entriesFrom D f pos).1, e.truncated = false)
    (hloop : ∀ e ∈ (entriesFrom D f pos).1, e.id ≠ BlockId.loopStart) :
    ∃ t', Tape.Reads t (readOut D (entriesFrom D f pos).1) t' ∧ t'.atEnd := by
  fun_induction entriesFrom D f pos generalizing t with
  | case1 => simp at hcut
  | case2 p hp size _ rest cut heq =>
    rename_i ih
    rw [heq] at ih
    simp only [List.mem_cons, forall_eq_or_imp] at htr hloop
    obtain ⟨t₁, hp₁, hl₁, hA₁⟩ := passes_entryAt (getElem?_getElem hp) htr.1 hA hf hloop.1 (fun _ => hl)
    obtain ⟨t₂, hr₂, he₂⟩ := ih hA₁ (hp₁.alike.format.trans hf) (hl₁.trans hl) hcut htr.2 hloop.2
    exact ⟨t₂, readOut_cons D _ rest ▸ hp₁.reads.trans hr₂, he₂⟩
  | case3 p hp =>
    refine ⟨_, ?_, Tape.atEnd_round_end hA⟩
    simpa using Tape.Reads.of_round (Tape.round_end hA (by omega)) (Tape.Reads.refl _)

end Catalogue

/-! ## Opening an image on a shelf -/

theorem find?_of_lookup {tapes : List (String × ByteArray)} {path : String} {D : ByteArray}
    (h : tapes.lookup path = some D) : tapes.find? (·.1 = path) = some (path, D) := by
  induction tapes with
  | nil => simp at h
  | cons tape tapes ih =>
    obtain ⟨name, bytes⟩ := tape
    by_cases hn : path = name
    · subst hn
      simp_all [List.lookup]
    · have hn' : (path == name) = false := by simpa using hn
      simp only [List.lookup, hn'] at h
      simp [Ne.symm hn, ih h]

/-- The preamble is found in the first ten bytes. -/
theorem isTzx_take (l : List UInt8) : isTzx (l.take tzxPreambleSize) = isTzx l := by
  have hsig : tzxSignature.length ≤ tzxPreambleSize := by decide
  have hlen : decide (tzxPreambleSize ≤ (l.take tzxPreambleSize).length) =
      decide (tzxPreambleSize ≤ l.length) := by
    simp
  have hpre : tzxSignature.isPrefixOf (l.take tzxPreambleSize) = tzxSignature.isPrefixOf l := by
    rw [Bool.eq_iff_iff, List.isPrefixOf_iff_prefix, List.isPrefixOf_iff_prefix, List.prefix_take_iff]
    exact ⟨fun h => h.1, fun h => ⟨h, hsig⟩⟩
  rw [isTzx, isTzx, hlen, hpre]

/-- A loader made from a name stands for that name and holds no bytes yet. -/
theorem Loader.ofName_ok {path : String} {l : Loader} (hl : Loader.ofName path = .ok l) :
    l.filename = path ∧ l.data = ByteArray.empty := by
  unfold Loader.ofName at hl
  dsimp only at hl
  split at hl
  · cases hl
    exact ⟨rfl, rfl⟩
  · split at hl
    · cases hl
      exact ⟨rfl, rfl⟩
    · cases hl

/-- A shelf on a file store opens a local file with a tape's name to a source
over the file's bytes, at the start, and logs nothing. -/
theorem Shelf.openTape_disk {sh : Shelf} {files : FileStore} {path : String} {l : Loader}
    {D : ByteArray} (hrack : sh.rack = .disk files) (hl : Loader.ofName path = .ok l)
    (hscheme : Location.scheme path = "") (hfile : files.find? path = some (.file D)) (log : Log) :
    sh.openTape path log = ({ sh with opened := sh.opened + 1 }, log, .ok (Source.ofBytes path .file D)) := by
  obtain ⟨hname, hdata⟩ := Loader.ofName_ok hl
  have hload : ({ l with permission := sh.permission } : Loader).hasLoaded = false := by
    simp [Loader.hasLoaded, hdata, ByteArray.size]
  have hremote : ({ l with permission := sh.permission } : Loader).isRemote = false := by
    simp [Loader.isRemote, Loader.scheme, hname, hscheme]
  have hopen : files.openable path = .ok false := by simp [FileStore.openable, hfile]
  have hread : files.read path = .ok D := by simp [FileStore.read, hfile]
  simp only [Shelf.openTape, hrack, hl, Loader.openSource, hload, hremote, Bool.or_false,
    Bool.false_eq_true, if_false]
  simp [Loader.scheme, hname, hscheme, hopen, hread]

theorem Shelf.close_fst (sh : Shelf) (src : Source) :
    (sh.close src).1 = { sh with closed := sh.closed + 1 } := by
  unfold Shelf.close
  dsimp only
  split <;> rfl

/-- A shelf serves an image under a name when it opens the name, whatever it
has closed before and whatever the log, to a source over the image at its
start with its size told right, and its seeks do not fail. -/
structure Shelf.Serves (sh : Shelf) (path : String) (D : ByteArray) : Prop where
  opens : ∀ (n : Nat) (log : Log), ∃ sh' src, { sh with closed := n }.openTape path log = (sh', log, .ok src) ∧
    src.bytes = D ∧ src.pos = 0 ∧ src.size = (D.size : Int) ∧ sh'.faults = sh.faults
  seeks : sh.faults.seekLimit = none

/-- A shelf in memory serves an image it holds, when it tells sizes right and
its seeks do not fail. -/
theorem Shelf.serves_memory {sh : Shelf} {tapes : List (String × ByteArray)} {path : String}
    {D : ByteArray} (hrack : sh.rack = .memory tapes) (hD : tapes.lookup path = some D)
    (hdelta : sh.faults.sizeDelta = 0) (hseek : sh.faults.seekLimit = none) : sh.Serves path D := by
  refine ⟨fun n log => ⟨{ sh with closed := n, opened := sh.opened + 1 }, Source.ofBytes path .memory D,
    ?_, rfl, rfl, rfl, rfl⟩, hseek⟩
  simp [Shelf.openTape, hrack, find?_of_lookup hD, hdelta, Source.ofBytes]

/-- A shelf on a file store serves a local file under a tape's name, when its
seeks do not fail. -/
theorem Shelf.serves_disk {sh : Shelf} {files : FileStore} {path : String} {l : Loader} {D : ByteArray}
    (hrack : sh.rack = .disk files) (hl : Loader.ofName path = .ok l) (hscheme : Location.scheme path = "")
    (hfile : files.find? path = some (.file D)) (hseek : sh.faults.seekLimit = none) : sh.Serves path D :=
  ⟨fun n log => ⟨_, _, @Shelf.openTape_disk { sh with closed := n } files path l D hrack hl hscheme hfile log,
    rfl, rfl, rfl, rfl⟩, hseek⟩

namespace Tape

variable {t : Tape}

/-- Closing the file counts the close and leaves the rest of the shelf. -/
theorem close_shelf : ∃ n, t.close.shelf = { t.shelf with closed := n } := by
  unfold close
  split
  · exact ⟨_, rfl⟩
  · dsimp only
    split
    · rw [note_eq]
      exact ⟨_, Shelf.close_fst _ _⟩
    · exact ⟨_, Shelf.close_fst _ _⟩

theorem close_keeps : t.close.observer = t.observer ∧ t.close.trail = t.trail := by
  unfold close
  split
  · exact ⟨rfl, rfl⟩
  · dsimp only
    split
    · simp
      rfl
    · exact ⟨rfl, rfl⟩

/-- A tape whose shelf opens a source over an image at its start, with its
size told right, and whose seeks do not fail, reads the image from its first
block: after the preamble of a TZX image, from the start of a TAP image. -/
theorem openTape_of_shelf {path : String} {D : ByteArray} {sh : Shelf} {src : Source}
    (hopen : t.cleared.close.shelf.openTape path t.cleared.close.log = (sh, t.cleared.close.log, .ok src))
    (hb : src.bytes = D) (hp : src.pos = 0) (hs : src.size = D.size) (hf : sh.faults = t.shelf.faults)
    (hseek : t.shelf.faults.seekLimit = none) :
    (t.cleared.openTape path).2 = true ∧
      (t.cleared.openTape path).1.At D (if isTzx D.toList then tzxPreambleSize else 0) 0 ∧
      (t.cleared.openTape path).1.format = (if isTzx D.toList then .tzx else .tap) ∧
      (t.cleared.openTape path).1.loops = [] ∧ (t.cleared.openTape path).1.observer = t.observer ∧
      (t.cleared.openTape path).1.loopDepth = t.loopDepth ∧ (t.cleared.openTape path).1.trail = t.trail := by
  obtain ⟨hl, hfin, hdepth, hh, hd⟩ := close_frame t.cleared
  obtain ⟨hobs, htrail⟩ := close_keeps (t := t.cleared)
  have hT : ({ t.cleared.close with
      shelf := sh, source := some src, size := src.size, pos := 0, format := .tap } : Tape).At D 0 0 :=
    ⟨⟨src, rfl, hb, hp⟩, rfl, hs, hfin, hh, hd, by rw [hf]; exact hseek⟩
  have hframe : t.cleared.close.loops = [] ∧ t.cleared.close.observer = t.observer ∧
      t.cleared.close.loopDepth = t.loopDepth ∧ t.cleared.close.trail = t.trail :=
    ⟨hl, hobs, hdepth, htrail⟩
  unfold openTape
  dsimp only
  rw [hopen]
  dsimp only
  rw [byteArray_toList]
  by_cases h10 : (tzxPreambleSize : Int) ≤ src.size
  · -- long enough for a preamble: the first ten bytes are read and looked at
    have hlen : (D.data.toList.take tzxPreambleSize).length = tzxPreambleSize := by
      rw [hs] at h10
      simp
      omega
    rw [if_pos h10, hT.readBytes]
    simp only [List.drop_zero, hlen, isTzx_take, Nat.zero_add]
    by_cases hz : isTzx D.data.toList = true
    · simp only [hz, if_true]
      have hX := hT.moved tzxPreambleSize
      refine ⟨trivial, At.note ?_ _, rfl, ?_⟩
      · exact ⟨hX.source, rfl, hX.size, hX.finished, hX.headerPending, hX.dataPending, hX.seeks⟩
      · simpa [Tape.trail] using hframe
    · simp only [hz, Bool.false_eq_true, if_false]
      rw [(hT.moved _).seekTo 0]
      dsimp only
      refine ⟨rfl, ((hT.moved _).seeked 0).note _, rfl, ?_⟩
      simpa [Tape.trail] using hframe
  · -- too short for a preamble: a TAP image read from the start
    have hz : isTzx D.data.toList = false := by
      rw [hs] at h10
      simp [isTzx]
      omega
    rw [if_neg h10]
    simp only [hz, Bool.false_eq_true, if_false]
    refine ⟨trivial, hT.note _, rfl, ?_⟩
    simpa [Tape.trail] using hframe

/-- A tape whose shelf serves an image under its name reads the image from
its first block when it opens the name. -/
theorem openTape_of_serves {path : String} {D : ByteArray} (h : t.shelf.Serves path D) :
    (t.cleared.openTape path).2 = true ∧
      (t.cleared.openTape path).1.At D (if isTzx D.toList then tzxPreambleSize else 0) 0 ∧
      (t.cleared.openTape path).1.format = (if isTzx D.toList then .tzx else .tap) ∧
      (t.cleared.openTape path).1.loops = [] ∧ (t.cleared.openTape path).1.observer = t.observer ∧
      (t.cleared.openTape path).1.loopDepth = t.loopDepth ∧ (t.cleared.openTape path).1.trail = t.trail := by
  obtain ⟨n, hsh⟩ := close_shelf (t := t.cleared)
  obtain ⟨sh, src, hopen, hb, hp, hs, hf⟩ := h.opens n t.cleared.close.log
  have hopen' : t.cleared.close.shelf.openTape path t.cleared.close.log =
      (sh, t.cleared.close.log, .ok src) := by
    rw [hsh]
    exact hopen
  exact openTape_of_shelf hopen' hb hp hs hf h.seeks

/-- A tape that opens an image on a shelf in memory, with its size told right
and seeks that do not fail, reads the image from its first block. -/
theorem openTape_memory {tapes : List (String × ByteArray)} {path : String} {D : ByteArray}
    (hrack : t.shelf.rack = .memory tapes) (hD : tapes.lookup path = some D)
    (hdelta : t.shelf.faults.sizeDelta = 0) (hseek : t.shelf.faults.seekLimit = none) :
    (t.cleared.openTape path).2 = true ∧
      (t.cleared.openTape path).1.At D (if isTzx D.toList then tzxPreambleSize else 0) 0 ∧
      (t.cleared.openTape path).1.format = (if isTzx D.toList then .tzx else .tap) ∧
      (t.cleared.openTape path).1.loops = [] ∧ (t.cleared.openTape path).1.observer = t.observer ∧
      (t.cleared.openTape path).1.loopDepth = t.loopDepth ∧ (t.cleared.openTape path).1.trail = t.trail :=
  openTape_of_serves (Shelf.serves_memory hrack hD hdelta hseek)

end Tape

/-! ## Ticks -/

namespace Timing

variable (t : Timing)

theorem ticks_bitPulses (b : UInt8) (bits : Nat) :
    ((t.bitPulses b bits).map (·.width.toNat)).sum = Catalogue.byteTicks t b bits := by
  unfold bitPulses Catalogue.byteTicks
  rw [← List.sum_eq_foldr]
  induction bits with
  | zero => rfl
  | succ n ih =>
    rw [List.range_succ, List.flatMap_append, List.map_append, List.sum_append, ih, List.map_append,
      List.sum_append]
    simp only [List.flatMap_cons, List.flatMap_nil, List.map_cons, List.map_nil, List.sum_cons,
      List.sum_nil, List.append_nil]
    split <;> omega

/-- The audio pulses of bytes counted from the `k`th: every byte gives its
eight bits but the last of the block, which gives the bits in use. -/
theorem ticks_audioPulses : ∀ (bs : List UInt8) (k : Nat),
    ((t.audioPulses bs).map (·.width.toNat)).sum = ((bs.zipIdx k).map fun (b, i) =>
      Catalogue.byteTicks t b (if i + 1 = k + bs.length ∧ 0 < t.lastBit then 8 - t.lastBit / 2 else 8)).sum
  | [], _ => rfl
  | [b], k => by simp [audioPulses, ticks_bitPulses]
  | b :: b' :: bs, k => by
    have hlast : ¬(k + 1 = k + (b :: b' :: bs).length ∧ 0 < t.lastBit) := by simp
    have hlen : k + 1 + (b' :: bs).length = k + (b :: b' :: bs).length := by simp; omega
    have hzip : (b :: b' :: bs).zipIdx k = (b, k) :: (b' :: bs).zipIdx (k + 1) := rfl
    rw [audioPulses, List.map_append, List.sum_append, ticks_bitPulses, ticks_audioPulses (b' :: bs) (k + 1),
      hzip, List.map_cons, List.sum_cons, hlen]
    · simp only [if_neg hlast]
    · exact List.cons_ne_nil b' bs

theorem ticks_sequencePulses : ∀ bs : List UInt8,
    ((sequencePulses bs).map (·.width.toNat)).sum = Catalogue.sequenceTicks bs
  | lo :: hi :: rest => by
    simp [sequencePulses, Catalogue.sequenceTicks, ticks_sequencePulses rest]
  | [] => rfl
  | [_] => rfl

/-- The widths of a block's train add up to the ticks the catalogue counts
for it. -/
theorem ticks_train (payload : List UInt8) :
    ((t.train payload).map (·.width.toNat)).sum = Catalogue.blockTicks t payload := by
  have hsync (c : Prop) [Decidable c] (w : UInt32) :
      ((if c then [(⟨w, true⟩ : Pulse)] else []).map (·.width.toNat)).sum = if c then w.toNat else 0 := by
    split_ifs <;> rfl
  have haudio := t.ticks_audioPulses payload 0
  simp only [Nat.zero_add] at haudio
  unfold train Catalogue.blockTicks dataPulses
  simp only [← List.sum_eq_foldr, List.map_append, List.sum_append, List.map_replicate, List.sum_replicate, smul_eq_mul,
    hsync (2 ≤ t.syncPhase), hsync (1 ≤ t.syncPhase)]
  cases t.category with
  | audio => simp [haudio]
  | sequence => simp [ticks_sequencePulses]
  | metadata => simp

end Timing

namespace Catalogue

variable {D : ByteArray} {f : Format} {pos : Nat} {e : CatalogueEntry}

/-! ## Whole catalogues -/

/-- The catalogue of an image lists the blocks from the first on: after the
preamble of a TZX image, from the start of a TAP image. -/
theorem ofBytes_eq {c : Catalogue} (hc : ofBytes D = .ok c) :
    c.format = (if isTzx D.toList then .tzx else .tap) ∧
      c.entries = (entriesFrom D c.format (if isTzx D.toList then tzxPreambleSize else 0)).1 ∧
      c.truncated = ((entriesFrom D c.format (if isTzx D.toList then tzxPreambleSize else 0)).2 ||
        c.entries.any (·.truncated)) := by
  unfold ofBytes at hc
  split at hc
  · cases hc
  · by_cases hz : isTzx D.toList = true
    · simp only [hz, Except.ok.injEq] at hc
      subst hc
      simp [hz]
    · simp only [hz, Bool.false_eq_true, Except.ok.injEq] at hc
      subst hc
      simp [hz]

theorem whole_of_mem (he : e ∈ (entriesFrom D f pos).1) (htr : e.truncated = false) : Whole D f e :=
  ⟨mem_entriesFrom he, htr⟩

section Entries

variable (he : Whole D f e)
include he

theorem Whole.timing : e.timing = Generator.blockTiming f (e.header D) (e.payload D) := by
  obtain ⟨⟨p, c, -, rfl⟩, htr⟩ := he
  exact timing_eq_blockTiming htr

theorem Whole.wholeBlock : Generator.WholeBlock f (e.header D) (e.payload D) := by
  obtain ⟨⟨p, c, hc, rfl⟩, htr⟩ := he
  exact wholeBlock_entryAt hc htr

/-- An entry's ticks are the widths of its train when it sounds, and none
when it does not. -/
theorem Whole.ticks :
    e.ticks = if e.audible then ((e.timing.train (e.payload D)).map (·.width.toNat)).sum else 0 := by
  obtain ⟨⟨p, c, -, rfl⟩, htr⟩ := he
  have hw := fits_of_truncated htr
  rw [ticks_entryAt, audible_entryAt, timing_entryAt, Timing.ticks_train, payload_entryAt hw,
    payload_bytes hw]

end Entries

theorem sum_ticks {l : List CatalogueEntry}
    (h : ∀ e ∈ l, e.ticks = if e.audible then ((e.timing.train (e.payload D)).map (·.width.toNat)).sum
      else 0) :
    (l.map (·.ticks)).sum = ((trains D l).map (·.width.toNat)).sum := by
  induction l with
  | nil => rfl
  | cons e l ih =>
    rw [List.forall_mem_cons] at h
    rw [List.map_cons, List.sum_cons, h.1, ih h.2]
    by_cases ha : e.audible = true <;> simp [trains, ha]

/-- The generator plays the audible ones of whole entries, read one after
the other, to their trains. -/
theorem playAll_entries {l : List CatalogueEntry} (hl : ∀ e ∈ l, Whole D f e) :
    (Generator.start f).playAll (readOut D l) = trains D l := by
  have hplay := Generator.playAll_blocks f ((l.filter (·.audible)).map fun e => (e.header D, e.payload D))
    (Generator.start f) rfl rfl rfl (by
      intro b hb
      obtain ⟨e, he, rfl⟩ := List.mem_map.1 hb
      exact (hl e (List.mem_filter.1 he).1).wholeBlock)
  simp only [List.flatMap_map] at hplay
  rw [readOut, hplay, trains]
  apply List.flatMap_congr
  intro e he
  rw [(hl e (List.mem_filter.1 he).1).timing]

/-- The entries of an image's catalogue that is not truncated are whole. -/
theorem whole_entries {c : Catalogue} (hc : ofBytes D = .ok c) (htr : c.truncated = false) :
    ∀ e ∈ c.entries, Whole D c.format e := by
  obtain ⟨-, hent, hctr⟩ := ofBytes_eq hc
  rw [hctr, Bool.or_eq_false_iff] at htr
  have htr' : ∀ e ∈ c.entries, e.truncated = false := by simpa using htr.2
  exact fun e he => whole_of_mem (hent ▸ he) (htr' e he)

/-- The widths of the pulses a catalogue that is not truncated lists add up
to its ticks. -/
theorem sum_pulses {c : Catalogue} (hc : ofBytes D = .ok c) (htr : c.truncated = false) :
    ((c.pulses D).map (·.width.toNat)).sum = c.ticks := by
  have hwhole := whole_entries hc htr
  show ((trains D c.entries).map _).sum = _
  rw [← sum_ticks (fun e he => (hwhole e he).ticks)]
  rfl

/-- A check of an image's catalogue that evaluates to `true` gives the
catalogue, and the check holds of it. -/
theorem ok_of_check {p : Catalogue → Bool} (h : (ofBytes D).toOption.map p = some true) :
    ∃ c, ofBytes D = .ok c ∧ p c = true := by
  cases hc : ofBytes D with
  | error e =>
    rw [hc] at h
    cases h
  | ok c =>
    rw [hc] at h
    exact ⟨c, rfl, Option.some.inj h⟩

end Catalogue

namespace Session

/-- A run from a start that opens an image, reading it from its first block,
hands the sink the pulses of the image's catalogue once it has stopped, when
the catalogue is whole and has no loop start. -/
theorem run_pushes_catalogue {s : Session} {D : ByteArray} {c : Catalogue} {n : Nat}
    (hst : s.started = true) (hrp : s.restartPending = true) (hroomy : 2 ≤ s.ring.capacity)
    (hdepth : 0 < s.sink.depth) (hempty : s.sink.toList = [])
    (hopen : (s.toTape.cleared.openTape s.path).2 = true ∧
      (s.toTape.cleared.openTape s.path).1.At D (if isTzx D.toList then tzxPreambleSize else 0) 0 ∧
      (s.toTape.cleared.openTape s.path).1.format = (if isTzx D.toList then .tzx else .tap) ∧
      (s.toTape.cleared.openTape s.path).1.loops = [])
    (hc : Catalogue.ofBytes D = .ok c) (htr : c.truncated = false)
    (hloop : ∀ e ∈ c.entries, e.id ≠ BlockId.loopStart) (hstop : (s.run n).session.started = false) :
    (s.run n).pushed = c.pulses D := by
  obtain ⟨hok, hA, hfmt, hl⟩ := hopen
  have hwhole := Catalogue.whole_entries hc htr
  obtain ⟨hcf, hent, hctr⟩ := Catalogue.ofBytes_eq hc
  rw [hctr, Bool.or_eq_false_iff] at htr
  have htr' : ∀ e ∈ c.entries, e.truncated = false := by simpa using htr.2
  rw [hent] at htr' hloop
  obtain ⟨t_end, hr, he⟩ := Catalogue.reads_entriesFrom hA (hfmt.trans hcf.symm) hl htr.1 htr' hloop
  rcases run_of_restart hst hrp hroomy hdepth hempty hstop with ⟨hno, -⟩ | ⟨-, hrun⟩
  · exact absurd (hno.symm.trans hok) Bool.false_ne_true
  · obtain ⟨hpush, -⟩ := hrun _ t_end hr he
    replace hpush := hpush.trans (congrArg (fun g => Generator.playAll g _)
      (congrArg Generator.start (hfmt.trans hcf.symm)))
    rw [← hent, Catalogue.playAll_entries hwhole] at hpush
    exact hpush

/-- A session reads an image from a shelf in memory that tells its size
right and whose seeks do not fail, and plays it until it stops, which it
does.  When the catalogue of the image is whole and has no loop start, the
session hands its sink the train of every audible entry of the catalogue, in
file order, and nothing else; so the widths it hands over add up to the
catalogue's ticks.  This holds whatever the configuration, the depth of the
sink and the log. -/
theorem start_run_plays_catalogue (cfg : Config) (shelf : Shelf) (depth : Int) (log : Log)
    (path : String) (tapes : List (String × ByteArray)) (D : ByteArray) (c : Catalogue)
    (hpath : path ≠ "") (hrack : shelf.rack = .memory tapes) (hD : tapes.lookup path = some D)
    (hdelta : shelf.faults.sizeDelta = 0) (hseek : shelf.faults.seekLimit = none)
    (hc : Catalogue.ofBytes D = .ok c) (htr : c.truncated = false)
    (hloop : ∀ e ∈ c.entries, e.id ≠ BlockId.loopStart) :
    (∃ n, ((((create cfg shelf (PulseQueue.ofDepth depth) log).select path).start).run n).session.started =
      false) ∧
    ∀ n, ((((create cfg shelf (PulseQueue.ofDepth depth) log).select path).start).run n).session.started =
        false →
      ((((create cfg shelf (PulseQueue.ofDepth depth) log).select path).start).run n).pushed = c.pulses D ∧
        (((((create cfg shelf (PulseQueue.ofDepth depth) log).select path).start).run n).pushed.map
          (·.width.toNat)).sum = c.ticks := by
  have hpath' : ((create cfg shelf (PulseQueue.ofDepth depth) log).select path).path ≠ "" := hpath
  have hroomy := capacity_create cfg shelf (PulseQueue.ofDepth depth) log
  rw [start_of_stopped rfl, if_neg hpath']
  refine ⟨run_stops_of_restart rfl rfl (by simpa [reset, select] using hroomy)
    (PulseQueue.depth_ofDepth depth) (PulseQueue.toList_ofDepth depth), fun n hstop => ?_⟩
  obtain ⟨hok, hA, hfmt, hl, -⟩ := Tape.openTape_memory
    (t := ((create cfg shelf (PulseQueue.ofDepth depth) log).select path).reset.toTape) hrack hD hdelta hseek
  have hpush := run_pushes_catalogue
    (s := { ((create cfg shelf (PulseQueue.ofDepth depth) log).select path).reset with
      restartPending := true, started := true })
    rfl rfl (by simpa [reset, select] using hroomy)
    (PulseQueue.depth_ofDepth depth) (PulseQueue.toList_ofDepth depth) ⟨hok, hA, hfmt, hl⟩ hc htr hloop hstop
  exact ⟨hpush, hpush ▸ Catalogue.sum_pulses hc htr⟩

theorem twoPulseTone_plays_catalogue : ∃ c, Catalogue.ofBytes twoPulseTone = .ok c ∧
    c.truncated = false ∧ (∀ e ∈ c.entries, e.id ≠ BlockId.loopStart) ∧
    (∃ n, ((((create {} { rack := .memory [("a.tzx", twoPulseTone)] } (PulseQueue.ofDepth 1)
      (Log.ofCapacity 8)).select "a.tzx").start).run n).session.started = false) ∧
    ∀ n, ((((create {} { rack := .memory [("a.tzx", twoPulseTone)] } (PulseQueue.ofDepth 1)
        (Log.ofCapacity 8)).select "a.tzx").start).run n).session.started = false →
      ((((create {} { rack := .memory [("a.tzx", twoPulseTone)] } (PulseQueue.ofDepth 1)
        (Log.ofCapacity 8)).select "a.tzx").start).run n).pushed = c.pulses twoPulseTone ∧
      (((((create {} { rack := .memory [("a.tzx", twoPulseTone)] } (PulseQueue.ofDepth 1)
        (Log.ofCapacity 8)).select "a.tzx").start).run n).pushed.map (·.width.toNat)).sum = c.ticks := by
  have hok : ((Catalogue.ofBytes twoPulseTone).toOption.map fun c =>
      !c.truncated && c.entries.all fun e => e.id != BlockId.loopStart) = some true := by
    decide +kernel
  cases hc : Catalogue.ofBytes twoPulseTone with
  | error e =>
    rw [hc] at hok
    cases hok
  | ok c =>
    rw [hc, show (Except.ok c : Except Message.Value Catalogue).toOption = some c from rfl] at hok
    simp only [Option.map_some, Option.some.injEq, Bool.and_eq_true, Bool.not_eq_true',
      List.all_eq_true, bne_iff_ne, ne_eq] at hok
    obtain ⟨htr, hloop⟩ := hok
    exact ⟨c, rfl, htr, hloop, start_run_plays_catalogue {} { rack := .memory [("a.tzx", twoPulseTone)] }
      1 (Log.ofCapacity 8) "a.tzx" [("a.tzx", twoPulseTone)] twoPulseTone c (by decide) rfl
      (by simp [List.lookup]) rfl rfl hc htr hloop⟩

end Session

end TapeDeck
