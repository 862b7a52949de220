import TapeDeck.Proofs.Calls

/-!
# A session reports every block its catalogue lists

A session tells its observer what it does with every block it reads, and the
catalogue lists every block of the image.  On an image with no loop start the
two agree, truncated or not: the session reports one event per entry of the
catalogue, in order, at the entry's offset and with its ID, queued exactly
when the entry sounds.

*IDs.*  Every event a round adds is at the position the round starts from,
in the tape's format, and names the first byte the round reads as its ID
(`Tape.adds_round`).  So a tape that reads an image in step with it only ever
records events that name the image's byte at their offset (`Tape.Stamped`,
kept along every run by `Tape.Reads.stamped`), as the catalogue does for its
entries.

*Truncation.*  The catalogue stops at a header that does not fit, and ends
with an entry whose data runs past the end of the image.  The session stops
at the same places: it reads a short header and finishes without an event
(`Tape.round_cut`); it queues a block whose data runs short, hands out the
bytes there are and finishes (`Tape.At.queuedCut`); and it passes over a
silent block by a seek past the end (`Tape.At.passOver`), where reading is
over.  With the whole blocks of `Catalogue.passes_entryAt` this gives the
walk over a listing (`Catalogue.passes_entriesFrom`), and with the IDs the
session's events (`Session.start_run_reports_catalogue`).
-/

namespace TapeDeck

/-- The ID an event names for a block at `o` of an image read as `f`: its
first byte for TZX, none for TAP. -/
def Catalogue.idAt (D : ByteArray) (f : Format) (o : Nat) : BlockId :=
  if f = .tzx then D.data.toList.getD o 0 else 0

namespace Tape

variable {t : Tape}

/-! ## The events a round adds -/

/-- The ID an event names for the header in hand: its first byte for TZX,
none for TAP. -/
def blockId (t : Tape) : BlockId := if t.format = .tzx then t.header.headD 0 else 0

/-- An event of a block at `o`, in the format `f`, naming the ID `id`. -/
def Names (o : Nat) (f : Format) (id : BlockId) (e : Event) : Prop :=
  e.offset = o ∧ e.format = f ∧ e.id = id

/-- `t'` has the events of `t` and after them events `P` holds of. -/
def Adds (P : Event → Prop) (t t' : Tape) : Prop :=
  ∃ new, t'.events.toList = t.events.toList ++ new ∧ ∀ e ∈ new, P e

section Adds

variable {P : Event → Prop} {t₁ t₂ : Tape}

theorem Adds.of_events (h : t₁.events = t.events) : Adds P t t₁ :=
  ⟨[], by simp [h], by simp⟩

theorem Adds.trans (h₁ : Adds P t t₁) (h₂ : Adds P t₁ t₂) : Adds P t t₂ := by
  obtain ⟨n₁, he₁, hn₁⟩ := h₁
  obtain ⟨n₂, he₂, hn₂⟩ := h₂
  refine ⟨n₁ ++ n₂, by rw [he₂, he₁, List.append_assoc], fun e he => ?_⟩
  rcases List.mem_append.1 he with he | he
  · exact hn₁ e he
  · exact hn₂ e he

end Adds

theorem adds_observe (o : Nat) (tm : Timing) (a : Action) :
    Adds (Names o t.format t.blockId) t (t.observe o tm a) := by
  cases hob : t.observer with
  | none => exact Adds.of_events (by simp [observe, hob])
  | record =>
    refine ⟨[{ offset := o, id := t.blockId, format := t.format, timing := tm, action := a }], ?_, ?_⟩
    · simp [observe, hob, blockId]
    · simp [Names]
  | printQueued => exact Adds.of_events (by by_cases ha : a = .queued <;> simp [observe, hob, ha])

/-- A seek keeps the events, the format and the header. -/
theorem seekTo_keeps (o : Nat) :
    (t.seekTo o).1.events = t.events ∧ (t.seekTo o).1.format = t.format ∧ (t.seekTo o).1.header = t.header := by
  rcases seekTo_eq t o with ⟨shelf, src, -, h⟩ | ⟨shelf, log, console, h⟩ <;> rw [h] <;> exact ⟨rfl, rfl, rfl⟩

/-- A seek adds nothing, whether it works or finishes the tape. -/
theorem Adds.seekOrFinish {P : Event → Prop} {T : Tape} (h : Adds P t T) (q : Nat) :
    Adds P t (match T.seekTo q with
      | (T, true) => T
      | (T, false) => { T with finished := true }) := by
  have he := (seekTo_keeps (t := T) q).1
  revert he
  rcases T.seekTo q with ⟨T', _ | _⟩ <;> intro he <;> exact h.trans (Adds.of_events he)

/-- Every event a handled block adds is at its offset and names its ID. -/
theorem adds_handleBlock (o : Nat) (tm : Timing) :
    Adds (Names o t.format t.blockId) t (t.handleBlock o tm) := by
  have hobs : ∀ T : Tape, T.format = t.format → T.header = t.header → T.events = t.events → ∀ a,
      Adds (Names o t.format t.blockId) t (T.observe o tm a) := by
    intro T hf hh he a
    have h := adds_observe (t := T) o tm a
    rw [blockId, hf, hh, ← blockId] at h
    exact (Adds.of_events he).trans h
  unfold handleBlock
  dsimp only
  split
  · split
    · refine hobs _ ?_ ?_ ?_ _ <;> rfl
    · exact hobs _ (format_note _) (by rw [note_eq]) (events_note _) _
  · split
    · split
      · refine hobs _ ?_ ?_ ?_ _ <;> rfl
      · split
        · refine (hobs _ ?_ ?_ ?_ _).seekOrFinish _ <;> rfl
        · refine hobs _ ?_ ?_ ?_ _ <;> rfl
    · refine (hobs _ ?_ ?_ ?_ _).seekOrFinish _ <;> split
      · exact format_note _
      · rfl
      · rw [note_eq]
      · rfl
      · exact events_note _
      · rfl

theorem readBytes_keeps {n : Nat} {bs : List UInt8} {t' : Tape} (h : t.readBytes n = (bs, t')) :
    t'.events = t.events ∧ t'.format = t.format := by
  obtain ⟨source, rfl⟩ := readBytes_eq_mk h
  exact ⟨rfl, rfl⟩

/-- Every event a round adds is at the position it starts from, in the
tape's format, and names the first byte the round reads. -/
theorem adds_round (t : Tape) :
    Adds (Names t.pos t.format (if t.format = .tzx then (t.readBytes 1).1.headD 0 else 0)) t t.round.tape := by
  generalize hI : (if t.format = .tzx then (t.readBytes 1).1.headD 0 else 0) = I
  unfold round
  dsimp only
  split
  · exact Adds.of_events rfl
  · split
    · split
      · next b t₁ hr => exact Adds.of_events (readBytes_keeps hr).1
      · next bs t₁ _ hr => exact Adds.of_events (readBytes_keeps hr).1
    · split
      · exact Adds.of_events rfl
      · split
        · exact Adds.of_events rfl
        · split
          · next id t₁ hr₁ =>
            obtain ⟨he₁, hf₁⟩ := readBytes_keeps hr₁
            generalize hr₂ : t₁.readBytes (headerSize id t₁.format - 1) = r₂
            obtain ⟨rest, t₂⟩ := r₂
            obtain ⟨he₂, hf₂⟩ := readBytes_keeps hr₂
            have hid : I = ({ t₂ with header := id :: rest } : Tape).blockId := by
              simp [← hI, blockId, hr₁, hf₂, hf₁]
            have hfmt : t.format = ({ t₂ with header := id :: rest } : Tape).format := by
              simp [hf₂, hf₁]
            rw [hid, hfmt]
            have hev : ({ t₂ with header := id :: rest } : Tape).events = t.events := he₂.trans he₁
            dsimp only
            split
            · exact Adds.of_events (he₂.trans he₁)
            · split
              · exact (Adds.of_events hev).trans (adds_observe ..)
              · exact (Adds.of_events hev).trans (adds_handleBlock ..)
          · next bs t₁ _ hr => exact Adds.of_events (readBytes_keeps hr).1

/-! ## Events that name the image's bytes -/

/-- Every event the tape keeps names, as its ID, the byte of `D` at its
offset, as a listing of `D` read as `f` names its entries. -/
def Stamped (D : ByteArray) (f : Format) (t : Tape) : Prop :=
  ∀ e ∈ t.events.toList, e.id = Catalogue.idAt D f e.offset

variable {D : ByteArray} {f : Format}

theorem Adds.stamped {t' : Tape} {o : Nat} {f' : Format} {id : BlockId} (h : Adds (Names o f' id) t t')
    (hid : id = Catalogue.idAt D f o) (hst : Stamped D f t) : Stamped D f t' := by
  obtain ⟨new, he, hnew⟩ := h
  intro e hmem
  rw [he] at hmem
  rcases List.mem_append.1 hmem with hmem | hmem
  · exact hst e hmem
  · obtain ⟨ho, -, hi⟩ := hnew e hmem
    rw [hi, ho, hid]

theorem headD_take_one (l : List UInt8) (p : Nat) : ((l.drop p).take 1).headD 0 = l.getD p 0 := by
  cases h : l.drop p with
  | nil =>
    rw [List.drop_eq_nil_iff] at h
    simp [List.getD_eq_getElem?_getD, List.getElem?_eq_none h]
  | cons b rest =>
    have hb : l[p]? = some b := by rw [← List.head?_drop, h]; rfl
    simp [List.getD_eq_getElem?_getD, hb]

/-- A round of a tape in step with the image names, in every event it adds,
the image's byte at the event's offset. -/
theorem Stamped.round (hst : Stamped D f t) (hs : t.Synced) (hb : t.source.map (·.bytes) = some D)
    (hf : t.format = f) : Stamped D f t.round.tape := by
  obtain ⟨src, hsrc, rfl⟩ : ∃ src, t.source = some src ∧ src.bytes = D := by
    cases h : t.source with
    | none => rw [h] at hb; cases hb
    | some src => rw [h] at hb; exact ⟨src, rfl, Option.some.inj hb⟩
  refine (adds_round t).stamped ?_ hst
  rw [readBytes_of hsrc (hs src hsrc), headD_take_one, Catalogue.idAt, hf]

/-- Along a run of a sound tape over the image every event it adds names the
image's byte at its offset. -/
theorem Reads.stamped {t' : Tape} {l : List UInt8} (h : Reads t l t') (hs : t.Sound)
    (hb : t.source.map (·.bytes) = some D) (hf : t.format = f) (hst : Stamped D f t) :
    Stamped D f t' := by
  induction h with
  | refl => exact hst
  | round _ ih =>
    exact ih hs.round ((steady_round _).bytes.trans hb) ((steady_round _).format.trans hf)
      (hst.round hs.synced hb hf)

/-! ## Blocks cut short -/

variable {p k : Nat}

/-- One round that hands out nothing and records nothing. -/
theorem Passes.quiet {T : Tape} {m : Bool} (hr : t.round = ⟨T, none, m⟩) (ha : Alike t T)
    (he : T.events = t.events) : Passes t [] [] T :=
  Passes.round hr ha (by simp [Tape.trail, Tape.kept, he])

/-- A header that runs past the end of the image ends reading, with no event. -/
theorem round_cut (hA : t.At D p 0) {c : UInt8} (hc : D.data.toList[p]? = some c)
    (hcut : D.size < p + headerSize c t.format) :
    t.round = ⟨{ t.movedTo D.size with finished := true }, none, false⟩ := by
  have hp : p < D.size := by
    have := (List.getElem?_eq_some_iff.1 hc).1
    simpa using this
  have h1 : t.readBytes 1 = ([c], t.movedTo (p + 1)) := by
    rw [hA.readBytes, drop_eq_cons hc]
    simp
  have h2 : (t.movedTo (p + 1)).readBytes (headerSize c t.format - 1) =
      ((D.data.toList.drop (p + 1)).take (headerSize c t.format - 1), t.movedTo D.size) := by
    rw [(hA.moved (p + 1)).readBytes, movedTo_movedTo]
    congr 2
    simp
    omega
  have hlen : ((D.data.toList.drop (p + 1)).take (headerSize c t.format - 1)).length + 1 ≠
      headerSize c t.format := by
    simp
    omega
  have hle : ¬ t.size ≤ (p : Int) := by
    rw [hA.size]
    omega
  simp only [round, hA.headerPending, hA.dataPending, hA.finished, lt_irrefl, if_false, hle, h1,
    format_movedTo, h2, hlen, ne_eq, not_false_eq_true, if_true, hA.pos, Bool.false_eq_true]

/-- A data byte past the end of the image ends reading. -/
theorem round_starved (hA : t.At D p (k + 1)) (hp : D.size ≤ p) :
    t.round = ⟨{ t.movedTo p with finished := true, dataPending := 0 }, none, false⟩ := by
  have hread : t.readBytes 1 = ([], t.movedTo p) := by
    rw [hA.readBytes, List.drop_eq_nil_of_le (by simpa using hp)]
    simp
  simp [round, hA.headerPending, hA.dataPending, hread]

/-- Between blocks the tape queues a block that makes a sound but whose data
runs past the end of the image: it hands out the header and the data there
is, and then reading is over. -/
theorem At.queuedCut (hA : t.At D p 0) {c : UInt8} (hc : D.data.toList[p]? = some c) {size : Nat}
    {hdr : List UInt8} {tm : Timing} (hsize : headerSize c t.format = size)
    (hhdr : (D.data.toList.drop p).take size = hdr) (htm : Timing.decode hdr t.format = tm)
    (hfit : p + size ≤ D.size) (haud : tm.isAudible = true) (hcut : D.size < p + size + tm.length) :
    ∃ t', Passes t (hdr ++ (D.data.toList.drop (p + size)).take (D.size - (p + size)))
      [(p, .queued)] t' ∧ t'.atEnd := by
  obtain ⟨j, hj⟩ : ∃ j, tm.length = (D.size - (p + size)) + (j + 1) :=
    ⟨tm.length - (D.size - (p + size)) - 1, by omega⟩
  subst hsize hhdr htm
  have hround := round_header hA hc hfit
  simp only [haud, if_true] at hround
  obtain ⟨hpend, hA₁⟩ := (((hA.moved (p + headerSize c t.format)).header
    ((D.data.toList.drop p).take (headerSize c t.format))).queue
    ((D.data.toList.drop p).take (headerSize c t.format))
    (Timing.decode ((D.data.toList.drop p).take (headerSize c t.format)) t.format).length p
    (Timing.decode ((D.data.toList.drop p).take (headerSize c t.format)) t.format))
  have hdata := reads_data_upto (D.size - (p + headerSize c t.format)) _ _ (j + 1)
    (by rw [← hj]; exact hA₁) (by omega)
  rw [show p + headerSize c t.format + (D.size - (p + headerSize c t.format)) = D.size by omega]
    at hdata
  have hA₂ := (hA₁.moved D.size).pending (j + 1)
  have hr := Reads.of_round hround ((reads_headerPending _ _ hpend).trans
    (hdata.trans (Reads.of_round (round_starved hA₂ le_rfl) (Reads.refl _))))
  simp only [Option.toList_none, List.nil_append, List.append_nil] at hr
  exact ⟨_, ⟨hr, ⟨by simp, by simp, by simp⟩, by simp [Tape.trail, Tape.kept]⟩,
    ⟨rfl, hA₂.headerPending, rfl⟩⟩

/-- Closing the file keeps the events. -/
theorem events_close (t : Tape) : t.close.events = t.events := by
  unfold close
  split
  · rfl
  · dsimp only
    split
    · rw [events_note]
    · rfl

end Tape

/-! ## The walk over a listing -/

namespace Catalogue

variable {D : ByteArray} {f : Format} {pos : Nat} {c : UInt8}

/-- Every entry of a listing names the byte at its offset. -/
theorem id_eq_idAt {e : CatalogueEntry} (he : e ∈ (entriesFrom D f pos).1) :
    e.id = idAt D f e.offset := by
  obtain ⟨p, c, hc, rfl⟩ := mem_entriesFrom he
  rw [id_entryAt_of hc, offset_entryAt, idAt, List.getD_eq_getElem?_getD, hc]
  rfl

/-- Past the last byte a listing has no entry and is not cut. -/
theorem entriesFrom_of_le (h : D.size ≤ pos) : entriesFrom D f pos = ([], false) := by
  unfold entriesFrom
  rw [dif_neg (by omega)]

/-- An entry whose data runs past the end keeps the bytes there are. -/
theorem payload_entryAt_cut {size : Nat}
    (hcut : D.size < pos + size + (entryTiming D f pos size).length) :
    (entryAt D f pos size).payload D = (D.data.toList.drop (pos + size)).take (D.size - (pos + size)) := by
  have hstop : entryStop D f pos size = D.size := by
    unfold entryStop
    omega
  have hl : (entryAt D f pos size).length = D.size - (pos + size) := by
    rw [length_entryAt, hstop, extract_toList]
    simp
  rw [CatalogueEntry.payload, offset_entryAt, headerSize_entryAt, hl, extract_toList,
    Nat.add_sub_cancel_left]

/-- A reader between blocks, in step with the image, reads the block of an
entry cut short that starts no loop: it hands out the header and the data
there is of an audible entry, and passes over any other; either way reading
is over after it. -/
theorem passes_entryAt_cut {t : Tape} (hc : D.data.toList[pos]? = some c)
    (hfit : pos + headerSize c f ≤ D.size) (htr : (entryAt D f pos (headerSize c f)).truncated = true)
    (hA : t.At D pos 0) (hf : t.format = f) (hl : t.loops = [])
    (hstart : (entryAt D f pos (headerSize c f)).id ≠ BlockId.loopStart) :
    ∃ t', Tape.Passes t (readOut D [entryAt D f pos (headerSize c f)])
      [(pos, (entryAt D f pos (headerSize c f)).action)] t' ∧ t'.atEnd := by
  have hcut : D.size < pos + headerSize c f + (entryTiming D f pos (headerSize c f)).length := by
    simpa using htr
  have hlen := length_entryTiming (D := D) hfit
  have hid := id_entryAt_of (f := f) hc
  rw [action_entryAt hc]
  subst hf
  cases haud : (Timing.decode ((D.data.toList.drop pos).take (headerSize c t.format)) t.format).isAudible with
  | true =>
    obtain ⟨t', hp, he⟩ := hA.queuedCut hc rfl rfl rfl hfit haud (by rw [← hlen]; exact hcut)
    refine ⟨t', ?_, he⟩
    have hbytes : readOut D [entryAt D t.format pos (headerSize c t.format)] =
        (D.data.toList.drop pos).take (headerSize c t.format) ++
          (D.data.toList.drop (pos + headerSize c t.format)).take (D.size - (pos + headerSize c t.format)) := by
      simp [readOut, isAudible_entryTiming, haud, header_entryAt, payload_entryAt_cut hcut]
    rw [hbytes, Tape.blockAction, if_pos haud]
    exact hp
  | false =>
    obtain ⟨t₁, hp₁, -, hA₁⟩ := hA.passOver hc (fun h => hstart (by rw [hid, if_pos h.1, h.2]))
      (fun _ => hl) rfl rfl rfl hfit haud
    have hbytes : readOut D [entryAt D t.format pos (headerSize c t.format)] = [] := by
      simp [readOut, isAudible_entryTiming, haud]
    rw [hbytes]
    refine ⟨_, ?_, Tape.atEnd_round_end hA₁⟩
    simpa using hp₁.trans (Tape.Passes.quiet (Tape.round_end hA₁ (by omega)) ⟨rfl, rfl, rfl⟩ rfl)

/-- Reading an image from a block on, with no loop open, hands out the
header and data there are of every audible entry the listing from there
has, records one event for every entry, at its offset, and then reading is
over: whether a header or an entry's data is cut short or not, so long as no
entry starts a loop. -/
theorem passes_entriesFrom {t : Tape} (hA : t.At D pos 0) (hf : t.format = f) (hl : t.loops = [])
    (hloop : ∀ e ∈ (entriesFrom D f pos).1, e.id ≠ BlockId.loopStart) :
    ∃ t', Tape.Passes t (readOut D (entriesFrom D f pos).1)
      ((entriesFrom D f pos).1.map fun e => (e.offset, e.action)) t' ∧ t'.atEnd := by
  fun_induction entriesFrom D f pos generalizing t with
  | case1 p hp size =>
    rename_i hs
    have hr := Tape.round_cut hA (getElem?_getElem hp) (by rw [hf]; exact hs)
    exact ⟨_, Tape.Passes.quiet hr ⟨rfl, rfl, rfl⟩ rfl,
      ⟨rfl, hA.headerPending, hA.dataPending⟩⟩
  | case2 p hp size hs rest cut heq =>
    rename_i ih
    simp only [List.mem_cons, forall_eq_or_imp] at hloop
    cases htr : (entryAt D f p size).truncated with
    | false =>
      rw [heq] at ih
      obtain ⟨t₁, hp₁, hl₁, hA₁⟩ := passes_entryAt (getElem?_getElem hp) htr hA hf hloop.1 (fun _ => hl)
      obtain ⟨t₂, hp₂, he₂⟩ := ih hA₁ (hp₁.alike.format.trans hf) (hl₁.trans hl) hloop.2
      refine ⟨t₂, ?_, he₂⟩
      rw [readOut_cons, List.map_cons, offset_entryAt]
      exact hp₁.trans hp₂
    | true =>
      have hstop : entryStop D f p size = D.size := by
        have hcut := htr
        rw [truncated_entryAt, decide_eq_true_eq] at hcut
        unfold entryStop
        omega
      rw [hstop, entriesFrom_of_le le_rfl, Prod.mk.injEq] at heq
      obtain ⟨rfl, -⟩ := heq
      simpa using passes_entryAt_cut (getElem?_getElem hp) (by omega) htr hA hf hl hloop.1
  | case3 p hp =>
    exact ⟨_, Tape.Passes.quiet (Tape.round_end hA (by omega)) ⟨rfl, rfl, rfl⟩ rfl,
      Tape.atEnd_round_end hA⟩

/-- Records whose ID is a function of their offset are known by their
offsets and actions. -/
theorem map_eq_of_ids {α : Type} (l : List α) (o : α → Nat) (i : α → BlockId) (a : α → Action)
    (F : Nat → BlockId) (h : ∀ x ∈ l, i x = F (o x)) :
    l.map (fun x => (o x, i x, a x)) = (l.map fun x => (o x, a x)).map fun y => (y.1, F y.1, y.2) := by
  rw [List.map_map]
  exact List.map_congr_left fun x hx => by rw [h x hx]; rfl

end Catalogue

namespace Session

/-- A session that records events reads an image from a shelf in memory that
tells its size right and whose seeks do not fail, and plays it until it
stops, which it does.  When the catalogue of the image has no loop start,
the session records one event for every entry of the catalogue, in order, at
the entry's offset and with its ID: queued exactly for the entries that
sound, a loop end for a loop end, and skipped for any other.  This holds
whether the image is cut short or not, whatever the configuration, the depth
of the sink and the log. -/
theorem start_run_reports_catalogue (cfg : Config) (shelf : Shelf) (depth : Int) (log : Log)
    (path : String) (tapes : List (String × ByteArray)) (D : ByteArray) (c : Catalogue)
    (hpath : path ≠ "") (hrack : shelf.rack = .memory tapes) (hD : tapes.lookup path = some D)
    (hdelta : shelf.faults.sizeDelta = 0) (hseek : shelf.faults.seekLimit = none)
    (hc : Catalogue.ofBytes D = .ok c) (hloop : ∀ e ∈ c.entries, e.id ≠ BlockId.loopStart) :
    (∃ n, (((((create cfg shelf (PulseQueue.ofDepth depth) log).observedBy .record).select
      path).start).run n).session.started = false) ∧
    ∀ n, (((((create cfg shelf (PulseQueue.ofDepth depth) log).observedBy .record).select
        path).start).run n).session.started = false →
      ((((((create cfg shelf (PulseQueue.ofDepth depth) log).observedBy .record).select
        path).start).run n).session.events.toList.map fun e => (e.offset, e.id, e.action)) =
        c.entries.map fun e => (e.offset, e.id, e.action) := by
  have hpath' : (((create cfg shelf (PulseQueue.ofDepth depth) log).observedBy .record).select
      path).path ≠ "" := hpath
  rw [start_of_stopped rfl, if_neg hpath']
  refine ⟨run_stops_of_restart rfl rfl
    (by simpa [observedBy, reset, select] using capacity_create cfg shelf (PulseQueue.ofDepth depth) log)
    (PulseQueue.depth_ofDepth depth) (PulseQueue.toList_ofDepth depth), fun n hstop => ?_⟩
  obtain ⟨hok, hA, hfmt, hl, hobs, -, htrail⟩ := Tape.openTape_memory
    (t := (((create cfg shelf (PulseQueue.ofDepth depth) log).observedBy .record).select
      path).reset.toTape) hrack hD hdelta hseek
  obtain ⟨hcf, hent, -⟩ := Catalogue.ofBytes_eq hc
  rw [hent] at hloop
  have hf := hfmt.trans hcf.symm
  obtain ⟨t_end, hp, he⟩ := Catalogue.passes_entriesFrom hA hf hl hloop
  rcases run_of_restart rfl rfl
    (by simpa [observedBy, reset, select] using capacity_create cfg shelf (PulseQueue.ofDepth depth) log)
    (PulseQueue.depth_ofDepth depth) (PulseQueue.toList_ofDepth depth) hstop with ⟨hno, -⟩ | ⟨-, hrun⟩
  · exact absurd (hno.symm.trans hok) Bool.false_ne_true
  obtain ⟨-, htape⟩ := hrun _ t_end hp.reads he
  have hev : t_end.trail = c.entries.map fun e => (e.offset, e.action) := by
    rw [hp.trail, htrail, Tape.kept, hobs, hent]
    rfl
  have hnil : Tape.Stamped D c.format (((((create cfg shelf (PulseQueue.ofDepth depth) log).observedBy
      .record).select path).reset.toTape.cleared.openTape path).1) := by
    intro e hmem
    have hnone : (Tape.trail _) = [] := htrail
    rw [Tape.trail, List.map_eq_nil_iff] at hnone
    rw [hnone] at hmem
    cases hmem
  obtain ⟨src, hsrc, hbytes, -⟩ := hA.source
  have hst := hp.reads.stamped (Tape.openTape_sound hok) (by rw [hsrc, Option.map_some, hbytes]) hf hnil
  rw [htape, Tape.events_close, Tape.cleared, Tape.events_note]
  calc t_end.events.toList.map (fun e => (e.offset, e.id, e.action))
      = t_end.trail.map fun y => (y.1, Catalogue.idAt D c.format y.1, y.2) :=
        Catalogue.map_eq_of_ids _ _ _ _ _ hst
    _ = (c.entries.map fun e => (e.offset, e.action)).map
          fun y => (y.1, Catalogue.idAt D c.format y.1, y.2) := by rw [hev]
    _ = c.entries.map fun e => (e.offset, e.id, e.action) :=
        (Catalogue.map_eq_of_ids _ _ _ _ _ fun e he => Catalogue.id_eq_idAt (hent ▸ he)).symm

/-- A TZX image cut short: a pure tone of two pulses at 10, a text at 15, a
loop end with no loop open at 19, and at 20 a sequence of two pulses whose
data holds only the first. -/
def cutTone : ByteArray :=
  ⟨#[0x5A, 0x58, 0x54, 0x61, 0x70, 0x65, 0x21, 0x1A, 0x01, 0x14, 0x12, 0x64, 0x00, 0x02, 0x00,
    0x30, 0x02, 0x41, 0x42, 0x25, 0x13, 0x02, 0x64, 0x00]⟩

theorem cutTone_reports_catalogue : ∃ c, Catalogue.ofBytes cutTone = .ok c ∧ c.truncated = true ∧
    (∀ e ∈ c.entries, e.id ≠ BlockId.loopStart) ∧
    (∃ n, (((((create {} { rack := .memory [("a.tzx", cutTone)] } (PulseQueue.ofDepth 1)
      (Log.ofCapacity 8)).observedBy .record).select "a.tzx").start).run n).session.started = false) ∧
    ∀ n, (((((create {} { rack := .memory [("a.tzx", cutTone)] } (PulseQueue.ofDepth 1)
        (Log.ofCapacity 8)).observedBy .record).select "a.tzx").start).run n).session.started = false →
      ((((((create {} { rack := .memory [("a.tzx", cutTone)] } (PulseQueue.ofDepth 1)
        (Log.ofCapacity 8)).observedBy .record).select "a.tzx").start).run n).session.events.toList.map
        fun e => (e.offset, e.id, e.action)) = c.entries.map fun e => (e.offset, e.id, e.action) := by
  have hok : ((Catalogue.ofBytes cutTone).toOption.map fun c =>
      c.truncated && c.entries.all fun e => e.id != BlockId.loopStart) = some true := by
    decide +kernel
  cases hc : Catalogue.ofBytes cutTone with
  | error e =>
    rw [hc] at hok
    cases hok
  | ok c =>
    rw [hc, show (Except.ok c : Except Message.Value Catalogue).toOption = some c from rfl] at hok
    simp only [Option.map_some, Option.some.injEq, Bool.and_eq_true, List.all_eq_true, bne_iff_ne,
      ne_eq] at hok
    obtain ⟨htr, hloop⟩ := hok
    exact ⟨c, rfl, htr, hloop, start_run_reports_catalogue {} { rack := .memory [("a.tzx", cutTone)] } 1
      (Log.ofCapacity 8) "a.tzx" [("a.tzx", cutTone)] cutTone c (by decide) rfl (by simp [List.lookup])
      rfl rfl hc hloop⟩

end Session

end TapeDeck
