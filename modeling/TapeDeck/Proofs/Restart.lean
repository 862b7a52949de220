import TapeDeck.Proofs.Events

/-!
# A restart plays the tape as a new session does

A session can be restarted from any state it reaches: in the middle of a
header or of a block's data, inside loops, after the end of the tape, with
bytes in its ring and a generator halfway through a pulse.  The restart and
the tick after it clear all of that and open the tape afresh; from then on
the session plays as a new session with the same settings, shelf, sink and
observer, selected and started on the same tape: tick for tick it hands over
the same pulses, records the same events after those it had, and stops at
the same tick.

*Twins.*  Two tapes are twins (`Tape.Twin`) when they read alike: they
differ only in what reading never looks at before it sets it (the logs, the
text written out, the header of the block last read, the counts of sources
opened and closed) and in the events one kept before the other was made.
Every round of reading keeps twins twins and hands out the same byte
(`Tape.Twin.round`).  Sessions are alike when their tapes are twins and the
rest is the same, or when both have stopped with the same sink; every tick
keeps them alike and hands over the same pulses (`Session.Alike.advance`),
tick after tick (`Session.Alike.runFor`).

*Kin.*  A restart leaves the old file open at the old position, but the
tick after it closes the file and opens the tape anew.  For that, tapes need
to agree only on the loop depth, the shelf up to its counts, the observer
and the events (`Tape.Kin.reopen`); so a restarted session and a new one are
alike after their first tick (`Session.Kin.advance`).

*Reachable states.*  No call changes the loop depth or the ring's capacity
(`Session.Fixed.performAll`), so a restarted session and a new one made with
the same settings start kin.
-/

namespace TapeDeck

/-! ## Shelves alike -/

/-- What loading a file gives, the loader and any error, does not depend on
the log it writes to. -/
theorem Loader.load_log (l : Loader) (fs : FileStore) (log log' : Log) :
    (l.load fs log').1 = (l.load fs log).1 ∧ (l.load fs log').2.2 = (l.load fs log).2.2 := by
  unfold Loader.load
  split
  · exact ⟨rfl, rfl⟩
  · dsimp only
    split
    · exact ⟨rfl, rfl⟩
    · split
      · exact ⟨rfl, rfl⟩
      · exact ⟨rfl, rfl⟩

/-- The source a loader opens, or the error it reports, does not depend on
the log it writes to. -/
theorem Loader.openSource_log (l : Loader) (fs : FileStore) (log log' : Log) :
    (l.openSource fs log').2.2 = (l.openSource fs log).2.2 := by
  unfold Loader.openSource
  split
  · obtain ⟨h1, h2⟩ := l.load_log fs log log'
    revert h1 h2
    rcases l.load fs log' with ⟨l', g', e'⟩
    rcases l.load fs log with ⟨l₀, g₀, e₀⟩
    rintro rfl rfl
    cases e' <;> rfl
  · dsimp only
    split
    · rfl
    · split
      · rfl
      · rfl
      · split <;> rfl

namespace Shelf

/-- Shelves alike but for their counts of sources opened and closed: they
open, seek and close alike. -/
structure Kin (sh sh' : Shelf) : Prop where
  rack : sh'.rack = sh.rack
  faults : sh'.faults = sh.faults
  permission : sh'.permission = sh.permission
  seeks : sh'.seeks = sh.seeks

variable {sh sh' : Shelf}

theorem Kin.refl (sh : Shelf) : Kin sh sh := ⟨rfl, rfl, rfl, rfl⟩

theorem Kin.symm (h : Kin sh sh') : Kin sh' sh :=
  ⟨h.rack.symm, h.faults.symm, h.permission.symm, h.seeks.symm⟩

theorem Kin.trans {sh'' : Shelf} (h : Kin sh sh') (h' : Kin sh' sh'') : Kin sh sh'' :=
  ⟨h'.rack.trans h.rack, h'.faults.trans h.faults, h'.permission.trans h.permission, h'.seeks.trans h.seeks⟩

/-- A shelf kin to another is the other with its own counts. -/
theorem Kin.eq_counts (h : Kin sh sh') : sh' = { sh with opened := sh'.opened, closed := sh'.closed } := by
  obtain ⟨hr, hf, hp, hs⟩ := h
  cases sh
  cases sh'
  simp_all

/-- The counts of sources opened and closed play no part in a seek. -/
theorem seek_counts (sh : Shelf) (src : Source) (o : Int) (a b : Nat) :
    ({ sh with opened := a, closed := b } : Shelf).seek src o =
      ({ (sh.seek src o).1 with opened := a, closed := b }, (sh.seek src o).2) := by
  cases hr : sh.rack <;> cases hl : sh.faults.seekLimit <;> cases hs : src.seek o <;>
    simp only [Shelf.seek, hr, hl, hs] <;> (try split_ifs) <;> simp [hr]

/-- Kin shelves seek alike, and stay kin. -/
theorem Kin.seek (h : Kin sh sh') (src : Source) (o : Int) :
    (sh'.seek src o).2 = (sh.seek src o).2 ∧ Kin (sh.seek src o).1 (sh'.seek src o).1 := by
  rw [h.eq_counts, seek_counts]
  exact ⟨rfl, rfl, rfl, rfl, rfl⟩

/-- Closing any sources leaves kin shelves kin. -/
theorem Kin.close (h : Kin sh sh') (src src' : Source) : Kin (sh.close src).1 (sh'.close src').1 := by
  rw [Shelf.close_fst, Shelf.close_fst]
  exact ⟨h.rack, h.faults, h.permission, h.seeks⟩

/-- The counts of sources opened and closed play no part in opening a tape,
and neither does the log. -/
theorem openTape_counts (sh : Shelf) (name : String) (log log' : Log) (a b : Nat) :
    (({ sh with opened := a, closed := b } : Shelf).openTape name log').2.2 = (sh.openTape name log).2.2 ∧
      Kin (sh.openTape name log).1 (({ sh with opened := a, closed := b } : Shelf).openTape name log').1 := by
  cases hr : sh.rack with
  | memory tapes =>
    cases hf : tapes.find? (·.1 = name) <;> simp only [Shelf.openTape, hr, hf] <;>
      exact ⟨by simp, by simp [hr], rfl, rfl, rfl⟩
  | disk store =>
    cases hn : Loader.ofName name with
    | error e =>
      simp only [Shelf.openTape, hr, hn]
      exact ⟨by simp, by simp [hr], rfl, rfl, rfl⟩
    | ok l =>
      have hl := Loader.openSource_log { l with permission := sh.permission } store log log'
      simp only [Shelf.openTape, hr, hn]
      rw [hl]
      split
      · next heq =>
        simp only [heq]
        exact ⟨by simp, rfl, rfl, rfl, rfl⟩
      · next heq =>
        simp only [heq]
        exact ⟨by simp, by simp [hr], rfl, rfl, rfl⟩

/-- Kin shelves open a tape alike, whatever their logs, and stay kin. -/
theorem Kin.openTape (h : Kin sh sh') (name : String) (log log' : Log) :
    (sh'.openTape name log').2.2 = (sh.openTape name log).2.2 ∧
      Kin (sh.openTape name log).1 (sh'.openTape name log').1 := by
  rw [h.eq_counts]
  exact openTape_counts sh name log log' _ _

end Shelf

/-! ## Tapes that read alike -/

namespace Tape

/-- `u` reads as `t` does, `t` having kept the events `pre` before `u` was
made.  The two differ only in what reading never looks at before it sets it:
their logs and permissions, the text written out, the header of the block
last read and the shelves' counts of sources opened and closed. -/
structure Twin (pre : List Event) (t u : Tape) : Prop where
  loopDepth : u.loopDepth = t.loopDepth
  shelf : Shelf.Kin t.shelf u.shelf
  events : t.events.toList = pre ++ u.events.toList
  observer : u.observer = t.observer
  source : u.source = t.source
  size : u.size = t.size
  pos : u.pos = t.pos
  format : u.format = t.format
  finished : u.finished = t.finished
  headerPending : u.headerPending = t.headerPending
  dataPending : u.dataPending = t.dataPending
  loops : u.loops = t.loops

variable {pre : List Event} {t u : Tape}

theorem Twin.note (h : Twin pre t u) (d d' : String) : Twin pre (t.note d) (u.note d') := { h with }

theorem Twin.withLoops (h : Twin pre t u) (L L' : List LoopFrame) (hL : L' = L) :
    Twin pre { t with loops := L } { u with loops := L' } := { h with loops := hL }

/-- The events an observer keeps: one more when it records. -/
theorem toList_events_observe (o : Nat) (tm : Timing) (a : Action) :
    (t.observe o tm a).events.toList = t.events.toList ++
      if t.observer = .record then
        [{ offset := o, id := if t.format = .tzx then t.header.headD 0 else 0, format := t.format,
           timing := tm, action := a }]
      else [] := by
  unfold Tape.observe
  cases t.observer with
  | none => simp
  | record => simp
  | printQueued => by_cases ha : a = .queued <;> simp [ha]

/-- Twins tell their observers alike once they hold the same header. -/
theorem Twin.observe (h : Twin pre t u) (hh : u.header = t.header) (o : Nat) (tm : Timing) (a : Action) :
    Twin pre (t.observe o tm a) (u.observe o tm a) := by
  rw [observe_eq t, observe_eq u]
  exact { h with
    events := by rw [toList_events_observe, toList_events_observe, h.events, h.observer, h.format, hh,
      List.append_assoc] }

/-- Twins read the same bytes, and stay twins. -/
theorem Twin.readBytes (h : Twin pre t u) (n : Nat) :
    (u.readBytes n).1 = (t.readBytes n).1 ∧ Twin pre (t.readBytes n).2 (u.readBytes n).2 := by
  unfold Tape.readBytes
  rw [h.source]
  cases t.source with
  | none => exact ⟨rfl, h⟩
  | some src => exact ⟨rfl, { h with source := rfl, pos := by simp [h.pos] }⟩

/-- Twins seek alike, and stay twins. -/
theorem Twin.seekTo (h : Twin pre t u) (o : Nat) :
    (u.seekTo o).2 = (t.seekTo o).2 ∧ Twin pre (t.seekTo o).1 (u.seekTo o).1 := by
  unfold Tape.seekTo
  rw [h.source]
  cases t.source with
  | none => exact ⟨rfl, h⟩
  | some src =>
    obtain ⟨he, hk⟩ := h.shelf.seek src o
    dsimp only
    revert he hk
    rcases t.shelf.seek src o with ⟨sh₁, r₁⟩
    rcases u.shelf.seek src o with ⟨sh₂, r₂⟩
    rintro (rfl : r₂ = r₁) hk
    cases r₂ with
    | ok src' => exact ⟨rfl, { h with shelf := hk, source := rfl, pos := rfl }⟩
    | error e =>
      have h' : Twin pre { t with shelf := sh₁, source := some src } { u with shelf := sh₂, source := some src } :=
        { h with shelf := hk, source := rfl }
      exact ⟨rfl, h'.note _ _⟩

/-- Twins that seek, and finish when the seek fails, stay twins. -/
theorem Twin.seekOrFinish (h : Twin pre t u) (o : Nat) :
    Twin pre
      (match t.seekTo o with
        | (t, true) => t
        | (t, false) => { t with finished := true })
      (match u.seekTo o with
        | (t, true) => t
        | (t, false) => { t with finished := true }) := by
  obtain ⟨hb, h'⟩ := h.seekTo o
  revert hb h'
  rcases t.seekTo o with ⟨T, b⟩
  rcases u.seekTo o with ⟨U, b'⟩
  rintro (rfl : b' = b) h'
  cases b'
  · exact { h' with finished := rfl }
  · exact h'

/-- Twins that seek past their position, and finish when the seek fails,
stay twins. -/
theorem Twin.seekPast (h : Twin pre t u) (n : Nat) :
    Twin pre
      (match t.seekTo (t.pos + n) with
        | (t, true) => t
        | (t, false) => { t with finished := true })
      (match u.seekTo (u.pos + n) with
        | (t, true) => t
        | (t, false) => { t with finished := true }) := by
  rw [h.pos]
  exact h.seekOrFinish _

/-- Twins holding the same header handle its block alike. -/
theorem Twin.handleBlock (h : Twin pre t u) (hh : u.header = t.header) (o : Nat) (tm : Timing) :
    Twin pre (t.handleBlock o tm) (u.handleBlock o tm) := by
  unfold Tape.handleBlock
  dsimp only
  by_cases hs : t.format = .tzx ∧ t.header.headD 0 = BlockId.loopStart
  · -- a loop start: remembered, or ignored past the loop depth
    have hs' : u.format = .tzx ∧ u.header.headD 0 = BlockId.loopStart := by rwa [h.format, hh]
    rw [if_pos hs, if_pos hs']
    by_cases hd : t.loops.length < t.loopDepth
    · have hd' : u.loops.length < u.loopDepth := by rwa [h.loops, h.loopDepth]
      rw [if_pos hd, if_pos hd']
      exact (h.withLoops (⟨t.pos, Timing.loopCount t.header⟩ :: t.loops)
        (⟨u.pos, Timing.loopCount u.header⟩ :: u.loops) (by rw [h.pos, hh, h.loops])).observe hh o tm _
    · have hd' : ¬u.loops.length < u.loopDepth := by rwa [h.loops, h.loopDepth]
      rw [if_neg hd, if_neg hd']
      exact (h.note _ _).observe hh o tm _
  have hs' : ¬(u.format = .tzx ∧ u.header.headD 0 = BlockId.loopStart) := by rwa [h.format, hh]
  rw [if_neg hs, if_neg hs']
  by_cases he : t.format = .tzx ∧ t.header.headD 0 = BlockId.loopEnd
  · -- a loop end: the innermost loop goes round again or is left
    have he' : u.format = .tzx ∧ u.header.headD 0 = BlockId.loopEnd := by rwa [h.format, hh]
    rw [if_pos he, if_pos he', h.loops]
    cases t.loops with
    | nil => exact h.observe hh o tm _
    | cons top outer =>
      dsimp only
      by_cases hc : 0 < top.counter - 1
      · rw [if_pos hc, if_pos hc]
        exact ((h.withLoops ({ top with counter := top.counter - 1 } :: outer) _ rfl).observe hh o tm
          _).seekOrFinish _
      · rw [if_neg hc, if_neg hc]
        exact (h.withLoops outer _ rfl).observe hh o tm _
  have he' : ¬(u.format = .tzx ∧ u.header.headD 0 = BlockId.loopEnd) := by rwa [h.format, hh]
  rw [if_neg he, if_neg he']
  by_cases hk : t.format = .tzx ∧ (!BlockId.known (t.header.headD 0)) = true
  · have hk' : u.format = .tzx ∧ (!BlockId.known (u.header.headD 0)) = true := by rwa [h.format, hh]
    rw [if_pos hk, if_pos hk']
    exact ((h.note _ _).observe hh o tm _).seekPast _
  · have hk' : ¬(u.format = .tzx ∧ (!BlockId.known (u.header.headD 0)) = true) := by rwa [h.format, hh]
    rw [if_neg hk, if_neg hk']
    exact (h.observe hh o tm _).seekPast _

/-! ## Rounds of twins -/

/-- The tape `t` with the logs, permission, text, events, header and shelf
of another: a twin of `t` is one of these. -/
def recast (t : Tape) (p : Permission) (sh : Shelf) (lg : Log) (cs : String) (ev : Array Event)
    (hd : List UInt8) : Tape :=
  { t with permission := p, shelf := sh, log := lg, console := cs, events := ev, header := hd }

section Recast

variable (p : Permission) (sh : Shelf) (lg : Log) (cs : String) (ev : Array Event) (hd : List UInt8)

@[simp] theorem source_recast : (t.recast p sh lg cs ev hd).source = t.source := rfl
@[simp] theorem size_recast : (t.recast p sh lg cs ev hd).size = t.size := rfl
@[simp] theorem pos_recast : (t.recast p sh lg cs ev hd).pos = t.pos := rfl
@[simp] theorem format_recast : (t.recast p sh lg cs ev hd).format = t.format := rfl
@[simp] theorem finished_recast : (t.recast p sh lg cs ev hd).finished = t.finished := rfl
@[simp] theorem headerPending_recast : (t.recast p sh lg cs ev hd).headerPending = t.headerPending := rfl
@[simp] theorem dataPending_recast : (t.recast p sh lg cs ev hd).dataPending = t.dataPending := rfl

/-- A twin is `t` recast with its own logs, text, events, header and shelf. -/
theorem Twin.eq_recast (h : Twin pre t u) :
    u = t.recast u.permission u.shelf u.log u.console u.events u.header := by
  obtain ⟨h1, -, -, h4, h5, h6, h7, h8, h9, h10, h11, h12⟩ := h
  cases t
  cases u
  simp_all [recast]

theorem twin_recast (hk : Shelf.Kin t.shelf sh) (he : t.events.toList = pre ++ ev.toList) :
    Twin pre t (t.recast p sh lg cs ev hd) :=
  ⟨rfl, hk, he, rfl, rfl, rfl, rfl, rfl, rfl, rfl, rfl, rfl⟩

/-- A read of a recast tape is the read of the tape, recast. -/
theorem readBytes_recast (n : Nat) :
    (t.recast p sh lg cs ev hd).readBytes n = ((t.readBytes n).1, (t.readBytes n).2.recast p sh lg cs ev hd) := by
  unfold Tape.readBytes
  simp only [source_recast]
  split <;> rfl

end Recast

/-- A recast tape reads as the tape does: a round hands out the same byte,
stops filling alike, and leaves twins. -/
theorem round_recast {p : Permission} {sh : Shelf} {lg : Log} {cs : String} {ev : Array Event}
    {hd : List UInt8} (hk : Shelf.Kin t.shelf sh) (he : t.events.toList = pre ++ ev.toList) :
    (t.recast p sh lg cs ev hd).round.byte = t.round.byte ∧
      (t.recast p sh lg cs ev hd).round.more = t.round.more ∧
      Twin pre t.round.tape (t.recast p sh lg cs ev hd).round.tape := by
  have hr := twin_recast p sh lg cs ev hd hk he
  unfold Tape.round
  simp only [headerPending_recast, dataPending_recast, finished_recast, size_recast, pos_recast,
    readBytes_recast]
  have leaf : ∀ T : Tape, T.shelf = t.shelf → T.events = t.events →
      Twin pre T (T.recast p sh lg cs ev hd) := fun T hs he' =>
    twin_recast p sh lg cs ev hd (hs ▸ hk) (he' ▸ he)
  split
  · exact ⟨rfl, rfl, { hr with headerPending := rfl }⟩
  · split_ifs with hd hf hz
    · -- a data byte still to come
      rcases hrd : t.readBytes 1 with ⟨bs, T⟩
      obtain ⟨src, hT⟩ := readBytes_eq_mk hrd
      have h₁ := leaf T (by rw [hT]) (by rw [hT])
      rcases bs with _ | ⟨b, _ | ⟨b', bs⟩⟩ <;> dsimp only
      · exact ⟨rfl, rfl, { h₁ with finished := rfl, dataPending := rfl }⟩
      · exact ⟨rfl, rfl, { h₁ with dataPending := rfl }⟩
      · exact ⟨rfl, rfl, { h₁ with finished := rfl, dataPending := rfl }⟩
    · exact ⟨rfl, rfl, hr⟩
    · exact ⟨rfl, rfl, { hr with finished := rfl }⟩
    · -- a block header
      rcases hrd : t.readBytes 1 with ⟨bs, T⟩
      obtain ⟨src, hT⟩ := readBytes_eq_mk hrd
      have h₁ := leaf T (by rw [hT]) (by rw [hT])
      rcases bs with _ | ⟨c, _ | ⟨b', bs⟩⟩ <;> dsimp only
      · exact ⟨rfl, rfl, { h₁ with finished := rfl }⟩
      · simp only [readBytes_recast, format_recast]
        rcases hrd₂ : T.readBytes (headerSize c T.format - 1) with ⟨rest, T₂⟩
        obtain ⟨src₂, hT₂⟩ := readBytes_eq_mk hrd₂
        have h₂ := leaf T₂ (by rw [hT₂, hT]) (by rw [hT₂, hT])
        dsimp only
        split_ifs
        · exact ⟨rfl, rfl, { h₂ with finished := rfl }⟩
        · refine ⟨rfl, rfl, Twin.observe ?_ ?_ _ _ _⟩
          · exact { h₂ with headerPending := rfl, dataPending := rfl }
          · rfl
        · refine ⟨rfl, rfl, Twin.handleBlock ?_ ?_ _ _⟩
          · exact { h₂ with }
          · rfl
      · exact ⟨rfl, rfl, { h₁ with finished := rfl }⟩

/-- Twins hand out the same byte in a round, stop filling alike, and stay
twins. -/
theorem Twin.round (h : Twin pre t u) :
    u.round.byte = t.round.byte ∧ u.round.more = t.round.more ∧ Twin pre t.round.tape u.round.tape := by
  rw [h.eq_recast]
  exact round_recast h.shelf h.events

/-- Twins stand alike. -/
theorem Twin.stand (h : Twin pre t u) : u.stand = t.stand := by
  simp only [Tape.stand, Tape.span, h.loopDepth, h.loops, h.source, h.pos, h.headerPending, h.dataPending]

/-! ## Closing and opening anew -/

/-- Closing the file leaves no file open, and a shelf kin to the old one. -/
theorem close_eq (t : Tape) : ∃ sh lg cs, Shelf.Kin t.shelf sh ∧
    t.close = { t with shelf := sh, source := none, log := lg, console := cs } := by
  unfold Tape.close
  split
  · next hs =>
    refine ⟨t.shelf, t.log, t.console, Shelf.Kin.refl _, ?_⟩
    cases t
    simp_all
  · next src hs =>
    have hk : Shelf.Kin t.shelf (t.shelf.close src).1 := by
      rw [Shelf.close_fst]
      exact ⟨rfl, rfl, rfl, rfl⟩
    dsimp only
    split
    · rw [note_eq]
      exact ⟨_, _, _, hk, rfl⟩
    · exact ⟨_, _, _, hk, rfl⟩

theorem Twin.close (h : Twin pre t u) : Twin pre t.close u.close := by
  obtain ⟨sh₁, lg₁, cs₁, hk₁, h₁⟩ := close_eq t
  obtain ⟨sh₂, lg₂, cs₂, hk₂, h₂⟩ := close_eq u
  rw [h₁, h₂]
  exact { h with shelf := hk₁.symm.trans (h.shelf.trans hk₂), source := rfl }

/-- Tapes alike in all that a fresh opening of a file keeps: the loop depth,
the shelf up to its counts, the observer, and the events but for `pre`. -/
structure Kin (pre : List Event) (t u : Tape) : Prop where
  loopDepth : u.loopDepth = t.loopDepth
  shelf : Shelf.Kin t.shelf u.shelf
  events : t.events.toList = pre ++ u.events.toList
  observer : u.observer = t.observer

theorem Twin.kin (h : Twin pre t u) : Kin pre t u := ⟨h.loopDepth, h.shelf, h.events, h.observer⟩

theorem Kin.close (h : Kin pre t u) : Kin pre t.close u.close := by
  obtain ⟨sh₁, lg₁, cs₁, hk₁, h₁⟩ := close_eq t
  obtain ⟨sh₂, lg₂, cs₂, hk₂, h₂⟩ := close_eq u
  rw [h₁, h₂]
  exact { h with shelf := hk₁.symm.trans (h.shelf.trans hk₂) }

/-- Probing a freshly opened file for the TZX preamble, as opening a tape
does: a file of at least ten bytes that starts with the preamble is TZX and
read on after it; any other is read from its start. -/
def probePreamble (t : Tape) : Tape × Bool :=
  if (tzxPreambleSize : Int) ≤ t.size then
    let (probe, t) := t.readBytes tzxPreambleSize
    if isTzx probe then ({ t with format := .tzx, pos := probe.length }, true)
    else t.seekTo 0
  else (t, true)

/-- Opening a tape: close the file, open the new one, probe it. -/
theorem openTape_eq (t : Tape) (path : String) :
    t.openTape path =
      match t.close.shelf.openTape path t.close.log with
      | (shelf, log, .error e) => ({ t.close with shelf, log }.note e.message, false)
      | (shelf, log, .ok src) =>
        match ({ t.close with
            shelf, log, source := some src, size := src.size, pos := 0, format := .tap } : Tape).probePreamble with
        | (t, true) => (t.note ("playing " ++ path ++ " (" ++ t.format.name ++ ")"), true)
        | (t, false) => (t, false) :=
  rfl

/-- Twins probe a file alike. -/
theorem Twin.probePreamble (h : Twin pre t u) :
    u.probePreamble.2 = t.probePreamble.2 ∧ Twin pre t.probePreamble.1 u.probePreamble.1 := by
  obtain ⟨hb, h'⟩ := h.readBytes tzxPreambleSize
  unfold Tape.probePreamble
  dsimp only
  rw [h.size, hb]
  split_ifs
  · exact ⟨rfl, { h' with format := rfl, pos := rfl }⟩
  · exact h'.seekTo 0
  · exact ⟨rfl, h⟩

/-- Kin tapes cleared and opened anew open alike, stay kin, and are twins
when the file opens. -/
theorem Kin.reopen (h : Kin pre t u) (path : String) :
    (u.cleared.openTape path).2 = (t.cleared.openTape path).2 ∧
      Kin pre (t.cleared.openTape path).1 (u.cleared.openTape path).1 ∧
      ((t.cleared.openTape path).2 = true →
        Twin pre (t.cleared.openTape path).1 (u.cleared.openTape path).1) := by
  have hc : Kin pre t.cleared.close u.cleared.close := ({ h with } : Kin pre t.cleared u.cleared).close
  obtain ⟨hl, hf, -, hh, hd⟩ := close_frame t.cleared
  obtain ⟨hl', hf', -, hh', hd'⟩ := close_frame u.cleared
  rw [openTape_eq, openTape_eq]
  obtain ⟨he, hk⟩ := hc.shelf.openTape path t.cleared.close.log u.cleared.close.log
  revert he hk
  rcases t.cleared.close.shelf.openTape path t.cleared.close.log with ⟨sh₁, lg₁, r₁⟩
  rcases u.cleared.close.shelf.openTape path u.cleared.close.log with ⟨sh₂, lg₂, r₂⟩
  rintro (rfl : r₂ = r₁) hk
  cases r₂ with
  | error e =>
    exact ⟨rfl, { hc with shelf := hk }, fun h => by cases h⟩
  | ok src =>
    have hT : Twin pre
        { t.cleared.close with
          shelf := sh₁, log := lg₁, source := some src, size := src.size, pos := 0, format := .tap }
        { u.cleared.close with
          shelf := sh₂, log := lg₂, source := some src, size := src.size, pos := 0, format := .tap } :=
      ⟨hc.loopDepth, hk, hc.events, hc.observer, rfl, rfl, rfl, rfl, hf'.trans hf.symm,
        hh'.trans hh.symm, hd'.trans hd.symm, hl'.trans hl.symm⟩
    obtain ⟨hok, hP⟩ := hT.probePreamble
    dsimp only
    revert hok hP
    rcases Tape.probePreamble { t.cleared.close with
      shelf := sh₁, log := lg₁, source := some src, size := src.size, pos := 0, format := .tap } with ⟨R, b⟩
    rcases Tape.probePreamble { u.cleared.close with
      shelf := sh₂, log := lg₂, source := some src, size := src.size, pos := 0, format := .tap } with ⟨R', b'⟩
    rintro (rfl : b' = b) hP
    cases b'
    · exact ⟨rfl, hP.kin, fun h => by cases h⟩
    · exact ⟨rfl, (hP.note _ _).kin, fun _ => hP.note _ _⟩

end Tape

/-! ## Rings and steps alike -/

namespace ByteRing

variable {r r' : ByteRing}

/-- Rings alike: the same capacity and the same bytes held.  Their stores
may differ in the slots nothing reads, as a cleared ring keeps its old
bytes there. -/
structure Same (r r' : ByteRing) : Prop where
  capacity : r'.capacity = r.capacity
  toList : r'.toList = r.toList

theorem Same.refl (r : ByteRing) : Same r r := ⟨rfl, rfl⟩

theorem same_clear (h : r'.capacity = r.capacity) : Same r.clear r'.clear := ⟨h, by simp⟩

theorem Same.push (h : Same r r') (b : UInt8) : Same (r.push b) (r'.push b) :=
  ⟨by simp [h.capacity], by simp [h.capacity, h.toList]⟩

theorem Same.free (h : Same r r') : r'.free = r.free := by
  simp only [ByteRing.free, occupied_eq_length, h.capacity, h.toList]

theorem Same.pullMany (h : Same r r') (n : Nat) :
    (r'.pullMany n).1 = (r.pullMany n).1 ∧ Same (r.pullMany n).2 (r'.pullMany n).2 :=
  ⟨by simp [h.toList], by simp [h.capacity], by simp [h.toList]⟩

/-- Rings alike give up the same byte, or none, and stay alike. -/
theorem Same.pull? (h : Same r r') :
    (r.pull? = none ∧ r'.pull? = none) ∨
      ∃ b q q', r.pull? = some (b, q) ∧ r'.pull? = some (b, q') ∧ Same q q' := by
  cases hl : r.toList with
  | nil => exact .inl ⟨pull?_eq_none_iff.2 hl, pull?_eq_none_iff.2 (h.toList.trans hl)⟩
  | cons b l =>
    obtain ⟨q, hq, hql, hqc⟩ := pull?_of_toList_eq_cons hl
    obtain ⟨q', hq', hql', hqc'⟩ := pull?_of_toList_eq_cons (h.toList.trans hl)
    exact .inr ⟨b, q, q', hq, hq', ⟨by rw [hqc', hqc, h.capacity], hql'.trans hql.symm⟩⟩

end ByteRing

namespace Generator

variable {r r' : ByteRing} {g : Generator} {f : Bool} {b : StepResult}

/-- Outcomes alike: the same result, pulse and generator, and rings alike. -/
structure Outcome.Same (o o' : Outcome) : Prop where
  result : o'.result = o.result
  pulse : o'.pulse = o.pulse
  gen : o'.gen = o.gen
  ring : o.ring.Same o'.ring

theorem collect_same (h : r.Same r') (fmt : Format) (p : List UInt8) :
    (collect fmt p r').1 = (collect fmt p r).1 ∧ (collect fmt p r).2.Same (collect fmt p r').2 :=
  ⟨by simp [h.toList], by simp [h.capacity], by simp [h.toList]⟩

/-- Starving rings alike: the block is dropped or the step waits, alike. -/
theorem starved_same (h : r.Same r') :
    ((g.starved r f).getD ⟨b, none, g, r⟩).Same ((g.starved r' f).getD ⟨b, none, g, r'⟩) := by
  cases f <;> exact ⟨rfl, rfl, rfl, h⟩

/-- A part of a block plays alike from rings alike. -/
theorem play_same (h : r.Same r') : (g.play r f b).Same (g.play r' f b) := by
  cases hp : g.phase with
  | header => rw [play_header hp, play_header hp]; exact ⟨rfl, rfl, rfl, h⟩
  | pilot | sync1 | sync2 | pause =>
    obtain ⟨g', p, hplay, -⟩ := play_lead (g := g) (by simp [hp]) (by simp [hp])
    rw [hplay, hplay]
    exact ⟨rfl, rfl, rfl, h⟩
  | data =>
    cases hc : g.timing.category with
    | audio =>
      rw [play_audio hp hc, play_audio hp hc]
      by_cases h0 : g.dataBit = 0
      · rcases h.pull? with ⟨hn, hn'⟩ | ⟨c, q, q', hq, hq', hs⟩
        · rw [audioStep_of_pull?_none h0 hn, audioStep_of_pull?_none h0 hn']
          exact starved_same h
        · rw [audioStep_of_pull? h0 hq, audioStep_of_pull? h0 hq']
          exact ⟨rfl, rfl, rfl, hs⟩
      · rw [audioStep_of_dataBit_ne_zero h0, audioStep_of_dataBit_ne_zero h0]
        exact ⟨rfl, rfl, rfl, h⟩
    | sequence =>
      rw [play_sequence hp hc, play_sequence hp hc]
      by_cases hl : r.toList.length < 2
      · rw [sequenceStep_of_lt hl, sequenceStep_of_lt (by rwa [h.toList])]
        exact starved_same h
      · have hl' : 2 ≤ r'.toList.length := by rw [h.toList]; omega
        rw [sequenceStep_of_le (Nat.le_of_not_lt hl), sequenceStep_of_le hl', h.toList]
        exact ⟨rfl, rfl, rfl, (h.pullMany 2).2⟩
    | metadata =>
      rw [play_metadata hp hc, play_metadata hp hc]
      by_cases hl : r.toList = []
      · rw [metadataStep_of_nil hl, metadataStep_of_nil (h.toList.trans hl)]
        exact starved_same h
      · rw [metadataStep_of_ne_nil hl, metadataStep_of_ne_nil (by rwa [h.toList]), h.toList]
        exact ⟨rfl, rfl, rfl, (h.pullMany _).2⟩

/-- A step from rings alike gives the same result, pulse and generator, and
leaves the rings alike: what the step sees of a ring is its bytes. -/
theorem step_same (h : r.Same r') (g : Generator) (f : Bool) : (g.step r f).Same (g.step r' f) := by
  cases he : g.timing.isEmpty with
  | false =>
    rw [step_of_isEmpty_false he, step_of_isEmpty_false he]
    exact play_same h
  | true =>
    obtain ⟨hc₁, hc₂⟩ := collect_same h g.format g.header
    rw [step_of_isEmpty he, step_of_isEmpty he, h.toList]
    split
    · exact play_same hc₂
    · have he' : (collect g.format g.header r').2.isEmpty = (collect g.format g.header r).2.isEmpty := by
        simp only [ByteRing.isEmpty_eq, hc₂.toList]
      rw [he', hc₁]
      split
      · exact ⟨rfl, rfl, rfl, hc₂⟩
      · exact ⟨rfl, rfl, rfl, hc₂⟩

end Generator

/-! ## Sessions that play alike -/

namespace Session

/-- Sessions that play alike: twin tapes, rings alike, and the same sink,
generator, selection and state. -/
structure Twin (pre : List Event) (s u : Session) : Prop where
  tape : Tape.Twin pre s.toTape u.toTape
  sink : u.sink = s.sink
  ring : s.ring.Same u.ring
  gen : u.gen = s.gen
  path : u.path = s.path
  started : u.started = s.started
  restartPending : u.restartPending = s.restartPending

variable {pre : List Event} {s u : Session}

theorem Twin.note (h : Twin pre s u) (d d' : String) : Twin pre (s.note d) (u.note d') :=
  { h with tape := h.tape.note d d' }

theorem Twin.reset (h : Twin pre s u) : Twin pre s.reset u.reset :=
  { h with
    tape := { h.tape with finished := rfl, headerPending := rfl, dataPending := rfl, loops := rfl },
    ring := ByteRing.same_clear h.ring.capacity, gen := congrArg Generator.start h.tape.format }

theorem Twin.close (h : Twin pre s u) : Twin pre s.close u.close := { h with tape := h.tape.close }

theorem Twin.stop (h : Twin pre s u) : Twin pre s.stop u.stop := by
  unfold Session.stop
  by_cases hs : s.started = true
  · have hs' : u.started = true := h.started.trans hs
    rw [if_neg (by simp [hs]), if_neg (by simp [hs'])]
    exact ({ h with started := rfl, restartPending := rfl } :
      Twin pre { s with started := false, restartPending := false }
        { u with started := false, restartPending := false }).reset.close
  · have hs' : ¬u.started = true := by rwa [h.started]
    rw [if_pos (by simpa using hs), if_pos (by simpa using hs')]
    exact h

/-- One round of filling: twins push the same byte onto rings alike. -/
theorem Twin.fillRound (h : Twin pre s u) :
    Twin pre
      { s with toTape := s.toTape.round.tape,
               ring := match s.toTape.round.byte with
                 | some c => s.ring.push c
                 | none => s.ring }
      { u with toTape := u.toTape.round.tape,
               ring := match u.toTape.round.byte with
                 | some c => u.ring.push c
                 | none => u.ring } :=
  { h with
    tape := h.tape.round.2.2
    ring := by
      rw [h.tape.round.1]
      cases s.toTape.round.byte with
      | some c => exact h.ring.push c
      | none => exact h.ring }

/-- A round of filling goes on for twins alike and keeps them twins. -/
theorem Twin.fillStep (h : Twin pre s u) :
    (∀ s', s.fillStep = .more s' → ∃ u', u.fillStep = .more u' ∧ Twin pre s' u') ∧
    (∀ s', s.fillStep = .done s' → ∃ u', u.fillStep = .done u' ∧ Twin pre s' u') := by
  unfold Session.fillStep
  dsimp only
  rw [h.tape.round.2.1]
  cases s.toTape.round.more
  · refine ⟨fun _ hs => ?_, fun _ hs => ?_⟩
    · simp at hs
    · simp only [Bool.false_eq_true, ↓reduceIte, FillStep.done.injEq] at hs
      subst hs
      exact ⟨_, rfl, h.fillRound⟩
  · refine ⟨fun _ hs => ?_, fun _ hs => ?_⟩
    · simp only [↓reduceIte, FillStep.more.injEq] at hs
      subst hs
      exact ⟨_, rfl, h.fillRound⟩
    · simp at hs

/-- Twin sessions fill their rings alike: they test their rounds against one
stand, as twin tapes stand alike. -/
theorem Twin.fillFrom (h : Twin pre s u) (before : Tape.Stand) :
    Twin pre (s.fillFrom before) (u.fillFrom before) := by
  have hfree : u.ring.free = s.ring.free := h.ring.free
  induction s, before using Session.fillFrom.induct generalizing u with
  | case1 s before hf =>
    rw [Session.fillFrom, Session.fillFrom, if_pos hf, if_pos (hfree.trans hf)]
    exact h
  | case2 s before hf s' hstep _ hlow =>
    rename_i ih
    obtain ⟨u', hu, h'⟩ := h.fillStep.1 s' hstep
    rw [Session.fillFrom, Session.fillFrom, if_neg hf, if_neg (hfree ▸ hf), hstep, hu]
    dsimp only
    rw [h'.tape.stand, dif_pos hlow, dif_pos hlow]
    exact ih h' h'.ring.free
  | case3 s before hf s' hstep _ =>
    rename_i hlow
    obtain ⟨u', hu, h'⟩ := h.fillStep.1 s' hstep
    rw [Session.fillFrom, Session.fillFrom, if_neg hf, if_neg (hfree ▸ hf), hstep, hu]
    dsimp only
    rw [h'.tape.stand, dif_neg hlow, dif_neg hlow]
    exact h'
  | case4 s before hf s' hstep =>
    obtain ⟨u', hu, h'⟩ := h.fillStep.2 s' hstep
    rw [Session.fillFrom, Session.fillFrom, if_neg hf, if_neg (hfree ▸ hf), hstep, hu]
    exact h'

theorem Twin.fill (h : Twin pre s u) : Twin pre s.fill u.fill := by
  rw [Session.fill, Session.fill, h.tape.stand]
  exact h.fillFrom _

/-- A generator step with its pulse pushed keeps twins twins. -/
theorem Twin.step (h : Twin pre s u) (g : Generator) {r r' : ByteRing} (hr : r.Same r') (p : Option Pulse) :
    Twin pre { s with gen := g, ring := r, sink := p.elim s.sink s.sink.push }
      { u with gen := g, ring := r', sink := p.elim u.sink u.sink.push } :=
  { h with gen := rfl, ring := hr, sink := by rw [h.sink] }

/-- Twin sessions drain alike: the generator takes the same bytes off rings
alike and hands the same pulses to the same sink. -/
theorem Twin.drain (h : Twin pre s u) : u.drain.1 = s.drain.1 ∧ Twin pre s.drain.2 u.drain.2 := by
  induction s using drain_induction generalizing u with
  | halt s hgo =>
    rw [drain_eq, drain_eq, if_pos hgo, if_pos (by rwa [h.started, h.sink])]
    exact ⟨rfl, h⟩
  | next s hgo ih =>
    have hgo' : (!u.started || u.sink.isFull) = (!s.started || s.sink.isFull) := by
      rw [h.started, h.sink]
    have hgf : u.gen.step u.ring u.finished = s.gen.step u.ring s.finished := by
      rw [h.gen, h.tape.finished]
    have ho := Generator.step_same h.ring s.gen s.finished
    rw [drain_eq, drain_eq, hgo', hgf]
    simp only [hgo, Bool.false_eq_true, ↓reduceIte]
    rw [ho.result, ho.pulse, ho.gen]
    split_ifs with hi he
    · exact ⟨rfl, h.step _ ho.ring _⟩
    · exact ⟨rfl, ((h.step _ ho.ring _).note _ _).stop⟩
    · obtain ⟨h₁, h₂⟩ := ih hi he (h.step _ ho.ring _)
      exact ⟨by rw [h₁], h₂⟩

/-- Stopped sessions with the same sink, the one with the events the other
has after `pre`. -/
structure Halted (pre : List Event) (s u : Session) : Prop where
  stopped : s.started = false
  started : u.started = s.started
  sink : u.sink = s.sink
  events : s.events.toList = pre ++ u.events.toList

/-- Sessions that play alike from now on: twins, or both stopped. -/
def Alike (pre : List Event) (s u : Session) : Prop := Twin pre s u ∨ Halted pre s u

theorem Alike.started (h : Alike pre s u) : u.started = s.started := h.elim Twin.started Halted.started

theorem Alike.sink (h : Alike pre s u) : u.sink = s.sink := h.elim Twin.sink Halted.sink

theorem Alike.events (h : Alike pre s u) : s.events.toList = pre ++ u.events.toList :=
  h.elim (fun h => h.tape.events) Halted.events

theorem Alike.withSink (h : Alike pre s u) (q : PulseQueue) :
    Alike pre { s with sink := q } { u with sink := q } :=
  h.imp (fun h => { h with sink := rfl }) (fun h => { h with sink := rfl })

/-- Sessions about to open their tape afresh, from tapes kin and with the same
sink, selection and ring capacity. -/
structure Kin (pre : List Event) (s u : Session) : Prop where
  tape : Tape.Kin pre s.toTape u.toTape
  sink : u.sink = s.sink
  capacity : u.ring.capacity = s.ring.capacity
  path : u.path = s.path

/-- The tick that opens the tape afresh: kin sessions hand over the same
pulses and play alike from then on, whether the tape opens or not. -/
theorem Kin.advance (h : Kin pre s u) (hs : s.started = true) (hs' : u.started = true)
    (hr : s.restartPending = true) (hr' : u.restartPending = true) :
    u.advance.1 = s.advance.1 ∧ Alike pre s.advance.2 u.advance.2 := by
  obtain ⟨hok, hK, hT⟩ := h.tape.reopen s.path
  rw [advance_of_restart hs hr, advance_of_restart hs' hr', h.path]
  by_cases ho : (s.toTape.cleared.openTape s.path).2 = true
  · rw [if_pos ho, if_pos (hok.trans ho)]
    have hT' := hT ho
    have hre : Twin pre s.reopened u.reopened := by
      unfold Session.reopened
      rw [h.path]
      exact ⟨hT', h.sink, ByteRing.same_clear h.capacity, congrArg Generator.start hT'.format, h.path,
        hs'.trans hs.symm, rfl⟩
    obtain ⟨h₁, h₂⟩ := hre.fill.drain
    exact ⟨h₁, .inl h₂⟩
  · rw [if_neg ho, if_neg (show ¬(u.cleared.openTape s.path).2 = true by rwa [hok])]
    exact ⟨rfl, .inr ⟨rfl, rfl, h.sink, hK.close.events⟩⟩

/-- One tick of sessions that play alike: the same pulses handed over, and
alike after it. -/
theorem Alike.advance (h : Alike pre s u) : u.advance.1 = s.advance.1 ∧ Alike pre s.advance.2 u.advance.2 := by
  rcases h with h | h
  · by_cases hs : s.started = true
    · have hs' : u.started = true := h.started.trans hs
      by_cases hr : s.restartPending = true
      · exact Kin.advance ⟨h.tape.kin, h.sink, h.ring.capacity, h.path⟩ hs hs' hr
          (h.restartPending.trans hr)
      · -- playing on: fill and drain
        have hr' : ¬u.restartPending = true := by rwa [h.restartPending]
        rw [advance_eq, advance_eq, if_neg (show ¬(!u.started) = true by simp [hs']),
          if_neg (show ¬(!s.started) = true by simp [hs]), if_neg hr, if_neg hr']
        obtain ⟨h₁, h₂⟩ := h.fill.drain
        exact ⟨h₁, .inl h₂⟩
    · have hs' : ¬u.started = true := by rwa [h.started]
      rw [advance_eq, advance_eq, if_pos (show (!u.started) = true by simpa using hs'),
        if_pos (show (!s.started) = true by simpa using hs)]
      exact ⟨rfl, .inl h⟩
  · rw [advance_eq, advance_eq, if_pos (show (!u.started) = true by simp [h.started, h.stopped]),
      if_pos (show (!s.started) = true by simp [h.stopped])]
    exact ⟨rfl, .inr h⟩

/-- Runs alike: as many ticks, the same pulses taken out and handed over, and
sessions alike at the end. -/
structure Run.Alike (pre : List Event) (R R' : Run) : Prop where
  ticks : R'.ticks = R.ticks
  pulses : R'.pulses = R.pulses
  pushed : R'.pushed = R.pushed
  session : Session.Alike pre R.session R'.session

/-- A run of `limit + 1` ticks is alike when its first tick is, and runs of
`limit` ticks from sessions alike are. -/
theorem runFor_succ_alike {limit : Nat}
    (hstep : u.advance.1 = s.advance.1 ∧ Alike pre s.advance.2 u.advance.2)
    (hrest : ∀ {s u : Session}, Alike pre s u →
      ∀ n acc given, Run.Alike pre (runFor limit s n acc given) (runFor limit u n acc given))
    (n : Nat) (acc given : List Pulse) :
    Run.Alike pre (runFor (limit + 1) s n acc given) (runFor (limit + 1) u n acc given) := by
  obtain ⟨h₁, h₂⟩ := hstep
  have hq : u.advance.2.sink = s.advance.2.sink := h₂.sink
  rw [runFor_succ, runFor_succ, h₁, hq]
  by_cases hc : (!s.advance.2.started || limit = 0) = true
  · rw [if_pos hc, if_pos (show (!u.advance.2.started || limit = 0) = true by rwa [h₂.started])]
    exact ⟨rfl, rfl, rfl, h₂.withSink _⟩
  · rw [if_neg hc, if_neg (show ¬(!u.advance.2.started || limit = 0) = true by rwa [h₂.started])]
    exact hrest (h₂.withSink _) _ _ _

/-- Sessions alike run alike, tick for tick. -/
theorem Alike.runFor (h : Alike pre s u) (limit n : Nat) (acc given : List Pulse) :
    Run.Alike pre (runFor limit s n acc given) (runFor limit u n acc given) := by
  induction limit generalizing s u n acc given with
  | zero => exact ⟨rfl, rfl, rfl, h⟩
  | succ limit ih => exact runFor_succ_alike h.advance (fun h' => ih h') n acc given

/-- Kin sessions about to open their tape afresh run alike. -/
theorem Kin.run (h : Kin pre s u) (hs : s.started = true) (hs' : u.started = true)
    (hr : s.restartPending = true) (hr' : u.restartPending = true) (n : Nat) :
    Run.Alike pre (s.run n) (u.run n) := by
  rw [Session.run, Session.run, show max n 1 = (max n 1 - 1) + 1 by omega]
  exact runFor_succ_alike (h.advance hs hs' hr hr') (fun h' => h'.runFor _) 0 [] []

end Session

/-! ## Reachable states -/

namespace Tape

theorem loopDepth_probePreamble (t : Tape) : t.probePreamble.1.loopDepth = t.loopDepth := by
  have hr : t.readBytes tzxPreambleSize =
      ((t.readBytes tzxPreambleSize).1, (t.readBytes tzxPreambleSize).2) := rfl
  unfold probePreamble
  dsimp only
  split_ifs
  · exact (steady_readBytes hr).loopDepth
  · exact ((steady_readBytes hr).trans (steady_seekTo 0)).loopDepth
  · rfl

/-- Opening a tape, whether the file opens or not, keeps its loop depth. -/
theorem loopDepth_openTape (t : Tape) (path : String) : (t.openTape path).1.loopDepth = t.loopDepth := by
  obtain ⟨-, -, hD, -, -⟩ := close_frame t
  rw [openTape_eq]
  rcases t.close.shelf.openTape path t.close.log with ⟨sh, lg, e | src⟩
  · exact (steady_note _).loopDepth.trans hD
  · dsimp only
    have hP := loopDepth_probePreamble
      { t.close with shelf := sh, log := lg, source := some src, size := src.size, pos := 0, format := .tap }
    split
    · next R heq =>
      rw [heq] at hP
      exact (steady_note _).loopDepth.trans (hP.trans hD)
    · next R heq =>
      rw [heq] at hP
      exact hP.trans hD

end Tape

namespace Session

variable {s : Session} {D C : Nat}

/-- What no call changes: the loop depth and the ring's capacity. -/
structure Fixed (D C : Nat) (s : Session) : Prop where
  loopDepth : s.loopDepth = D
  capacity : s.ring.capacity = C

theorem Fixed.note (h : Fixed D C s) (d : String) : Fixed D C (s.note d) :=
  ⟨(Tape.steady_note d).loopDepth.trans h.loopDepth, h.capacity⟩

theorem Fixed.close (h : Fixed D C s) : Fixed D C s.close :=
  ⟨(Tape.close_frame s.toTape).2.2.1.trans h.loopDepth, h.capacity⟩

theorem Fixed.stop (h : Fixed D C s) : Fixed D C s.stop := by
  unfold Session.stop
  split
  · exact h
  · exact Fixed.close ⟨h.loopDepth, h.capacity⟩

theorem Fixed.restart (h : Fixed D C s) : Fixed D C s.restart := by
  unfold Session.restart
  split
  · exact h.note _
  · exact ⟨h.loopDepth, h.capacity⟩

theorem Fixed.start (h : Fixed D C s) : Fixed D C s.start := by
  unfold Session.start
  split
  · exact h
  · exact h.restart

theorem Fixed.fill (h : Fixed D C s) : Fixed D C s.fill := by
  obtain ⟨l, hr, -, hcap, -⟩ := fill_reads s
  exact ⟨hr.steady.loopDepth.trans h.loopDepth, hcap.trans h.capacity⟩

theorem Fixed.drain (h : Fixed D C s) : Fixed D C s.drain.2 := by
  obtain ⟨g, r, q, hs, hcap, -⟩ := drain_shape s
  have h' : Fixed D C { s with gen := g, ring := r, sink := q } := ⟨h.loopDepth, hcap.trans h.capacity⟩
  rcases hs with hs | hs <;> rw [hs]
  · exact h'
  · exact (h'.note _).stop

theorem Fixed.advance (h : Fixed D C s) : Fixed D C s.advance.2 := by
  have hopen : (s.toTape.cleared.openTape s.path).1.loopDepth = D :=
    (Tape.loopDepth_openTape _ _).trans h.loopDepth
  rw [advance_eq]
  split_ifs
  · exact h
  · exact (Fixed.fill (s := s.reopened) ⟨hopen, h.capacity⟩).drain
  · exact Fixed.close ⟨hopen, h.capacity⟩
  · exact h.fill.drain

theorem Fixed.perform (h : Fixed D C s) (c : Call) : Fixed D C (s.perform c).2 := by
  cases c with
  | select path => exact ⟨h.loopDepth, h.capacity⟩
  | start => exact h.start
  | stop => exact h.stop
  | restart => exact h.restart
  | tick => exact h.advance
  | key k =>
    show Fixed D C (s.handleKey k).1
    unfold handleKey
    split
    · exact h
    · split
      · exact h.stop
      · exact h.start
  | watch o => exact ⟨h.loopDepth, h.capacity⟩
  | pop => exact ⟨h.loopDepth, h.capacity⟩
  | drainSink => exact ⟨h.loopDepth, h.capacity⟩
  | resetSink => exact ⟨h.loopDepth, h.capacity⟩

theorem Fixed.performAll (h : Fixed D C s) (cs : List Call) : Fixed D C (s.performAll cs).2 := by
  induction cs generalizing s with
  | nil => exact h
  | cons c cs ih => exact ih (h.perform c)

/-- Whatever calls a session made by `create` has taken, a restart with a
tape selected plays that tape as a new session made with the same settings,
shelf, sink and observer, selected and started on it, does: for every bound on
the ticks, the two runs take as many ticks, hand over and take out the same
pulses, and stop alike, and the restarted session records after the events
it had the very events the new one records.  Nothing of the old play, bytes
in the ring, a pulse or header half made, blocks or loops under way, an
ended tape, is left to show. -/
theorem restart_plays_as_new (cfg : Config) (shelf : Shelf) (sink : PulseQueue) (log log' : Log)
    (cs : List Call) (s : Session) (hs : s = ((create cfg shelf sink log).performAll cs).2)
    (hp : s.path ≠ "") (n : Nat) :
    let F := (((create cfg s.shelf s.sink log').observedBy s.observer).select s.path).start
    (F.run n).ticks = (s.restart.run n).ticks ∧ (F.run n).pulses = (s.restart.run n).pulses ∧
      (F.run n).pushed = (s.restart.run n).pushed ∧
      (F.run n).session.started = (s.restart.run n).session.started ∧
      (s.restart.run n).session.events.toList = s.events.toList ++ (F.run n).session.events.toList := by
  intro F
  have hfix : Fixed (create cfg shelf sink log).loopDepth (create cfg shelf sink log).ring.capacity s := by
    rw [hs]
    exact Fixed.performAll ⟨rfl, rfl⟩ cs
  have hR : s.restart = { s.reset with restartPending := true, started := true } := by
    unfold Session.restart
    rw [if_neg hp]
  have hF : F = { (((create cfg s.shelf s.sink log').observedBy s.observer).select s.path).reset with
      restartPending := true, started := true } := by
    show Session.start _ = _
    rw [start_of_stopped rfl]
    exact if_neg hp
  have hK : Kin s.events.toList s.restart F := by
    rw [hR, hF]
    exact ⟨⟨hfix.loopDepth.symm, Shelf.Kin.refl _, (List.append_nil _).symm, rfl⟩, rfl,
      hfix.capacity.symm, rfl⟩
  have hrun := hK.run (by rw [hR]) (by rw [hF]) (by rw [hR]) (by rw [hF]) n
  exact ⟨hrun.ticks, hrun.pulses, hrun.pushed, hrun.session.started, hrun.session.events⟩

/-- Restarting a session started on `loopedTone` before its first tick. -/
theorem restart_started_plays_as_new :
    let s := ((create {} { rack := .memory [("a.tzx", loopedTone)] } (PulseQueue.ofDepth 1)
      (Log.ofCapacity 8)).performAll [.watch .record, .select "a.tzx", .start]).2
    s.path ≠ "" ∧
      let F := (((create {} s.shelf s.sink (Log.ofCapacity 8)).observedBy s.observer).select s.path).start
      (F.run 40).ticks = (s.restart.run 40).ticks ∧ (F.run 40).pulses = (s.restart.run 40).pulses ∧
        (F.run 40).pushed = (s.restart.run 40).pushed ∧
        (F.run 40).session.started = (s.restart.run 40).session.started ∧
        (s.restart.run 40).session.events.toList = s.events.toList ++ (F.run 40).session.events.toList := by
  intro s
  have hp : s.path ≠ "" := by decide
  exact ⟨hp, restart_plays_as_new {} _ _ _ (Log.ofCapacity 8) _ s rfl hp 40⟩

end Session

end TapeDeck
