import TapeDeck.Proofs.Catalogue

/-!
# Loops

A TZX image repeats a run of blocks by a loop: a loop start (`0x24`), whose
header gives a repeat count, the blocks of the body, and a loop end (`0x25`).
The catalogue lists every block once.  A session plays a loop with a stack of
frames, each the file position of a body and the repeats it has left, and at
a loop end with repeats left it seeks the file back to the body.

*Unrolling.*  `Catalogue.Unrolls es xs ev d` says that the entries `es` pair
every loop start with a loop end after it, nested at most `d` deep, and that,
with the body of every loop repeated as its count says and at least once,
they are the entries `xs` and the events `ev`: for each loop one loop start,
a repeat after every pass of the body but the last and one loop end, and for
each other block one event.  An inner loop is unrolled afresh on every pass
of an outer one.

*Positions.*  `Catalogue.Listed D f p es q` says that the entries `es` are
the blocks of `D` from `p` to `q`, each where the one before ends.  The
listing of a whole image is such a run (`Catalogue.listed_entriesFrom`).

*Playing.*  One round reads a loop start and pushes a frame
(`Tape.At.loopStart`); one round reads a loop end and goes back to the body
with one repeat fewer (`Tape.At.loopRepeat`) or pops the frame
(`Tape.At.loopExit`).  By induction on the counter a loop plays its body as
often as its count says (`Catalogue.passes_loop`), and by induction on the
unrolling the reader hands out the bytes of the unrolled entries and records
their events (`Catalogue.Unrolls.passes`).
-/

namespace TapeDeck

namespace Tape

variable {t : Tape} {D : ByteArray} {p q : Nat}

/-! ## Loop blocks on the tape -/

theorem decode_loop {hdr : List UInt8}
    (h : hdr.headD 0 = BlockId.loopStart ∨ hdr.headD 0 = BlockId.loopEnd) :
    Timing.decode hdr .tzx = Timing.standard := by
  have hb : Header.byteAt hdr 0 = 0x24 ∨ Header.byteAt hdr 0 = 0x25 := by
    cases hdr with
    | nil => simp [BlockId.loopStart, BlockId.loopEnd] at h
    | cons b _ =>
      simp only [List.headD_cons] at h
      rcases h with rfl | rfl
      exacts [Or.inl rfl, Or.inr rfl]
  rcases hb with hb | hb <;> simp [Timing.decode, Timing.ofTzxHeader, hb]

theorem isAudible_standard : Timing.standard.isAudible = false := rfl

theorem At.withLoops {k : Nat} (hA : t.At D p k) (L : List LoopFrame) : { t with loops := L }.At D p k :=
  ⟨hA.source, hA.pos, hA.size, hA.finished, hA.headerPending, hA.dataPending, hA.seeks⟩

/-- The frame a loop end finds on top. -/
theorem handleBlock_loopEnd_eq (hf : t.format = .tzx) (o : Nat) (tm : Timing)
    (hid : t.header.headD 0 = BlockId.loopEnd) {top : LoopFrame} {L : List LoopFrame}
    (hl : t.loops = top :: L) :
    t.handleBlock o tm =
      if 0 < top.counter - 1 then
        match ({ t with loops := { top with counter := top.counter - 1 } :: L }.observe o tm
            .loopRepeat).seekTo top.offset with
        | (t, true) => t
        | (t, false) => { t with finished := true }
      else { t with loops := L }.observe o tm .loopEnd := by
  have hne : ¬(t.format = .tzx ∧ t.header.headD 0 = BlockId.loopStart) :=
    fun h => absurd (hid.symm.trans h.2) (by decide)
  unfold handleBlock
  rw [if_neg hne, if_pos (And.intro hf hid)]
  split
  · next heq => cases hl.symm.trans heq
  · next top' L' heq =>
    cases hl.symm.trans heq
    rfl

section Handle

variable (hA : t.At D q 0) (hf : t.format = .tzx) (o : Nat) (tm : Timing)
include hA hf

/-- A loop start with room for one more loop pushes a frame: the body starts
where the tape stands, and the counter is the header's count. -/
theorem At.handleBlock_loopStart (hid : t.header.headD 0 = BlockId.loopStart)
    (hroom : t.loops.length < t.loopDepth) :
    (t.handleBlock o tm).At D q 0 ∧
      (t.handleBlock o tm).loops = ⟨q, Timing.loopCount t.header⟩ :: t.loops ∧
      Alike t (t.handleBlock o tm) ∧
      (t.handleBlock o tm).trail = t.trail ++ t.kept [(o, .loopStart)] := by
  have hh : t.handleBlock o tm =
      { t with loops := ⟨t.pos, Timing.loopCount t.header⟩ :: t.loops }.observe o tm .loopStart := by
    unfold Tape.handleBlock
    simp only [if_pos (And.intro hf hid), if_pos hroom]
  rw [hh]
  exact ⟨(hA.withLoops _).observe o tm .loopStart, by simp [hA.pos], ⟨by simp, by simp, by simp⟩,
    by simp [Tape.trail, Tape.kept]⟩

/-- A loop end whose loop has repeats left counts one off and goes back to
the loop's body. -/
theorem At.handleBlock_loopRepeat (hid : t.header.headD 0 = BlockId.loopEnd) {top : LoopFrame}
    {L : List LoopFrame} (hl : t.loops = top :: L) (hk : 1 < top.counter) :
    (t.handleBlock o tm).At D top.offset 0 ∧
      (t.handleBlock o tm).loops = { top with counter := top.counter - 1 } :: L ∧
      Alike t (t.handleBlock o tm) ∧
      (t.handleBlock o tm).trail = t.trail ++ t.kept [(o, .loopRepeat)] := by
  have hA' := (hA.withLoops ({ top with counter := top.counter - 1 } :: L)).observe o tm .loopRepeat
  rw [handleBlock_loopEnd_eq hf o tm hid hl, if_pos (by omega), hA'.seekTo]
  exact ⟨hA'.seeked top.offset, by simp, ⟨by simp, by simp, by simp⟩, by simp [Tape.trail, Tape.kept]⟩

/-- A loop end whose loop has no repeats left closes it. -/
theorem At.handleBlock_loopExit (hid : t.header.headD 0 = BlockId.loopEnd) {top : LoopFrame}
    {L : List LoopFrame} (hl : t.loops = top :: L) (hk : top.counter ≤ 1) :
    (t.handleBlock o tm).At D q 0 ∧ (t.handleBlock o tm).loops = L ∧
      Alike t (t.handleBlock o tm) ∧
      (t.handleBlock o tm).trail = t.trail ++ t.kept [(o, .loopEnd)] := by
  rw [handleBlock_loopEnd_eq hf o tm hid hl, if_neg (by omega)]
  exact ⟨(hA.withLoops L).observe o tm .loopEnd, by simp, ⟨by simp, by simp, by simp⟩,
    by simp [Tape.trail, Tape.kept]⟩

end Handle

/-- Between blocks, the header of a loop start or a loop end is read in one
round and handled there and then. -/
theorem round_loop (hA : t.At D p 0) (hf : t.format = .tzx) {c : UInt8}
    (hc : D.data.toList[p]? = some c) (hcl : c = BlockId.loopStart ∨ c = BlockId.loopEnd)
    (hfit : p + headerSize c .tzx ≤ D.size) :
    t.round = ⟨({ t.movedTo (p + headerSize c .tzx) with
      header := (D.data.toList.drop p).take (headerSize c .tzx) } : Tape).handleBlock p Timing.standard,
      none, true⟩ := by
  have hhd := headD_take hc (headerSize_pos c .tzx)
  rw [round_header hA hc (by rw [hf]; exact hfit)]
  simp only [hf, decode_loop (by rw [hhd]; exact hcl), isAudible_standard, Bool.false_eq_true, if_false]

/-- A round that reads a header and handles its block there and then hands
out nothing, and the tape records what handling the block records. -/
theorem Passes.handled {T t₁ : Tape} {h : List UInt8} {m : Bool} {evs : List (Nat × Action)}
    (hr : t.round = ⟨T, none, m⟩) (h₁ : t₁ = { t.movedTo q with header := h }) (ha : Alike t₁ T)
    (ht : T.trail = t₁.trail ++ t₁.kept evs) : Passes t [] evs T := by
  subst h₁
  exact Passes.round hr (Alike.trans ⟨by simp [format_movedTo], by simp, by simp⟩ ha)
    (by rw [ht]; rfl)

section Rounds

variable (hA : t.At D p 0) (hf : t.format = .tzx)
include hA hf

/-- A loop start with room for one more loop opens it: its body starts
after the three bytes of the header, and its counter is the header's count. -/
theorem At.loopStart (hc : D.data.toList[p]? = some BlockId.loopStart) (hfit : p + 3 ≤ D.size)
    (hroom : t.loops.length < t.loopDepth) :
    ∃ t', Passes t [] [(p, .loopStart)] t' ∧
      t'.loops = ⟨p + 3, Timing.loopCount ((D.data.toList.drop p).take 3)⟩ :: t.loops ∧
      t'.At D (p + 3) 0 := by
  have hsize : headerSize BlockId.loopStart .tzx = 3 := rfl
  have hround := round_loop hA hf hc (Or.inl rfl) (by rw [hsize]; exact hfit)
  rw [hsize] at hround
  obtain ⟨hA', hl', ha', ht'⟩ := ((hA.moved (p + 3)).header ((D.data.toList.drop p).take 3)).handleBlock_loopStart
    (by simpa using hf) p Timing.standard (headD_take hc (by omega)) (by simpa using hroom)
  exact ⟨_, Passes.handled hround rfl ha' ht', by simpa using hl', hA'⟩

/-- A loop end whose loop, on top, has repeats left goes back to the loop's
body with one repeat fewer. -/
theorem At.loopRepeat (hc : D.data.toList[p]? = some BlockId.loopEnd) (hfit : p + 1 ≤ D.size)
    {o k : Nat} {L : List LoopFrame} (hl : t.loops = ⟨o, k⟩ :: L) (hk : 1 < k) :
    ∃ t', Passes t [] [(p, .loopRepeat)] t' ∧ t'.loops = ⟨o, k - 1⟩ :: L ∧ t'.At D o 0 := by
  have hsize : headerSize BlockId.loopEnd .tzx = 1 := rfl
  have hround := round_loop hA hf hc (Or.inr rfl) (by rw [hsize]; exact hfit)
  rw [hsize] at hround
  obtain ⟨hA', hl', ha', ht'⟩ := ((hA.moved (p + 1)).header ((D.data.toList.drop p).take 1)).handleBlock_loopRepeat
    (by simpa using hf) p Timing.standard (headD_take hc (by omega)) (by simpa using hl) hk
  exact ⟨_, Passes.handled hround rfl ha' ht', hl', hA'⟩

/-- A loop end whose loop, on top, has no repeats left closes it, and the
tape goes on after the loop end. -/
theorem At.loopExit (hc : D.data.toList[p]? = some BlockId.loopEnd) (hfit : p + 1 ≤ D.size)
    {top : LoopFrame} {L : List LoopFrame} (hl : t.loops = top :: L) (hk : top.counter ≤ 1) :
    ∃ t', Passes t [] [(p, .loopEnd)] t' ∧ t'.loops = L ∧ t'.At D (p + 1) 0 := by
  have hsize : headerSize BlockId.loopEnd .tzx = 1 := rfl
  have hround := round_loop hA hf hc (Or.inr rfl) (by rw [hsize]; exact hfit)
  rw [hsize] at hround
  obtain ⟨hA', hl', ha', ht'⟩ := ((hA.moved (p + 1)).header ((D.data.toList.drop p).take 1)).handleBlock_loopExit
    (by simpa using hf) p Timing.standard (headD_take hc (by omega)) (by simpa using hl) hk
  exact ⟨_, Passes.handled hround rfl ha' ht', hl', hA'⟩

end Rounds

end Tape

namespace Catalogue

/-- The events of a loop whose body records `eb` and is played `k` times, and
whose end is at `o`: a repeat after every pass of the body but the last, and
the loop's end after the last. -/
def loopTrail (k : Nat) (eb : List (Nat × Action)) (o : Nat) : List (Nat × Action) :=
  (List.replicate (k - 1) (eb ++ [(o, .loopRepeat)])).flatten ++ eb ++ [(o, .loopEnd)]

/-- `Unrolls es xs ev d`: the entries `es` pair every loop start with a loop
end after it, the loops nested at most `d` deep; with the body of each loop
repeated as its count says, at least once, they are the entries `xs`, and
they give the events `ev`. -/
inductive Unrolls : List CatalogueEntry → List CatalogueEntry → List (Nat × Action) → Nat → Prop
  | nil : Unrolls [] [] [] 0
  | block {e : CatalogueEntry} {es xs : List CatalogueEntry} {ev : List (Nat × Action)} {d : Nat} :
      e.id ≠ BlockId.loopStart → e.id ≠ BlockId.loopEnd → Unrolls es xs ev d →
      Unrolls (e :: es) (e :: xs) ((e.offset, if e.audible then .queued else .skipped) :: ev) d
  | loop {s e : CatalogueEntry} {body rest xb xr : List CatalogueEntry} {eb er : List (Nat × Action)}
      {db dr : Nat} :
      s.id = BlockId.loopStart → e.id = BlockId.loopEnd → Unrolls body xb eb db →
      Unrolls rest xr er dr →
      Unrolls (s :: body ++ e :: rest) ((List.replicate (max s.repeats 1) xb).flatten ++ xr)
        ((s.offset, .loopStart) :: loopTrail (max s.repeats 1) eb e.offset ++ er) (max (db + 1) dr)

/-- `Listed D f p es q`: the entries `es` are the whole blocks of the image
`D`, read as `f`, from byte `p` to byte `q`, each where the one before ends. -/
inductive Listed (D : ByteArray) (f : Format) : Nat → List CatalogueEntry → Nat → Prop
  | nil (p : Nat) : Listed D f p [] p
  | cons {p q : Nat} {c : UInt8} {es : List CatalogueEntry} :
      D.data.toList[p]? = some c → (entryAt D f p (headerSize c f)).truncated = false →
      Listed D f (entryStop D f p (headerSize c f)) es q →
      Listed D f p (entryAt D f p (headerSize c f) :: es) q

variable {D : ByteArray} {f : Format}

/-! ## Unrolled entries and their events -/

theorem loopTrail_one (eb : List (Nat × Action)) (o : Nat) :
    loopTrail 1 eb o = eb ++ [(o, .loopEnd)] := by
  simp [loopTrail]

theorem loopTrail_succ {k : Nat} (hk : 0 < k) (eb : List (Nat × Action)) (o : Nat) :
    loopTrail (k + 1) eb o = eb ++ (o, .loopRepeat) :: loopTrail k eb o := by
  obtain ⟨j, rfl⟩ : ∃ j, k = j + 1 := ⟨k - 1, by omega⟩
  simp [loopTrail, List.replicate_succ]

/-- Every entry of an unrolling is an entry of the listing. -/
theorem Unrolls.mem {es xs : List CatalogueEntry} {ev : List (Nat × Action)} {d : Nat}
    (hu : Unrolls es xs ev d) {x : CatalogueEntry} (hx : x ∈ xs) : x ∈ es := by
  induction hu with
  | nil => exact hx
  | block _ _ _ ih =>
    rcases List.mem_cons.1 hx with rfl | hx
    · exact List.mem_cons_self
    · exact List.mem_cons_of_mem _ (ih hx)
  | loop _ _ _ _ ihb ihr =>
    rcases List.mem_append.1 hx with hx | hx
    · obtain ⟨l, hl, hxl⟩ := List.mem_flatten.1 hx
      rw [(List.mem_replicate.1 hl).2] at hxl
      simp [ihb hxl]
    · simp [ihr hx]

/-- The queued events of a loop are those of its body, once for every pass. -/
theorem queued_loopTrail {k : Nat} (hk : 0 < k) (eb : List (Nat × Action)) (o : Nat) :
    (loopTrail k eb o).filter (·.2 = .queued) =
      (List.replicate k (eb.filter (·.2 = .queued))).flatten := by
  induction k with
  | zero => omega
  | succ k ih =>
    rcases Nat.eq_zero_or_pos k with rfl | hk'
    · simp [loopTrail_one]
    · rw [loopTrail_succ hk', List.filter_append, List.filter_cons, ih hk', List.replicate_succ,
        List.flatten_cons]
      simp

/-- The queued events of an unrolling are those of its audible entries, one
for each, in order and at its offset. -/
theorem Unrolls.queued {es xs : List CatalogueEntry} {ev : List (Nat × Action)} {d : Nat}
    (hu : Unrolls es xs ev d) :
    (ev.filter (·.2 = .queued)).map (·.1) = (xs.filter (·.audible)).map (·.offset) := by
  induction hu with
  | nil => rfl
  | @block e _ _ _ _ _ _ _ ih =>
    by_cases ha : e.audible = true <;> simp [ha, ih]
  | @loop s _ _ _ _ _ _ _ _ _ _ _ _ _ ihb ihr =>
    have hk : 0 < max s.repeats 1 := by omega
    simp only [List.filter_cons, List.filter_append, queued_loopTrail hk, List.map_append,
      List.filter_flatten, List.map_flatten, List.map_replicate, ihr]
    simp [ihb]

/-! ## Positions -/

theorem Listed.append_inv {q : Nat} {es' : List CatalogueEntry} :
    ∀ {p : Nat} {es : List CatalogueEntry}, Listed D f p (es ++ es') q →
      ∃ m, Listed D f p es m ∧ Listed D f m es' q
  | p, [], h => ⟨p, .nil p, h⟩
  | _, _ :: _, h => by
    cases h with
    | cons hc htr hrest =>
      obtain ⟨m, h₁, h₂⟩ := Listed.append_inv hrest
      exact ⟨m, .cons hc htr h₁, h₂⟩

theorem Listed.whole {p q : Nat} {es : List CatalogueEntry} (h : Listed D f p es q)
    {e : CatalogueEntry} (he : e ∈ es) : Whole D f e := by
  induction h with
  | nil => simp at he
  | cons hc htr _ ih =>
    rcases List.mem_cons.1 he with rfl | he
    · exact ⟨⟨_, _, hc, rfl⟩, htr⟩
    · exact ih he

/-- The listing of an image from a block on, when no header is cut short and
no entry truncated, is the run of its blocks to the end of the image. -/
theorem listed_entriesFrom {p : Nat} (hcut : (entriesFrom D f p).2 = false)
    (htr : ∀ e ∈ (entriesFrom D f p).1, e.truncated = false) :
    ∃ q, D.size ≤ q ∧ Listed D f p (entriesFrom D f p).1 q := by
  fun_induction entriesFrom D f p with
  | case1 => simp at hcut
  | case2 p hp _ _ rest cut heq ih =>
    rw [heq] at ih
    simp only [List.mem_cons, forall_eq_or_imp] at htr
    obtain ⟨q, hq, hl⟩ := ih hcut htr.2
    exact ⟨q, hq, .cons (getElem?_getElem hp) htr.1 hl⟩
  | case3 p hp => exact ⟨p, by omega, .nil p⟩

/-! ## Loop blocks in a listing -/

section LoopEntries

variable {p : Nat} {c : UInt8} (hc : D.data.toList[p]? = some c)

include hc in
/-- Only a TZX block has an ID other than zero, and it is the block's first byte. -/
theorem tzx_of_id {b : UInt8} (h : (entryAt D f p (headerSize c f)).id = b) (hb : b ≠ 0) :
    f = .tzx ∧ c = b := by
  rw [id_entryAt_of hc] at h
  by_cases hf : f = .tzx
  · exact ⟨hf, by rwa [if_pos hf] at h⟩
  · rw [if_neg hf] at h
    exact absurd h.symm hb

theorem entryTiming_tzx (p size : Nat) :
    entryTiming D .tzx p size = Timing.decode ((D.data.toList.drop p).take size) .tzx := by
  simp [entryTiming, header_bytes]

include hc in
/-- A loop start or a loop end has no data: its block ends with its header. -/
theorem entryStop_loop (hcl : c = BlockId.loopStart ∨ c = BlockId.loopEnd)
    (htr : (entryAt D .tzx p (headerSize c .tzx)).truncated = false) :
    entryStop D .tzx p (headerSize c .tzx) = p + headerSize c .tzx := by
  have hhd := Tape.headD_take hc (headerSize_pos c .tzx)
  rw [entryStop_eq (fits_of_truncated htr), entryTiming_tzx, Tape.decode_loop (by rw [hhd]; exact hcl)]
  rfl

include hc in
/-- A loop start repeats its body as many times as its header says. -/
theorem repeats_entryAt (hcl : c = BlockId.loopStart) :
    (entryAt D .tzx p (headerSize c .tzx)).repeats =
      Timing.loopCount ((D.data.toList.drop p).take (headerSize c .tzx)) := by
  have hhd := Tape.headD_take hc (headerSize_pos c .tzx)
  show (if ((D.extract p (p + headerSize c .tzx)).toList.headD 0) = BlockId.loopStart then
      Timing.loopCount (D.extract p (p + headerSize c .tzx)).toList else 0) = _
  rw [header_bytes, hhd, if_pos hcl]

end LoopEntries

theorem action_of_ne {e : CatalogueEntry} (he : e.id ≠ BlockId.loopEnd) :
    e.action = if e.audible then .queued else .skipped := by
  simp [CatalogueEntry.action, he]

/-! ## Playing loops -/

section Walk

variable {m ps n db : Nat} {L : List LoopFrame} {xb : List CatalogueEntry} {eb : List (Nat × Action)}
  (hc : D.data.toList[m]? = some BlockId.loopEnd) (hm : m + 1 ≤ D.size)
  (hroom : L.length + 1 + db ≤ n)
  (hbody : ∀ {T : Tape}, T.At D ps 0 → T.format = .tzx → T.loops.length + db ≤ T.loopDepth →
    ∃ T', Tape.Passes T (readOut D xb) eb T' ∧ T'.loops = T.loops ∧ T'.At D m 0)
include hc hm hroom hbody

/-- The last pass of a loop's body, at a counter of one or less, closes the
loop. -/
theorem passes_loop_last {T : Tape} (hA : T.At D ps 0) (hf : T.format = .tzx) {k : Nat} (hk : k ≤ 1)
    (hl : T.loops = ⟨ps, k⟩ :: L) (hn : T.loopDepth = n) :
    ∃ T', Tape.Passes T (readOut D xb) (eb ++ [(m, .loopEnd)]) T' ∧ T'.loops = L ∧
      T'.At D (m + 1) 0 := by
  obtain ⟨T₁, hp₁, hl₁, hA₁⟩ := hbody hA hf (by rw [hl, hn, List.length_cons]; exact hroom)
  obtain ⟨T₂, hp₂, hl₂, hA₂⟩ := hA₁.loopExit (hp₁.alike.format.trans hf) hc hm (hl₁.trans hl) hk
  exact ⟨T₂, by simpa using hp₁.trans hp₂, hl₂, hA₂⟩

/-- A loop whose frame, on top, has counter `k` plays its body `max k 1`
times, a repeat after each pass but the last, and closes. -/
theorem passes_loop : ∀ (k : Nat) {T : Tape}, T.At D ps 0 → T.format = .tzx →
    T.loops = ⟨ps, k⟩ :: L → T.loopDepth = n →
    ∃ T', Tape.Passes T (readOut D (List.replicate (max k 1) xb).flatten) (loopTrail (max k 1) eb m) T' ∧
      T'.loops = L ∧ T'.At D (m + 1) 0 := by
  intro k
  induction k with
  | zero =>
    intro T hA hf hl hn
    simpa [loopTrail_one] using passes_loop_last hc hm hroom hbody hA hf (Nat.zero_le 1) hl hn
  | succ k ih =>
    intro T hA hf hl hn
    rcases Nat.eq_zero_or_pos k with rfl | hk
    · simpa [loopTrail_one] using passes_loop_last hc hm hroom hbody hA hf (le_refl 1) hl hn
    · -- a pass of the body, then back to it with one repeat fewer
      obtain ⟨T₁, hp₁, hl₁, hA₁⟩ := hbody hA hf (by rw [hl, hn, List.length_cons]; exact hroom)
      obtain ⟨T₂, hp₂, hl₂, hA₂⟩ :=
        hA₁.loopRepeat (hp₁.alike.format.trans hf) hc hm (hl₁.trans hl) (by omega)
      obtain ⟨T₃, hp₃, hl₃, hA₃⟩ := ih hA₂ (hp₂.alike.format.trans (hp₁.alike.format.trans hf))
        (by simpa using hl₂) (by rw [hp₂.alike.loopDepth, hp₁.alike.loopDepth, hn])
      refine ⟨T₃, ?_, hl₃, hA₃⟩
      rw [max_eq_left (by omega : 1 ≤ k)] at hp₃
      rw [max_eq_left (by omega : 1 ≤ k + 1), loopTrail_succ hk, List.replicate_succ, List.flatten_cons,
        readOut_append]
      simpa using hp₁.trans (hp₂.trans hp₃)

end Walk

/-- Reading the blocks of an unrolling.  Between blocks at the first, with
room for its loops, the reader hands out the bytes of the unrolled entries,
records their events, and is between blocks after the last, with the loops
open that were open before. -/
theorem Unrolls.passes {es xs : List CatalogueEntry} {ev : List (Nat × Action)} {d : Nat}
    (hu : Unrolls es xs ev d) : ∀ {p q : Nat} {t : Tape}, Listed D f p es q → t.At D p 0 →
      t.format = f → t.loops.length + d ≤ t.loopDepth →
      ∃ t', Tape.Passes t (readOut D xs) ev t' ∧ t'.loops = t.loops ∧ t'.At D q 0 := by
  induction hu with
  | nil =>
    intro p q t hL hA _ _
    cases hL
    exact ⟨t, Tape.Passes.refl t, rfl, hA⟩
  | @block e es xs ev d hs he _ ih =>
    intro p q t hL hA hf hd
    cases hL with
    | cons hc htr hrest =>
      obtain ⟨t₁, hp₁, hl₁, hA₁⟩ := passes_entryAt hc htr hA hf hs (fun h => absurd h he)
      obtain ⟨t₂, hp₂, hl₂, hA₂⟩ := ih hrest hA₁ (hp₁.alike.format.trans hf)
        (by rw [hl₁, hp₁.alike.loopDepth]; exact hd)
      refine ⟨t₂, ?_, hl₂.trans hl₁, hA₂⟩
      have hp := hp₁.trans hp₂
      rw [action_of_ne he] at hp
      rw [readOut_cons, offset_entryAt]
      exact hp
  | @loop s e body rest xb xr eb er db dr hs he _ _ ihb ihr =>
    intro p q t hL hA hf hd
    cases hL with
    | @cons _ _ c _ hc htr hL' =>
      obtain ⟨rfl, rfl⟩ := tzx_of_id hc hs (by decide)
      have hsize : headerSize BlockId.loopStart .tzx = 3 := rfl
      have hfit : p + 3 ≤ D.size := by
        have := fits_of_truncated htr
        rw [hsize] at this
        omega
      rw [entryStop_loop hc (Or.inl rfl) htr, hsize] at hL'
      obtain ⟨m, hbody, hE⟩ := hL'.append_inv
      cases hE with
      | @cons _ _ c' _ hc' htr' hrest =>
        obtain ⟨-, rfl⟩ := tzx_of_id hc' he (by decide)
        have hsize' : headerSize BlockId.loopEnd .tzx = 1 := rfl
        have hfit' : m + 1 ≤ D.size := by
          have := fits_of_truncated htr'
          rw [hsize'] at this
          omega
        rw [entryStop_loop hc' (Or.inr rfl) htr', hsize'] at hrest
        obtain ⟨t₁, hp₁, hl₁, hA₁⟩ := hA.loopStart hf hc hfit (by omega)
        obtain ⟨t₂, hp₂, hl₂, hA₂⟩ := passes_loop hc' hfit'
          (show t.loops.length + 1 + db ≤ t.loopDepth by omega)
          (fun hT hf' hd' => ihb hbody hT hf' hd') _ hA₁ (hp₁.alike.format.trans hf) hl₁
          hp₁.alike.loopDepth
        obtain ⟨t₃, hp₃, hl₃, hA₃⟩ := ihr hrest hA₂ (hp₂.alike.format.trans (hp₁.alike.format.trans hf))
          (by rw [hl₂, hp₂.alike.loopDepth, hp₁.alike.loopDepth]; omega)
        refine ⟨t₃, ?_, hl₃.trans hl₂, hA₃⟩
        rw [repeats_entryAt hc rfl, offset_entryAt, offset_entryAt, readOut_append, hsize]
        simpa using hp₁.trans (hp₂.trans hp₃)

end Catalogue

theorem Tape.trail_cleared (t : Tape) : t.cleared.trail = t.trail := rfl

namespace Session

/-- A session that records events reads an image from a shelf in memory that
tells its size right and whose seeks do not fail, and plays it until it
stops, which it does.  When the catalogue of the image is whole and its
loops are properly nested, no deeper than the session's loop depth, the
session hands its sink the trains of the unrolled entries, the body of every
loop as often as its count says and at least once, and nothing else.  Its
observer keeps the events of the unrolling: for every loop one loop start, a
repeat after each pass but the last and one loop end, and for every other
block, in every pass, one event, queued exactly for the audible ones.  This
holds whatever the configuration, the depth of the sink and the log. -/
theorem start_run_unrolls_loops (cfg : Config) (shelf : Shelf) (depth : Int) (log : Log)
    (path : String) (tapes : List (String × ByteArray)) (D : ByteArray) (c : Catalogue)
    (xs : List CatalogueEntry) (ev : List (Nat × Action)) (d : Nat)
    (hpath : path ≠ "") (hrack : shelf.rack = .memory tapes) (hD : tapes.lookup path = some D)
    (hdelta : shelf.faults.sizeDelta = 0) (hseek : shelf.faults.seekLimit = none)
    (hc : Catalogue.ofBytes D = .ok c) (htr : c.truncated = false)
    (hloops : Catalogue.Unrolls c.entries xs ev d)
    (hdepth : d ≤ (create cfg shelf (PulseQueue.ofDepth depth) log).loopDepth) :
    (∃ n, (((((create cfg shelf (PulseQueue.ofDepth depth) log).observedBy .record).select
      path).start).run n).session.started = false) ∧
    ∀ n, (((((create cfg shelf (PulseQueue.ofDepth depth) log).observedBy .record).select
        path).start).run n).session.started = false →
      (((((create cfg shelf (PulseQueue.ofDepth depth) log).observedBy .record).select
        path).start).run n).pushed = Catalogue.trains D xs ∧
      (((((create cfg shelf (PulseQueue.ofDepth depth) log).observedBy .record).select
        path).start).run n).session.toTape.trail = ev ∧
      ((((((create cfg shelf (PulseQueue.ofDepth depth) log).observedBy .record).select
        path).start).run n).session.toTape.trail.filter fun e : Nat × Action => e.2 = Action.queued).map
          (·.1) = (xs.filter (·.audible)).map (·.offset) := by
  have hpath' : (((create cfg shelf (PulseQueue.ofDepth depth) log).observedBy .record).select
      path).path ≠ "" := hpath
  have hroomy := capacity_create cfg shelf (PulseQueue.ofDepth depth) log
  rw [start_of_stopped rfl, if_neg hpath']
  refine ⟨run_stops_of_restart rfl rfl (by simpa [observedBy, reset, select] using hroomy)
    (PulseQueue.depth_ofDepth depth) (PulseQueue.toList_ofDepth depth), fun n hstop => ?_⟩
  obtain ⟨hok, hA, hfmt, hl, hobs, hld, htrail⟩ := Tape.openTape_memory
    (t := (((create cfg shelf (PulseQueue.ofDepth depth) log).observedBy .record).select
      path).reset.toTape) hrack hD hdelta hseek
  obtain ⟨hcf, hent, hctr⟩ := Catalogue.ofBytes_eq hc
  rw [hctr, Bool.or_eq_false_iff] at htr
  have htr' : ∀ e ∈ c.entries, e.truncated = false := by simpa using htr.2
  rw [hent] at htr' hloops
  obtain ⟨q, hq, hL⟩ := Catalogue.listed_entriesFrom htr.1 htr'
  obtain ⟨t₁, hp, -, hA₁⟩ := hloops.passes hL hA (hfmt.trans hcf.symm)
    (by rw [hl, hld]; simpa [observedBy, reset, select] using hdepth)
  have hr := hp.reads.trans (Tape.Reads.of_round (Tape.round_end hA₁ hq) (Tape.Reads.refl _))
  simp only [Option.toList_none, List.append_nil] at hr
  rcases run_of_restart rfl rfl (by simpa [observedBy, reset, select] using hroomy)
    (PulseQueue.depth_ofDepth depth) (PulseQueue.toList_ofDepth depth) hstop with ⟨hno, -⟩ | ⟨-, hrun⟩
  · exact absurd (hno.symm.trans hok) Bool.false_ne_true
  · obtain ⟨hpush, htape⟩ := hrun _ _ hr (Tape.atEnd_round_end hA₁)
    replace hpush := hpush.trans (congrArg (fun g => Generator.playAll g _)
      (congrArg Generator.start (hfmt.trans hcf.symm)))
    rw [Catalogue.playAll_entries (fun e he => hL.whole (hloops.mem he))] at hpush
    have hev : t₁.trail = ev := by
      rw [hp.trail, htrail, Tape.kept, hobs]
      rfl
    refine ⟨hpush, ?_⟩
    rw [htape, Tape.close_keeps.2, Tape.trail_cleared, Tape.trail_note,
      show ({ t₁ with finished := true } : Tape).trail = t₁.trail from rfl, hev]
    exact ⟨rfl, hloops.queued⟩

/-- A TZX image with a loop: a loop start with three repeats at 10, a pure
tone of two pulses at 13, the loop end at 18, and a pure tone of four pulses
at 19. -/
def loopedTone : ByteArray :=
  ⟨#[0x5A, 0x58, 0x54, 0x61, 0x70, 0x65, 0x21, 0x1A, 0x01, 0x14, 0x24, 0x03, 0x00,
    0x12, 0x64, 0x00, 0x02, 0x00, 0x25, 0x12, 0x64, 0x00, 0x04, 0x00]⟩

theorem loopedTone_unrolls : ∃ c xs, Catalogue.ofBytes loopedTone = .ok c ∧ c.truncated = false ∧
    Catalogue.Unrolls c.entries xs [(10, .loopStart), (13, .queued), (18, .loopRepeat), (13, .queued),
      (18, .loopRepeat), (13, .queued), (18, .loopEnd), (19, .queued)] 1 ∧
    1 ≤ (create {} { rack := .memory [("a.tzx", loopedTone)] } (PulseQueue.ofDepth 1)
      (Log.ofCapacity 8)).loopDepth ∧
    (∃ n, (((((create {} { rack := .memory [("a.tzx", loopedTone)] } (PulseQueue.ofDepth 1)
      (Log.ofCapacity 8)).observedBy .record).select "a.tzx").start).run n).session.started = false) ∧
    ∀ n, (((((create {} { rack := .memory [("a.tzx", loopedTone)] } (PulseQueue.ofDepth 1)
        (Log.ofCapacity 8)).observedBy .record).select "a.tzx").start).run n).session.started = false →
      (((((create {} { rack := .memory [("a.tzx", loopedTone)] } (PulseQueue.ofDepth 1)
        (Log.ofCapacity 8)).observedBy .record).select "a.tzx").start).run n).pushed =
        Catalogue.trains loopedTone xs ∧
      (((((create {} { rack := .memory [("a.tzx", loopedTone)] } (PulseQueue.ofDepth 1)
        (Log.ofCapacity 8)).observedBy .record).select "a.tzx").start).run n).session.toTape.trail =
        [(10, .loopStart), (13, .queued), (18, .loopRepeat), (13, .queued), (18, .loopRepeat),
          (13, .queued), (18, .loopEnd), (19, .queued)] := by
  have hok : ((Catalogue.ofBytes loopedTone).toOption.map fun c =>
      (c.truncated, c.entries.map fun e => (e.offset, e.id, e.audible, e.repeats))) =
      some (false, [(10, 0x24, false, 3), (13, 0x12, true, 0), (18, 0x25, false, 0), (19, 0x12, true, 0)]) := by
    decide +kernel
  cases hc : Catalogue.ofBytes loopedTone with
  | error e =>
    rw [hc] at hok
    cases hok
  | ok c =>
    rw [hc, show (Except.ok c : Except Message.Value Catalogue).toOption = some c from rfl] at hok
    simp only [Option.map_some, Option.some.injEq, Prod.mk.injEq] at hok
    obtain ⟨htr, hent⟩ := hok
    obtain ⟨a, b, e, g, hx⟩ := List.length_eq_four.1 (by simpa using congrArg List.length hent)
    rw [hx] at hent
    simp only [List.map_cons, List.map_nil, List.cons.injEq, Prod.mk.injEq] at hent
    obtain ⟨⟨ha₁, ha₂, -, ha₄⟩, ⟨hb₁, hb₂, hb₃, -⟩, ⟨he₁, he₂, -, -⟩, ⟨hg₁, hg₂, hg₃, -⟩, -⟩ := hent
    have hu : Catalogue.Unrolls c.entries ((List.replicate 3 [b]).flatten ++ [g])
        [(10, .loopStart), (13, .queued), (18, .loopRepeat), (13, .queued), (18, .loopRepeat),
          (13, .queued), (18, .loopEnd), (19, .queued)] 1 := by
      have hloop := Catalogue.Unrolls.loop ha₂ he₂
        (Catalogue.Unrolls.block (by rw [hb₂]; decide) (by rw [hb₂]; decide) Catalogue.Unrolls.nil)
        (Catalogue.Unrolls.block (by rw [hg₂]; decide) (by rw [hg₂]; decide) Catalogue.Unrolls.nil)
      rw [hx]
      simpa [Catalogue.loopTrail, ha₁, ha₄, hb₁, hb₃, he₁, hg₁, hg₃] using hloop
    obtain ⟨hstops, hrun⟩ := start_run_unrolls_loops {} { rack := .memory [("a.tzx", loopedTone)] } 1
      (Log.ofCapacity 8) "a.tzx" [("a.tzx", loopedTone)] loopedTone c _ _ 1 (by decide) rfl
      (by simp [List.lookup]) rfl rfl hc htr hu (by decide)
    exact ⟨c, _, rfl, htr, hu, by decide, hstops, fun n hstop => ⟨(hrun n hstop).1, (hrun n hstop).2.1⟩⟩

end Session

end TapeDeck
