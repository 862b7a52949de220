import TapeDeck.Proofs.Catalogue
import TapeDeck.Proofs.Decoding

/-!
# A catalogue tiles its image

The catalogue of an image walks it block by block: each entry starts where
the one before ends, after its header and the data it holds, and the first
starts after the preamble of a TZX image, or at the start of a TAP image
(`Catalogue.origin`).

*Entries.*  Every entry is framed as the walk frames it
(`Catalogue.Framed`): its header, of the size its first byte gives, lies in
the image; it keeps the data the image holds, up to the length its timing
gives; and it is truncated exactly when the timing asks for more.  So no
entry reaches past the end of the image (`Catalogue.Framed.stop_le`).

*The end.*  The listing is cut when a header does not fit in the bytes
left after the last entry; and it ends exactly at the end of the image when
it is not cut (`Catalogue.entriesFrom_tiles`).  A catalogue is truncated
when its listing is cut or an entry is, so a catalogue that is not truncated
covers its image to the last byte (`Catalogue.ofBytes_tiles_image`).

*Ticks.*  Ticks are summed here as naturals, and by the program in 64-bit
integers.  Widths are 16-bit fields stretched by 111/100, a block has at
most 65535 pilot pulses and as many milliseconds of pause, and each byte of
its data gives at most sixteen pulses or half a sequence pulse: so an entry
holds at most 2^35 ticks for its header and each byte of its data
(`Catalogue.ticks_entryAt_le`), and, as the entries tile the image, a
catalogue at most 2^35 for each byte of the image.  Under 2^28 bytes no sum
reaches 2^63, and the program's sums in 64 bits give the same ticks
(`Catalogue.ticks_fit_int64`).
-/

namespace TapeDeck

/-- Where an entry ends: after its header and the data it holds. -/
def CatalogueEntry.stop (e : CatalogueEntry) : Nat := e.offset + e.headerSize + e.length

namespace Catalogue

/-- Where the first block of an image starts: after the preamble of a TZX
image, at the start of any other. -/
def origin (D : ByteArray) : Nat := if isTzx D.toList then tzxPreambleSize else 0

theorem origin_le (D : ByteArray) : origin D ≤ D.size := by
  unfold origin
  split
  · next htzx => exact size_of_isTzx htzx
  · exact Nat.zero_le _

/-- Where a listing from `start` ends: where its last entry ends, or at
`start` when it has none. -/
def reach (start : Nat) (l : List CatalogueEntry) : Nat := (l.map (·.stop)).getLastD start

@[simp] theorem reach_nil (start : Nat) : reach start [] = start := rfl

@[simp] theorem reach_cons (start : Nat) (e : CatalogueEntry) (l : List CatalogueEntry) :
    reach start (e :: l) = reach e.stop l := by
  rw [reach, reach, List.map_cons, List.getLastD_cons]

/-- An entry of an image read as `f`, framed as the walk frames it: its
header, of the size its first byte gives, lies in the image; it keeps the
data the image holds, up to the length its timing gives; and it is truncated
exactly when its timing asks for more. -/
structure Framed (D : ByteArray) (f : Format) (e : CatalogueEntry) : Prop where
  fits : e.offset + e.headerSize ≤ D.size
  sized : e.headerSize = headerSize (D.get! e.offset) f
  length : e.length = min e.timing.length (D.size - (e.offset + e.headerSize))
  truncated : e.truncated = decide (D.size - (e.offset + e.headerSize) < e.timing.length)

/-- A framed entry ends inside its image. -/
theorem Framed.stop_le {D : ByteArray} {f : Format} {e : CatalogueEntry} (h : Framed D f e) :
    e.stop ≤ D.size := by
  have := h.length
  have := h.fits
  unfold CatalogueEntry.stop
  omega

variable {D : ByteArray} {f : Format} {pos size : Nat}

/-- The entry of a block whose header fits is framed, and ends where the walk
goes on. -/
theorem framed_entryAt (hsize : size = headerSize (D.get! pos) f) (hfit : pos + size ≤ D.size) :
    Framed D f (entryAt D f pos size) ∧ (entryAt D f pos size).stop = entryStop D f pos size := by
  have hlen : (entryAt D f pos size).length = min (entryTiming D f pos size).length (D.size - (pos + size)) := by
    rw [length_entryAt, extract_toList]
    simp [entryStop]
    omega
  refine ⟨⟨by simpa using hfit, by simpa using hsize, by simpa using hlen, ?_⟩, ?_⟩
  · simp only [truncated_entryAt, offset_entryAt, headerSize_entryAt, timing_entryAt, decide_eq_decide]
    omega
  · rw [CatalogueEntry.stop, offset_entryAt, headerSize_entryAt, hlen, entryStop]
    omega

/-- The listing from a position in the image: its entries follow each other
from that position, each framed, and it ends inside the image; it is cut
exactly when a header does not fit in the bytes left after its last entry,
and it ends at the end of the image exactly when it is not cut.  By
induction on the walk. -/
theorem entriesFrom_tiles (hpos : pos ≤ D.size) :
    (entriesFrom D f pos).1.map (·.offset) ++ [reach pos (entriesFrom D f pos).1] =
        pos :: (entriesFrom D f pos).1.map (·.stop) ∧
      (∀ e ∈ (entriesFrom D f pos).1, Framed D f e) ∧
      ((entriesFrom D f pos).2 = true ↔ reach pos (entriesFrom D f pos).1 < D.size ∧
        D.size < reach pos (entriesFrom D f pos).1 +
          headerSize (D.get! (reach pos (entriesFrom D f pos).1)) f) ∧
      ((entriesFrom D f pos).2 = false ↔ reach pos (entriesFrom D f pos).1 = D.size) := by
  fun_induction entriesFrom D f pos with
  | case1 p hp size hs =>
    simp only [List.map_nil, reach_nil, List.nil_append, List.not_mem_nil, false_implies,
      implies_true, true_iff, Bool.true_eq_false, false_iff, true_and]
    exact ⟨⟨hp, by rwa [← getElem_eq_get! hp]⟩, by omega⟩
  | case2 p hp size hs rest cut heq ih =>
    have hframe : Framed D f (entryAt D f p size) ∧ (entryAt D f p size).stop = entryStop D f p size :=
      framed_entryAt (congrArg (headerSize · f) (getElem_eq_get! hp)) (by omega)
    obtain ⟨hfr, hstop⟩ := hframe
    have hle : entryStop D f p size ≤ D.size := by
      unfold entryStop
      omega
    rw [heq, ← hstop] at ih
    obtain ⟨ih₁, ih₂, ih₃, ih₄⟩ := ih (hstop ▸ hle)
    simp only [List.map_cons, reach_cons, offset_entryAt, List.cons_append, List.mem_cons,
      forall_eq_or_imp]
    exact ⟨by rw [ih₁], ⟨hfr, ih₂⟩, ih₃, ih₄⟩
  | case3 p hp =>
    have hend : p = D.size := by omega
    simp [hend]

/-- The catalogue of a non-empty image tiles it.  The first entry starts at
the origin, after the preamble of a TZX image or at the start of a TAP
image, and each next entry where the one before ends, after its header and
its data.  Every entry is framed: its header, of the size its first byte
gives, lies in the image, it keeps `min` of its timing's length and the
bytes left after its header, it is truncated exactly when its timing asks
for more, and it ends inside the image.  The catalogue is truncated exactly
when a tail remains after its entries that is not empty and shorter than the
header its first byte sizes, or an entry is truncated; and when it is not truncated the entries end
at the end of the image. -/
theorem ofBytes_tiles_image (D : ByteArray) (hD : 0 < D.size) : ∃ c, ofBytes D = .ok c ∧
    c.format = (if isTzx D.toList then .tzx else .tap) ∧
    c.entries.map (·.offset) ++ [reach (origin D) c.entries] = origin D :: c.entries.map (·.stop) ∧
    (∀ e ∈ c.entries, Framed D c.format e ∧ e.stop ≤ D.size) ∧
    (c.truncated = true ↔ (reach (origin D) c.entries < D.size ∧
        D.size < reach (origin D) c.entries +
          headerSize (D.get! (reach (origin D) c.entries)) c.format) ∨
      ∃ e ∈ c.entries, e.truncated = true) ∧
    (c.truncated = false → reach (origin D) c.entries = D.size) := by
  obtain ⟨c, hc⟩ : ∃ c, ofBytes D = .ok c := by
    unfold ofBytes
    rw [if_neg (by omega)]
    exact ⟨_, rfl⟩
  obtain ⟨hf, hent, htr⟩ := ofBytes_eq hc
  have hent : c.entries = (entriesFrom D c.format (origin D)).1 := hent
  have htr : c.truncated = ((entriesFrom D c.format (origin D)).2 ||
      (entriesFrom D c.format (origin D)).1.any (·.truncated)) := by rw [htr, hent]; rfl
  obtain ⟨h₁, h₂, h₃, h₄⟩ := entriesFrom_tiles (f := c.format) (origin_le D)
  refine ⟨c, hc, hf, ?_⟩
  rw [htr, hent]
  refine ⟨h₁, fun e he => ⟨h₂ e he, (h₂ e he).stop_le⟩, ?_, fun hfalse => h₄.1 ?_⟩
  · simp only [Bool.or_eq_true, List.any_eq_true]
    rw [h₃]
  · simp only [Bool.or_eq_false_iff] at hfalse
    exact hfalse.1

/-- An image of one pure tone is tiled by its catalogue. -/
theorem twoPulseTone_tiled : 0 < Session.twoPulseTone.size ∧ ∃ c, ofBytes Session.twoPulseTone = .ok c ∧
    c.format = (if isTzx Session.twoPulseTone.toList then .tzx else .tap) ∧
    c.entries.map (·.offset) ++ [reach (origin Session.twoPulseTone) c.entries] =
      origin Session.twoPulseTone :: c.entries.map (·.stop) ∧
    (∀ e ∈ c.entries, Framed Session.twoPulseTone c.format e ∧ e.stop ≤ Session.twoPulseTone.size) ∧
    (c.truncated = true ↔ (reach (origin Session.twoPulseTone) c.entries < Session.twoPulseTone.size ∧
        Session.twoPulseTone.size < reach (origin Session.twoPulseTone) c.entries +
          headerSize (Session.twoPulseTone.get! (reach (origin Session.twoPulseTone) c.entries))
            c.format) ∨
      ∃ e ∈ c.entries, e.truncated = true) ∧
    (c.truncated = false → reach (origin Session.twoPulseTone) c.entries = Session.twoPulseTone.size) :=
  ⟨by decide, ofBytes_tiles_image Session.twoPulseTone (by decide)⟩

/-! ## Ticks in 64 bits -/

theorem Stretched.toNat_lt {x : UInt32} (h : Stretched x) : x.toNat < 2 ^ 17 := by
  obtain ⟨w, hw, hx⟩ := h
  omega

/-- A decoded block has fewer than 2^16 pilot pulses and milliseconds of
pause. -/
theorem counts_decode (h : List UInt8) (f : Format) :
    (Timing.decode h f).pilotCount < 2 ^ 16 ∧ (Timing.decode h f).pause < 2 ^ 16 := by
  have hw := Header.word_lt h
  cases f with
  | tap =>
    show (Timing.ofTapHeader h).pilotCount < _ ∧ (Timing.ofTapHeader h).pause < _
    simp only [Timing.ofTapHeader, Timing.headerPilots, Timing.dataPilots, Timing.tapPause]
    split <;> omega
  | tzx =>
    show (Timing.ofTzxHeader h).pilotCount < _ ∧ (Timing.ofTzxHeader h).pause < _
    unfold Timing.ofTzxHeader
    split <;> simp [Timing.standard, Timing.headerPilots, hw]

theorem decode_of_entryTiming (D : ByteArray) (f : Format) (pos size : Nat) :
    ∃ h, entryTiming D f pos size = Timing.decode h f := by
  unfold entryTiming
  dsimp only
  split
  · exact ⟨_, rfl⟩
  · exact ⟨_, rfl⟩

theorem foldr_map_le {α : Type} {l : List α} {g : α → Nat} {B : Nat} (h : ∀ x ∈ l, g x ≤ B) :
    (l.map g).foldr (· + ·) 0 ≤ l.length * B := by
  have hs := List.sum_le_card_nsmul (l.map g) B (by simpa using h)
  rw [List.length_map, smul_eq_mul] at hs
  exact hs

theorem byteTicks_le {t : Timing} (hz : t.zero.toNat < 2 ^ 17) (ho : t.one.toNat < 2 ^ 17)
    (b : UInt8) (bits : Nat) : byteTicks t b bits ≤ bits * 2 ^ 18 := by
  have h := foldr_map_le (l := List.range bits) (B := 2 ^ 18)
    (g := fun i => if (b >>> (7 - i).toUInt8) &&& 1 = 1 then 2 * t.one.toNat else 2 * t.zero.toNat)
    (fun i _ => by split <;> omega)
  simpa [byteTicks] using h

theorem sequenceTicks_le (l : List UInt8) : sequenceTicks l ≤ l.length * 2 ^ 31 := by
  fun_induction sequenceTicks l with
  | case1 lo hi rest ih =>
    have hw := UInt32.toNat_lt (stretch (lo.toUInt32 ||| (hi.toUInt32 <<< 8)))
    simp only [List.length_cons]
    omega
  | case2 => exact Nat.zero_le _

/-- The ticks of a decoded block with some data: at most 2^35 for its header
and for each byte of the data. -/
theorem blockTicks_le {t : Timing} (hd : t.Decoded) (hc : t.pilotCount < 2 ^ 16 ∧ t.pause < 2 ^ 16)
    (payload : List UInt8) : blockTicks t payload ≤ 2 ^ 35 * (1 + payload.length) := by
  have hp := Stretched.toNat_lt hd.pilot
  have hs₁ := Stretched.toNat_lt hd.sync1
  have hs₂ := Stretched.toNat_lt hd.sync2
  have hlead : t.pilotCount * t.pilot.toNat ≤ 2 ^ 16 * 2 ^ 17 := Nat.mul_le_mul hc.1.le hp.le
  have hpause : t.pause * pauseWidth.toNat ≤ 2 ^ 16 * 3500 := Nat.mul_le_mul hc.2.le (by decide)
  have hbyte : ∀ (b : UInt8) (bits : Nat), bits ≤ 8 → byteTicks t b bits ≤ 2 ^ 21 := fun b bits h =>
    (byteTicks_le (Stretched.toNat_lt hd.zero) (Stretched.toNat_lt hd.one) b bits).trans (by omega)
  unfold blockTicks
  dsimp only
  cases hcat : t.category with
  | audio =>
    refine le_trans (Nat.add_le_add_right (Nat.add_le_add_left
      (foldr_map_le (B := 2 ^ 21) fun x _ => ?_) _) _) ?_
    · split <;> exact hbyte _ _ (by omega)
    · rw [List.length_zipIdx]
      split <;> split <;> omega
  | sequence =>
    have hs := sequenceTicks_le payload
    dsimp only
    split <;> split <;> omega
  | metadata =>
    dsimp only
    split <;> split <;> omega

/-- The ticks of an entry: at most 2^35 for its header and for each byte of
its data. -/
theorem ticks_entryAt_le (D : ByteArray) (f : Format) (pos size : Nat) :
    (entryAt D f pos size).ticks ≤ 2 ^ 35 * (1 + (entryAt D f pos size).length) := by
  obtain ⟨h, ht⟩ := decode_of_entryTiming D f pos size
  rw [ticks_entryAt, length_entryAt]
  split
  · rw [ht]
    exact blockTicks_le (Timing.decoded_decode h f) (counts_decode h f) _
  · exact Nat.zero_le _

/-- The ticks of a listing from a position: at most 2^35 for each byte of the
image from there. -/
theorem sum_ticks_entriesFrom_le (D : ByteArray) (f : Format) (pos : Nat) :
    ((entriesFrom D f pos).1.map (·.ticks)).foldr (· + ·) 0 ≤ 2 ^ 35 * (D.size - pos) := by
  fun_induction entriesFrom D f pos with
  | case1 => exact Nat.zero_le _
  | case2 p hp size hs rest cut heq ih =>
    rw [heq] at ih
    dsimp only at ih
    have he := ticks_entryAt_le D f p size
    have h1 := headerSize_pos D[p] f
    have hstop : p + size ≤ entryStop D f p size ∧ entryStop D f p size ≤ D.size := by
      unfold entryStop
      omega
    have hlen : (entryAt D f p size).length = entryStop D f p size - (p + size) := by
      rw [length_entryAt, extract_toList]
      simp only [List.length_take, List.length_drop, length_data_toList]
      unfold entryStop at hstop ⊢
      omega
    simp only [List.map_cons, List.foldr_cons]
    omega
  | case3 => exact Nat.zero_le _

/-- Ticks summed into a 64-bit accumulator that stays below 2^63 are the
ticks summed as naturals. -/
theorem foldl_toInt64 : ∀ (l : List Nat) (a : Int64), 0 ≤ a.toInt →
    a.toInt + ((l.foldr (· + ·) 0 : Nat) : Int) < 2 ^ 63 →
    (l.foldl (fun t x => t + x.toInt64) a).toInt = a.toInt + ((l.foldr (· + ·) 0 : Nat) : Int)
  | [], a, _, _ => by simp
  | x :: l, a, h0, h1 => by
    simp only [List.foldl_cons, List.foldr_cons, Nat.cast_add] at h1 ⊢
    have hx : (a + x.toInt64).toInt = a.toInt + x := by
      rw [Int64.toInt_add, show x.toInt64 = Int64.ofNat x from rfl, Int64.toInt_ofNat_of_lt (by omega)]
      apply Int.bmod_eq_of_le <;> omega
    rw [foldl_toInt64 l (a + x.toInt64) (by omega) (by omega), hx]
    omega

/-- For every image under 2^28 bytes, the ticks of each entry and of the
whole catalogue stay below 2^63, and summing the entries' ticks one by one
in 64-bit integers, as the program does, gives the catalogue's ticks: no sum
wraps. -/
theorem ticks_fit_int64 {c : Catalogue} (hc : ofBytes D = .ok c) (hD : D.size < 2 ^ 28) :
    (∀ e ∈ c.entries, e.ticks < 2 ^ 63) ∧ c.ticks < 2 ^ 63 ∧
      (c.entries.foldl (fun (t : Int64) (e : CatalogueEntry) => t + e.ticks.toInt64) 0).toInt = c.ticks := by
  obtain ⟨-, hent, -⟩ := ofBytes_eq hc
  have hsum : c.ticks ≤ 2 ^ 35 * D.size := by
    have h := sum_ticks_entriesFrom_le D c.format (if isTzx D.toList then tzxPreambleSize else 0)
    rw [← hent] at h
    exact h.trans (Nat.mul_le_mul_left _ (Nat.sub_le _ _))
  have hlt : c.ticks < 2 ^ 63 := by
    calc c.ticks ≤ 2 ^ 35 * D.size := hsum
      _ < 2 ^ 35 * 2 ^ 28 := Nat.mul_lt_mul_of_pos_left hD (by decide)
      _ = 2 ^ 63 := by norm_num
  have hle : ∀ e ∈ c.entries, e.ticks ≤ c.ticks := by
    intro e he
    unfold Catalogue.ticks
    exact List.le_sum_of_mem (List.mem_map_of_mem he)
  refine ⟨fun e he => lt_of_le_of_lt (hle e he) hlt, hlt, ?_⟩
  have h := foldl_toInt64 (c.entries.map (·.ticks)) 0 (by decide) (by
    simp only [Int64.toInt_zero]
    unfold Catalogue.ticks at hlt
    omega)
  rw [List.foldl_map] at h
  rw [h]
  simp [Catalogue.ticks]

end Catalogue

end TapeDeck
