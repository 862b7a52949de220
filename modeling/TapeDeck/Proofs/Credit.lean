import Mathlib
import TapeDeck.Pulse.Consumer
import TapeDeck.Proofs.Queue
import TapeDeck.Proofs.Recording

/-!
# Time kept by a consumer

A consumer earns `d * clock / 10 ^ 9` ticks of credit for each advance of `d`
nanoseconds, and pays a pulse's width for every pulse it takes off the queue
while its credit is positive.  So the credit it keeps between advances is
the time it has been given less the time of the pulses it has taken.

*One advance.*  Between advances the credit lies between `-(maxWidth - 1)`
and `0` (`Consumer.Owing`): a pulse is taken only while the credit is
positive, and no pulse in the queue is wider than `maxWidth`.  An advance
from such a credit takes pulses off the front of the queue, and unless it
finds the queue empty, the widths it takes and the credit it leaves add up
to the credit it had and the ticks it earned (`Consumer.advance_spec`).
This needs the product `d * clock` to fit in a signed 64-bit word; past
that it wraps round.

*Any run.*  Rounds of calls on the queue, each followed by an advance
(`Consumer.rounds`), keep the credit in bounds after every advance, and
while no advance starves, the widths taken and the credit left add up to
the ticks earned (`Consumer.rounds_keep_time`).  Each advance earns its own
ticks, rounded down: the fraction of a tick it leaves over is not carried to
the next, so many short advances earn less than one long one.
-/

namespace TapeDeck

namespace PulseQueue

/-- No pulse a queue holds is wider than fifteen bits. -/
theorem width_le_of_mem {q : PulseQueue} {p : Pulse} (hp : p ∈ q.toList) :
    p.width.toNat ≤ maxWidth.toNat := by
  obtain ⟨d, -, rfl⟩ := List.mem_map.1 hp
  have h := Register.toNat_width (Register.ofData d)
  have hlt := Nat.mod_lt (Register.ofData d).bits.toNat (by norm_num : 0 < 2 ^ 15)
  show (Register.ofData d).width.toNat ≤ 0x7fff
  omega

end PulseQueue

namespace Consumer

/-- A consumer's credit between advances: at most a pulse's width less a
tick owed, and nothing in hand. -/
structure Owing (c : Consumer) : Prop where
  lower : -(maxWidth.toNat - 1 : Int) ≤ c.credit.toInt
  upper : c.credit.toInt ≤ 0

/-- The widths of pulses, added up. -/
def widths (ps : List Pulse) : Int := (ps.map fun p => (p.width.toNat : Int)).sum

@[simp] theorem widths_nil : widths [] = 0 := rfl

@[simp] theorem widths_cons (p : Pulse) (ps : List Pulse) :
    widths (p :: ps) = p.width.toNat + widths ps := by
  simp [widths]

theorem widths_append (ps qs : List Pulse) : widths (ps ++ qs) = widths ps + widths qs := by
  simp [widths]

/-! ## Paying for pulses -/

variable {c : Consumer} {q : PulseQueue}

/-- Pulses taken in a round of paying are gathered newest first and given
back oldest first, so what was gathered before comes first. -/
theorem spend_acc (fuel : Nat) (c : Consumer) (q : PulseQueue) (acc : List Pulse) :
    spend fuel c q acc =
      ((spend fuel c q []).1, (spend fuel c q []).2.1, acc.reverse ++ (spend fuel c q []).2.2) := by
  induction fuel generalizing c q acc with
  | zero => simp [spend]
  | succ fuel ih =>
    simp only [spend]
    split
    · split
      · rw [ih _ _ (_ :: acc), ih _ _ [_]]
        simp
      · simp
    · simp

/-- Paying while the credit is positive, with a round to spare for every
pulse held, takes pulses off the front of the queue and leaves the credit at
zero or below, owing less than a pulse's width.  When the queue does not run
dry, the widths taken are what the credit paid. -/
theorem spend_spec (fuel : Nat) (c : Consumer) (q : PulseQueue) (hq : q.count < fuel)
    (hlo : -(maxWidth.toNat - 1 : Int) ≤ c.credit.toInt) (hs : c.starved = false) :
    q.toList = (spend fuel c q []).2.2 ++ (spend fuel c q []).2.1.toList ∧
      (spend fuel c q []).1.clock = c.clock ∧ Owing (spend fuel c q []).1 ∧
      ((spend fuel c q []).1.starved = false →
        (spend fuel c q []).1.credit.toInt + widths (spend fuel c q []).2.2 = c.credit.toInt) := by
  induction fuel generalizing c q with
  | zero => omega
  | succ fuel ih =>
    by_cases hpos : 0 < c.credit
    · have hpos' : 0 < c.credit.toInt := Int64.lt_iff_toInt_lt.1 hpos
      cases hp : q.pop with
      | mk p q' =>
        cases p with
        | none =>
          have hnil : q.toList = [] := by
            have := PulseQueue.pop_fst (q := q)
            rw [hp] at this
            exact List.head?_eq_none_iff.1 this.symm
          have hq' : q'.toList = [] := by
            have := PulseQueue.toList_pop (q := q)
            rw [hp, hnil] at this
            exact this
          have hw : 1 ≤ maxWidth.toNat := by decide
          simp only [spend, if_pos hpos, hp]
          exact ⟨by simp [hnil, hq'], trivial, ⟨by simp; omega, by simp⟩, by simp⟩
        | some p =>
          have hmem : q.toList = p :: q'.toList := by
            have h1 := PulseQueue.pop_fst (q := q)
            have h2 := PulseQueue.toList_pop (q := q)
            rw [hp] at h1 h2
            simp only at h1 h2
            rw [h2]
            exact (List.cons_head?_tail h1.symm).symm
          have hw : p.width.toNat ≤ maxWidth.toNat :=
            PulseQueue.width_le_of_mem (by rw [hmem]; exact List.mem_cons_self)
          have hcount : q'.count < fuel := by
            have := congrArg List.length hmem
            simp only [PulseQueue.length_toList, List.length_cons] at this
            omega
          have hsub : (c.credit - p.width.toUInt64.toInt64).toInt = c.credit.toInt - p.width.toNat := by
            rw [Int64.toInt_sub, Renderer.toInt_width]
            have := Int64.toInt_lt c.credit
            exact Int.bmod_eq_of_le (by simp [maxWidth] at hw ⊢; omega) (by omega)
          obtain ⟨hl, hc, ho, hb⟩ := ih { c with credit := c.credit - p.width.toUInt64.toInt64 } q' hcount
            (by simp only [hsub]; simp [maxWidth] at hw ⊢; omega) hs
          simp only [spend, if_pos hpos, hp]
          rw [spend_acc]
          refine ⟨by simp [hmem, hl], hc, ho, fun h => ?_⟩
          have := hb h
          simp only [hsub] at this
          simp only [List.reverse_cons, List.reverse_nil, List.nil_append, List.singleton_append,
            widths_cons]
          omega
    · -- nothing is owed to the queue: the credit stays as it is
      have hle : c.credit.toInt ≤ 0 := by
        have := mt Int64.lt_iff_toInt_lt.2 hpos
        simp only [Int64.toInt_zero, not_lt] at this
        exact this
      simp only [spend, if_neg hpos]
      exact ⟨by simp, trivial, ⟨hlo, hle⟩, fun _ => by simp⟩

/-! ## One advance -/

/-- The ticks an advance of `d` nanoseconds earns at a clock, rounded down. -/
def earned (clock d : Int64) : Int := d.toInt * clock.toInt / 10 ^ 9

/-- An advance earns `d * clock / 10 ^ 9` ticks, rounded down, when the
product fits in a signed 64-bit word. -/
theorem toInt_gain {clock d : Int64} (hd : 0 ≤ d.toInt) (hc : 0 ≤ clock.toInt)
    (hfit : d.toInt * clock.toInt < 2 ^ 63) :
    (d * clock / nanosPerSecond).toInt = earned clock d := by
  have h0 : 0 ≤ d.toInt * clock.toInt := Int.mul_nonneg hd hc
  have hmul : (d * clock).toInt = d.toInt * clock.toInt := by
    rw [Int64.toInt_mul]
    exact Int.bmod_eq_of_le (by omega) (by omega)
  have hq : d.toInt * clock.toInt / 10 ^ 9 ≤ d.toInt * clock.toInt := Int.ediv_le_self _ h0
  have hq0 : 0 ≤ d.toInt * clock.toInt / 10 ^ 9 := Int.ediv_nonneg h0 (by norm_num)
  rw [Int64.toInt_div, hmul, show nanosPerSecond.toInt = 10 ^ 9 from rfl,
    Int.tdiv_eq_ediv_of_nonneg h0, earned]
  exact Int.bmod_eq_of_le (by omega) (by omega)

/-- An advance from a credit in bounds takes pulses off the front of the
queue and leaves the credit in bounds and the clock as it was.  Unless it
finds the queue empty, the widths it takes and the credit it leaves add up
to the credit it had and the ticks it earned. -/
theorem advance_spec (ho : Owing c) {d : Int64} (hd : 0 ≤ d.toInt) (hc : 0 ≤ c.clock.toInt)
    (hfit : d.toInt * c.clock.toInt < 2 ^ 63) :
    q.toList = (c.advance q d).2.2 ++ (c.advance q d).2.1.toList ∧
      (c.advance q d).1.clock = c.clock ∧ Owing (c.advance q d).1 ∧
      ((c.advance q d).1.starved = false →
        (c.advance q d).1.credit.toInt + widths (c.advance q d).2.2 =
          c.credit.toInt + earned c.clock d) := by
  have hgain := toInt_gain hd hc hfit
  have hsmall : earned c.clock d ≤ (2 ^ 63 - 1) / 10 ^ 9 := by
    unfold earned
    exact Int.ediv_le_ediv (by norm_num) (by omega)
  have hpos : 0 ≤ earned c.clock d := Int.ediv_nonneg (Int.mul_nonneg hd hc) (by norm_num)
  have hsum : (c.credit + d * c.clock / nanosPerSecond).toInt = c.credit.toInt + earned c.clock d := by
    rw [Int64.toInt_add, hgain]
    have := ho.lower
    exact Int.bmod_eq_of_le (by simp [maxWidth] at this ⊢; omega) (by have := ho.upper; omega)
  obtain ⟨hl, hclk, ho', hb⟩ := spend_spec (q.length + 1)
    { c with credit := c.credit + d * c.clock / nanosPerSecond, starved := false } q
    (by simp [PulseQueue.length]) (by simp only [hsum]; have := ho.lower; omega) rfl
  refine ⟨hl, hclk, ho', fun h => ?_⟩
  have := hb h
  simp only [hsum] at this
  exact this

/-! ## Any run -/

/-- What an advance did: the queue it found, the pulses it took, oldest
first, and the consumer and the queue it left. -/
structure Advanced where
  /-- The queue the advance found. -/
  found : PulseQueue
  /-- The pulses it took, oldest first. -/
  taken : List Pulse
  /-- The consumer after it. -/
  after : Consumer
  /-- The queue after it. -/
  left : PulseQueue

/-- Rounds of calls on the queue, each followed by an advance of the
consumer by some nanoseconds: what each advance did, in order. -/
def rounds (c : Consumer) (q : PulseQueue) : List (List PulseQueue.Call × Int64) → List Advanced
  | [] => []
  | (calls, d) :: rs =>
    let q := (q.performAll calls).2
    let r := c.advance q d
    ⟨q, r.2.2, r.1, r.2.1⟩ :: rounds r.1 r.2.1 rs

/-- The consumer after the advances of a run: after the last of them, or as
it was when there are none. -/
def final (c : Consumer) (tr : List Advanced) : Consumer := (tr.getLast?.map (·.after)).getD c

@[simp] theorem final_nil : final c [] = c := rfl

theorem final_cons (a : Advanced) (tr : List Advanced) : final c (a :: tr) = final a.after tr := by
  cases tr with
  | nil => rfl
  | cons b tr =>
    rw [final, final, List.getLast?_cons_cons, List.getLast?_eq_some_getLast (List.cons_ne_nil b tr)]
    rfl

/-- What rounds from a credit in bounds keep: every advance takes pulses off
the front of the queue it finds and leaves the credit in bounds; and while
none starves, the widths taken and the credit left add up to the credit at
the start and the ticks earned, each advance's rounded down on its own.  By
induction on the rounds, from `advance_spec`. -/
theorem rounds_spec (rs : List (List PulseQueue.Call × Int64)) :
    ∀ (c : Consumer) (q : PulseQueue), Owing c → 0 ≤ c.clock.toInt →
    (∀ r ∈ rs, 0 ≤ r.2.toInt ∧ r.2.toInt * c.clock.toInt < 2 ^ 63) →
    (∀ a ∈ c.rounds q rs, a.found.toList = a.taken ++ a.left.toList ∧ Owing a.after) ∧
      ((∀ a ∈ c.rounds q rs, a.after.starved = false) →
        widths ((c.rounds q rs).flatMap (·.taken)) + (final c (c.rounds q rs)).credit.toInt =
          c.credit.toInt + (rs.map fun r => earned c.clock r.2).sum) := by
  induction rs with
  | nil => intro c q _ _ _; simp [rounds]
  | cons r rs ih =>
    intro c q ho hc hd
    obtain ⟨calls, d⟩ := r
    simp only [List.forall_mem_cons] at hd
    obtain ⟨hl, hclk, ho', hb⟩ := advance_spec (q := (q.performAll calls).2) ho hd.1.1 hc hd.1.2
    obtain ⟨ih₁, ih₂⟩ := ih _ _ ho' (hclk ▸ hc) (fun r hr => hclk ▸ hd.2 r hr)
    simp only [rounds, List.mem_cons, forall_eq_or_imp, List.flatMap_cons, widths_append, final_cons,
      List.map_cons, List.sum_cons]
    refine ⟨⟨⟨hl, ho'⟩, ih₁⟩, fun hst => ?_⟩
    have h₁ := hb hst.1
    have h₂ := ih₂ hst.2
    rw [hclk] at h₂
    omega

/-- A new consumer at a positive clock, advanced in rounds by times that are
not negative and whose product with the clock fits in a signed 64-bit word,
with any calls on the queue between the advances: every advance takes
pulses off the front of the queue it finds, hands them over oldest first and
leaves its credit between `-(maxWidth - 1)` and `0`; and while no advance
starves, the widths taken and the credit left add up to the ticks earned,
`d * clock / 10 ^ 9` rounded down for each advance on its own. -/
theorem rounds_keep_time (clock : Int64) (q : PulseQueue) (rs : List (List PulseQueue.Call × Int64))
    (hclock : 0 < clock.toInt) (hd : ∀ r ∈ rs, 0 ≤ r.2.toInt ∧ r.2.toInt * clock.toInt < 2 ^ 63) :
    (∀ a ∈ ({ clock } : Consumer).rounds q rs, a.found.toList = a.taken ++ a.left.toList ∧
      -(maxWidth.toNat - 1 : Int) ≤ a.after.credit.toInt ∧ a.after.credit.toInt ≤ 0) ∧
    ((∀ a ∈ ({ clock } : Consumer).rounds q rs, a.after.starved = false) →
      widths ((({ clock } : Consumer).rounds q rs).flatMap (·.taken)) +
          (final { clock } (({ clock } : Consumer).rounds q rs)).credit.toInt =
        (rs.map fun r => r.2.toInt * clock.toInt / 10 ^ 9).sum) := by
  obtain ⟨h₁, h₂⟩ := rounds_spec rs { clock } q ⟨by simp [maxWidth], by simp⟩ hclock.le hd
  refine ⟨fun a ha => ⟨(h₁ a ha).1, (h₁ a ha).2.lower, (h₁ a ha).2.upper⟩, fun hst => ?_⟩
  have := h₂ hst
  simpa [earned] using this

/-- A queue given one pulse of a tick and advanced twice by a millisecond at
the pulse clock: the advances take that pulse and leave the credit in
bounds, and the time kept is the ticks earned. -/
theorem twoMilliseconds_keep_time :
    let rs : List (List PulseQueue.Call × Int64) := [([.push ⟨1, true⟩], 1000000), ([], 1000000)]
    let tr := ({ clock := 3885000 } : Consumer).rounds (PulseQueue.ofDepth 0) rs
    0 < (3885000 : Int64).toInt ∧
      (∀ r ∈ rs, 0 ≤ r.2.toInt ∧ r.2.toInt * (3885000 : Int64).toInt < 2 ^ 63) ∧
      ((∀ a ∈ tr, a.found.toList = a.taken ++ a.left.toList ∧
          -(maxWidth.toNat - 1 : Int) ≤ a.after.credit.toInt ∧ a.after.credit.toInt ≤ 0) ∧
        ((∀ a ∈ tr, a.after.starved = false) →
          widths (tr.flatMap (·.taken)) + (final { clock := 3885000 } tr).credit.toInt =
            (rs.map fun r => r.2.toInt * (3885000 : Int64).toInt / 10 ^ 9).sum)) := by
  intro rs tr
  exact ⟨by decide, by decide, rounds_keep_time 3885000 (PulseQueue.ofDepth 0) rs (by decide) (by decide)⟩

/-- Two advances of 200 ns at the pulse clock earn no tick each, though
together they last more than one: a pulse of one tick waiting in the queue
is not taken, and nothing starves, so the time kept falls short of
`(200 + 200) * clock / 10 ^ 9`. -/
theorem shortAdvances_drop_a_tick :
    let rs : List (List PulseQueue.Call × Int64) := [([.push ⟨1, true⟩], 200), ([], 200)]
    let tr := ({ clock := 3885000 } : Consumer).rounds (PulseQueue.ofDepth 0) rs
    (∀ a ∈ tr, a.after.starved = false) ∧
      widths (tr.flatMap (·.taken)) + (final { clock := 3885000 } tr).credit.toInt = 0 ∧
      (200 + 200) * (3885000 : Int64).toInt / 10 ^ 9 = 1 := by
  decide

end Consumer

end TapeDeck
