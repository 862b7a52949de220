import Mathlib
import TapeDeck.Pulse.Queue

/-!
# The pulse queue as a bounded queue with sticky flags

The pulse queue keeps sixteen data bits per pulse in a circular store and
shows its state through a 32-bit register.  Read through `toList`, it is a
bounded queue of pulses, oldest first, with two sticky flags.

*The register.*  A flag of the register is one bit of its word
(`flag_eq_testBit`), and the pulse it holds depends on the low sixteen bits
alone (`pulse_eq_of_mod`).  Storing a register's data bits and reading them
back gives its pulse whatever its status bits (`pulse_ofData_data`); the
register of a pulse holds the pulse with its width clamped to fifteen bits
(`pulse_ofPulse`).  Setting a status bit leaves the data bits alone
(`mod_setIf`), so the register a read shows holds the oldest pulse next to
the flags it sets (`status_read`).

*The contents.*  The entries held are a window of the store
(`TapeDeck.window`): a write fills the slot past the window, a pop moves the
window on.  One lemma per operation says what it does to the contents and the
flags.

*Calls.*  `Flagged` is the queue the pulse queue stands for: a list of
pulses bounded by the depth, with an underflow and an overflow flag.  A call
on the pulse queue answers as the call on that list (`perform_answers`), so a
run of calls does (`performAll_answers`), and a queue made for any depth
refines the bounded list that starts empty
(`ofDepth_refines_flaggedQueue`).
-/

namespace TapeDeck

namespace Register

/-! ## The register word -/

@[simp] theorem toNat_levelMask : levelMask.toNat = 2 ^ 15 := rfl
@[simp] theorem toNat_underflowMask : underflowMask.toNat = 2 ^ 28 := rfl
@[simp] theorem toNat_overflowMask : overflowMask.toNat = 2 ^ 29 := rfl
@[simp] theorem toNat_fullMask : fullMask.toNat = 2 ^ 30 := rfl
@[simp] theorem toNat_emptyMask : emptyMask.toNat = 2 ^ 31 := rfl

/-- A flag whose mask is one bit reads that bit of the word. -/
theorem flag_eq_testBit (r : Register) {m : UInt32} {k : Nat} (hm : m.toNat = 2 ^ k) :
    (r.bits &&& m == m) = r.bits.toNat.testBit k := by
  have h : (r.bits &&& m = m) ↔ r.bits.toNat.testBit k = true := by
    rw [← UInt32.toNat_inj, UInt32.toNat_and, hm, Nat.and_two_pow]
    cases r.bits.toNat.testBit k <;> simp [(Nat.two_pow_pos k).ne]
  rw [Bool.eq_iff_iff, beq_iff_eq, h]

theorem underflow_eq_testBit (r : Register) : r.underflow = r.bits.toNat.testBit 28 :=
  flag_eq_testBit r rfl

theorem overflow_eq_testBit (r : Register) : r.overflow = r.bits.toNat.testBit 29 :=
  flag_eq_testBit r rfl

theorem full_eq_testBit (r : Register) : r.full = r.bits.toNat.testBit 30 :=
  flag_eq_testBit r rfl

theorem empty_eq_testBit (r : Register) : r.empty = r.bits.toNat.testBit 31 :=
  flag_eq_testBit r rfl

theorem high_eq_testBit (r : Register) : r.high = r.bits.toNat.testBit 15 :=
  flag_eq_testBit r rfl

theorem toNat_width (r : Register) : r.width.toNat = r.bits.toNat % 2 ^ 15 := by
  rw [width, UInt32.toNat_and, show widthMask.toNat = 2 ^ 15 - 1 from rfl,
    Nat.and_two_pow_sub_one_eq_mod]

theorem toNat_data (r : Register) : r.data.toNat = r.bits.toNat % 2 ^ 16 := by
  rw [data, UInt32.toNat_toUInt16, UInt32.toNat_and, show dataMask.toNat = 2 ^ 16 - 1 from rfl,
    Nat.and_two_pow_sub_one_eq_mod, Nat.mod_mod]

/-- Width and level lie in the low sixteen bits: registers that agree there
hold the same pulse. -/
theorem pulse_eq_of_mod {r r' : Register} (h : r.bits.toNat % 2 ^ 16 = r'.bits.toNat % 2 ^ 16) :
    r.pulse = r'.pulse := by
  have hd : 2 ^ 15 ∣ 2 ^ 16 := Nat.pow_dvd_pow 2 (by norm_num)
  have hw : r.width = r'.width := by
    rw [← UInt32.toNat_inj, toNat_width, toNat_width, ← Nat.mod_mod_of_dvd r.bits.toNat hd, h,
      Nat.mod_mod_of_dvd _ hd]
  have hh : r.high = r'.high := by
    have := congrArg (Nat.testBit · 15) h
    simp only [Nat.testBit_mod_two_pow] at this
    simpa [high_eq_testBit] using this
  simp [pulse, hw, hh]

theorem toNat_ofData (d : UInt16) : (ofData d).bits.toNat = d.toNat := by
  simp [ofData]

/-- Data bits stored and read back hold the register's pulse: the status bits
are dropped and nothing else. -/
theorem pulse_ofData_data (r : Register) : (ofData r.data).pulse = r.pulse :=
  pulse_eq_of_mod (by rw [toNat_ofData, toNat_data, Nat.mod_mod])

/-- The register of a pulse holds the pulse, its width clamped to fifteen bits. -/
theorem pulse_ofPulse (p : Pulse) : (ofPulse p).pulse = ⟨min p.width maxWidth, p.high⟩ := by
  have hm : (min p.width maxWidth).toNat < 2 ^ 15 := by
    show (if p.width ≤ maxWidth then p.width else maxWidth).toNat < 2 ^ 15
    split
    · rename_i h
      rw [UInt32.le_iff_toNat_le] at h
      simp [maxWidth] at h
      omega
    · decide
  have hbits : (ofPulse p).bits.toNat = (min p.width maxWidth).toNat + 2 ^ 15 * p.high.toNat := by
    unfold ofPulse
    cases p.high
    · simp
    · simp only [if_true, UInt32.toNat_or, toNat_levelMask]
      rw [Nat.or_two_pow_eq_add_of_lt hm]
      rfl
  have hw : (ofPulse p).width = min p.width maxWidth := by
    rw [← UInt32.toNat_inj, toNat_width, hbits]
    omega
  have hh : (ofPulse p).high = p.high := by
    rw [high_eq_testBit, hbits, Nat.testBit_eq_decide_div_mod_eq]
    cases p.high <;> simp <;> omega
  simp [pulse, hw, hh]

theorem testBit_setIf (r : Register) (c : Bool) (m : UInt32) (k : Nat) :
    (r.setIf c m).bits.toNat.testBit k = (r.bits.toNat.testBit k || (c && m.toNat.testBit k)) := by
  cases c <;> simp [setIf, UInt32.toNat_or]

/-- Setting a status bit leaves the data bits alone. -/
theorem mod_setIf (r : Register) (c : Bool) {m : UInt32} (hm : m.toNat % 2 ^ 16 = 0) :
    (r.setIf c m).bits.toNat % 2 ^ 16 = r.bits.toNat % 2 ^ 16 := by
  cases c
  · rfl
  · simp only [setIf, if_true]
    rw [UInt32.toNat_or, Nat.or_mod_two_pow, hm, Nat.or_zero]

/-- What a read of the register tells: the pulse it holds when the queue is
not empty, and the four flags. -/
structure Status where
  /-- The oldest pulse, if the queue holds one. -/
  front : Option Pulse
  empty : Bool
  full : Bool
  underflow : Bool
  overflow : Bool
deriving DecidableEq

/-- What a register tells. -/
def status (r : Register) : Status :=
  ⟨if r.empty then none else some r.pulse, r.empty, r.full, r.underflow, r.overflow⟩

end Register

namespace PulseQueue

variable (q : PulseQueue)

/-! ## Contents -/

theorem length_toList : q.toList.length = q.count := by
  simp [toList]

theorem toList_eq_nil_iff : q.toList = [] ↔ q.count = 0 := by
  rw [← List.length_eq_zero_iff, length_toList]

/-- The entry at `head` holds the oldest pulse. -/
theorem head?_toList (h : q.count ≠ 0) :
    q.toList.head? = some (Register.ofData (q.entries.get ⟨q.head, q.head_lt⟩)).pulse := by
  have hl : 0 < q.toList.length := by rw [length_toList]; omega
  rw [List.head?_eq_getElem?, List.getElem?_eq_getElem hl]
  simp only [toList, List.getElem_map, getElem_window, Nat.add_zero, Nat.mod_eq_of_lt q.head_lt]

theorem isFull_eq : q.isFull = (q.toList.length == q.depth) := by
  rw [isFull, length_toList]

/-! ## Writes -/

section Write

variable (r : Register) (p : Pulse)

@[simp] theorem depth_write : (q.write r).depth = q.depth := by
  unfold write
  split <;> rfl

@[simp] theorem underflow_write : (q.write r).underflow = q.underflow := by
  unfold write
  split <;> rfl

theorem overflow_write : (q.write r).overflow = (q.overflow || q.isFull) := by
  unfold write isFull
  split <;> simp_all

theorem written_write : (q.write r).written = q.written + if q.isFull then 0 else 1 := by
  unfold write isFull
  split <;> simp_all

/-- A write adds the register's pulse at the back while there is room, and
drops it otherwise. -/
theorem toList_write :
    (q.write r).toList = if q.toList.length < q.depth then q.toList ++ [r.pulse] else q.toList := by
  rw [length_toList]
  unfold write
  by_cases hf : q.count = q.depth
  · rw [dif_pos hf, if_neg (by omega)]
    rfl
  · have hlt : q.count < q.depth := by have := q.count_le; omega
    rw [dif_neg hf, if_pos hlt]
    simp only [toList]
    rw [window_set _ _ _ hlt rfl, List.map_append, List.map_singleton, Register.pulse_ofData_data]

@[simp] theorem depth_push : (q.push p).depth = q.depth := depth_write q _

theorem toList_push :
    (q.push p).toList =
      if q.toList.length < q.depth then q.toList ++ [⟨min p.width maxWidth, p.high⟩] else q.toList := by
  rw [push, toList_write, Register.pulse_ofPulse]

theorem written_push_of_isFull_eq_false (h : q.isFull = false) : (q.push p).written = q.written + 1 := by
  rw [push, written_write, h, if_neg Bool.false_ne_true]

theorem overflow_push_of_isFull_eq_false (h : q.isFull = false) : (q.push p).overflow = q.overflow := by
  rw [push, overflow_write, h, Bool.or_false]

end Write

/-! ## Pops -/

theorem pop_of_count_eq_zero (h : q.count = 0) : q.pop = (none, { q with underflow := true }) := by
  unfold pop
  rw [dif_pos h]

/-- A pop gives the oldest pulse, if there is one. -/
theorem pop_fst : q.pop.1 = q.toList.head? := by
  by_cases h : q.count = 0
  · rw [pop_of_count_eq_zero q h, ((toList_eq_nil_iff q).2 h)]
    rfl
  · unfold pop
    rw [dif_neg h, head?_toList q h]

/-- A pop takes the oldest pulse off the contents. -/
theorem toList_pop : q.pop.2.toList = q.toList.tail := by
  by_cases h : q.count = 0
  · rw [pop_of_count_eq_zero q h, ((toList_eq_nil_iff q).2 h)]
    exact (toList_eq_nil_iff _).2 h
  · unfold pop
    rw [dif_neg h]
    simp only [toList]
    rw [window_mod_succ, Nat.sub_add_cancel (Nat.pos_of_ne_zero h), List.map_tail]

@[simp] theorem depth_pop : q.pop.2.depth = q.depth := by
  unfold pop
  split <;> rfl

@[simp] theorem written_pop : q.pop.2.written = q.written := by
  unfold pop
  split <;> rfl

@[simp] theorem overflow_pop : q.pop.2.overflow = q.overflow := by
  unfold pop
  split <;> rfl

theorem count_pop : q.pop.2.count = q.count - 1 := by
  unfold pop
  split <;> simp_all

theorem underflow_pop : q.pop.2.underflow = (q.underflow || q.toList.isEmpty) := by
  unfold pop
  split
  · next h => simp [(toList_eq_nil_iff q).2 h]
  · next h =>
    have : q.toList ≠ [] := fun hn => h ((toList_eq_nil_iff q).1 hn)
    simp [this]

/-! ## Drains and resets -/

section PopMany

variable (n : Nat)

/-- Pops in turn give the oldest pulses, as many as are held. -/
theorem popMany_fst : (popMany n q).1 = q.toList.take n := by
  induction n generalizing q with
  | zero => rfl
  | succ n ih =>
    simp only [popMany, ih, pop_fst, toList_pop]
    cases q.toList <;> simp

theorem toList_popMany : (popMany n q).2.toList = q.toList.drop n := by
  induction n generalizing q with
  | zero => rfl
  | succ n ih => rw [popMany, ih, toList_pop, List.drop_tail, Nat.add_comm]

@[simp] theorem depth_popMany : (popMany n q).2.depth = q.depth := by
  induction n generalizing q with
  | zero => rfl
  | succ n ih => rw [popMany, ih, depth_pop]

@[simp] theorem written_popMany : (popMany n q).2.written = q.written := by
  induction n generalizing q with
  | zero => rfl
  | succ n ih => rw [popMany, ih, written_pop]

@[simp] theorem overflow_popMany : (popMany n q).2.overflow = q.overflow := by
  induction n generalizing q with
  | zero => rfl
  | succ n ih => rw [popMany, ih, overflow_pop]

/-- Pops no more than the pulses held never find the queue empty. -/
theorem underflow_popMany (h : n ≤ q.count) : (popMany n q).2.underflow = q.underflow := by
  induction n generalizing q with
  | zero => rfl
  | succ n ih =>
    have hne : q.toList.isEmpty = false := by
      rw [List.isEmpty_eq_false_iff, Ne, toList_eq_nil_iff]
      omega
    rw [popMany, ih _ (by rw [count_pop]; omega), underflow_pop, hne, Bool.or_false]

end PopMany

/-- A drain gives every pulse, oldest first. -/
theorem drain_fst : q.drain.1 = q.toList := by
  rw [drain, popMany_fst, ← length_toList, List.take_length]

@[simp] theorem toList_drain_snd : q.drain.2.toList = [] := by
  rw [drain, toList_popMany, ← length_toList, List.drop_length]

@[simp] theorem depth_drain_snd : q.drain.2.depth = q.depth := depth_popMany _ _

@[simp] theorem written_drain : q.drain.2.written = q.written := written_popMany _ _

@[simp] theorem overflow_drain : q.drain.2.overflow = q.overflow := overflow_popMany _ _

theorem underflow_drain : q.drain.2.underflow = q.underflow := underflow_popMany _ _ le_rfl

@[simp] theorem toList_reset : q.reset.toList = [] := rfl
@[simp] theorem depth_reset : q.reset.depth = q.depth := rfl
@[simp] theorem written_reset : q.reset.written = q.written := rfl
@[simp] theorem underflow_reset : q.reset.underflow = false := rfl
@[simp] theorem overflow_reset : q.reset.overflow = false := rfl

/-! ## Reads -/

/-- The status bits of the register a read shows: empty, full and the two
sticky flags, each at its own bit. -/
theorem testBit_read {k : Nat} (hk : 16 ≤ k) :
    q.read.1.bits.toNat.testBit k =
      (decide (q.count = 0) && decide (k = 31) || decide (q.count = q.depth) && decide (k = 30) ||
        q.underflow && decide (k = 28) || q.overflow && decide (k = 29)) := by
  simp only [read, Register.testBit_setIf, Register.toNat_fullMask, Register.toNat_underflowMask,
    Register.toNat_overflowMask, Nat.testBit_two_pow]
  by_cases h : q.count = 0
  · simp only [if_pos h, Register.toNat_emptyMask, Nat.testBit_two_pow]
    simp [h, eq_comm]
  · simp only [if_neg h, Register.toNat_ofData]
    rw [Nat.testBit_lt_two_pow (lt_of_lt_of_le (UInt16.toNat_lt _) (Nat.pow_le_pow_right (by norm_num) hk))]
    simp [h, eq_comm]

/-- The register a read shows holds the oldest pulse in its data bits. -/
theorem pulse_read (h : q.count ≠ 0) :
    q.read.1.pulse = (Register.ofData (q.entries.get ⟨q.head, q.head_lt⟩)).pulse := by
  apply Register.pulse_eq_of_mod
  simp only [read, if_neg h]
  rw [Register.mod_setIf _ _ (by decide), Register.mod_setIf _ _ (by decide),
    Register.mod_setIf _ _ (by decide)]

/-- A read tells the oldest pulse, whether the queue is empty or full, and the
two sticky flags. -/
theorem status_read :
    q.read.1.status =
      ⟨q.toList.head?, q.toList.isEmpty, decide (q.toList.length = q.depth), q.underflow,
        q.overflow⟩ := by
  have he : q.read.1.empty = decide (q.count = 0) := by
    rw [Register.empty_eq_testBit, testBit_read q (by norm_num)]
    simp
  have hf : q.read.1.full = decide (q.count = q.depth) := by
    rw [Register.full_eq_testBit, testBit_read q (by norm_num)]
    simp
  have hu : q.read.1.underflow = q.underflow := by
    rw [Register.underflow_eq_testBit, testBit_read q (by norm_num)]
    simp
  have ho : q.read.1.overflow = q.overflow := by
    rw [Register.overflow_eq_testBit, testBit_read q (by norm_num)]
    simp
  by_cases h : q.count = 0
  · have hn : q.toList = [] := (toList_eq_nil_iff q).2 h
    simp [Register.status, he, hf, hu, ho, h, hn]
  · have hn : q.toList ≠ [] := fun hn => h ((toList_eq_nil_iff q).1 hn)
    simp [Register.status, he, hf, hu, ho, h, hn, length_toList, head?_toList q h, pulse_read q h]

@[simp] theorem toList_read_snd : q.read.2.toList = q.toList := rfl
@[simp] theorem depth_read_snd : q.read.2.depth = q.depth := rfl
@[simp] theorem underflow_read_snd : q.read.2.underflow = false := rfl
@[simp] theorem overflow_read_snd : q.read.2.overflow = false := rfl

/-! ## Calls -/

/-- A call on a pulse queue. -/
inductive Call where
  | push (p : Pulse)
  | write (r : Register)
  | read
  | pop
  | drain
  | reset

/-- What a call answers. -/
inductive Reply where
  /-- Nothing: a push, a write or a reset. -/
  | done
  /-- The register read. -/
  | register (r : Register)
  /-- The pulse popped, if there was one. -/
  | popped (p : Option Pulse)
  /-- The pulses drained, oldest first; their number is the count drain gives. -/
  | drained (ps : List Pulse)

/-- A call made on a queue: its answer and the queue after it. -/
def perform (q : PulseQueue) : Call → Reply × PulseQueue
  | .push p => (.done, q.push p)
  | .write r => (.done, q.write r)
  | .read => (.register q.read.1, q.read.2)
  | .pop => (.popped q.pop.1, q.pop.2)
  | .drain => (.drained q.drain.1, q.drain.2)
  | .reset => (.done, q.reset)

/-- Calls made in turn: the answers, oldest first, and the queue after them. -/
def performAll (q : PulseQueue) : List Call → List Reply × PulseQueue
  | [] => ([], q)
  | c :: cs =>
    let (a, q) := q.perform c
    let (as, q) := q.performAll cs
    (a :: as, q)

/-- What an answer tells: a register by its status. -/
inductive Answer where
  | done
  | status (s : Register.Status)
  | popped (p : Option Pulse)
  | drained (ps : List Pulse)
deriving DecidableEq

/-- What a reply tells: the status of a register read, the rest as it is. -/
def Reply.answer : Reply → Answer
  | .done => .done
  | .register r => .status r.status
  | .popped p => .popped p
  | .drained ps => .drained ps

/-- A bounded queue of pulses kept as a list, oldest first, with two sticky
flags: a pop found it empty, a write found it full, since they were lowered. -/
structure Flagged where
  pulses : List Pulse
  underflow : Bool
  overflow : Bool
deriving DecidableEq

namespace Flagged

/-- A pulse added at the back while fewer than `depth` are held; otherwise it
is lost and the overflow flag goes up. -/
def put (depth : Nat) (s : Flagged) (p : Pulse) : Flagged :=
  if s.pulses.length < depth then { s with pulses := s.pulses ++ [p] } else { s with overflow := true }

/-- A call on the bounded queue of depth `depth`: a push adds the pulse with
its width clamped to fifteen bits, a write the width and level of the
register and none of its status bits; a read tells the oldest pulse, whether
the list is empty or holds `depth` pulses, and the two flags, then lowers the
flags; a pop takes the oldest pulse, or raises the underflow flag; a drain
gives every pulse, oldest first; a reset empties the list and lowers the
flags. -/
def step (depth : Nat) (s : Flagged) : Call → Answer × Flagged
  | .push p => (.done, s.put depth ⟨min p.width maxWidth, p.high⟩)
  | .write r => (.done, s.put depth ⟨r.width, r.high⟩)
  | .read =>
    (.status ⟨s.pulses.head?, s.pulses.isEmpty, decide (s.pulses.length = depth), s.underflow,
        s.overflow⟩,
      { s with underflow := false, overflow := false })
  | .pop =>
    match s.pulses with
    | [] => (.popped none, { s with underflow := true })
    | p :: ps => (.popped (some p), { s with pulses := ps })
  | .drain => (.drained s.pulses, { s with pulses := [] })
  | .reset => (.done, ⟨[], false, false⟩)

/-- Calls on the bounded queue of depth `depth`, in turn. -/
def run (depth : Nat) (s : Flagged) : List Call → List Answer × Flagged
  | [] => ([], s)
  | c :: cs =>
    let (a, s) := s.step depth c
    let (as, s) := run depth s cs
    (a :: as, s)

end Flagged

/-- The bounded queue a pulse queue stands for: its pulses and its sticky flags. -/
def flagged : Flagged := ⟨q.toList, q.underflow, q.overflow⟩

theorem flagged_write (r : Register) : (q.write r).flagged = q.flagged.put q.depth r.pulse := by
  unfold flagged Flagged.put
  rw [toList_write, underflow_write, overflow_write, isFull_eq]
  by_cases h : q.toList.length < q.depth
  · simp [h, Nat.ne_of_lt h]
  · have : q.toList.length = q.depth := by have := q.count_le; rw [length_toList] at *; omega
    simp [this]

@[simp] theorem depth_perform (c : Call) : (q.perform c).2.depth = q.depth := by
  cases c <;> simp [perform]

/-- One call on a queue answers as the call on the bounded queue it stands for,
of its depth, and leaves the queue standing for what the call leaves. -/
theorem perform_answers (c : Call) :
    ((q.perform c).1.answer, (q.perform c).2.flagged) = q.flagged.step q.depth c := by
  cases c with
  | push p =>
    simp only [perform, Reply.answer, Flagged.step, push, flagged_write, Register.pulse_ofPulse]
  | write r => simp only [perform, Reply.answer, Flagged.step, flagged_write, Register.pulse]
  | read =>
    simp only [perform, Reply.answer, Flagged.step, status_read]
    rfl
  | pop =>
    simp only [perform, Reply.answer, Flagged.step, flagged, pop_fst, toList_pop, underflow_pop,
      overflow_pop]
    cases q.toList <;> simp
  | drain => simp [perform, Reply.answer, Flagged.step, flagged, drain_fst, underflow_drain]
  | reset => simp [perform, Reply.answer, Flagged.step, flagged]

@[simp] theorem depth_performAll (cs : List Call) : (q.performAll cs).2.depth = q.depth := by
  induction cs generalizing q with
  | nil => rfl
  | cons c cs ih => exact (ih (q.perform c).2).trans (depth_perform q c)

/-- Calls made in turn on a queue answer as the same calls on the bounded
queue it stands for, and leave the queue standing for what they leave. -/
theorem performAll_answers (cs : List Call) :
    (((q.performAll cs).1.map Reply.answer), (q.performAll cs).2.flagged) =
      Flagged.run q.depth q.flagged cs := by
  induction cs generalizing q with
  | nil => rfl
  | cons c cs ih =>
    have hc := perform_answers q c
    have hrest := ih (q.perform c).2
    rw [depth_perform] at hrest
    simp only [performAll, Flagged.run, List.map_cons, ← hc, ← hrest]

/-- A pulse queue made for any depth, a depth of zero or less standing for 64,
refines a bounded queue of pulses with two sticky flags: every run of calls
answers as the calls on the empty list with both flags down, a register read
told by its status, and leaves the queue holding what is left of the list, with
its flags, at the depth it was made with and never more pulses than that. -/
theorem ofDepth_refines_flaggedQueue (d : Int) (cs : List Call) :
    let q := ((ofDepth d).performAll cs).2
    ((((ofDepth d).performAll cs).1.map Reply.answer), q.flagged) =
        Flagged.run (if d ≤ 0 then 64 else d.toNat) ⟨[], false, false⟩ cs ∧
      q.depth = (if d ≤ 0 then 64 else d.toNat) ∧ q.toList.length ≤ q.depth := by
  intro q
  refine ⟨performAll_answers (ofDepth d) cs, depth_performAll _ _, ?_⟩
  rw [length_toList]
  exact q.count_le

/-- On a queue of depth two: a wide pulse is clamped, a write keeps the data
bits of a register and drops its status bits, a third pulse is lost and the
overflow flag stays up until a read, and a pop from the drained queue raises
the underflow flag. -/
example : ((ofDepth 2).performAll [.push ⟨40000, true⟩, .write ⟨0xf0000005⟩, .push ⟨6, false⟩,
      .read, .read, .drain, .pop, .read]).1.map Reply.answer =
    [.done, .done, .done, .status ⟨some ⟨0x7fff, true⟩, false, true, false, true⟩,
      .status ⟨some ⟨0x7fff, true⟩, false, true, false, false⟩,
      .drained [⟨0x7fff, true⟩, ⟨5, false⟩], .popped none, .status ⟨none, true, false, true, false⟩] := by
  decide

end PulseQueue

end TapeDeck
