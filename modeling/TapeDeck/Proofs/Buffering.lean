import Mathlib
import TapeDeck.Audio.SampleBuffer

/-!
# Sample buffers as bounded queues

A `SampleBuffer` keeps the levels of its samples in a circular store.  Read
through `toList`, the `count` slots from `head` on, it is a bounded queue of
samples, oldest first, each `+1/4` at a high level and `-1/4` at a low one.

*One sample, many samples.*  A sample put in a buffer with room is appended
to its contents, and one put in a full buffer is counted as an overrun
(`toList_put`).  So the samples of a pulse, queued one by one, append as many
as there is room for and count the rest (`toList_putMany`,
`overrun_putMany`).

*Taking.*  A fill takes the first samples of the contents, up to the number
asked for, and leaves the rest (`fill_fst`, `toList_fill`): the window of a
circular store is cut at the same place as the list it stands for
(`window_take`, `window_drop`).

*Calls.*  `Bounded` is the queue a sample buffer stands for: its renderer,
the samples as a list bounded by the capacity, and the two counts.  A call on
the buffer answers as the call on that queue (`perform_answers`), so a run of
calls does (`performAll_answers`), and a buffer made for any clock and size
refines the queue that starts empty (`create_refines_boundedQueue`).
-/

namespace TapeDeck

/-! ## Windows -/

section Window

variable {α : Type} {c : Nat} (v : Vector α c) (hc : 0 < c)

/-- The first `k` entries of a window are the window of `k` slots. -/
theorem window_take (start : Nat) {k n : Nat} (hk : k ≤ n) :
    window v hc start k = (window v hc start n).take k := by
  apply List.ext_getElem (by simp [Nat.min_eq_left hk])
  intro i h₁ h₂
  simp only [List.getElem_take, getElem_window]

/-- A window without its first `k` entries is the window that starts `k`
slots later, round the store. -/
theorem window_drop (start k n : Nat) :
    window v hc ((start + k) % c) (n - k) = (window v hc start n).drop k := by
  apply List.ext_getElem (by simp)
  intro i h₁ h₂
  rw [List.getElem_drop, getElem_window, getElem_window]
  congr 2
  rw [Nat.mod_add_mod, Nat.add_assoc]

end Window

namespace SampleBuffer

/-- The sample a level stands for: a quarter of full scale up or down. -/
def value (level : Bool) : ℚ := if level then 1 / 4 else -1 / 4

/-- The levels of the samples held, oldest first. -/
def toList (b : SampleBuffer) : List Bool := window b.data b.capacity_pos b.head b.count

variable (b : SampleBuffer) (level : Bool)

@[simp] theorem length_toList : b.toList.length = b.count := by simp [toList]

theorem length_eq : b.length = b.toList.length := by simp [length]

/-! ## One sample -/

@[simp] theorem capacity_put : (b.put level).capacity = b.capacity := by
  unfold put; split <;> rfl

@[simp] theorem renderer_put : (b.put level).renderer = b.renderer := by
  unfold put; split <;> rfl

@[simp] theorem underrun_put : (b.put level).underrun = b.underrun := by
  unfold put; split <;> rfl

theorem count_put : (b.put level).count = if b.count = b.capacity then b.count else b.count + 1 := by
  unfold put; split <;> rfl

theorem overrun_put :
    (b.put level).overrun = if b.count = b.capacity then b.overrun + 1 else b.overrun := by
  unfold put; split <;> rfl

/-- A sample is appended to a buffer with room, and left out of a full one. -/
theorem toList_put :
    (b.put level).toList = if b.count = b.capacity then b.toList else b.toList ++ [level] := by
  unfold put
  split
  · rfl
  · next h =>
    exact window_set b.data b.capacity_pos b.head (by have := b.count_le; omega) rfl
      (Nat.mod_lt _ b.capacity_pos) level

/-! ## The samples of a pulse -/

/-- What every sample put leaves alone, the samples of a pulse leave alone. -/
theorem putMany_invariant {β : Type} (f : SampleBuffer → β) (hf : ∀ b, f (b.put level) = f b)
    (n : Nat) : f (putMany level n b) = f b := by
  induction n generalizing b with
  | zero => rfl
  | succ n ih => exact (ih _).trans (hf b)

@[simp] theorem capacity_putMany (n : Nat) : (putMany level n b).capacity = b.capacity :=
  putMany_invariant b level capacity (capacity_put · level) n

@[simp] theorem renderer_putMany (n : Nat) : (putMany level n b).renderer = b.renderer :=
  putMany_invariant b level renderer (renderer_put · level) n

@[simp] theorem underrun_putMany (n : Nat) : (putMany level n b).underrun = b.underrun :=
  putMany_invariant b level underrun (underrun_put · level) n

/-- `n` samples queued one by one append as many as there is room for. -/
theorem toList_putMany (n : Nat) :
    (putMany level n b).toList = b.toList ++ List.replicate (min n (b.capacity - b.count)) level := by
  induction n generalizing b with
  | zero => simp [putMany]
  | succ n ih =>
    rw [putMany, ih, toList_put, count_put, capacity_put]
    by_cases hfull : b.count = b.capacity
    · simp [hfull]
    · -- one sample goes in, and the room shrinks by one
      have hroom : min (n + 1) (b.capacity - b.count) = min n (b.capacity - (b.count + 1)) + 1 := by
        have := b.count_le; omega
      simp [hfull, hroom, List.replicate_succ]

/-- `n` samples queued one by one count those there is no room for as overruns. -/
theorem overrun_putMany (n : Nat) :
    (putMany level n b).overrun = b.overrun + (n - min n (b.capacity - b.count)) := by
  induction n generalizing b with
  | zero => simp [putMany]
  | succ n ih =>
    rw [putMany, ih, overrun_put, count_put, capacity_put]
    have := b.count_le
    by_cases hfull : b.count = b.capacity
    · simp only [hfull, if_true, Nat.sub_self, Nat.min_zero]
      omega
    · simp only [hfull, if_false]
      omega

/-! ## Taking samples -/

@[simp] theorem capacity_fill (n : Nat) : (b.fill n).2.capacity = b.capacity := rfl

@[simp] theorem renderer_fill (n : Nat) : (b.fill n).2.renderer = b.renderer := rfl

@[simp] theorem overrun_fill (n : Nat) : (b.fill n).2.overrun = b.overrun := rfl

theorem underrun_fill (n : Nat) : (b.fill n).2.underrun = b.underrun + (n - min n b.count) := rfl

/-- A fill takes the oldest samples, up to the number asked for. -/
theorem fill_fst (n : Nat) : (b.fill n).1 = b.toList.take n := by
  rw [List.take_eq_take_min, length_toList]
  exact window_take _ _ _ (Nat.min_le_right _ _)

/-- A fill leaves the samples it does not take. -/
theorem toList_fill (n : Nat) : (b.fill n).2.toList = b.toList.drop n := by
  have hwin := window_drop b.data b.capacity_pos b.head (min n b.count) b.count
  have hdrop : b.toList.drop (min n b.count) = b.toList.drop n := by
    rcases Nat.le_total n b.count with hn | hn
    · rw [Nat.min_eq_left hn]
    · rw [Nat.min_eq_right hn, List.drop_of_length_le (by simp),
        List.drop_of_length_le (by simpa using hn)]
  exact hwin.trans hdrop

/-! ## Pulses and reset -/

variable (width : UInt32) (high : Bool)

/-- A pulse appends as many of its samples as there is room for. -/
theorem toList_pulse : (b.pulse width high).toList = b.toList ++
    List.replicate (min (b.renderer.pulse width high).2.2.toInt.toNat (b.capacity - b.count))
      (b.renderer.pulse width high).2.1 :=
  toList_putMany { b with renderer := (b.renderer.pulse width high).1 } _ _

/-- A pulse counts the samples there is no room for as overruns. -/
theorem overrun_pulse : (b.pulse width high).overrun = b.overrun +
    ((b.renderer.pulse width high).2.2.toInt.toNat -
      min (b.renderer.pulse width high).2.2.toInt.toNat (b.capacity - b.count)) :=
  overrun_putMany { b with renderer := (b.renderer.pulse width high).1 } _ _

@[simp] theorem renderer_pulse : (b.pulse width high).renderer = (b.renderer.pulse width high).1 :=
  renderer_putMany { b with renderer := (b.renderer.pulse width high).1 } _ _

@[simp] theorem underrun_pulse : (b.pulse width high).underrun = b.underrun :=
  underrun_putMany { b with renderer := (b.renderer.pulse width high).1 } _ _

@[simp] theorem capacity_pulse : (b.pulse width high).capacity = b.capacity :=
  capacity_putMany { b with renderer := (b.renderer.pulse width high).1 } _ _

@[simp] theorem toList_reset : b.reset.toList = [] := rfl

@[simp] theorem capacity_reset : b.reset.capacity = b.capacity := rfl

@[simp] theorem renderer_reset : b.reset.renderer = b.renderer.reset := rfl

@[simp] theorem underrun_reset : b.reset.underrun = b.underrun := rfl

@[simp] theorem overrun_reset : b.reset.overrun = b.overrun := rfl

/-! ## Calls -/

/-- A call on a sample buffer. -/
inductive Call where
  /-- A pulse of a width and level, rendered and queued. -/
  | pulse (width : UInt32) (high : Bool)
  /-- A fill of a destination of `n` samples. -/
  | fill (n : Nat)
  /-- The number of samples held. -/
  | len
  /-- The underrun and overrun counts. -/
  | stats
  | reset

/-- What a call answers. -/
inductive Reply where
  /-- Nothing: a pulse or a reset. -/
  | done
  /-- The number of samples taken, and the destination after the fill. -/
  | filled (taken : Nat) (dst : List ℚ)
  | length (n : Nat)
  | stats (underrun overrun : Nat)
deriving DecidableEq

/-- A call made on a buffer: its answer and the buffer after it.  A fill
writes the samples it takes to the front of the destination and zeroes the
rest. -/
def perform : Call → Reply × SampleBuffer
  | .pulse width high => (.done, b.pulse width high)
  | .fill n =>
    let (got, b) := b.fill n
    (.filled got.length (got.map value ++ List.replicate (n - got.length) 0), b)
  | .len => (.length b.length, b)
  | .stats => (.stats b.underrun b.overrun, b)
  | .reset => (.done, b.reset)

/-- Calls made in turn: the answers, oldest first, and the buffer after them. -/
def performAll : SampleBuffer → List Call → List Reply × SampleBuffer
  | b, [] => ([], b)
  | b, c :: cs =>
    let (a, b) := b.perform c
    let (as, b) := performAll b cs
    (a :: as, b)

/-- A bounded queue of samples kept as a list, oldest first, beside the
renderer of its pulses and the counts of requested samples that were not
there and of samples that found it full. -/
structure Bounded where
  renderer : Renderer
  samples : List ℚ
  underrun : Nat
  overrun : Nat

namespace Bounded

/-- A call on the bounded queue of capacity `cap`: a pulse is rendered and
its samples appended, the oldest kept and each new one that finds the queue
full dropped and counted; a fill of `n` moves the first samples, up to `n`,
to the front of the destination, zeroes the rest and counts them; a reset
empties the queue and the renderer and keeps the counts. -/
def step (cap : Nat) (s : Bounded) : Call → Reply × Bounded
  | .pulse width high =>
    let (r, level, n) := s.renderer.pulse width high
    let n := n.toInt.toNat
    let k := min n (cap - s.samples.length)
    (.done, { s with renderer := r, samples := s.samples ++ List.replicate k (value level),
                     overrun := s.overrun + (n - k) })
  | .fill n =>
    let k := min n s.samples.length
    (.filled k (s.samples.take n ++ List.replicate (n - k) 0),
      { s with samples := s.samples.drop n, underrun := s.underrun + (n - k) })
  | .len => (.length s.samples.length, s)
  | .stats => (.stats s.underrun s.overrun, s)
  | .reset => (.done, { s with renderer := s.renderer.reset, samples := [] })

/-- Calls on the bounded queue of capacity `cap`, in turn. -/
def run (cap : Nat) : Bounded → List Call → List Reply × Bounded
  | s, [] => ([], s)
  | s, c :: cs =>
    let (a, s) := s.step cap c
    let (as, s) := run cap s cs
    (a :: as, s)

end Bounded

/-- The bounded queue a buffer stands for. -/
def bounded : Bounded := ⟨b.renderer, b.toList.map value, b.underrun, b.overrun⟩

@[simp] theorem capacity_perform (c : Call) : (b.perform c).2.capacity = b.capacity := by
  cases c <;> simp [perform]

/-- One call on a buffer answers as the call on the bounded queue it stands
for, of its capacity, and leaves the buffer standing for what the call
leaves. -/
theorem perform_answers (c : Call) :
    ((b.perform c).1, (b.perform c).2.bounded) = b.bounded.step b.capacity c := by
  cases c with
  | pulse width high =>
    simp [perform, Bounded.step, bounded, toList_pulse, overrun_pulse]
  | fill n =>
    simp [perform, Bounded.step, bounded, fill_fst, toList_fill, underrun_fill, List.map_take,
      List.map_drop]
  | len => simp [perform, Bounded.step, bounded, length_eq]
  | stats => simp [perform, Bounded.step, bounded]
  | reset => simp [perform, Bounded.step, bounded]

@[simp] theorem capacity_performAll (cs : List Call) :
    (b.performAll cs).2.capacity = b.capacity := by
  induction cs generalizing b with
  | nil => rfl
  | cons c cs ih => exact (ih (b.perform c).2).trans (capacity_perform b c)

/-- Calls made in turn on a buffer answer as the same calls on the bounded
queue it stands for, and leave the buffer standing for what they leave. -/
theorem performAll_answers (cs : List Call) :
    ((b.performAll cs).1, (b.performAll cs).2.bounded) = Bounded.run b.capacity b.bounded cs := by
  induction cs generalizing b with
  | nil => rfl
  | cons c cs ih =>
    have hc := perform_answers b c
    have hrest := ih (b.perform c).2
    rw [capacity_perform] at hrest
    simp only [performAll, Bounded.run, ← hc, ← hrest]

/-- A sample buffer made for any pulse clock and any size, a size of zero or
less standing for 11025 samples, refines a bounded queue of samples of that
capacity: every run of pulses, fills, reset, length and count requests
answers as the calls on the queue that starts empty, with a new renderer at
44.1 kHz and both counts zero, and leaves the buffer standing for what is
left of the queue, at the capacity it was made with; and throughout it holds
no more samples than that. -/
theorem create_refines_boundedQueue (clock size : Int) (cs : List Call) :
    let cap := if size ≤ 0 then 11025 else size.toNat
    let b := ((create clock size).performAll cs).2
    (((create clock size).performAll cs).1, b.bounded) =
        Bounded.run cap ⟨Renderer.create clock 44100, [], 0, 0⟩ cs ∧
      b.capacity = cap ∧ b.length ≤ cap := by
  intro cap b
  have hcap : b.capacity = cap := by simp [b, cap, create, defaultSize, rate]
  refine ⟨performAll_answers (create clock size) cs, hcap, ?_⟩
  rw [← hcap]
  exact b.count_le

/-- In a buffer of four samples at one tick a sample: six samples of a pulse
overrun by two, a fill of three takes the first three, and the next pulse's
samples wrap round the end of the store. -/
example : ((create 44100 4).performAll [.pulse 6 true, .stats, .fill 3, .pulse 3 true, .len,
      .fill 5]).1 =
    [.done, .stats 0 2, .filled 3 [1 / 4, 1 / 4, 1 / 4], .done, .length 4,
      .filled 4 [1 / 4, -1 / 4, -1 / 4, -1 / 4, 0]] := by
  rfl

end SampleBuffer

end TapeDeck
