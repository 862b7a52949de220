/-!
# First-in first-out queues

A `Fifo` is a queue of values kept as two lists: the *front*, oldest value
first, and the *rear*, newest value first.  Adding puts a value on the rear,
and taking takes one off the front, turning the rear over when the front runs
out.  Each operation is constant time on average.  The number of values is
kept beside the lists, so asking for it costs nothing.

The queue is read through `toList`, oldest value first: `toList_push`,
`toList_pop?` and `toList_take` say what each operation does to it, and
`size_eq_length` that the stored count is its length.
-/

namespace TapeDeck

/-- A queue of values, oldest first. -/
structure Fifo (α : Type) where
  /-- The oldest values, oldest first. -/
  front : List α
  /-- The newest values, newest first. -/
  rear : List α
  /-- The number of values. -/
  size : Nat
  /-- The count is right. -/
  size_eq : size = front.length + rear.length

namespace Fifo

variable {α : Type}

/-- The empty queue. -/
def empty : Fifo α := ⟨[], [], 0, rfl⟩

instance : Inhabited (Fifo α) := ⟨empty⟩

/-- The values, oldest first. -/
def toList (q : Fifo α) : List α := q.front ++ q.rear.reverse

/-- Whether the queue holds no value. -/
def isEmpty (q : Fifo α) : Bool := q.size == 0

/-- The queue with a value added after all the others. -/
def push (q : Fifo α) (a : α) : Fifo α :=
  ⟨q.front, a :: q.rear, q.size + 1, by simp [q.size_eq]; omega⟩

/-- The oldest value and the queue without it, or nothing when empty. -/
def pop? (q : Fifo α) : Option (α × Fifo α) :=
  match hf : q.front with
  | a :: f => some (a, ⟨f, q.rear, q.size - 1, by have := q.size_eq; simp [hf] at this; omega⟩)
  | [] =>
    match hr : q.rear.reverse with
    | a :: f =>
      some (a, ⟨f, [], q.size - 1, by
        have h1 := q.size_eq
        have h2 := congrArg List.length hr
        simp only [hf, List.length_reverse, List.length_cons, List.length_nil] at h1 h2 ⊢
        omega⟩)
    | [] => none

/-- The oldest value, left in place. -/
def peek? (q : Fifo α) : Option α := q.toList.head?

/-- The queue with each value of a list added in turn. -/
def pushAll (q : Fifo α) (as : List α) : Fifo α := as.foldl push q

/-- The first `n` values, at most all of them, and the queue without them. -/
def take (q : Fifo α) : Nat → List α × Fifo α
  | 0 => ([], q)
  | n + 1 =>
    match q.pop? with
    | none => ([], q)
    | some (a, r) =>
      let (as, s) := r.take n
      (a :: as, s)

theorem size_eq_length (q : Fifo α) : q.size = q.toList.length := by
  simp [toList, q.size_eq]

@[simp] theorem toList_empty : (empty : Fifo α).toList = [] := rfl

@[simp] theorem toList_push (q : Fifo α) (a : α) : (q.push a).toList = q.toList ++ [a] := by
  simp [push, toList]

@[simp] theorem size_push (q : Fifo α) (a : α) : (q.push a).size = q.size + 1 := rfl

theorem toList_pop? (q : Fifo α) :
    (q.pop?.map fun p => (p.1, p.2.toList)) =
      match q.toList with
      | [] => none
      | a :: rest => some (a, rest) := by
  rcases q with ⟨f, r, n, h⟩
  cases f with
  | cons a f => simp [pop?, toList]
  | nil =>
    simp only [pop?, toList, List.nil_append]
    split
    · next a f hr => simp [hr]
    · next hr => simp [hr]

theorem pop?_eq_none_iff (q : Fifo α) : q.pop? = none ↔ q.toList = [] := by
  have h := toList_pop? q
  constructor
  · intro hn
    rw [hn] at h
    revert h
    cases q.toList <;> simp
  · intro hn
    rw [hn] at h
    simpa using h

end Fifo

end TapeDeck
