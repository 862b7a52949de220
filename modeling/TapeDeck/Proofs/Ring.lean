import TapeDeck.ByteRing

/-!
# Byte rings through their contents

A `ByteRing` keeps its bytes in a circular store, so two rings that hold the
same bytes may have them in different slots, and a cleared ring keeps bytes
nobody can read.  Every operation acts on the contents as on a list: `push`
appends while there is room, `pull?` takes the head, `pullMany` splits the
list, `front?` reads the head and `occupied` is the length.  The equations
here say so, and later proofs use them instead of looking into the store.

`ByteRing.ofList` is a ring that holds a given list.  The stream semantics of
the generator runs on it.

*Calls.*  A run of calls on a ring, pushes, pulls, looks at the front, bulk
pulls and clears, answers as the same calls on a list bounded by the
capacity answer, and leaves the contents that list (`ByteRing.performAll_onList`).
A ring made for any capacity, a capacity below one counting as one, is
such a bounded list throughout, with its cursors where the store has them
(`ByteRing.ofCapacity_refines_boundedList`).
-/

namespace TapeDeck

namespace ByteRing

variable {r r' : ByteRing} {b : UInt8}

@[simp] theorem occupied_eq_length (r : ByteRing) : r.occupied = r.toList.length :=
  (length_toList r).symm

@[simp] theorem isEmpty_eq (r : ByteRing) : r.isEmpty = r.toList.isEmpty := by
  simp only [isEmpty, occupied_eq_length]
  cases r.toList <;> rfl

@[simp] theorem capacity_pushAll (r : ByteRing) (l : List UInt8) : (r.pushAll l).capacity = r.capacity := by
  induction l generalizing r with
  | nil => rfl
  | cons b l ih => exact (ih (r.push b)).trans (capacity_push r b)

/-- Bytes pushed onto a ring with room for them all are appended to it. -/
theorem toList_pushAll {l : List UInt8} (h : r.toList.length + l.length ≤ r.capacity) :
    (r.pushAll l).toList = r.toList ++ l := by
  induction l generalizing r with
  | nil => simp [pushAll]
  | cons b l ih =>
    have hroom : r.toList.length < r.capacity := by simp at h; omega
    have hpush : (r.push b).toList = r.toList ++ [b] := by rw [toList_push, if_pos hroom]
    show ((r.push b).pushAll l).toList = _
    rw [ih (by simp [hpush] at h ⊢; omega), hpush, List.append_assoc, List.singleton_append]

/-- A ring of the given bytes, with room for them and at least one more. -/
def ofList (l : List UInt8) : ByteRing := (ofCapacity (l.length + 1 : Nat)).pushAll l

@[simp] theorem capacity_ofList (l : List UInt8) : (ofList l).capacity = l.length + 1 := by
  simp [ofList]

@[simp] theorem toList_ofList (l : List UInt8) : (ofList l).toList = l := by
  rw [ofList, toList_pushAll (by simp)]
  simp

theorem pull?_eq_none_iff : r.pull? = none ↔ r.toList = [] := by
  unfold pull?
  by_cases h : r.occupied = 0
  · simp only [if_pos h, true_iff]
    exact List.eq_nil_of_length_eq_zero (by simpa using h)
  · simp only [if_neg h, reduceCtorEq, false_iff]
    intro hn
    exact h (by simp [hn])

theorem toList_of_pull? (h : r.pull? = some (b, r')) : r.toList = b :: r'.toList := by
  unfold pull? at h
  split at h
  · cases h
  · next hne =>
    simp only [Option.some.injEq] at h
    have hb := pull_fst r
    have hr := toList_pull r
    rw [h] at hb hr
    obtain ⟨c, l, hcl⟩ := List.exists_cons_of_ne_nil (l := r.toList) (fun hn => hne (by simp [hn]))
    rw [hcl] at hb hr ⊢
    simp only [List.headD_cons] at hb
    simp only [List.tail_cons] at hr
    rw [hb, hr]

theorem capacity_of_pull? (h : r.pull? = some (b, r')) : r'.capacity = r.capacity := by
  unfold pull? at h
  split at h
  · cases h
  · simp only [Option.some.injEq] at h
    have hc := capacity_pull r
    rwa [h] at hc

/-- A ring whose contents start with `b` gives up `b` and keeps the rest. -/
theorem pull?_of_toList_eq_cons {l : List UInt8} (h : r.toList = b :: l) :
    ∃ r', r.pull? = some (b, r') ∧ r'.toList = l ∧ r'.capacity = r.capacity := by
  cases hp : r.pull? with
  | none =>
    rw [pull?_eq_none_iff, h] at hp
    cases hp
  | some p =>
    obtain ⟨a, r'⟩ := p
    have hr := toList_of_pull? hp
    rw [h, List.cons.injEq] at hr
    obtain ⟨rfl, hl⟩ := hr
    exact ⟨r', rfl, hl.symm, capacity_of_pull? hp⟩

/-! ## Calls -/

/-- A call on a byte ring. -/
inductive Call where
  | push (b : UInt8)
  | pull
  | front
  | pullBulk (p : List UInt8)
  | clear

/-- What a call answers. -/
inductive Reply where
  /-- Nothing: a push or a clear. -/
  | done
  /-- The byte pulled. -/
  | byte (b : UInt8)
  /-- The front byte, and whether there was one. -/
  | front (b : UInt8) (ok : Bool)
  /-- The number of bytes a bulk pull took, and the buffer it filled. -/
  | bulk (n : Nat) (p : List UInt8)
deriving DecidableEq

/-- A call made on a ring: its answer and the ring after it. -/
def perform (r : ByteRing) : Call → Reply × ByteRing
  | .push b => (.done, r.push b)
  | .pull => (.byte r.pull.1, r.pull.2)
  | .front => (.front (r.front?.getD 0) r.front?.isSome, r)
  | .pullBulk p => (.bulk (r.pullBulk p).1 (r.pullBulk p).2.1, (r.pullBulk p).2.2)
  | .clear => (.done, r.clear)

/-- Calls made in turn: the answers, oldest first, and the ring after them. -/
def performAll (r : ByteRing) : List Call → List Reply × ByteRing
  | [] => ([], r)
  | c :: cs =>
    let (a, r) := r.perform c
    let (as, r) := r.performAll cs
    (a :: as, r)

/-- A call on a bounded queue kept as a list, oldest byte first: a push
appends while the list is shorter than the bound, a pull takes the head (0
from an empty list), a look at the front leaves the list, a bulk pull copies
as many bytes as the buffer has room for and the list holds into its front
and drops them, and a clear empties the list. -/
def Call.onList (cap : Nat) (q : List UInt8) : Call → Reply × List UInt8
  | .push b => (.done, if q.length < cap then q ++ [b] else q)
  | .pull => (.byte (q.headD 0), q.tail)
  | .front => (.front (q.headD 0) !q.isEmpty, q)
  | .pullBulk p =>
    let n := min p.length q.length
    (.bulk n (q.take n ++ p.drop n), q.drop n)
  | .clear => (.done, [])

/-- Calls on a bounded queue kept as a list, in turn. -/
def Call.allOnList (cap : Nat) (q : List UInt8) : List Call → List Reply × List UInt8
  | [] => ([], q)
  | c :: cs =>
    let (a, q) := c.onList cap q
    let (as, q) := Call.allOnList cap q cs
    (a :: as, q)

@[simp] theorem capacity_perform (r : ByteRing) (c : Call) : (r.perform c).2.capacity = r.capacity := by
  cases c <;> simp [perform]

/-- One call on a ring answers as the call on its contents, bounded by its
capacity, and leaves as contents what it leaves of the list. -/
theorem perform_onList (r : ByteRing) (c : Call) :
    ((r.perform c).1, (r.perform c).2.toList) = c.onList r.capacity r.toList := by
  cases c with
  | push b => simp [perform, Call.onList]
  | pull => simp [perform, Call.onList, pull_fst, toList_pull]
  | front =>
    cases h : r.toList with
    | nil => simp [perform, Call.onList, h]
    | cons b l => simp [perform, Call.onList, h]
  | pullBulk p => simp [perform, Call.onList, pullBulk_fst, pullBulk_copied, toList_pullBulk]
  | clear => simp [perform, Call.onList]

@[simp] theorem capacity_performAll (r : ByteRing) (cs : List Call) :
    (r.performAll cs).2.capacity = r.capacity := by
  induction cs generalizing r with
  | nil => rfl
  | cons c cs ih => exact (ih (r.perform c).2).trans (capacity_perform r c)

/-- Calls made in turn on a ring answer as the same calls on its contents,
bounded by its capacity, and leave as contents what they leave of the list. -/
theorem performAll_onList (r : ByteRing) (cs : List Call) :
    ((r.performAll cs).1, (r.performAll cs).2.toList) = Call.allOnList r.capacity r.toList cs := by
  induction cs generalizing r with
  | nil => rfl
  | cons c cs ih =>
    have hc := perform_onList r c
    have hrest := ih (r.perform c).2
    rw [capacity_perform] at hrest
    simp only [performAll, Call.allOnList, ← hc, ← hrest]

/-- A ring made for any capacity, a capacity below one counting as one,
refines a bounded queue kept as a list: every run of calls answers as the
calls on the list that starts empty, and leaves the ring holding what is left
of the list, with the capacity it was made with.  Throughout, the ring holds
no more than its capacity, its count and its room are the length of the list
and the rest of the capacity, its cursors lie inside the store, and the write
cursor stands as many slots after the read cursor, round the store, as bytes
are held. -/
theorem ofCapacity_refines_boundedList (c : Int) (cs : List Call) :
    let r := ((ofCapacity c).performAll cs).2
    (((ofCapacity c).performAll cs).1, r.toList) = Call.allOnList (max c.toNat 1) [] cs ∧
      r.capacity = max c.toNat 1 ∧ r.toList.length ≤ r.capacity ∧
      r.occupied = r.toList.length ∧ r.free = r.capacity - r.toList.length ∧
      r.readIdx < r.capacity ∧ r.writeIdx < r.capacity ∧
      r.writeIdx = (r.readIdx + r.occupied) % r.capacity := by
  intro r
  have hcap : r.capacity = max c.toNat 1 := by simp [r]
  refine ⟨?_, hcap, ?_, occupied_eq_length r, by simp [free], r.readIdx_lt, r.writeIdx_lt,
    r.writeIdx_eq⟩
  · rw [performAll_onList, capacity_ofCapacity, toList_ofCapacity]
  · rw [← occupied_eq_length]
    exact r.occupied_le

/-- A bulk pull whose bytes wrap round the end of a three-slot store. -/
example : ((ofCapacity 3).performAll [.push 1, .push 2, .push 3, .pull, .push 4, .pullBulk [9, 9, 9, 9]]).1 =
    [.done, .done, .done, .byte 1, .done, .bulk 3 [2, 3, 4, 9]] := by decide

end ByteRing

end TapeDeck
