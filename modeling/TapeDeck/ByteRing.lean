import TapeDeck.Circular

/-!
# Byte rings

A `ByteRing` is a bounded queue of bytes, the buffer between a tape file and
the pulse generator.  It keeps its bytes in a store of `capacity` slots, at
least one, used circularly: `occupied` bytes are held, the oldest in slot
`readIdx`, and the next byte pushed goes to slot `writeIdx`, the one after the
newest.  The ring carries the proof that its cursors agree: `writeIdx` is
`occupied` slots on from `readIdx`, counted round the store.

* `push` writes a byte at `writeIdx` and steps it on, wrapping to slot 0 at
  the end of the store; a byte pushed onto a full ring is dropped.
* `pull` reads the byte at `readIdx` and steps it on the same way; pulling
  from an empty ring gives 0.
* `pullBulk` copies as many bytes as a buffer has room for and the ring
  holds into the front of the buffer, in one piece, or in two when the
  bytes held wrap round the end of the store, and moves `readIdx` on by
  that many, modulo the capacity.
* `clear` resets the cursors and leaves the store as it is.

The ring is read through `toList`, oldest byte first: the `occupied` slots
from `readIdx` on, round the store.  `toList_push`, `toList_pull`,
`pullBulk_copied` and `toList_pullBulk` say what each operation does to it.
-/

namespace TapeDeck

/-- The slot after slot `i` of a store of `c` slots: the next one, or slot 0
after the last. -/
def nextSlot (c i : Nat) : Nat := if i + 1 ≥ c then 0 else i + 1

theorem nextSlot_eq_mod {c i : Nat} (h : i < c) : nextSlot c i = (i + 1) % c := by
  unfold nextSlot
  split
  · have : i + 1 = c := by omega
    rw [this, Nat.mod_self]
  · rw [Nat.mod_eq_of_lt (by omega)]

/-- A bounded queue of bytes in a circular store. -/
structure ByteRing where
  /-- The most bytes the ring holds: the number of slots of the store. -/
  capacity : Nat
  /-- The store. -/
  store : Vector UInt8 capacity
  /-- The number of bytes held. -/
  occupied : Nat
  /-- The slot of the oldest byte. -/
  readIdx : Nat
  /-- The slot the next byte pushed goes to. -/
  writeIdx : Nat
  capacity_pos : 0 < capacity
  occupied_le : occupied ≤ capacity
  readIdx_lt : readIdx < capacity
  writeIdx_eq : writeIdx = (readIdx + occupied) % capacity

namespace ByteRing

theorem writeIdx_lt (r : ByteRing) : r.writeIdx < r.capacity := by
  rw [r.writeIdx_eq]
  exact Nat.mod_lt _ r.capacity_pos

/-- An empty ring of a capacity; a capacity below one counts as one. -/
def ofCapacity (c : Int) : ByteRing where
  capacity := max c.toNat 1
  store := Vector.replicate _ 0
  occupied := 0
  readIdx := 0
  writeIdx := 0
  capacity_pos := by omega
  occupied_le := by omega
  readIdx_lt := by omega
  writeIdx_eq := (Nat.zero_mod _).symm

/-- The byte in a slot, the slot counted round the store. -/
def slot (r : ByteRing) (i : Nat) : UInt8 := r.store.get ⟨i % r.capacity, Nat.mod_lt _ r.capacity_pos⟩

/-- The bytes held, oldest first. -/
def toList (r : ByteRing) : List UInt8 := (List.range r.occupied).map fun i => r.slot (r.readIdx + i)

/-- The number of bytes that can still be pushed. -/
def free (r : ByteRing) : Nat := r.capacity - r.occupied

/-- Whether the ring holds no byte. -/
def isEmpty (r : ByteRing) : Bool := r.occupied == 0

/-- The ring with a byte written at `writeIdx`, or unchanged when full. -/
def push (r : ByteRing) (b : UInt8) : ByteRing :=
  if h : r.occupied = r.capacity then r
  else
    { r with
      store := r.store.set r.writeIdx b r.writeIdx_lt
      writeIdx := nextSlot r.capacity r.writeIdx
      occupied := r.occupied + 1
      occupied_le := by have := r.occupied_le; omega
      writeIdx_eq := by
        rw [nextSlot_eq_mod r.writeIdx_lt, r.writeIdx_eq, Nat.mod_add_mod, Nat.add_assoc] }

/-- The ring with each byte of a list pushed in turn. -/
def pushAll (r : ByteRing) (bs : List UInt8) : ByteRing := bs.foldl push r

/-- The oldest byte and the ring without it; 0 and the same ring when empty. -/
def pull (r : ByteRing) : UInt8 × ByteRing :=
  if h : r.occupied = 0 then (0, r)
  else
    (r.store.get ⟨r.readIdx, r.readIdx_lt⟩,
      { r with
        readIdx := nextSlot r.capacity r.readIdx
        occupied := r.occupied - 1
        occupied_le := by have := r.occupied_le; omega
        readIdx_lt := by rw [nextSlot_eq_mod r.readIdx_lt]; exact Nat.mod_lt _ r.capacity_pos
        writeIdx_eq := by
          rw [nextSlot_eq_mod r.readIdx_lt, Nat.mod_add_mod, r.writeIdx_eq]
          congr 1
          omega })

/-- The oldest byte and the ring without it, if there is one. -/
def pull? (r : ByteRing) : Option (UInt8 × ByteRing) :=
  if r.occupied = 0 then none else some r.pull

/-- The oldest byte, left in place, if there is one. -/
def front? (r : ByteRing) : Option UInt8 :=
  if r.occupied = 0 then none else some (r.store.get ⟨r.readIdx, r.readIdx_lt⟩)

/-- A bulk pull into a buffer: the number of bytes taken, as many as the
buffer has room for and the ring holds; the buffer with them copied to its
front, first from `readIdx` towards the end of the store and then, when the
bytes wrap, from the start of the store; and the ring without them. -/
def pullBulk (r : ByteRing) (p : List UInt8) : Nat × List UInt8 × ByteRing :=
  let n := min p.length r.occupied
  let first := min n (r.capacity - r.readIdx)
  (n,
    r.store.toList.extract r.readIdx (r.readIdx + first) ++ r.store.toList.extract 0 (n - first) ++
      p.drop n,
    { r with
      readIdx := (r.readIdx + n) % r.capacity
      occupied := r.occupied - n
      occupied_le := by have := r.occupied_le; omega
      readIdx_lt := Nat.mod_lt _ r.capacity_pos
      writeIdx_eq := by
        rw [Nat.mod_add_mod, r.writeIdx_eq]
        congr 1
        omega })

/-- The first `n` bytes, at most all of them, pulled in bulk into a buffer of
`n` zero bytes, and the ring without them. -/
def pullMany (r : ByteRing) (n : Nat) : List UInt8 × ByteRing :=
  let (k, p, r) := r.pullBulk (List.replicate n 0)
  (p.take k, r)

/-- The ring with nothing in it: its cursors reset, its store left alone. -/
def clear (r : ByteRing) : ByteRing :=
  { r with occupied := 0, readIdx := 0, writeIdx := 0, occupied_le := Nat.zero_le _,
           readIdx_lt := r.capacity_pos, writeIdx_eq := (Nat.zero_mod _).symm }

/-! ## The contents -/

theorem length_toList (r : ByteRing) : r.toList.length = r.occupied := by
  simp [toList]

theorem getElem_toList (r : ByteRing) {i : Nat} (h : i < r.toList.length) :
    r.toList[i] = r.slot (r.readIdx + i) := by
  simp [toList]

@[simp] theorem capacity_ofCapacity (c : Int) : (ofCapacity c).capacity = max c.toNat 1 := rfl

@[simp] theorem toList_ofCapacity (c : Int) : (ofCapacity c).toList = [] := rfl

@[simp] theorem capacity_push (r : ByteRing) (b : UInt8) : (r.push b).capacity = r.capacity := by
  unfold push
  split <;> rfl

@[simp] theorem toList_push (r : ByteRing) (b : UInt8) :
    (r.push b).toList = if r.toList.length < r.capacity then r.toList ++ [b] else r.toList := by
  rw [length_toList]
  unfold push
  by_cases hf : r.occupied = r.capacity
  · rw [dif_pos hf, if_neg (by omega)]
  · have hlt : r.occupied < r.capacity := by have := r.occupied_le; omega
    rw [dif_neg hf, if_pos hlt]
    -- the byte goes into the slot just past the bytes held
    exact window_set r.store r.capacity_pos r.readIdx hlt r.writeIdx_eq r.writeIdx_lt b

/-- Reading from a slot counted from a cursor already taken round the store. -/
theorem slot_mod_add (r : ByteRing) (j i : Nat) : r.slot (j % r.capacity + i) = r.slot (j + i) := by
  unfold slot
  congr 2
  exact Nat.mod_add_mod j r.capacity i

@[simp] theorem capacity_pull (r : ByteRing) : r.pull.2.capacity = r.capacity := by
  unfold pull
  split <;> rfl

theorem pull_of_occupied_eq_zero {r : ByteRing} (h : r.occupied = 0) : r.pull = (0, r) := by
  unfold pull
  rw [dif_pos h]

/-- A pull gives the oldest byte, or 0 from an empty ring. -/
theorem pull_fst (r : ByteRing) : r.pull.1 = r.toList.headD 0 := by
  by_cases h : r.occupied = 0
  · rw [pull_of_occupied_eq_zero h]
    have : r.toList = [] := List.eq_nil_of_length_eq_zero (by simpa [length_toList] using h)
    rw [this]
    rfl
  · have hl : 0 < r.toList.length := by simp [length_toList]; omega
    unfold pull
    rw [dif_neg h, List.headD_eq_head?_getD, List.head?_eq_getElem?,
      List.getElem?_eq_getElem hl, Option.getD_some, getElem_toList, Nat.add_zero]
    unfold slot
    show r.store.get ⟨r.readIdx, r.readIdx_lt⟩ = _
    congr 2
    exact (Nat.mod_eq_of_lt r.readIdx_lt).symm

/-- A pull takes the oldest byte off the contents. -/
theorem toList_pull (r : ByteRing) : r.pull.2.toList = r.toList.tail := by
  by_cases h : r.occupied = 0
  · rw [pull_of_occupied_eq_zero h]
    have : r.toList = [] := List.eq_nil_of_length_eq_zero (by simpa [length_toList] using h)
    rw [this]
    rfl
  · unfold pull
    rw [dif_neg h]
    -- the read cursor moves on one slot round the store
    show window r.store r.capacity_pos (nextSlot r.capacity r.readIdx) (r.occupied - 1) =
      (window r.store r.capacity_pos r.readIdx r.occupied).tail
    rw [nextSlot_eq_mod r.readIdx_lt, window_mod_succ, Nat.sub_add_cancel (Nat.pos_of_ne_zero h)]

@[simp] theorem toList_clear (r : ByteRing) : r.clear.toList = [] := rfl

@[simp] theorem capacity_clear (r : ByteRing) : r.clear.capacity = r.capacity := rfl

/-- The oldest byte, left in place. -/
@[simp] theorem front?_eq_head? (r : ByteRing) : r.front? = r.toList.head? := by
  unfold front?
  by_cases h : r.occupied = 0
  · have : r.toList = [] := List.eq_nil_of_length_eq_zero (by simpa [length_toList] using h)
    rw [if_pos h, this]
    rfl
  · have hl : 0 < r.toList.length := by simp [length_toList]; omega
    rw [if_neg h, List.head?_eq_getElem?, List.getElem?_eq_getElem hl, getElem_toList,
      Nat.add_zero]
    unfold slot
    congr 3
    exact (Nat.mod_eq_of_lt r.readIdx_lt).symm

/-- The two pieces a bulk pull copies, up to the end of the store and then
from its start, are the first bytes held. -/
theorem pullBulk_pieces (r : ByteRing) {n : Nat} (hn : n ≤ r.occupied) :
    r.store.toList.extract r.readIdx (r.readIdx + min n (r.capacity - r.readIdx)) ++
        r.store.toList.extract 0 (n - min n (r.capacity - r.readIdx)) = r.toList.take n := by
  have hocc := r.occupied_le
  have hrd := r.readIdx_lt
  simp only [List.extract_eq_take_drop, Nat.add_sub_cancel_left, Nat.sub_zero, List.drop_zero]
  apply List.ext_getElem (by simp [length_toList]; omega)
  intro k h₁ h₂
  simp only [List.length_append, List.length_take, List.length_drop, Vector.length_toList] at h₁
  rw [List.getElem_take, getElem_toList]
  unfold slot
  by_cases hk : k < min n (r.capacity - r.readIdx)
  · rw [List.getElem_append_left (by simp; omega), List.getElem_take, List.getElem_drop,
      Vector.getElem_toList, get_mk_eq_getElem]
    congr 1
    rw [Nat.mod_eq_of_lt (by omega)]
  · rw [List.getElem_append_right (by simp; omega), List.getElem_take, Vector.getElem_toList,
      get_mk_eq_getElem]
    simp only [List.length_take, List.length_drop, Vector.length_toList]
    congr 1
    have hw : r.readIdx + k = r.capacity + (k - min n (r.capacity - r.readIdx)) := by omega
    rw [hw, Nat.add_mod_left, Nat.mod_eq_of_lt (by omega)]
    omega

@[simp] theorem capacity_pullBulk (r : ByteRing) (p : List UInt8) :
    (r.pullBulk p).2.2.capacity = r.capacity := rfl

/-- A bulk pull takes as many bytes as the buffer has room for and the ring holds. -/
theorem pullBulk_fst (r : ByteRing) (p : List UInt8) :
    (r.pullBulk p).1 = min p.length r.toList.length := by
  simp [length_toList, pullBulk]

/-- A bulk pull copies the first bytes held into the front of the buffer,
and leaves the rest of the buffer as it was. -/
theorem pullBulk_copied (r : ByteRing) (p : List UInt8) :
    (r.pullBulk p).2.1 =
      r.toList.take (min p.length r.toList.length) ++ p.drop (min p.length r.toList.length) := by
  simp only [pullBulk, length_toList]
  rw [pullBulk_pieces r (Nat.min_le_right _ _)]

/-- A bulk pull takes the bytes it copies off the contents. -/
theorem toList_pullBulk (r : ByteRing) (p : List UInt8) :
    (r.pullBulk p).2.2.toList = r.toList.drop (min p.length r.toList.length) := by
  apply List.ext_getElem (by simp [length_toList, pullBulk])
  intro i h₁ h₂
  rw [getElem_toList, List.getElem_drop, getElem_toList]
  simp only [pullBulk, length_toList]
  rw [slot_mod_add, Nat.add_assoc]
  rfl

@[simp] theorem pullMany_fst (r : ByteRing) (n : Nat) : (r.pullMany n).1 = r.toList.take n := by
  simp only [pullMany, pullBulk_copied, pullBulk_fst, List.length_replicate]
  rw [List.take_append_of_le_length (by simp)]
  simp only [List.take_take, Nat.min_self, List.take_eq_take_iff, length_toList]
  omega

@[simp] theorem toList_pullMany_snd (r : ByteRing) (n : Nat) :
    (r.pullMany n).2.toList = r.toList.drop n := by
  simp only [pullMany, toList_pullBulk, List.length_replicate]
  by_cases h : n ≤ r.toList.length
  · rw [Nat.min_eq_left h]
  · rw [Nat.min_eq_right (by omega), List.drop_length, List.drop_eq_nil_of_le (by omega)]

@[simp] theorem capacity_pullMany_snd (r : ByteRing) (n : Nat) :
    (r.pullMany n).2.capacity = r.capacity := rfl

end ByteRing

end TapeDeck
