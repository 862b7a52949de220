/-!
# Circular stores

A bounded queue kept in a store of `c` slots used circularly holds its entries
in a *window* of the store: `n` slots from a start slot on, counted round the
store.  Both queues of the deck, the byte ring and the pulse queue, are read
this way.

* `window_set`: writing the slot just past the window, when the window is not
  the whole store, adds the entry at the back.
* `window_mod_succ`: moving the start on by one slot takes the entry at the
  front off.
-/

namespace TapeDeck

/-- Slots fewer than a whole round apart are different slots. -/
theorem mod_ne_of_lt {a i k c : Nat} (hik : i < k) (hk : k < c) : (a + i) % c ≠ (a + k) % c := by
  intro h
  have h0 := Nat.sub_mod_eq_zero_of_mod_eq h.symm
  rw [show a + k - (a + i) = k - i by omega, Nat.mod_eq_of_lt (by omega)] at h0
  omega

/-- An entry of a vector read through `Vector.get` is its entry by index. -/
theorem get_mk_eq_getElem {α : Type} {c : Nat} (v : Vector α c) (k : Nat) (h : k < c) :
    v.get ⟨k, h⟩ = v[k] := rfl

section Window

variable {α : Type} {c : Nat} (v : Vector α c) (hc : 0 < c)

/-- The entries of the `n` slots of a store from slot `start` on, round the store. -/
def window (start n : Nat) : List α :=
  (List.range n).map fun i => v.get ⟨(start + i) % c, Nat.mod_lt _ hc⟩

@[simp] theorem length_window (start n : Nat) : (window v hc start n).length = n := by
  simp [window]

theorem getElem_window {start n i : Nat} (h : i < (window v hc start n).length) :
    (window v hc start n)[i] = v.get ⟨(start + i) % c, Nat.mod_lt _ hc⟩ := by
  simp [window]

@[simp] theorem window_zero (start : Nat) : window v hc start 0 = [] := rfl

/-- Writing the slot just past a window that leaves a slot free adds the entry
at the back. -/
theorem window_set (start : Nat) {n : Nat} (hn : n < c) {j : Nat} (hj : j = (start + n) % c)
    (hjc : j < c) (x : α) :
    window (v.set j x hjc) hc start (n + 1) = window v hc start n ++ [x] := by
  subst hj
  apply List.ext_getElem (by simp)
  intro i h₁ h₂
  rw [getElem_window, get_mk_eq_getElem, Vector.getElem_set]
  by_cases hi : i < n
  · rw [if_neg (mod_ne_of_lt hi hn).symm, List.getElem_append_left (by simpa using hi),
      getElem_window]
    rfl
  · have hi' : i = n := by simp at h₁; omega
    subst hi'
    simp

/-- Moving the start of a window on by one slot takes its front entry off. -/
theorem window_mod_succ (start n : Nat) :
    window v hc ((start + 1) % c) n = (window v hc start (n + 1)).tail := by
  apply List.ext_getElem (by simp)
  intro i h₁ h₂
  rw [getElem_window, List.getElem_tail, getElem_window]
  congr 2
  rw [Nat.mod_add_mod, Nat.add_right_comm, Nat.add_assoc]

end Window

end TapeDeck
