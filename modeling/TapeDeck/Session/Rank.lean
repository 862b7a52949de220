/-!
# Ranks

A loop that may go back over its input still comes to an end when a *rank*
falls at every turn: a list of numbers, most significant first, compared
lexicographically against lists of the same length.  Ranks of one length,
in lexicographic order, are well founded (`Rank.wellFounded_below`).

Lists of different lengths are compared by padding them with zeros to one
length (`Rank.pad`).  `Rank.padLt` makes that comparison without building
the padding, and a list lower than another in it is lower still when both
are padded to any one length that holds them (`Rank.below_pad`).  So a loop
can test at each turn, at the cost of the lists it has, that its rank fell.
-/

namespace TapeDeck

/-- A list of numbers, ranked against lists of its own length. -/
structure Rank where
  /-- The numbers, most significant first. -/
  entries : List Nat

namespace Rank

/-- One rank lies below another when they have as many entries and the first
is lexicographically smaller. -/
def Below (a b : Rank) : Prop := a.entries.length = b.entries.length ∧ a.entries < b.entries

instance (a b : Rank) : Decidable (Below a b) := inferInstanceAs (Decidable (_ ∧ _))

/-- A rank whose tail is accessible, among tails of a length all of which
are accessible, is accessible: by induction on its head, then on its tail. -/
theorem acc_cons {n : Nat} (hn : ∀ l : List Nat, l.length = n → Acc Below ⟨l⟩) (a : Nat) :
    ∀ l : List Nat, l.length = n → Acc Below ⟨a :: l⟩ := by
  induction a using Nat.strongRecOn with
  | ind a iha =>
    intro l hl
    suffices h : ∀ r : Rank, Acc Below r → r.entries.length = n → Acc Below ⟨a :: r.entries⟩ from
      h ⟨l⟩ (hn l hl) hl
    intro r hr
    induction hr with
    | intro r _ ih =>
      intro hrl
      refine ⟨_, fun ⟨m⟩ ⟨hml, hlt⟩ => ?_⟩
      match m, hml, hlt with
      | b :: bs, hml, .rel hba =>
        exact iha b hba bs (by simp at hml; omega)
      | _ :: bs, hml, .cons hbs =>
        have hlen : bs.length = r.entries.length := by simpa using hml
        exact ih ⟨bs⟩ ⟨hlen, hbs⟩ (hlen.trans hrl)

/-- Ranks of one length, in lexicographic order, are well founded. -/
theorem wellFounded_below : WellFounded Below := by
  suffices h : ∀ n, ∀ l : List Nat, l.length = n → Acc Below ⟨l⟩ from ⟨fun r => h _ r.entries rfl⟩
  intro n
  induction n with
  | zero =>
    intro l hl
    refine ⟨_, fun m hm => ?_⟩
    rw [List.length_eq_zero_iff.1 hl] at hm
    exact absurd hm.2 (List.not_lt_nil _)
  | succ n ih =>
    intro l hl
    match l, hl with
    | a :: l, hl => exact acc_cons ih a l (by simpa using hl)

instance : WellFoundedRelation Rank := ⟨Below, wellFounded_below⟩

/-! ## Padding -/

/-- A list padded with zeros to `n` entries; a longer one is left as it is. -/
def pad (n : Nat) (l : List Nat) : List Nat := l ++ List.replicate (n - l.length) 0

/-- Whether `a` is lower than `b` once both are padded with zeros to one
length: lower at the first place they differ, a missing entry counting as
zero. -/
def padLt : List Nat → List Nat → Bool
  | x :: a, y :: b => x < y || (x == y && padLt a b)
  | [], b => b.any (0 < ·)
  | _ :: _, [] => false

theorem length_pad {n : Nat} {l : List Nat} (h : l.length ≤ n) : (pad n l).length = n := by
  simp [pad]
  omega

theorem pad_cons (n x : Nat) (l : List Nat) : pad n (x :: l) = x :: pad (n - 1) l := by
  simp only [pad, List.length_cons, List.cons_append]
  congr 3
  omega

/-- Zeros lie below a list with an entry that is not zero, at any padding. -/
theorem pad_nil_lt : ∀ (n : Nat) (b : List Nat), b.any (0 < ·) = true → pad n [] < pad n b
  | _, [], h => by simp at h
  | n, y :: b, h => by
    rw [pad_cons]
    by_cases hy : 0 < y
    · cases n with
      | zero => exact List.Lex.nil
      | succ n => exact List.Lex.rel hy
    · have hb : b.any (0 < ·) = true := by simpa [hy] using h
      have hy0 : y = 0 := by omega
      cases n with
      | zero => exact List.Lex.nil
      | succ n =>
        have hz : pad (n + 1) [] = 0 :: pad n [] := by simp [pad, List.replicate_succ]
        rw [hz, hy0, Nat.add_sub_cancel]
        exact List.Lex.cons (pad_nil_lt n b hb)

/-- The padded comparison is the lexicographic order of the padded lists. -/
theorem pad_lt_of_padLt : ∀ (n : Nat) (a b : List Nat), padLt a b = true → pad n a < pad n b
  | n, x :: a, y :: b, h => by
    rw [pad_cons, pad_cons]
    simp only [padLt, Bool.or_eq_true, decide_eq_true_eq, Bool.and_eq_true, beq_iff_eq] at h
    rcases h with hxy | ⟨rfl, h⟩
    · exact List.Lex.rel hxy
    · exact List.Lex.cons (pad_lt_of_padLt (n - 1) a b h)
  | n, [], b, h => pad_nil_lt n b h
  | _, _ :: _, [], h => by simp [padLt] at h

/-- Lists that agree before place `i`, a missing entry reading as zero, and
differ there with `a` lower, are lower in the padded comparison. -/
theorem padLt_of_lt_at : ∀ (i : Nat) (a b : List Nat), (∀ j < i, a.getD j 0 = b.getD j 0) →
    a.getD i 0 < b.getD i 0 → padLt a b = true
  | 0, x :: a, y :: b, _, hi => by simp_all [padLt]
  | 0, [], _ :: _, _, hi => by simp_all [padLt]
  | 0, _ :: _, [], _, hi => by simp at hi
  | 0, [], [], _, hi => by simp at hi
  | i + 1, x :: a, y :: b, hj, hi => by
    have hxy : x = y := by simpa using hj 0 (by omega)
    have ht := padLt_of_lt_at i a b (fun j hj' => by simpa using hj (j + 1) (by omega)) (by simpa using hi)
    simp [padLt, hxy, ht]
  | i + 1, [], y :: b, hj, hi => by
    have ht := padLt_of_lt_at i [] b (fun j hj' => by simpa using hj (j + 1) (by omega)) (by simpa using hi)
    simp only [padLt, List.any_cons] at ht ⊢
    simp [ht]
  | i + 1, _ :: _, [], _, hi => by simp at hi
  | i + 1, [], [], _, hi => by simp at hi

/-- Lists lower in the padded comparison, padded to one length that holds
both, give a lower rank. -/
theorem below_pad {n : Nat} {a b : List Nat} (h : padLt a b = true) (ha : a.length ≤ n)
    (hb : b.length ≤ n) : Below ⟨pad n a⟩ ⟨pad n b⟩ :=
  ⟨(length_pad ha).trans (length_pad hb).symm, pad_lt_of_padLt n a b h⟩

end Rank

end TapeDeck
