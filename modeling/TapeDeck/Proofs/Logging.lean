import Mathlib
import TapeDeck.Log

/-!
# The log keeps the last runs of diagnostics

Diagnostics logged one after another fall into *runs*: equal diagnostics in
a row.  A log stands for the runs of the diagnostics let through since it was
made or cleared, one entry per run, each repeated one less than the length of
its run, and keeps the last of them, as many as its capacity.

*Runs.*  `Log.runs` groups diagnostics by `List.splitBy`.  `Log.Grouped es ds`
says that the entries `es` expand to the diagnostics `ds` and that no two
entries in a row are for the same diagnostic; the runs are the only entries
that do so (`runs_eq_of_grouped`, from `List.splitBy_eq_iff`).  Merging a
diagnostic into entries keeps them grouped (`Grouped.merge`), so merging
into the runs gives the runs of the longer history (`merge_runs`).

*The last entries.*  Cutting the entries down to the capacity before a merge
or after it makes no difference once the result is cut down too
(`rtake_merge`): the merge only looks at the newest entry.

Main statement: `Log.entries_are_last_runs`.
-/

namespace TapeDeck

namespace LogEntry

/-- The diagnostic an entry stands for. -/
def key (e : LogEntry) : String × String := (e.tag, e.detail)

/-- The diagnostics an entry stands for: its own, and once more per repeat. -/
def expand (e : LogEntry) : List (String × String) := List.replicate (e.repeated + 1) e.key

/-- The entry of a run of equal diagnostics, repeated one less than its length. -/
def ofRun (g : List (String × String)) : LogEntry :=
  { tag := (g.headD ("", "")).1, detail := (g.headD ("", "")).2, repeated := g.length - 1 }

@[simp] theorem ofRun_expand (e : LogEntry) : ofRun e.expand = e := by
  cases e
  simp [ofRun, expand, key, List.head?_replicate]

end LogEntry

namespace Log

open LogEntry

/-- The entries that stand for diagnostics in order: one per run of equal
diagnostics in a row. -/
def runs (ds : List (String × String)) : List LogEntry :=
  (ds.splitBy fun a b => decide (a = b)).map ofRun

@[simp] theorem runs_nil : runs [] = [] := rfl

/-- Entries stand for diagnostics: they expand to them, and no two entries in
a row are for the same diagnostic. -/
def Grouped (es : List LogEntry) (ds : List (String × String)) : Prop :=
  (es.map expand).flatten = ds ∧ es.IsChain fun a b => a.key ≠ b.key

/-! ## Runs -/

/-- The runs are the only grouped entries of the diagnostics. -/
theorem runs_eq_of_grouped {es : List LogEntry} {ds : List (String × String)} (h : Grouped es ds) :
    runs ds = es := by
  have hsplit : (ds.splitBy fun a b => decide (a = b)) = es.map expand := by
    rw [List.splitBy_eq_iff]
    refine ⟨h.1.symm, by simp [expand], ?_, ?_⟩
    · intro m hm
      obtain ⟨e, -, rfl⟩ := List.mem_map.1 hm
      exact List.isChain_replicate_of_rel _ (by simp)
    · -- neighbouring runs end and start with different diagnostics
      rw [List.isChain_map]
      exact h.2.imp fun a b hab => ⟨by simp [expand], by simp [expand], by simpa [expand] using hab⟩
  rw [runs, hsplit, List.map_map]
  conv_rhs => rw [← List.map_id es]
  exact List.map_congr_left fun e _ => ofRun_expand e

/-- A diagnostic merged into entries: into the newest when it is the same,
else as a new entry. -/
theorem merge_concat (es : List LogEntry) (e : LogEntry) (tag detail : String) :
    merge (es ++ [e]) tag detail =
      if e.tag = tag ∧ e.detail = detail then es ++ [{ e with repeated := e.repeated + 1 }]
      else es ++ [e] ++ [{ tag := tag, detail := detail }] := by
  simp [merge]

@[simp] theorem merge_nil (tag detail : String) :
    merge [] tag detail = [{ tag := tag, detail := detail }] := rfl

/-- Merging a diagnostic keeps entries grouped, with the diagnostic added to
what they stand for. -/
theorem Grouped.merge {es : List LogEntry} {ds : List (String × String)} (h : Grouped es ds)
    (tag detail : String) : Grouped (Log.merge es tag detail) (ds ++ [(tag, detail)]) := by
  obtain ⟨hflat, hchain⟩ := h
  rcases List.eq_nil_or_concat' es with rfl | ⟨init, e, rfl⟩
  · subst hflat
    simp [Grouped, expand, key]
  · rw [merge_concat]
    split
    · -- the newest entry counts one more repeat
      next hsame =>
      obtain ⟨rfl, rfl⟩ := hsame
      refine ⟨?_, ?_⟩
      · rw [← hflat]
        simp [expand, key, List.replicate_succ']
      · rw [List.isChain_append] at hchain ⊢
        exact ⟨hchain.1, by simp, by simpa [key] using hchain.2.2⟩
    · -- a new entry after a different one
      next hdiff =>
      refine ⟨by simp [← hflat, expand, key], ?_⟩
      rw [List.isChain_append]
      refine ⟨hchain, by simp, ?_⟩
      simpa [key, not_and_or] using hdiff

theorem grouped_runs (ds : List (String × String)) : Grouped (runs ds) ds := by
  induction ds using List.reverseRecOn with
  | nil => simp [Grouped, runs]
  | append_singleton ds d ih =>
    have hstep := ih.merge d.1 d.2
    rwa [← runs_eq_of_grouped hstep] at hstep

/-- Merging a diagnostic into the runs gives the runs of the longer history. -/
theorem merge_runs (ds : List (String × String)) (tag detail : String) :
    merge (runs ds) tag detail = runs (ds ++ [(tag, detail)]) :=
  (runs_eq_of_grouped ((grouped_runs ds).merge tag detail)).symm

/-! ## The last entries -/

theorem rtake_rtake {α : Type} (l : List α) (m n : Nat) : (l.rtake n).rtake m = l.rtake (min m n) := by
  simp [List.rtake_eq_reverse_take_reverse, List.take_take]

/-- A merge looks only at the newest entry, so it makes no difference whether
the entries were cut down to the last `n` before it. -/
theorem rtake_merge (es : List LogEntry) (n : Nat) (tag detail : String) :
    (merge (es.rtake n) tag detail).rtake n = (merge es tag detail).rtake n := by
  cases n with
  | zero => simp [List.rtake_zero]
  | succ k =>
    rcases List.eq_nil_or_concat' es with rfl | ⟨init, e, rfl⟩
    · simp [List.rtake_nil]
    · rw [List.rtake_concat_succ, merge_concat, merge_concat]
      split
      · rw [List.rtake_concat_succ, List.rtake_concat_succ, rtake_rtake, Nat.min_self]
      · rw [List.rtake_concat_succ, List.rtake_concat_succ]
        congr 1
        cases k with
        | zero => simp [List.rtake_zero]
        | succ j => rw [List.rtake_concat_succ, List.rtake_concat_succ, rtake_rtake, Nat.min_eq_left (by omega)]

/-! ## Calls -/

/-- The log after calls in turn, each with a permission, a tag and a detail. -/
def recordAll (l : Log) : List (Permission × String × String) → Log
  | [] => l
  | (perm, tag, detail) :: cs => (l.record perm tag detail).1.recordAll cs

/-- The diagnostics of the calls a permission lets through, line breaks taken
out of tag and detail. -/
def allowed (cs : List (Permission × String × String)) : List (String × String) :=
  cs.filterMap fun (perm, tag, detail) =>
    if perm = .allow then some (oneLine tag, oneLine detail) else none

theorem record_deny (l : Log) (tag detail : String) : l.record .deny tag detail = (l, "") := rfl

@[simp] theorem capacity_record (l : Log) (perm : Permission) (tag detail : String) :
    (l.record perm tag detail).1.capacity = l.capacity := by
  cases perm <;> rfl

theorem entries_record_allow (l : Log) (tag detail : String) :
    (l.record .allow tag detail).1.entries =
      (merge l.entries (oneLine tag) (oneLine detail)).rtake l.capacity := rfl

/-- A log that keeps the last runs of a history keeps, after more calls, the
last runs of the history with the diagnostics the calls let through. -/
theorem entries_recordAll {l : Log} {ds : List (String × String)}
    (h : l.entries = (runs ds).rtake l.capacity) (cs : List (Permission × String × String)) :
    (l.recordAll cs).entries = (runs (ds ++ allowed cs)).rtake l.capacity := by
  induction cs generalizing l ds with
  | nil => simpa [recordAll, allowed] using h
  | cons c cs ih =>
    obtain ⟨perm, tag, detail⟩ := c
    cases perm with
    | deny => simpa [recordAll, allowed, record_deny] using ih h
    | allow =>
      have hstep : (l.record .allow tag detail).1.entries =
          (runs (ds ++ [(oneLine tag, oneLine detail)])).rtake (l.record .allow tag detail).1.capacity := by
        rw [entries_record_allow, h, rtake_merge, merge_runs, capacity_record]
      rw [recordAll, ih hstep, capacity_record]
      simp [allowed]

/-- A log of any capacity keeps, after any calls since it was made or last
cleared, the last runs of the diagnostics the calls' permissions let
through, as many as its capacity: each entry is the tag and detail of its
run, line breaks taken out, and repeats one less than the run's length.  A
denied call leaves the log as it is and echoes nothing.  And the tail of `n`
entries writes the lines of the newest `max 0 (min n k)` of the `k` entries,
oldest first. -/
theorem entries_are_last_runs (l : Log) (n : Nat) (cs : List (Permission × String × String)) :
    ((Log.ofCapacity n).recordAll cs).entries = (runs (allowed cs)).rtake n ∧
      (l.clear.recordAll cs).entries = (runs (allowed cs)).rtake l.capacity ∧
      (∀ tag detail, l.record .deny tag detail = (l, "")) ∧
      ∀ k : Int, ∃ pre shown, l.entries = pre ++ shown ∧
        (shown.length : Int) = max 0 (min k l.entries.length) ∧
        l.tail k = String.join (shown.map LogEntry.text) := by
  have hnew : (Log.ofCapacity n).capacity = n := rfl
  have hclear : l.clear.capacity = l.capacity := rfl
  refine ⟨by simpa [hnew] using @entries_recordAll (Log.ofCapacity n) [] (by simp [ofCapacity]) cs,
    by simpa [hclear] using @entries_recordAll l.clear [] (by simp [clear]) cs,
    record_deny l, fun k => ?_⟩
  refine ⟨l.entries.take (l.entries.length - k.toNat), l.entries.drop (l.entries.length - k.toNat),
    (List.take_append_drop _ _).symm, ?_, rfl⟩
  simp only [List.length_drop]
  omega

/-- A log of two entries after three diagnostics, two of them equal in a row
but one of those with a line break. -/
example : ((Log.ofCapacity 2).recordAll [(.allow, "tag", "1"), (.deny, "tag", "x"),
      (.allow, "tag", "2"), (.allow, "tag", "2\n")]).entries =
    [{ tag := "tag", detail := "1" }, { tag := "tag", detail := "2", repeated := 1 }] := by
  decide

end Log

end TapeDeck
