import Mathlib
import TapeDeck.Message.Fault

/-!
# Condensed fault messages

A fault's message is its pattern filled with its values, cut at each `": "`,
with each part equal to the part before it dropped, and joined again.  So a
fault that wraps an error already naming the same context says it once.

*Cutting and joining.*  The parts of a text hold no separator
(`clean_of_mem_cutParts`), and cutting a join of such parts gives them back
(`cutParts_intercalate`): a part that ends in a colon does not run into the
separator after it, since a separator starts with a colon, not a blank.

*Dropping repeats.*  Dropping each part equal to the one before it is
`List.destutter (· ≠ ·)` (`condenseParts_eq_destutter`).  So the parts of a
condensed message are the parts of the message with repeats dropped
(`parts_condense`), no two in a row are equal, and condensing again changes
nothing (`condense_condense`).

*Wrapping.*  A pattern `T ++ ": %v"`, with no separator and no directive in
`T`, filled with a value shows `T`, the separator and the value under `%v`
(`fill_context`), a fault showing its message there (`fill_v_fault`); the
parts of that are `T` followed by the value's parts (`parts_context`).  So
wrapping anything twice in the same context reads as wrapping it once
(`condense_context_condense`).

Main statement: `faults_condense_their_messages`.
-/

namespace TapeDeck.Message

/-! ## Cutting at separators -/

/-- Characters that hold no separator `": "`. -/
def Clean (p : List Char) : Prop := ¬ [':', ' '] <:+: p

theorem clean_of_cons {c : Char} {p : List Char} (h : Clean (c :: p)) : Clean p :=
  fun hp => h (hp.trans (List.suffix_cons c p).isInfix)

theorem clean_singleton (c : Char) : Clean [c] := fun h => by simpa using h.length_le

/-- In a text with no separator, a colon is not followed by a blank. -/
theorem head?_ne_blank {p : List Char} (hp : Clean (':' :: p)) : p.head? ≠ some ' ' := by
  intro hd
  cases p with
  | nil => simp at hd
  | cons d rest =>
    simp only [List.head?_cons, Option.some.injEq] at hd
    subst hd
    exact hp (List.prefix_append [':', ' '] rest).isInfix

theorem consFirst_ne_nil (c : Char) (ps : List (List Char)) : consFirst c ps ≠ [] := by
  cases ps <;> simp [consFirst]

theorem headD_consFirst (c : Char) (ps : List (List Char)) :
    (consFirst c ps).headD [] = c :: ps.headD [] := by
  cases ps <;> rfl

theorem mem_consFirst {c : Char} {ps : List (List Char)} {p : List Char} (h : p ∈ consFirst c ps) :
    p = c :: ps.headD [] ∨ p ∈ ps := by
  cases ps with
  | nil => simp_all [consFirst]
  | cons q qs =>
    simp only [consFirst, List.mem_cons] at h
    rcases h with h | h
    · exact .inl h
    · exact .inr (List.mem_cons_of_mem q h)

theorem cutParts_sep (t : List Char) : cutParts (':' :: ' ' :: t) = [] :: cutParts t := by
  simp [cutParts]

/-- A character that does not start a separator goes to the first part. -/
theorem cutParts_cons {c : Char} {s : List Char} (h : ¬(c = ':' ∧ s.head? = some ' ')) :
    cutParts (c :: s) = consFirst c (cutParts s) := by
  cases s with
  | nil => rfl
  | cons d rest =>
    rw [cutParts, if_neg (by simpa using h)]

theorem cutParts_ne_nil (s : List Char) : cutParts s ≠ [] := by
  fun_cases cutParts s
  all_goals simp_all [consFirst_ne_nil]

/-- The first part is where the text starts. -/
theorem headD_cutParts_prefix (s : List Char) : (cutParts s).headD [] <+: s := by
  fun_induction cutParts s with
  | case1 => simp
  | case2 c => simp
  | case3 c d rest hsep => simp
  | case4 c d rest hsep ih =>
    rw [headD_consFirst]
    exact List.prefix_cons_inj c |>.2 ih

/-- No part of a text holds a separator. -/
theorem clean_of_mem_cutParts (s : List Char) : ∀ p ∈ cutParts s, Clean p := by
  fun_induction cutParts s with
  | case1 => simp [Clean]
  | case2 c => simpa using clean_singleton c
  | case3 c d rest hsep ih =>
    intro p hp
    rcases List.mem_cons.1 hp with rfl | hp
    · simp [Clean]
    · exact ih p hp
  | case4 c d rest hsep ih =>
    intro p hp
    rcases mem_consFirst hp with rfl | hp
    · -- the first part starts with `c`, which starts no separator before `d`
      have hfirst : (cutParts (d :: rest)).headD [] ∈ cutParts (d :: rest) := by
        cases h : cutParts (d :: rest) with
        | nil => exact absurd h (cutParts_ne_nil _)
        | cons q qs => simp
      have hpre := headD_cutParts_prefix (d :: rest)
      intro hinf
      rcases List.infix_cons_iff.1 hinf with hstart | hin
      · obtain ⟨hc, hblank⟩ : ':' = c ∧ [' '] <+: (cutParts (d :: rest)).headD [] := by
          simpa using hstart
        have hd : ' ' = d := by simpa using hblank.trans hpre
        exact hsep ⟨hc.symm, hd.symm⟩
      · exact ih _ hfirst hin
    · exact ih p hp

/-- A text with no separator is one part. -/
theorem cutParts_of_clean {p : List Char} (hp : Clean p) : cutParts p = [p] := by
  induction p with
  | nil => rfl
  | cons c p ih =>
    rw [cutParts_cons, ih (clean_of_cons hp)]
    · rfl
    · rintro ⟨rfl, hd⟩
      exact head?_ne_blank hp hd

/-- A part with no separator, then a separator, cuts there. -/
theorem cutParts_append_sep {p : List Char} (hp : Clean p) (t : List Char) :
    cutParts (p ++ ':' :: ' ' :: t) = p :: cutParts t := by
  induction p with
  | nil => exact cutParts_sep t
  | cons c p ih =>
    rw [List.cons_append, cutParts_cons, ih (clean_of_cons hp)]
    · rfl
    · -- a colon that ends the part is followed by the separator's colon
      rintro ⟨rfl, hd⟩
      cases p with
      | nil => simp at hd
      | cons d rest => exact head?_ne_blank hp (by simpa using hd)

/-- Cutting a join of parts with no separator gives them back. -/
theorem cutParts_intercalate {ps : List (List Char)} (hne : ps ≠ []) (hps : ∀ p ∈ ps, Clean p) :
    cutParts ([':', ' '].intercalate ps) = ps := by
  induction ps with
  | nil => exact absurd rfl hne
  | cons p ps ih =>
    cases ps with
    | nil => simpa using cutParts_of_clean (hps p (by simp))
    | cons q qs =>
      rw [List.intercalate_cons_cons, List.append_assoc, List.cons_append, List.cons_append,
        List.nil_append, cutParts_append_sep (hps p (by simp)),
        ih (by simp) fun r hr => hps r (List.mem_cons_of_mem p hr)]

/-! ## Parts of texts -/

theorem parts_ne_nil (s : String) : parts s ≠ [] := by
  simp [parts, cutParts_ne_nil]

theorem clean_of_mem_parts {s p : String} (h : p ∈ parts s) : Clean p.toList := by
  obtain ⟨q, hq, rfl⟩ := List.mem_map.1 h
  simpa using clean_of_mem_cutParts s.toList q hq

/-- Cutting a join of texts with no separator gives them back. -/
theorem parts_intercalate {ps : List String} (hne : ps ≠ []) (hps : ∀ p ∈ ps, Clean p.toList) :
    parts (": ".intercalate ps) = ps := by
  have hsep : ": ".toList = [':', ' '] := rfl
  rw [parts, String.toList_intercalate, hsep, cutParts_intercalate (by simpa using hne)]
  · simp
  · simpa using hps

/-- A context with no separator, a separator and a text cut into the context
and the parts of the text. -/
theorem parts_context {T : String} (hT : Clean T.toList) (s : String) :
    parts (T ++ ": " ++ s) = T :: parts s := by
  have hlist : (T ++ ": " ++ s).toList = T.toList ++ ':' :: ' ' :: s.toList := by simp
  rw [parts, hlist, cutParts_append_sep hT]
  simp [parts]

/-! ## Dropping repeats -/

theorem condenseParts_eq_destutter {α : Type} [DecidableEq α] (l : List α) :
    condenseParts l = l.destutter (· ≠ ·) := by
  induction l with
  | nil => rfl
  | cons a l ih =>
    cases l with
    | nil => rfl
    | cons b rest =>
      by_cases hab : a = b
      · subst hab
        rw [condenseParts, if_pos rfl, ih, List.destutter_cons_cons, if_neg (by simp),
          List.destutter_cons']
      · rw [condenseParts, if_neg hab, ih, List.destutter_cons_cons, if_pos hab,
          List.destutter_cons']

/-- Dropping repeats from a list with its head put twice in front is dropping
them from the list. -/
theorem destutter_cons_destutter {α : Type} [DecidableEq α] (a : α) (l : List α) :
    (a :: (a :: l).destutter (· ≠ ·)).destutter (· ≠ ·) = (a :: l).destutter (· ≠ ·) := by
  obtain ⟨t, ht⟩ : ∃ t, (a :: l).destutter (· ≠ ·) = a :: t := by
    induction l generalizing a with
    | nil => exact ⟨[], rfl⟩
    | cons b l ih =>
      by_cases hab : a = b
      · subst hab
        obtain ⟨t, ht⟩ := ih a
        refine ⟨t, ?_⟩
        rw [List.destutter_cons_cons, if_neg (by simp), ← List.destutter_cons']
        exact ht
      · exact ⟨_, by rw [List.destutter_cons_cons, if_pos hab]⟩
  rw [ht, List.destutter_cons_cons, if_neg (by simp), ← List.destutter_cons', ← ht,
    List.destutter_idem]

/-- The parts of a condensed text are the parts of the text with each part
equal to the one before it dropped. -/
theorem parts_condense (s : String) : parts (condense s) = (parts s).destutter (· ≠ ·) := by
  rw [condense, condenseParts_eq_destutter, parts_intercalate]
  · exact fun h => parts_ne_nil s ((List.destutter_eq_nil _).1 h)
  · exact fun p hp => clean_of_mem_parts ((List.destutter_sublist _ _).subset hp)

theorem condense_condense (s : String) : condense (condense s) = condense s := by
  calc condense (condense s) = ": ".intercalate (condenseParts (parts (condense s))) := rfl
    _ = ": ".intercalate ((parts s).destutter (· ≠ ·)) := by
      rw [parts_condense, condenseParts_eq_destutter, List.destutter_idem]
    _ = condense s := by rw [condense, condenseParts_eq_destutter]

/-- A context in front of a condensed text with the same context in front
condenses to the context in front of the text, condensed. -/
theorem condense_context_condense {T : String} (hT : Clean T.toList) (s : String) :
    condense (T ++ ": " ++ condense (T ++ ": " ++ s)) = condense (T ++ ": " ++ s) := by
  have hparts : parts (T ++ ": " ++ condense (T ++ ": " ++ s)) =
      T :: (T :: parts s).destutter (· ≠ ·) := by
    rw [parts_context hT, parts_condense, parts_context hT]
  calc condense (T ++ ": " ++ condense (T ++ ": " ++ s))
      = ": ".intercalate (condenseParts (parts (T ++ ": " ++ condense (T ++ ": " ++ s)))) := rfl
    _ = ": ".intercalate ((T :: parts s).destutter (· ≠ ·)) := by
      rw [hparts, condenseParts_eq_destutter, destutter_cons_destutter]
    _ = condense (T ++ ": " ++ s) := by
      rw [condense, parts_context hT, condenseParts_eq_destutter]

/-! ## Messages -/

theorem message_fault (p : String) (vs : List Value) :
    (Value.fault p vs).message = condense (fill true p vs) := by
  simp [Value.message, Value.display, Value.shown, Shown.fill, layoutText, pad, fill]

/-- Under `%v` a fault shows its message. -/
theorem fill_v_fault (p : String) (vs : List Value) :
    (Value.fault p vs).shown.fill true {} 'v' = (Value.fault p vs).message := by
  simp [Value.message, Value.display, Value.shown, Shown.fill, layoutText, pad]

/-- A pattern of a context with no directive, a separator and `%v`, filled
with one value, shows the context, the separator and the value. -/
theorem fill_context {T : String} (hT : '%' ∉ T.toList) (v : Value) :
    fill true (T ++ ": %v") [v] = T ++ ": " ++ v.shown.fill true {} 'v' := by
  have hlen : (T ++ ": %v").length + 1 = T.length + 4 + 1 := by simp; rfl
  have hlist : (T ++ ": %v").toList = T.toList ++ [':', ' ', '%', 'v'] := by simp
  have htw : (T.toList ++ [':', ' ', '%', 'v']).takeWhile (· ≠ '%') = T.toList ++ [':', ' '] := by
    rw [List.takeWhile_append_of_pos fun c hc => by
      have : c ≠ '%' := fun h => hT (h ▸ hc)
      simpa using this]
    rfl
  have hdrop : (T.toList ++ [':', ' ', '%', 'v']).drop (T.toList ++ [':', ' ']).length = ['%', 'v'] := by
    simp
  have hflags : readFlags ['v'] {} = (['v'], {}) := rfl
  have hwidth : readNum ['v'] = (none, ['v']) := rfl
  rw [fill, Value.shownList, Value.shownList, fillShown, hlen, hlist, fillFrom]
  simp only [htw, hdrop, hflags, hwidth]
  calc _ = String.ofList (T.toList ++ [':', ' ']) ++ "" ++ v.shown.fill true {} 'v' ++
        fillFrom true [v.shown] (T.length + 4) [] (0 + 1) := rfl
    _ = _ := by
      rw [show T.length + 4 = T.length + 3 + 1 from rfl, fillFrom]
      simp [fillFrom.extra, String.ofList_append]

/-- A fault's message read as parts: the parts of its filled pattern with
repeats dropped, no two in a row equal, and condensing it again changes
nothing.  And wrapping any value, a text and a fault among them, twice in a
context `T ++ ": %v"`, no separator or directive in `T`, gives the same
message as wrapping it once. -/
theorem faults_condense_their_messages :
    (∀ (p : String) (vs : List Value),
      parts (Value.fault p vs).message = (parts (fill true p vs)).destutter (· ≠ ·) ∧
        (parts (Value.fault p vs).message).IsChain (· ≠ ·) ∧
        condense (Value.fault p vs).message = (Value.fault p vs).message) ∧
      ∀ T : String, ¬[':', ' '] <:+: T.toList → '%' ∉ T.toList → ∀ v : Value,
        (Value.fault (T ++ ": %v") [.fault (T ++ ": %v") [v]]).message =
          (Value.fault (T ++ ": %v") [v]).message := by
  refine ⟨fun p vs => ?_, fun T hsep hpct v => ?_⟩
  · rw [message_fault, parts_condense, condense_condense]
    exact ⟨rfl, List.isChain_destutter _ _, rfl⟩
  · -- the inner fault shows its message, the context and the value condensed
    rw [message_fault, fill_context hpct, fill_v_fault, message_fault, fill_context hpct]
    exact condense_context_condense hsep _

/-- Wrapping a text in the context `tape` twice reads as wrapping it once. -/
theorem tapeContext_wraps_once : ¬[':', ' '] <:+: "tape".toList ∧ '%' ∉ "tape".toList ∧
    (Value.fault ("tape" ++ ": %v") [.fault ("tape" ++ ": %v") [.text "foo"]]).message =
      (Value.fault ("tape" ++ ": %v") [.text "foo"]).message :=
  ⟨by decide, by decide,
    faults_condense_their_messages.2 "tape" (by decide) (by decide) (.text "foo")⟩

end TapeDeck.Message
