import Exemplar.Text.Blank
import Mathlib.Data.List.DropRight

/-!
# Proofs/Text/Trim — trimming cuts the blanks at both ends and nothing else

A text is its trimmed text between two blank runs (`exists_eq_append_trim`), and whatever blanks are
put around a text, what trimming leaves of it stays the same (`trim_pad`).
-/

namespace Exemplar.Text

variable {s l r : List Char} {c d : Char}

/-- A text of blanks only. -/
def Blank (s : List Char) : Prop := ∀ c ∈ s, isBlank c = true

instance (s : List Char) : Decidable (Blank s) := List.decidableBAll (fun c => isBlank c = true) s

theorem blank_nil : Blank [] := fun _ h => absurd h List.not_mem_nil

theorem Blank.reverse (h : Blank s) : Blank s.reverse :=
  fun c hc => h c (List.mem_reverse.1 hc)

theorem not_blank_of_mem (h : c ∈ s) (hc : isBlank c = false) : ¬ Blank s :=
  fun hs => Bool.false_ne_true (hc.symm.trans (hs c h))

/-! ## The start and the end on their own -/

theorem trimStart_append (h : Blank l) : trimStart (l ++ s) = trimStart s :=
  List.dropWhile_append_of_pos h

theorem trimEnd_append (h : Blank r) : trimEnd (s ++ r) = trimEnd s := by
  rw [trimEnd, List.reverse_append, trimStart_append h.reverse, trimEnd]

theorem trimStart_cons (h : isBlank c = false) : trimStart (c :: s) = c :: s :=
  List.dropWhile_cons_of_neg (by simp [h])

theorem trimEnd_concat (h : isBlank c = false) : trimEnd (s ++ [c]) = s ++ [c] := by
  rw [trimEnd, List.reverse_concat, trimStart_cons h, List.reverse_cons, List.reverse_reverse]

/-- Nothing is left of blank texts only. -/
theorem trimStart_eq_nil_iff : trimStart s = [] ↔ Blank s := List.dropWhile_eq_nil_iff

/-- What is cut at the start is blank. -/
theorem exists_eq_append_trimStart (s : List Char) : ∃ l, Blank l ∧ s = l ++ trimStart s :=
  ⟨s.takeWhile isBlank, fun _ hc => List.mem_takeWhile_imp hc,
    List.takeWhile_append_dropWhile.symm⟩

/-- What is cut at the end is blank. -/
theorem exists_eq_trimEnd_append (s : List Char) : ∃ r, Blank r ∧ s = trimEnd s ++ r := by
  obtain ⟨l, hl, h⟩ := exists_eq_append_trimStart s.reverse
  refine ⟨l.reverse, hl.reverse, ?_⟩
  rw [trimEnd, ← List.reverse_append, ← h, List.reverse_reverse]

/-- A text with a visible character still ends as it did once its start is trimmed. -/
theorem trimStart_append_right (h : ¬ Blank s) : trimStart (s ++ r) = trimStart s ++ r := by
  have hs : (trimStart s).isEmpty = false := by
    rw [List.isEmpty_eq_false_iff]
    exact fun h' => h (trimStart_eq_nil_iff.1 h')
  rw [trimStart, List.dropWhile_append, if_neg (by simpa [trimStart] using hs)]
  rfl

/-! ## Both ends -/

theorem trim_of_blank (h : Blank s) : trim s = [] := by
  rw [trim, trimStart_eq_nil_iff.2 h]
  rfl

/-- **A text is its trimmed text between two blank runs.** -/
theorem exists_eq_append_trim (s : List Char) :
    ∃ l r, Blank l ∧ Blank r ∧ s = l ++ trim s ++ r := by
  obtain ⟨l, hl, h⟩ := exists_eq_append_trimStart s
  obtain ⟨r, hr, h'⟩ := exists_eq_trimEnd_append (trimStart s)
  refine ⟨l, r, hl, hr, ?_⟩
  rw [trim, List.append_assoc, ← h', ← h]

/-- **Blanks around a text are not seen.** -/
theorem trim_pad (hl : Blank l) (hr : Blank r) : trim (l ++ s ++ r) = trim s := by
  rw [List.append_assoc, trim, trimStart_append hl]
  by_cases hs : Blank s
  · have hsr : Blank (s ++ r) := fun c hc => (List.mem_append.1 hc).elim (hs c) (hr c)
    rw [trimStart_eq_nil_iff.2 hsr, trim_of_blank hs]
    rfl
  · rw [trimStart_append_right hs, trimEnd_append hr, trim]

/-- What is trimmed has nothing left to trim. -/
@[simp] theorem trim_trim (s : List Char) : trim (trim s) = trim s := by
  obtain ⟨l, r, hl, hr, h⟩ := exists_eq_append_trim s
  have hpad : trim (l ++ trim s ++ r) = trim (trim s) := trim_pad hl hr
  rw [← hpad, ← h]

@[simp] theorem trim_trimStart (s : List Char) : trim (trimStart s) = trim s := by
  obtain ⟨l, hl, h⟩ := exists_eq_append_trimStart s
  have hpad : trim (l ++ trimStart s ++ []) = trim (trimStart s) := trim_pad hl blank_nil
  rw [List.append_nil, ← h] at hpad
  exact hpad.symm

theorem trim_eq_nil_iff : trim s = [] ↔ Blank s := by
  refine ⟨fun h => ?_, trim_of_blank⟩
  obtain ⟨l, r, hl, hr, hs⟩ := exists_eq_append_trim s
  rw [h, List.append_nil] at hs
  exact hs ▸ fun c hc => (List.mem_append.1 hc).elim (hl c) (hr c)

/-- Trimming leaves something unless there is nothing to leave. -/
theorem blank_trim_iff : Blank (trim s) ↔ Blank s := by
  rw [← trim_eq_nil_iff, trim_trim, trim_eq_nil_iff]

theorem trimStart_of_forall_visible (h : ∀ c ∈ s, isBlank c = false) : trimStart s = s := by
  cases s with
  | nil => rfl
  | cons c s => exact trimStart_cons (h c List.mem_cons_self)

/-- A text without blanks is trimmed already. -/
theorem trim_of_forall_visible (h : ∀ c ∈ s, isBlank c = false) : trim s = s := by
  have hreverse : ∀ c ∈ s.reverse, isBlank c = false := fun c hc => h c (List.mem_reverse.1 hc)
  rw [trim, trimStart_of_forall_visible h, trimEnd, trimStart_of_forall_visible hreverse,
    List.reverse_reverse]

/-- A text that ends in a visible character is trimmed at its start only. -/
theorem trim_concat (h : isBlank c = false) : trim (s ++ [c]) = trimStart s ++ [c] := by
  by_cases hs : Blank s
  · rw [trim, trimStart_append hs, trimStart_cons h, trimStart_eq_nil_iff.2 hs]
    exact trimEnd_concat (s := []) h
  · rw [trim, trimStart_append_right hs, trimEnd_concat h]

/-- A text between two visible characters is trimmed already. -/
theorem trim_between (hc : isBlank c = false) (hd : isBlank d = false) :
    trim (c :: s ++ [d]) = c :: s ++ [d] := by
  rw [trim_concat hd, trimStart_cons hc]

end Exemplar.Text
