import Exemplar.Proofs.Json.Spells

/-!
# Proofs/Json/Skipping — skipping a value ends where the value does

    {"a": [1, 2]} , …   ──▸   , …

Skipping keeps the open containers on a stack and goes on until none is left.  `resume` is what it
does behind a value inside such a stack: a value adds nothing to the stack and leads there
(`skipFrom_of_spells`), so with no containers around it skipping ends right behind it
(`skipValue_of_spells`).
-/

namespace Exemplar.Json

variable {c : Char} {s t u r rest : List Char} {v : Value} {key : String} {fuel : ℕ} {frame : Frame}
  {frames : List Frame}

/-- What skipping goes on with behind a value inside `frames`. -/
def resume (fuel : ℕ) (frames : List Frame) (s : List Char) : Except Failure (List Char) :=
  match closeFrames true frames s with
  | .error f => .error f
  | .ok ([], rest) => .ok rest
  | .ok (frame :: frames, rest) =>
    match skipKey frame rest with
    | .error f => .error f
    | .ok rest => skipFrom fuel (frame :: frames) rest

theorem resume_nil (fuel : ℕ) (s : List Char) : resume fuel [] s = .ok s := rfl

/-! ## One step -/

/-- The closing sign of a frame ends it. -/
theorem resume_close (h : skipBlanks s = frame.closer :: r) :
    resume fuel (frame :: frames) s = resume fuel frames r := by
  rw [resume, resume, closeFrames, h]
  simp only [if_true]

/-- Behind a comma the next content is skipped in the same frame. -/
theorem resume_comma (hs : skipBlanks s = ',' :: t) (hkey : skipKey frame t = .ok u) :
    resume fuel (frame :: frames) s = skipFrom fuel (frame :: frames) u := by
  have hcomma : ',' ≠ frame.closer := by cases frame <;> decide
  rw [resume, closeFrames, hs]
  simp only [if_neg hcomma, if_true, hkey]

/-- An atom is skipped at once. -/
theorem skipFrom_atom (h : SpellsAtom v (skipBlanks s) r) :
    skipFrom (fuel + 1) frames s = resume fuel frames r := by
  have hskip := h.skipAtom
  cases hs : skipBlanks s with
  | nil =>
    rw [hs] at hskip
    cases hskip
  | cons c t =>
    rw [hs] at hskip
    obtain ⟨harray, hobject⟩ := head_of_skipAtom hskip
    have htoken : skipToken frames s = .ok ((true, frames), r) := by
      rw [skipToken, hs]
      simp only [if_neg harray, if_neg hobject, hskip]
    rw [skipFrom, htoken]
    rfl

/-- Behind the bracket that opens a container comes its end or its first value. -/
theorem skipFrom_open (hs : skipToken frames s = .ok ((false, frame :: frames), t)) :
    (∀ {r}, skipBlanks t = frame.closer :: r →
      skipFrom (fuel + 1) frames s = resume fuel frames r) ∧
    (∀ {c r u}, skipBlanks t = c :: r → c ≠ frame.closer → skipKey frame (c :: r) = .ok u →
      skipFrom (fuel + 1) frames s = skipFrom fuel (frame :: frames) u) := by
  constructor
  · intro r ht
    rw [skipFrom, hs]
    simp only [closeFrames, ht, if_true]
    rfl
  · intro c r u ht hc hkey
    rw [skipFrom, hs]
    simp only [closeFrames, ht, if_neg hc, Bool.false_eq_true, if_false, hkey]

/-- A bracket opens a frame. -/
theorem skipToken_array (h : skipBlanks s = '[' :: t) :
    skipToken frames s = .ok ((false, .array :: frames), t) := by
  rw [skipToken, h]
  simp only [if_true]

/-- A brace opens a frame whose contents have keys. -/
theorem skipToken_object (h : skipBlanks s = '\x7b' :: t) :
    skipToken frames s = .ok ((false, .object :: frames), t) := by
  have hbrace : '\x7b' ≠ '[' := by decide
  rw [skipToken, h]
  simp only [if_neg hbrace, if_true]

/-- In an object a key is skipped with its colon. -/
theorem skipKey_object (hs : skipBlanks s = '"' :: t) (hkey : Quoted.read t = .ok (key, u))
    (hcolon : readColon u = .ok r) : skipKey .object s = .ok r := by
  rw [skipKey, hs]
  simp only [if_true, Quoted.skip_of_read hkey, hcolon]

/-- Blanks before a value do not matter. -/
theorem spells_of_skipBlanks (h : skipBlanks s = t) : Spells v t r ↔ Spells v s r := by
  have ht : skipBlanks t = skipBlanks s := by rw [← h, skipBlanks_skipBlanks]
  cases v <;> simp only [Spells, ht]

/-! ## The whole value -/

mutual

/-- A value in a stack of containers is skipped by a number of steps that its text has room for. -/
theorem skipFrom_of_spells {s r : List Char} : ∀ {v : Value}, Spells v s r →
    ∃ n, n + r.length ≤ s.length ∧
      ∀ fuel frames, skipFrom (fuel + n) frames s = resume fuel frames r
  | .null, h | .bool _, h | .number _, h | .string _, h =>
    ⟨1, by rw [Nat.add_comm]; exact length_lt_of_spellsAtom h, fun _ _ => skipFrom_atom h⟩
  | .array [], ⟨t, hs, hclose⟩ => by
    obtain ⟨r', ht, hr⟩ := nextItem_false hclose
    cases hr
    have hopen := length_lt_of_skipBlanks hs
    have hend := length_lt_of_skipBlanks ht
    exact ⟨1, by omega, fun fuel frames => (skipFrom_open (skipToken_array hs)).1 ht⟩
  | .array (v :: vs), ⟨t, hs, u, w, hnext, hv, hvs⟩ => by
    obtain ⟨c, u', rfl, hc, ⟨-, ht⟩ | ⟨hfirst, -⟩⟩ := nextItem_true hnext
    · obtain ⟨n, hn, hskip⟩ := skipFrom_of_spells hv
      obtain ⟨m, hm, hresume⟩ := resume_of_spellsItems hvs
      have hopen := length_lt_of_skipBlanks hs
      have hitem := length_le_of_nextItem hnext
      -- one step for the bracket, `n` for the first item and `m` for what comes behind it
      refine ⟨m + n + 1, by omega, fun fuel frames => ?_⟩
      rw [← Nat.add_assoc, ← Nat.add_assoc]
      calc skipFrom (fuel + m + n + 1) frames s
          = skipFrom (fuel + m + n) (.array :: frames) (c :: u') :=
            (skipFrom_open (skipToken_array hs)).2 ht hc rfl
        _ = resume (fuel + m) (.array :: frames) w := hskip _ _
        _ = resume fuel frames r := hresume _ _
    · cases hfirst
  | .object [], ⟨t, hs, hclose⟩ => by
    obtain ⟨r', ht, hr⟩ := nextKey_none hclose
    cases hr
    have hopen := length_lt_of_skipBlanks hs
    have hend := length_lt_of_skipBlanks ht
    exact ⟨1, by omega, fun fuel frames => (skipFrom_open (skipToken_object hs)).1 ht⟩
  | .object ((key, v) :: es), ⟨t, hs, k, u, w, hnext, hcolon, hv, hes⟩ => by
    obtain ⟨q, hkey, ⟨-, ht⟩ | ⟨hfirst, -⟩⟩ := nextKey_some hnext
    · obtain ⟨n, hn, hskip⟩ := skipFrom_of_spells hv
      obtain ⟨m, hm, hresume⟩ := resume_of_spellsEntries hes
      have hopen := length_lt_of_skipBlanks hs
      have hentry := length_lt_of_nextKey hnext
      have hvalue := length_lt_of_readColon hcolon
      have hskipKey := skipKey_object (skipBlanks_eq_self ht) hkey hcolon
      refine ⟨m + n + 1, by omega, fun fuel frames => ?_⟩
      rw [← Nat.add_assoc, ← Nat.add_assoc]
      calc skipFrom (fuel + m + n + 1) frames s
          = skipFrom (fuel + m + n) (.object :: frames) u :=
            (skipFrom_open (skipToken_object hs)).2 ht (by decide) hskipKey
        _ = resume (fuel + m) (.object :: frames) w := hskip _ _
        _ = resume fuel frames r := hresume _ _
    · cases hfirst

/-- The rest of an array is skipped in as many steps as it has characters at most. -/
theorem resume_of_spellsItems {s r : List Char} : ∀ {vs : List Value},
    SpellsItems false vs s (']' :: r) → ∃ n, n + r.length ≤ s.length ∧
      ∀ fuel frames, resume (fuel + n) (.array :: frames) s = resume fuel frames r
  | [], hclose => by
    obtain ⟨r', hs, hr⟩ := nextItem_false hclose
    cases hr
    have hend := length_lt_of_skipBlanks hs
    exact ⟨0, by omega, fun fuel frames => resume_close hs⟩
  | v :: vs, ⟨t, u, hnext, hv, hvs⟩ => by
    obtain ⟨c, t', rfl, hc, ⟨hfirst, -⟩ | ⟨-, rest, hs, ht⟩⟩ := nextItem_true hnext
    · cases hfirst
    · obtain ⟨n, hn, hskip⟩ := skipFrom_of_spells ((spells_of_skipBlanks ht).1 hv)
      obtain ⟨m, hm, hresume⟩ := resume_of_spellsItems hvs
      have hcomma := length_lt_of_skipBlanks hs
      refine ⟨m + n, by omega, fun fuel frames => ?_⟩
      rw [← Nat.add_assoc]
      calc resume (fuel + m + n) (.array :: frames) s
          = skipFrom (fuel + m + n) (.array :: frames) rest := resume_comma hs rfl
        _ = resume (fuel + m) (.array :: frames) u := hskip _ _
        _ = resume fuel frames r := hresume _ _

/-- The rest of an object is skipped in as many steps as it has characters at most. -/
theorem resume_of_spellsEntries {s r : List Char} : ∀ {es : List (String × Value)},
    SpellsEntries false es s ('\x7d' :: r) → ∃ n, n + r.length ≤ s.length ∧
      ∀ fuel frames, resume (fuel + n) (.object :: frames) s = resume fuel frames r
  | [], hclose => by
    obtain ⟨r', hs, hr⟩ := nextKey_none hclose
    cases hr
    have hend := length_lt_of_skipBlanks hs
    exact ⟨0, by omega, fun fuel frames => resume_close hs⟩
  | (key, v) :: es, ⟨k, t, u, hnext, hcolon, hv, hes⟩ => by
    obtain ⟨q, hkey, ⟨hfirst, -⟩ | ⟨-, rest, hs, hrest⟩⟩ := nextKey_some hnext
    · cases hfirst
    · obtain ⟨n, hn, hskip⟩ := skipFrom_of_spells hv
      obtain ⟨m, hm, hresume⟩ := resume_of_spellsEntries hes
      have hentry := length_lt_of_nextKey hnext
      have hvalue := length_lt_of_readColon hcolon
      refine ⟨m + n, by omega, fun fuel frames => ?_⟩
      rw [← Nat.add_assoc]
      calc resume (fuel + m + n) (.object :: frames) s
          = skipFrom (fuel + m + n) (.object :: frames) t :=
            resume_comma hs (skipKey_object hrest hkey hcolon)
        _ = resume (fuel + m) (.object :: frames) u := hskip _ _
        _ = resume fuel frames r := hresume _ _

end

/-- **Skipping a value ends right behind it.** -/
theorem skipValue_of_spells (h : Spells v s r) : skipValue s = .ok r := by
  obtain ⟨n, hn, hskip⟩ := skipFrom_of_spells h
  have hfuel : s.length + 1 = s.length + 1 - n + n := by omega
  rw [skipValue, hfuel, hskip, resume_nil]

end Exemplar.Json
