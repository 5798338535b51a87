import Exemplar.Literal.Render
import Mathlib.Tactic.SplitIfs

/-!
# Proofs/Text/Quoted — taking quoted text apart

    "say \"hi\"", 12]   ──▸   say "hi"   and   , 12]

`read?` is a lexer for quoted text whose opening quote has been passed: it undoes the escapes up to
the first quote that is not escaped, and refuses an escape that has no meaning.  What was quoted is
read back, whatever follows it (`read?_encode`), so quoted text ends in one place only.  It stands
in one line, as no control character that has an escape is left in it
(`escapeLetter?_of_mem_encode`).
-/

namespace Exemplar.Text.Quoted

/-- The character that the letter after a backslash stands for. -/
def unescape? (letter : Char) : Option Char :=
  if letter = '"' then some '"'
  else if letter = '\\' then some '\\'
  else if letter = 'n' then some '\n'
  else if letter = 'r' then some '\r'
  else if letter = 't' then some '\t'
  else if letter = '0' then some (Char.ofNat 0)
  else none

/-- Puts a character in front of what was read. -/
def consChar (c : Char) (read : List Char × List Char) : List Char × List Char :=
  (c :: read.1, read.2)

/-- The text up to the closing quote, and what follows the quote. -/
def read? : List Char → Option (List Char × List Char)
  | [] => none
  | c :: s =>
    if c = '"' then some ([], s)
    else if c = '\\' then
      match s with
      | [] => none
      | letter :: s => (unescape? letter).bind fun c => (read? s).map (consChar c)
    else (read? s).map (consChar c)

variable {c letter : Char} {s : List Char}

theorem read?_quote : read? ('"' :: s) = some ([], s) := by
  cases s <;> simp [read?]

theorem read?_escape (h : unescape? letter = some c) :
    read? ('\\' :: letter :: s) = (read? s).map (consChar c) := by
  simp [read?, h]

theorem read?_plain (hquote : c ≠ '"') (hslash : c ≠ '\\') :
    read? (c :: s) = (read? s).map (consChar c) := by
  cases s <;> simp [read?, hquote, hslash]

theorem unescape?_escapeLetter? (h : escapeLetter? c = some letter) :
    unescape? letter = some c := by
  simp only [escapeLetter?] at h
  split_ifs at h <;> cases h <;> simp_all [unescape?]

/-- A character that has no escape is neither the quote nor the backslash. -/
theorem ne_of_escapeLetter?_eq_none (h : escapeLetter? c = none) : c ≠ '"' ∧ c ≠ '\\' := by
  simp only [escapeLetter?] at h
  split_ifs at h with hquote hslash
  exact ⟨hquote, hslash⟩

/-- **What was quoted is read back, whatever follows.** -/
theorem read?_encode (s rest : List Char) : read? (encode s ++ '"' :: rest) = some (s, rest) := by
  induction s with
  | nil => exact read?_quote
  | cons c s ih =>
    have hstep : read? (encodeChar c ++ (encode s ++ '"' :: rest))
        = (read? (encode s ++ '"' :: rest)).map (consChar c) := by
      cases h : escapeLetter? c with
      | some letter =>
        rw [encodeChar, h]
        exact read?_escape (unescape?_escapeLetter? h)
      | none =>
        obtain ⟨hquote, hslash⟩ := ne_of_escapeLetter?_eq_none h
        rw [encodeChar, h]
        exact read?_plain hquote hslash
    rw [encode, List.flatMap_cons, List.append_assoc, ← encode, hstep, ih]
    rfl

/-- The lexer on strings: the quoted text at the start of a string, and what follows it. -/
def lex? (text : String) : Option (String × String) :=
  match text.toList with
  | '"' :: s => (read? s).map fun read => (String.ofList read.1, String.ofList read.2)
  | _ => none

/-- A quoted text is found at the start of any other. -/
theorem lex?_quote (s rest : String) :
    lex? (String.ofList (quote s.toList) ++ rest) = some (s, rest) := by
  have htext : (String.ofList (quote s.toList) ++ rest).toList
      = '"' :: (encode s.toList ++ '"' :: rest.toList) := by
    simp [quote]
  rw [lex?, htext]
  simp only [read?_encode, Option.map_some, String.ofList_toList]

/-- An interpolation is no quoted text. -/
example : lex? "\"\\(x)\"" = none := by decide

/-! ## What quoted text is made of -/

/-- The letter of an escape needs none itself, unless it is the quote or the backslash. -/
theorem escapeLetter?_letter (h : escapeLetter? c = some letter) :
    escapeLetter? letter = none ∨ letter = '"' ∨ letter = '\\' := by
  simp only [escapeLetter?] at h
  split_ifs at h <;> cases h <;> decide

/-- **A character that has an escape is gone from quoted text**, unless it is the quote or the
backslash. -/
theorem escapeLetter?_of_mem_encode (h : c ∈ encode s) :
    escapeLetter? c = none ∨ c = '"' ∨ c = '\\' := by
  obtain ⟨d, -, hc⟩ := List.mem_flatMap.1 h
  cases hd : escapeLetter? d with
  | some letter =>
    rw [encodeChar, hd] at hc
    obtain rfl | hc := List.mem_cons.1 hc
    · exact .inr (.inr rfl)
    · exact List.mem_singleton.1 hc ▸ escapeLetter?_letter hd
  | none =>
    rw [encodeChar, hd] at hc
    exact .inl (List.mem_singleton.1 hc ▸ hd)

/-- A character that has an escape does not stand in quoted text, but for the quote and the
backslash. -/
theorem not_mem_quote (h : escapeLetter? c ≠ none) (hquote : c ≠ '"') (hslash : c ≠ '\\') :
    c ∉ quote s := by
  intro hc
  obtain rfl | hc := List.mem_cons.1 hc
  · exact hquote rfl
  obtain hc | hc := List.mem_append.1 hc
  · obtain hnone | rfl | rfl := escapeLetter?_of_mem_encode hc
    · exact h hnone
    · exact hquote rfl
    · exact hslash rfl
  · exact hquote (List.mem_singleton.1 hc)

end Exemplar.Text.Quoted

namespace Exemplar.Literal

open Text

theorem render_string (s accessor : String) :
    (string s).render accessor = String.ofList (Quoted.quote s.toList) := rfl

/-- **A rendered string can stand anywhere.** Whatever follows it, a lexer takes the string and no
more off the text. There is no raw line feed, carriage return, tab or null character in it, and no
other string is rendered by the same text. -/
theorem lex?_render_string (s accessor : String) :
    (∀ rest, Quoted.lex? ((string s).render accessor ++ rest) = some (s, rest)) ∧
      ('\n' ∉ ((string s).render accessor).toList ∧ '\r' ∉ ((string s).render accessor).toList ∧
        '\t' ∉ ((string s).render accessor).toList ∧
        Char.ofNat 0 ∉ ((string s).render accessor).toList) ∧
      ∀ s' accessor', (string s').render accessor' = (string s).render accessor ↔ s' = s := by
  have hlex : ∀ t accessor rest,
      Quoted.lex? ((string t).render accessor ++ rest) = some (t, rest) := by
    intro t accessor rest
    rw [render_string, Quoted.lex?_quote]
  refine ⟨hlex s accessor, ?_, fun s' accessor' => ⟨fun h => ?_, ?_⟩⟩
  · rw [render_string, String.toList_ofList]
    refine ⟨?_, ?_, ?_, ?_⟩ <;>
      exact Quoted.not_mem_quote (by decide) (by decide) (by decide)
  · have hread := hlex s' accessor' ""
    rw [h, hlex] at hread
    exact (Prod.mk.inj (Option.some.inj hread)).1.symm
  · rintro rfl
    rw [render_string, render_string]

end Exemplar.Literal
