import Exemplar.Proofs.Literal.Reader

/-!
# Proofs/Literal/Delegate — where the accessor shows in the text of a literal

    ["a": [User.⟨accessor⟩], "b": [Key.⟨accessor⟩, nil]]

The texts of one literal under all accessors are one text with a gap for each delegate, and the
accessor in every gap (`gapped_chars`).  Of such texts everything is known by induction on how they
are put together: what the accessor adds to their size, and that two accessors give two texts as
soon as there is a gap (`Gapped.eq_iff`).  Accessors of different lengths are told apart by the
lengths of the texts, and then those of one length by what stands in the gaps.
-/

namespace Exemplar

/-- The texts `f s` are one text with `n` gaps, and `s` in each of them. -/
inductive Gapped : (List Char → List Char) → ℕ → Prop
  | const (t : List Char) : Gapped (fun _ => t) 0
  | gap : Gapped (fun s => s) 1
  | append {f g : List Char → List Char} {m n : ℕ} (hf : Gapped f m) (hg : Gapped g n) :
      Gapped (fun s => f s ++ g s) (m + n)

namespace Gapped

variable {f : List Char → List Char} {n : ℕ} {s t : List Char}

/-- **What the gaps add to a text**, in any measure of size that adds up. -/
theorem size_eq (h : Gapped f n) (size : List Char → ℕ) (hnil : size [] = 0)
    (happend : ∀ s t, size (s ++ t) = size s + size t) (s : List Char) :
    size (f s) = size (f []) + n * size s := by
  induction h with
  | const t => rw [Nat.zero_mul, Nat.add_zero]
  | gap => rw [hnil, Nat.zero_add, Nat.one_mul]
  | append _ _ ihf ihg =>
    rw [happend, happend, ihf, ihg, Nat.add_mul]
    omega

/-- A text with gaps grows by what is put into each of them. -/
theorem length_eq (h : Gapped f n) (s : List Char) :
    (f s).length = (f []).length + n * s.length :=
  h.size_eq List.length List.length_nil (fun _ _ => List.length_append) s

/-- Without gaps there is only one text. -/
theorem eq_of_eq_zero (h : Gapped f n) (hn : n = 0) (s t : List Char) : f s = f t := by
  induction h with
  | const t => rfl
  | gap => exact absurd hn Nat.one_ne_zero
  | append _ _ ihf ihg =>
    obtain ⟨hm, hn⟩ := Nat.add_eq_zero_iff.1 hn
    dsimp only
    rw [ihf hm, ihg hn]

/-- Of two texts that fill the gaps alike and are equally long, either there are no gaps or they are
one text. -/
theorem eq_zero_or_eq (h : Gapped f n) (hlength : s.length = t.length) (heq : f s = f t) :
    n = 0 ∨ s = t := by
  induction h with
  | const => exact .inl rfl
  | gap => exact .inr heq
  | append hf _ ihf ihg =>
    -- what stands before the second part is equally long on both sides
    obtain ⟨hleft, hright⟩ :=
      List.append_inj heq (by rw [hf.length_eq s, hf.length_eq t, hlength])
    obtain rfl | hst := ihf hleft
    · exact (ihg hright).imp_left fun hn => by rw [hn]
    · exact .inr hst

/-- **Two texts fill the gaps alike only if there are none.** -/
theorem eq_iff (h : Gapped f n) (hst : s ≠ t) : f s = f t ↔ n = 0 := by
  refine ⟨fun heq => ?_, fun hn => h.eq_of_eq_zero hn s t⟩
  by_contra hn
  have hsize : n * s.length = n * t.length := by
    have hs := h.length_eq s
    have ht := h.length_eq t
    rw [heq] at hs
    omega
  have hlength : s.length = t.length := Nat.eq_of_mul_eq_mul_left (Nat.pos_of_ne_zero hn) hsize
  exact (h.eq_zero_or_eq hlength heq).elim hn hst

/-! ## Items side by side -/

variable {α : Type} {as : List α} {item : α → List Char → List Char} {gaps : α → ℕ}

theorem flatMap (h : ∀ a ∈ as, Gapped (item a) (gaps a)) :
    Gapped (fun s => as.flatMap fun a => item a s) (as.map gaps).sum := by
  induction as with
  | nil => exact const []
  | cons a as ih =>
    obtain ⟨ha, has⟩ := List.forall_mem_cons.1 h
    have hcons := append ha (ih has)
    simpa only [List.flatMap_cons, List.map_cons, List.sum_cons] using hcons

/-- Separators have no gaps. -/
theorem separated (h : ∀ a ∈ as, Gapped (item a) (gaps a)) :
    Gapped (fun s => Literal.separated (as.map fun a => item a s)) (as.map gaps).sum := by
  cases as with
  | nil => exact const (Literal.separated [])
  | cons a as =>
    obtain ⟨ha, has⟩ := List.forall_mem_cons.1 h
    have hmore : ∀ b ∈ as, Gapped (fun s => ", ".toList ++ item b s) (gaps b) := by
      intro b hb
      have hb := append (const ", ".toList) (has b hb)
      rwa [Nat.zero_add] at hb
    have hcons := append ha (flatMap hmore)
    simpa only [List.map_cons, Literal.separated_cons, List.flatMap_map, List.sum_cons] using hcons

theorem bracketed (h : ∀ a ∈ as, Gapped (item a) (gaps a)) :
    Gapped (fun s => Literal.bracketed (as.map fun a => item a s)) (as.map gaps).sum := by
  have hall := append (append (const ['[']) (separated h)) (const [']'])
  simpa only [Literal.bracketed, List.singleton_append, Nat.zero_add, Nat.add_zero] using hall

end Gapped

namespace Literal

mutual

/-- The names of the types that a literal delegates to, wherever in it, from left to right. -/
def delegates : Literal → List String
  | delegate typeName => [typeName]
  | array elements => delegatesOfAll elements
  | set elements => delegatesOfAll elements
  | dictionary entries => delegatesOfEntries entries
  | string _ | integer _ | float _ | bool _ | nil => []

/-- The names in the elements of an array or a set. -/
def delegatesOfAll : List Literal → List String
  | [] => []
  | l :: ls => delegates l ++ delegatesOfAll ls

/-- The names in the keys and values of a dictionary. -/
def delegatesOfEntries : List (Literal × Literal) → List String
  | [] => []
  | (k, v) :: es => delegates k ++ delegates v ++ delegatesOfEntries es

end

theorem delegatesOfAll_eq (ls : List Literal) : delegatesOfAll ls = ls.flatMap delegates := by
  induction ls with
  | nil => rw [delegatesOfAll, List.flatMap_nil]
  | cons l ls ih => rw [delegatesOfAll, ih, List.flatMap_cons]

theorem delegatesOfEntries_eq (es : List (Literal × Literal)) :
    delegatesOfEntries es = es.flatMap fun e => e.1.delegates ++ e.2.delegates := by
  induction es with
  | nil => rw [delegatesOfEntries, List.flatMap_nil]
  | cons e es ih => rw [delegatesOfEntries, ih, List.flatMap_cons]

/-- The elements of a literal have the gaps of each of them. -/
theorem gapped_charsOfAll {ls : List Literal}
    (h : ∀ l ∈ ls, Gapped (fun s => l.chars s) l.delegates.length) :
    Gapped (fun s => bracketed (charsOfAll s ls)) (delegatesOfAll ls).length := by
  have hall := Gapped.bracketed h
  simpa only [charsOfAll_eq, delegatesOfAll_eq, List.length_flatMap] using hall

/-- The entries of a dictionary have the gaps of each key and each value. -/
theorem gapped_charsOfEntries {es : List (Literal × Literal)}
    (h : ∀ e ∈ es, Gapped (fun s => e.1.chars s) e.1.delegates.length ∧
      Gapped (fun s => e.2.chars s) e.2.delegates.length) :
    Gapped (fun s => bracketed (charsOfEntries s es)) (delegatesOfEntries es).length := by
  have hentry : ∀ e ∈ es, Gapped (fun s => e.1.chars s ++ ": ".toList ++ e.2.chars s)
      (e.1.delegates ++ e.2.delegates).length := by
    intro e he
    obtain ⟨hkey, hvalue⟩ := h e he
    rw [List.length_append]
    exact .append (.append hkey (.const ": ".toList)) hvalue
  have hall := Gapped.bracketed hentry
  simpa only [charsOfEntries_eq, delegatesOfEntries_eq, List.length_flatMap] using hall

/-- **The accessor stands once for each delegate**, and nothing else in a literal's text changes
with it. -/
theorem gapped_chars (l : Literal) : Gapped (fun s => l.chars s) l.delegates.length := by
  induction l with
  | string | integer | float | bool | nil =>
    simp only [chars]
    exact .const _
  | array ls ih =>
    simp only [chars, delegates]
    exact gapped_charsOfAll ih
  | set ls ih =>
    simp only [chars, delegates]
    have hset := ((Gapped.const "Set(".toList).append (gapped_charsOfAll ih)).append (.const [')'])
    rwa [Nat.zero_add, Nat.add_zero] at hset
  | dictionary es ih =>
    cases es with
    | nil =>
      simp only [chars]
      exact .const _
    | cons e es =>
      simp only [chars, delegates]
      exact gapped_charsOfEntries ih
  | delegate name =>
    simp only [chars, delegates]
    have hname := (Gapped.const (name.toList ++ ['.'])).append .gap
    simpa only [List.append_assoc, List.singleton_append, Nat.zero_add, List.length_singleton]
      using hname

/-- **Two accessors give two texts exactly if there is a delegate to call them on.** -/
theorem render_eq_render_iff (l : Literal) {a b : String} (hab : a ≠ b) :
    l.render a = l.render b ↔ l.delegates = [] := by
  have hchars : a.toList ≠ b.toList := fun h => hab (String.toList_injective h)
  rw [render, render, String.ofList_inj, ← List.length_eq_zero_iff]
  exact (gapped_chars l).eq_iff hchars

/-- **The accessor shows in a literal's text through its delegates, and through them only.** Two
accessors give the same text exactly where nothing is delegated.  The text under an accessor is
longer than that under the empty one by the accessor for each delegate, counted in characters as
well as in bytes. -/
theorem render_accessor (l : Literal) :
    (∀ a b, a ≠ b → (l.render a = l.render b ↔ l.delegates = [])) ∧
      (∀ a, (l.render a).length = (l.render "").length + l.delegates.length * a.length) ∧
      ∀ a, (l.render a).utf8ByteSize =
        (l.render "").utf8ByteSize + l.delegates.length * a.utf8ByteSize := by
  refine ⟨fun a b hab => l.render_eq_render_iff hab, fun a => ?_, fun a => ?_⟩
  · have hlength := (gapped_chars l).length_eq a.toList
    simpa only [render, String.length_ofList, String.length_toList, String.toList_empty]
      using hlength
  · have hsize := (gapped_chars l).size_eq (fun s => (String.ofList s).utf8ByteSize)
      String.utf8ByteSize_empty
      (fun s t => by rw [String.ofList_append, String.utf8ByteSize_append]) a.toList
    simpa only [render, String.ofList_toList, String.toList_empty] using hsize

/-- One delegate is a key, the other stands inside the value, next to a string that looks like
one. -/
theorem render_accessor_of_nested :
    let l : Literal := .dictionary [(.delegate "Key", .set [.string "Key.", .delegate "User"])]
    "" ≠ "preview" ∧ l.render "" ≠ l.render "preview" ∧
      (l.render "preview").length = (l.render "").length + 2 * 7 := by
  intro l
  have hab : "" ≠ "preview" := by decide
  have hdelegates : l.delegates = ["Key", "User"] := by decide
  obtain ⟨hsame, hlength, -⟩ := render_accessor l
  refine ⟨hab, fun h => ?_, ?_⟩
  · have hnone := (hsame _ _ hab).1 h
    rw [hdelegates] at hnone
    cases hnone
  · rw [hlength, hdelegates]
    rfl

end Literal

end Exemplar
