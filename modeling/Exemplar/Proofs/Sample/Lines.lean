import Exemplar.Proofs.Decimal.Shortest
import Exemplar.Proofs.Literal.Delegate
import Exemplar.Proofs.Sample.Blocks

/-!
# Proofs/Sample/Lines — a block is three lines, or five in an extension

    static var preview: Model {              extension Model {
        Model(title: "a\nb")                     static var preview: Model {
    }                                                Model(title: "a\nb")
                                                 }
                                             }

The text of a literal takes a line feed only from the accessor or from the name of a type that it
delegates to, whatever the strings in it hold (`Literal.oneLine_chars`), so names without line feeds
make a call that is one line.  The lines of a block are then those it is written in, and an
extension adds its own two to the plain block moved in by one step (`lines_block`).
-/

namespace Exemplar

/-! ## Lines -/

namespace Text

/-- There is no line feed in the text. -/
def OneLine (s : List Char) : Prop := '\n' ∉ s

instance (s : List Char) : Decidable (OneLine s) := inferInstanceAs (Decidable ('\n' ∉ s))

/-- The lines of a text, each with the line feed that ends it. What follows the last line feed, if
anything, is a line as well. -/
def lines : List Char → List (List Char)
  | [] => []
  | c :: s => if c = '\n' then [c] :: lines s else consWord c (lines s)

variable {s t : List Char} {c : Char}

@[simp] theorem oneLine_nil : OneLine [] := List.not_mem_nil

@[simp] theorem oneLine_cons : OneLine (c :: s) ↔ c ≠ '\n' ∧ OneLine s := by
  rw [OneLine, List.mem_cons, not_or, ne_comm, OneLine]

@[simp] theorem oneLine_append : OneLine (s ++ t) ↔ OneLine s ∧ OneLine t := by
  rw [OneLine, List.mem_append, not_or, OneLine, OneLine]

/-- **A line is over at its line feed**, and the lines that follow are those of the rest. -/
theorem lines_append_cons (h : OneLine s) (t : List Char) :
    lines (s ++ '\n' :: t) = (s ++ ['\n']) :: lines t := by
  induction s with
  | nil => rw [List.nil_append, lines, if_pos rfl, List.nil_append]
  | cons c s ih =>
    obtain ⟨hc, hs⟩ := oneLine_cons.1 h
    rw [List.cons_append, lines, if_neg hc, ih hs, consWord, List.cons_append]

theorem oneLine_flatMap {α : Type} {as : List α} {f : α → List Char} (h : ∀ a ∈ as, OneLine (f a)) :
    OneLine (as.flatMap f) := by
  intro hmem
  obtain ⟨a, ha, hfeed⟩ := List.mem_flatMap.1 hmem
  exact h a ha hfeed

end Text

open Text

/-! ## What is written in one line -/

namespace Literal

variable {accessor : List Char} {items : List (List Char)}

theorem oneLine_separated (h : ∀ t ∈ items, OneLine t) : OneLine (separated items) := by
  cases items with
  | nil => decide
  | cons item items =>
    obtain ⟨hitem, hitems⟩ := List.forall_mem_cons.1 h
    rw [separated_cons]
    refine oneLine_append.2 ⟨hitem, oneLine_flatMap fun t ht => ?_⟩
    exact oneLine_append.2 ⟨by decide, hitems t ht⟩

theorem oneLine_bracketed (h : ∀ t ∈ items, OneLine t) : OneLine (bracketed items) := by
  simp only [bracketed, oneLine_append, oneLine_cons]
  exact ⟨⟨by decide, oneLine_separated h⟩, by decide⟩

/-- What is written with digits, dashes and points has no line feed. -/
theorem oneLine_of_digits {s : List Char} (h : ∀ c ∈ s, c.isDigit = true ∨ c = '-' ∨ c = '.') :
    OneLine s :=
  fun hfeed => absurd (h _ hfeed) (by decide)

theorem oneLine_floatChars (x : Binary64) : OneLine (floatChars x) := by
  have hfinite : OneLine (finiteChars x) := by
    refine oneLine_of_digits fun c hc => ?_
    rw [finiteChars] at hc
    split at hc
    · rcases List.mem_append.1 hc with hc | hc
      · exact .inl (Decimal.isDigit_of_mem_toDigits hc)
      · rcases List.mem_pair.1 hc with rfl | rfl
        · exact .inr (.inr rfl)
        · exact .inl (by decide)
    · exact (Decimal.isDigit_of_mem_positional hc).imp_right .inr
  rw [floatChars]
  split
  · decide
  · rw [oneLine_append]
    constructor
    · split <;> decide
    · split
      · exact hfinite
      · decide

/-- Elements are written in one line if each of them is. -/
theorem oneLine_charsOfAll {ls : List Literal}
    (ih : ∀ l ∈ ls, (∀ name ∈ l.delegates, OneLine name.toList) → OneLine (l.chars accessor))
    (h : ∀ name ∈ delegatesOfAll ls, OneLine name.toList) :
    OneLine (bracketed (charsOfAll accessor ls)) := by
  rw [delegatesOfAll_eq] at h
  rw [charsOfAll_eq]
  refine oneLine_bracketed (List.forall_mem_map.2 fun l hl => ih l hl fun name hname => ?_)
  exact h name (List.mem_flatMap_of_mem hl hname)

/-- Entries are written in one line if keys and values are. -/
theorem oneLine_charsOfEntries {es : List (Literal × Literal)}
    (ih : ∀ e ∈ es,
      ((∀ name ∈ e.1.delegates, OneLine name.toList) → OneLine (e.1.chars accessor)) ∧
        ((∀ name ∈ e.2.delegates, OneLine name.toList) → OneLine (e.2.chars accessor)))
    (h : ∀ name ∈ delegatesOfEntries es, OneLine name.toList) :
    OneLine (bracketed (charsOfEntries accessor es)) := by
  rw [delegatesOfEntries_eq] at h
  rw [charsOfEntries_eq]
  refine oneLine_bracketed (List.forall_mem_map.2 fun e he => ?_)
  obtain ⟨hkey, hvalue⟩ := ih e he
  simp only [oneLine_append]
  refine ⟨⟨hkey fun name hname => ?_, by decide⟩, hvalue fun name hname => ?_⟩
  · exact h name (List.mem_flatMap_of_mem he (List.mem_append_left _ hname))
  · exact h name (List.mem_flatMap_of_mem he (List.mem_append_right _ hname))

/-- **A literal is written in one line**, whatever its strings hold, if the accessor and the names
of the types it delegates to are. -/
theorem oneLine_chars (ha : OneLine accessor) (l : Literal)
    (h : ∀ name ∈ l.delegates, OneLine name.toList) : OneLine (l.chars accessor) := by
  induction l with
  | string text =>
    -- a line feed in the text is written as an escape
    rw [chars]
    exact Quoted.not_mem_quote (by decide) (by decide) (by decide)
  | integer n =>
    rw [chars]
    exact oneLine_of_digits fun c hc => (Decimal.isDigit_of_mem_intChars hc).imp_right .inl
  | float x =>
    rw [chars]
    exact oneLine_floatChars x
  | bool b =>
    rw [chars]
    split <;> decide
  | nil =>
    rw [chars]
    decide
  | array ls ih =>
    rw [chars]
    exact oneLine_charsOfAll ih (by rwa [delegates] at h)
  | set ls ih =>
    simp only [chars, oneLine_append]
    exact ⟨⟨by decide, oneLine_charsOfAll ih (by rwa [delegates] at h)⟩, by decide⟩
  | dictionary es ih =>
    cases es with
    | nil =>
      rw [chars]
      decide
    | cons e es =>
      rw [chars]
      exact oneLine_charsOfEntries ih (by rwa [delegates] at h)
  | delegate name =>
    rw [chars, oneLine_append, oneLine_cons]
    exact ⟨h name (by rw [delegates]; exact List.mem_singleton_self name), by decide, ha⟩

end Literal

namespace Expansion

/-- No name in the sample has a line feed in it: not that of the type, of the accessor, of an
argument, or of a type that is delegated to. -/
structure NamesOneLine (x : Expansion) : Prop where
  typeName : OneLine x.typeName.toList
  accessor : OneLine x.accessor.toList
  argument : ∀ a ∈ x.arguments, OneLine a.name.toList
  delegate : ∀ a ∈ x.arguments, ∀ name ∈ a.literal.delegates, OneLine name.toList

variable {x : Expansion} {base s : List Char}

/-- **A call is written in one line**, if its names are. -/
theorem NamesOneLine.oneLine_callChars (h : x.NamesOneLine) : OneLine x.callChars := by
  have harguments : ∀ u ∈ x.arguments.map (Argument.chars x.accessor), OneLine u := by
    refine List.forall_mem_map.2 fun a ha => ?_
    simp only [Argument.chars, oneLine_append]
    exact ⟨⟨h.argument a ha, by decide⟩, a.literal.oneLine_chars h.accessor (h.delegate a ha)⟩
  simp only [callChars, oneLine_append, oneLine_cons, oneLine_nil, and_true]
  exact ⟨⟨h.typeName, by decide, Literal.oneLine_separated harguments⟩, by decide⟩

/-- A line is the first line of a text that starts with it. -/
theorem lines_line_append (h : OneLine s) (t : List Char) :
    lines (line s ++ t) = line s :: lines t := by
  rw [line, List.append_assoc, List.singleton_append, lines_append_cons h]

/-! ## Blocks -/

/-- The three lines of an accessor, without the line feeds that end them. -/
def accessorLines (x : Expansion) : List (List Char) :=
  ["static var ".toList ++ x.accessor.toList ++ ": ".toList ++ x.typeName.toList ++ " \x7b".toList,
    indent ++ x.callChars, "\x7d".toList]

/-- An accessor is written line by line, each moved in by the base. -/
theorem accessorChars_eq (base : List Char) (x : Expansion) :
    accessorChars base x = x.accessorLines.flatMap fun s => line (base ++ s) := by
  simp [accessorChars, accessorLines]

theorem NamesOneLine.oneLine_accessorLines (h : x.NamesOneLine) :
    ∀ s ∈ x.accessorLines, OneLine s := by
  simp only [accessorLines, List.forall_mem_cons, oneLine_append]
  exact ⟨⟨⟨⟨⟨by decide, h.accessor⟩, by decide⟩, h.typeName⟩, by decide⟩,
    ⟨by decide, h.oneLine_callChars⟩, by decide, nofun⟩

/-- **What is written line by line has these lines**, and then those of what follows. -/
theorem lines_flatMap_line (hbase : OneLine base) {ls : List (List Char)} (h : ∀ s ∈ ls, OneLine s)
    (t : List Char) :
    lines (ls.flatMap (fun s => line (base ++ s)) ++ t)
      = ls.map (fun s => line (base ++ s)) ++ lines t := by
  induction ls with
  | nil => rfl
  | cons s ls ih =>
    obtain ⟨hs, hls⟩ := List.forall_mem_cons.1 h
    rw [List.flatMap_cons, List.append_assoc, lines_line_append (oneLine_append.2 ⟨hbase, hs⟩),
      ih hls, List.map_cons, List.cons_append]

/-- The line that opens the extension of a type, without its line feed. -/
def extensionLine (x : Expansion) : List Char :=
  "extension ".toList ++ x.typeName.toList ++ " \x7b".toList

theorem NamesOneLine.oneLine_extensionLine (h : x.NamesOneLine) : OneLine x.extensionLine := by
  unfold extensionLine
  simp only [oneLine_append]
  exact ⟨⟨by decide, h.typeName⟩, by decide⟩

/-- A plain block has the lines of the accessor. -/
theorem lines_block_false (h : x.NamesOneLine) :
    lines (x.block false) = x.accessorLines.map line := by
  have hblock : x.block false = x.accessorLines.flatMap (fun s => line ([] ++ s)) ++ [] := by
    rw [List.append_nil]
    exact accessorChars_eq [] x
  rw [hblock, lines_flatMap_line oneLine_nil h.oneLine_accessorLines]
  exact List.append_nil _

/-- An extension has one line before them and one behind. -/
theorem lines_block_true (h : x.NamesOneLine) : lines (x.block true) =
    line x.extensionLine :: x.accessorLines.map (fun s => line (indent ++ s)) ++
      [line "\x7d".toList] := by
  have hblock : x.block true = line x.extensionLine ++
      (x.accessorLines.flatMap (fun s => line (indent ++ s)) ++ (line "\x7d".toList ++ [])) := by
    rw [← accessorChars_eq, List.append_nil, ← List.append_assoc]
    rfl
  rw [hblock, lines_line_append h.oneLine_extensionLine,
    lines_flatMap_line (by decide) h.oneLine_accessorLines, lines_line_append (by decide)]
  rfl

/-- A line that is moved in is a line. -/
theorem flatMap_lines_block (h : x.NamesOneLine) :
    (lines (x.block false)).flatMap (indent ++ ·) = accessorChars indent x := by
  rw [lines_block_false h, List.flatMap_map, accessorChars_eq]
  simp only [line, List.append_assoc]

/-- **The lines of a block.** What a source gains by a sample is its block, which in plain mode is
three lines and in an extension five, each ended by a line feed; the extension is the line that
opens it, the lines of the plain block with four blanks before each, and the line of its closing
brace. -/
theorem lines_block (h : x.NamesOneLine) :
    (∀ s : Source, (s.emit x).chars = Source.joined s.chars (x.block s.inExtension)) ∧
      (lines (x.block false)).length = 3 ∧ (lines (x.block true)).length = 5 ∧
      (∀ m, ∀ l ∈ lines (x.block m), l.getLast? = some '\n') ∧
      x.block true = line ("extension ".toList ++ x.typeName.toList ++ " \x7b".toList) ++
        (lines (x.block false)).flatMap ("    ".toList ++ ·) ++ line "\x7d".toList := by
  refine ⟨fun s => Source.chars_emit, ?_, ?_, fun m l hl => ?_, ?_⟩
  · rw [lines_block_false h]
    rfl
  · rw [lines_block_true h]
    rfl
  · cases m with
    | false =>
      rw [lines_block_false h] at hl
      obtain ⟨s, -, rfl⟩ := List.mem_map.1 hl
      exact getLast?_line s
    | true =>
      rw [lines_block_true h] at hl
      rcases List.mem_append.1 hl with hl | hl
      · rcases List.mem_cons.1 hl with rfl | hl
        · exact getLast?_line _
        · obtain ⟨s, -, rfl⟩ := List.mem_map.1 hl
          exact getLast?_line _
      · rw [List.mem_singleton.1 hl]
        exact getLast?_line _
  · exact congrArg (fun inner => line _ ++ inner ++ line _) (flatMap_lines_block h).symm

/-- The strings of this sample hold line feeds, next to a key and a type that is delegated to. -/
theorem lines_block_of_broken_text :
    let x : Expansion := ⟨"Model", "preview", [⟨"title", .string "a\nb"⟩,
      ⟨"owners", .dictionary [(.string "\n", .set [.delegate "User"])]⟩]⟩
    x.NamesOneLine ∧ (lines (x.block false)).length = 3 ∧ (lines (x.block true)).length = 5 := by
  intro x
  have hx : x.NamesOneLine := ⟨by decide, by decide, by decide, by decide⟩
  obtain ⟨-, hplain, hextension, -⟩ := lines_block hx
  exact ⟨hx, hplain, hextension⟩

end Expansion

end Exemplar
