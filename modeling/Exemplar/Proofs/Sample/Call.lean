import Exemplar.Proofs.Literal.Reader
import Exemplar.Sample.Expansion

/-!
# Proofs/Sample/Call — a call says what it was made of

    Model(title: "a, b: c", tags: Set([]), owner: User.preview)

Given the accessor, type name, argument names and literals of a sample can be read off the text of
its call (`readCall?_callChars`).  So two samples with the same accessor and the same call are the
same sample (`eq_of_call_eq`), whatever their strings hold.
-/

namespace Exemplar

open Literal

namespace Argument

/-- The argument at the start of a text, and what follows it. -/
def read? (accessor : List Char) (fuel : ℕ) (s : List Char) : Option (Argument × List Char) :=
  (skip? ": ".toList (s.dropWhile isWordChar)).bind fun rest =>
    (Literal.read? accessor fuel rest).map fun (l, rest) =>
      (⟨String.ofList (s.takeWhile isWordChar), l⟩, rest)

/-- The arguments that follow the first one of a call that ends the text. -/
def readMore? (accessor : List Char) : ℕ → List Char → Option (List Argument)
  | 0, _ => none
  | fuel + 1, s =>
    if s = [')'] then some []
    else
      (skip? ", ".toList s).bind fun s =>
        (read? accessor fuel s).bind fun (a, s) => (readMore? accessor fuel s).map (a :: ·)

/-- An identifier names the argument, and its literal is readable. -/
structure Readable (a : Argument) : Prop where
  name : IsIdentifier a.name.toList
  literal : a.literal.Readable

variable {accessor rest : List Char} {a : Argument} {fuel : ℕ}

/-- An argument is read back up to what ends its literal. -/
theorem read?_chars {accessor : String} (ha : IsIdentifier accessor.toList) (h : a.Readable)
    (hfuel : (a.chars accessor).length < fuel) (hr : EndsWord rest) :
    read? accessor.toList fuel (a.chars accessor ++ rest) = some (a, rest) := by
  have hname : ∀ c ∈ a.name.toList, isWordChar c = true :=
    fun c hc => isWordChar_of_identifier h.name hc
  have htext : a.chars accessor ++ rest
      = a.name.toList ++ (": ".toList ++ (a.literal.chars accessor.toList ++ rest)) := by
    simp only [chars, List.append_assoc]
  have hend : EndsWord (": ".toList ++ (a.literal.chars accessor.toList ++ rest)) :=
    endsWord_cons (by decide)
  have hlength := congrArg List.length htext
  simp only [List.length_append] at hlength
  have hback := readsBack (fun c hc => isWordChar_of_identifier ha hc) a.literal h.literal
  have hread := hback.read?_eq fuel rest (by omega) hr
  simp only [htext, read?, hend.takeWhile hname, hend.dropWhile hname, skip?_append,
    Option.bind_some, hread, Option.map_some, String.ofList_toList]

/-- The text of the arguments that follow the first one. -/
def more (accessor : String) (as : List Argument) : List Char :=
  as.flatMap fun a => ", ".toList ++ a.chars accessor

/-- What follows an argument ends a word: a separator or the parenthesis. -/
theorem endsWord_more (accessor : String) (as : List Argument) :
    EndsWord (more accessor as ++ [')']) := by
  cases as with
  | nil => exact endsWord_cons (by decide)
  | cons a as => exact endsWord_cons (by decide)

/-- Further arguments are read back up to the parenthesis. -/
theorem readMore?_more {accessor : String} (ha : IsIdentifier accessor.toList) {as : List Argument}
    (has : ∀ a ∈ as, a.Readable) (hfuel : (more accessor as).length < fuel) :
    readMore? accessor.toList fuel (more accessor as ++ [')']) = some as := by
  induction as generalizing fuel with
  | nil =>
    obtain ⟨fuel, rfl⟩ := Nat.exists_eq_add_of_lt hfuel
    simp [more, readMore?]
  | cons a as ih =>
    obtain ⟨h, has⟩ := List.forall_mem_cons.1 has
    obtain ⟨fuel, rfl⟩ := Nat.exists_eq_add_one.2 (Nat.zero_lt_of_lt hfuel)
    have hlength : (more accessor (a :: as)).length
        = (a.chars accessor).length + (more accessor as).length + 2 := by
      simp [more]
    have htext : more accessor (a :: as) ++ [')']
        = ", ".toList ++ (a.chars accessor ++ (more accessor as ++ [')'])) := by
      simp [more]
    have hne : ", ".toList ++ (a.chars accessor ++ (more accessor as ++ [')'])) ≠ [')'] := by simp
    have hread : read? accessor.toList fuel (a.chars accessor ++ (more accessor as ++ [')']))
        = some (a, more accessor as ++ [')']) :=
      read?_chars ha h (by omega) (endsWord_more accessor as)
    have hmore : readMore? accessor.toList fuel (more accessor as ++ [')']) = some as :=
      ih has (by omega)
    simp only [htext, readMore?, if_neg hne, skip?_append, Option.bind_some, hread, hmore,
      Option.map_some]

end Argument

namespace Expansion

/-- The arguments of a call whose opening parenthesis has been passed. -/
def readArguments? (accessor : List Char) (fuel : ℕ) (s : List Char) : Option (List Argument) :=
  if s = [')'] then some []
  else (Argument.read? accessor fuel s).bind fun (a, s) =>
    (Argument.readMore? accessor fuel s).map (a :: ·)

/-- The sample with the given accessor whose call a text is. -/
def readCall? (accessor : String) (s : List Char) : Option Expansion :=
  (skip? ['('] (s.dropWhile isWordChar)).bind fun rest =>
    (readArguments? accessor.toList s.length rest).map fun arguments =>
      { typeName := String.ofList (s.takeWhile isWordChar), accessor, arguments }

/-- Type, accessor and arguments are named by identifiers, and every literal is readable. -/
structure Readable (x : Expansion) : Prop where
  typeName : IsIdentifier x.typeName.toList
  accessor : IsIdentifier x.accessor.toList
  argument : ∀ a ∈ x.arguments, a.Readable

variable {x y : Expansion}

/-- The arguments of a call are read back up to its parenthesis, if there are any. -/
theorem readArguments?_chars {accessor : String} (ha : IsIdentifier accessor.toList)
    {as : List Argument} (has : ∀ a ∈ as, a.Readable) {fuel : ℕ}
    (hfuel : (separated (as.map (Argument.chars accessor))).length < fuel) :
    readArguments? accessor.toList fuel (separated (as.map (Argument.chars accessor)) ++ [')'])
      = some as := by
  cases as with
  | nil => simp [separated, readArguments?]
  | cons a as =>
    obtain ⟨h, has⟩ := List.forall_mem_cons.1 has
    have htext : separated ((a :: as).map (Argument.chars accessor))
        = a.chars accessor ++ Argument.more accessor as := by
      rw [List.map_cons, separated_cons, List.flatMap_map, Argument.more]
    have hlength := congrArg List.length htext
    rw [List.length_append] at hlength
    have hread : Argument.read? accessor.toList fuel
        (a.chars accessor ++ (Argument.more accessor as ++ [')']))
          = some (a, Argument.more accessor as ++ [')']) :=
      Argument.read?_chars ha h (by omega) (Argument.endsWord_more accessor as)
    have hmore : Argument.readMore? accessor.toList fuel (Argument.more accessor as ++ [')'])
        = some as :=
      Argument.readMore?_more ha has (by omega)
    have hne : a.chars accessor ++ (Argument.more accessor as ++ [')']) ≠ [')'] := by
      intro he
      have hl := congrArg List.length he
      simp [Argument.chars] at hl
      omega
    simp only [htext, List.append_assoc, readArguments?, if_neg hne, hread, Option.bind_some,
      hmore, Option.map_some]

/-- **A readable sample is read back from its call.** -/
theorem readCall?_callChars (hx : x.Readable) : readCall? x.accessor x.callChars = some x := by
  have hname : ∀ c ∈ x.typeName.toList, isWordChar c = true :=
    fun c hc => isWordChar_of_identifier hx.typeName hc
  have htext : x.callChars = x.typeName.toList ++ (['(']
      ++ (separated (x.arguments.map (Argument.chars x.accessor)) ++ [')'])) := by
    simp [callChars]
  have hend : EndsWord (['(']
      ++ (separated (x.arguments.map (Argument.chars x.accessor)) ++ [')'])) :=
    endsWord_cons (by decide)
  have hlength := congrArg List.length htext
  simp only [List.length_append, List.length_singleton] at hlength
  have hread : readArguments? x.accessor.toList x.callChars.length
      (separated (x.arguments.map (Argument.chars x.accessor)) ++ [')']) = some x.arguments :=
    readArguments?_chars hx.accessor hx.argument (by omega)
  rw [readCall?, htext, hend.takeWhile hname, hend.dropWhile hname, skip?_append,
    Option.bind_some, ← htext, hread, Option.map_some, String.ofList_toList]

/-- **The call tells samples apart**: readable samples with one accessor and one call are the same
sample. -/
theorem eq_of_call_eq (hx : x.Readable) (hy : y.Readable) (ha : x.accessor = y.accessor)
    (h : x.call = y.call) : x = y := by
  have hchars : x.callChars = y.callChars := String.ofList_injective h
  have hread := readCall?_callChars hx
  rw [hchars, ha, readCall?_callChars hy] at hread
  exact (Option.some.inj hread).symm

/-- A string that looks like the end of an argument does not make two samples alike. -/
theorem eq_of_call_eq_of_expanded :
    let o : Options := { overrides := { string := some "a\", b: [" }, accessor := "preview" }
    let x : Expansion := ⟨"Model", "preview", [⟨"title", .string "a\", b: ["⟩,
      ⟨"tags", .set [.integer 123]⟩, ⟨"rates", .dictionary [(.delegate "A.Key", .float
        Sample.sampleFloat)]⟩]⟩
    let y : Expansion := ⟨"Model", o.accessor, [o.argument ⟨"title", "String", false⟩,
      o.argument ⟨"tags", "Set<Int>", false⟩, o.argument ⟨"rates", "[A.Key: Double]", false⟩]⟩
    x.Readable ∧ y.Readable ∧ x.accessor = y.accessor ∧ x.call = y.call ∧ x = y := by
  intro o x y
  have hcall : x.call = y.call := by decide +kernel
  have hx : x.Readable := by
    have hid : IsIdentifier "Model".toList ∧ IsIdentifier "preview".toList
        ∧ IsIdentifier "title".toList ∧ IsIdentifier "tags".toList
        ∧ IsIdentifier "rates".toList ∧ IsIdentifier "A".toList ∧ IsIdentifier "Key".toList := by
      have hpart : ∀ w : List Char, (w.all fun c => c.isAlphanum || c = '_') = true →
          ∀ c ∈ w, c.isAlphanum = true ∨ c = '_' :=
        fun w hw c hc => by simpa using List.all_eq_true.1 hw c hc
      refine ⟨?_, ?_, ?_, ?_, ?_, ?_, ?_⟩ <;>
        exact ⟨⟨_, rfl, by decide⟩, hpart _ (by decide)⟩
    obtain ⟨hModel, hpreview, htitle, htags, hrates, hA, hKey⟩ := hid
    have hdotted : IsDotted "A.Key".toList :=
      ⟨["A".toList, "Key".toList], List.forall_mem_cons.2 ⟨hA, List.forall_mem_singleton.2 hKey⟩,
        rfl⟩
    refine ⟨hModel, hpreview, ?_⟩
    simp only [x, List.forall_mem_cons, List.not_mem_nil, false_implies, implies_true, and_true]
    exact ⟨⟨htitle, trivial⟩, ⟨htags, trivial, trivial⟩, ⟨hrates, hdotted, rfl, trivial⟩⟩
  have hyx : y = x := rfl
  have hy : y.Readable := hyx ▸ hx
  exact ⟨hx, hy, rfl, hcall, eq_of_call_eq hx hy rfl hcall⟩

end Expansion

end Exemplar
