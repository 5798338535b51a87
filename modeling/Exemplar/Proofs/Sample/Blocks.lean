import Exemplar.Sample.Source
import Mathlib.Data.List.Infix

/-!
# Proofs/Sample/Blocks — source text is its blocks, one line feed apart

    emit x · extension · emit y   ▸   x plain,  '\n',  y in an extension

What a run of steps has written is seen from the steps alone: a block for each sample, in the mode
that was chosen last before it.  A block is never empty, so looking whether there is text tells
whether there are blocks, and the texts of two runs meet in one line feed (`text_run`).
-/

namespace Exemplar

/-! ## Blocks -/

theorem Expansion.getLast?_line (s : List Char) : (line s).getLast? = some '\n' :=
  List.getLast?_concat

/-- **A block ends its last line**, whatever the sample and the mode. -/
theorem Expansion.getLast?_block (m : Bool) (x : Expansion) : (x.block m).getLast? = some '\n' := by
  cases m with
  | false => simp [block, accessorChars, List.getLast?_append, getLast?_line]
  | true => simp [block, List.getLast?_append, getLast?_line]

/-- A block is never empty. -/
theorem Expansion.block_ne_nil {m : Bool} (x : Expansion) : x.block m ≠ [] := by
  intro h
  have hlast := x.getLast?_block m
  rw [h] at hlast
  cases hlast

namespace Source

/-- The sample that a step writes. -/
def Step.written? : Step → Option Expansion
  | .emit x => some x
  | .setExtension _ => none

/-- The mode that a step chooses. -/
def Step.chosen? : Step → Option Bool
  | .emit _ => none
  | .setExtension m => some m

/-- The mode chosen last, or `m` where none is. -/
def lastChosen (m : Bool) (steps : List Step) : Bool :=
  (steps.filterMap Step.chosen?).getLast?.getD m

/-- The blocks of the samples written by `steps`, each in the mode chosen last in the steps before
it, or in `m` if there is no choice among them. -/
def blocks (m : Bool) (steps : List Step) : List (List Char) :=
  (steps.inits.zip steps).filterMap fun p =>
    p.2.written?.map fun x => x.block (lastChosen m p.1)

/-- The source after `steps`. -/
def run (s : Source) (steps : List Step) : Source :=
  steps.foldl step s

variable {s : Source} {m b : Bool} {x : Expansion} {steps : List Step} {l r t : List Char}

theorem lastChosen_emit : lastChosen m (.emit x :: steps) = lastChosen m steps := rfl

theorem lastChosen_setExtension :
    lastChosen m (.setExtension b :: steps) = lastChosen b steps := by
  have hchosen : (Step.setExtension b :: steps).filterMap Step.chosen?
      = b :: steps.filterMap Step.chosen? := List.filterMap_cons_some rfl
  rw [lastChosen, hchosen, List.getLast?_cons]
  rfl

/-- Past its first step a run goes on, with that step in front of what stands before the others. -/
theorem blocks_cons (first : Step) : blocks m (first :: steps) =
    (first.written?.map fun x => x.block m).toList ++
      (steps.inits.zip steps).filterMap fun p =>
        p.2.written?.map fun x => x.block (lastChosen m (first :: p.1)) := by
  rw [blocks, List.inits_cons, List.zip_cons_cons, List.zip_map_left, List.filterMap_cons,
    List.filterMap_map]
  cases first <;> rfl

/-- A sample is written in the mode last chosen. -/
theorem blocks_emit : blocks m (.emit x :: steps) = x.block m :: blocks m steps := by
  rw [blocks_cons]
  rfl

/-- Choosing a mode writes nothing. -/
theorem blocks_setExtension : blocks m (.setExtension b :: steps) = blocks b steps := by
  rw [blocks_cons]
  simp only [lastChosen_setExtension]
  rfl

/-- Every block is that of a sample that is written, in one of the two modes. -/
theorem exists_of_mem_blocks (h : t ∈ blocks m steps) :
    ∃ x b, .emit x ∈ steps ∧ t = x.block b := by
  obtain ⟨p, hp, ht⟩ := List.mem_filterMap.1 h
  obtain ⟨x, hx, rfl⟩ := Option.map_eq_some_iff.1 ht
  cases hstep : p.2 with
  | setExtension => rw [hstep] at hx; cases hx
  | emit y =>
    rw [hstep] at hx
    obtain rfl := Option.some.inj hx
    exact ⟨y, _, hstep ▸ (List.of_mem_zip hp).2, rfl⟩

/-- Every block ends with a line feed. -/
theorem getLast?_of_mem_blocks (h : t ∈ blocks m steps) : t.getLast? = some '\n' := by
  obtain ⟨x, b, -, rfl⟩ := exists_of_mem_blocks h
  exact x.getLast?_block b

theorem ne_nil_of_mem_blocks (h : t ∈ blocks m steps) : t ≠ [] := by
  obtain ⟨x, b, -, rfl⟩ := exists_of_mem_blocks h
  exact x.block_ne_nil

/-! ## Texts one after the other -/

/-- Two texts with a line feed between them, if there is something on either side of it. -/
def joined (l r : List Char) : List Char :=
  if l = [] ∨ r = [] then l ++ r else l ++ '\n' :: r

theorem joined_nil_left : joined [] r = r := by simp [joined]

theorem joined_nil_right : joined l [] = l := by simp [joined]

/-- **Joining is associative**, although an empty text joins without a line feed. -/
theorem joined_assoc : joined (joined l r) t = joined l (joined r t) := by
  rcases eq_or_ne l [] with rfl | hl
  · rw [joined_nil_left, joined_nil_left]
  rcases eq_or_ne r [] with rfl | hr
  · rw [joined_nil_left, joined_nil_right]
  rcases eq_or_ne t [] with rfl | ht
  · rw [joined_nil_right, joined_nil_right]
  simp [joined, hl, hr, ht]

/-- **Blocks are joined one by one**, since none of them is empty. -/
theorem intercalate_cons (ht : t ≠ []) {ts : List (List Char)} (hts : ∀ u ∈ ts, u ≠ []) :
    ['\n'].intercalate (t :: ts) = joined t (['\n'].intercalate ts) := by
  cases ts with
  | nil =>
    have hnil : ['\n'].intercalate ([] : List (List Char)) = [] := rfl
    rw [hnil, joined_nil_right, List.intercalate_singleton]
  | cons u us =>
    have hu : u ≠ [] := hts u List.mem_cons_self
    have hrest : ['\n'].intercalate (u :: us) ≠ [] := by
      cases us <;> simp [hu]
    rw [List.intercalate_cons_cons, joined, if_neg (not_or_intro ht hrest)]
    simp

/-! ## Runs -/

/-- A run goes on where another has ended. -/
theorem run_append (xs ys : List Step) : s.run (xs ++ ys) = (s.run xs).run ys :=
  List.foldl_append

/-- What is emitted joins the text that there is. -/
theorem chars_emit : (s.emit x).chars = joined s.chars (x.block s.inExtension) := by
  by_cases hs : s.chars = []
  · simp [emit, joined, hs]
  · simp [emit, joined, hs, x.block_ne_nil]

/-- A run ends in the mode that it has chosen last. -/
theorem inExtension_run : (s.run steps).inExtension = lastChosen s.inExtension steps := by
  induction steps generalizing s with
  | nil => rfl
  | cons first steps ih =>
    cases first with
    | emit x => exact ih.trans lastChosen_emit.symm
    | setExtension b => exact ih.trans lastChosen_setExtension.symm

/-- **What a run has written** is what stood there before and then its blocks. -/
theorem chars_run :
    (s.run steps).chars = joined s.chars (['\n'].intercalate (blocks s.inExtension steps)) := by
  induction steps generalizing s with
  | nil => exact joined_nil_right.symm
  | cons first steps ih =>
    cases first with
    | emit x =>
      have hblocks : ∀ t ∈ blocks s.inExtension steps, t ≠ [] := fun _ => ne_nil_of_mem_blocks
      rw [blocks_emit, intercalate_cons x.block_ne_nil hblocks, ← joined_assoc, ← chars_emit]
      exact ih
    | setExtension b =>
      rw [blocks_setExtension]
      exact ih

/-- **The texts of two runs meet as blocks do**, the second run on a fresh source in the mode that
the first ends in. -/
theorem chars_run_append (xs ys : List Step) : (s.run (xs ++ ys)).chars =
    joined (s.run xs).chars (run { inExtension := lastChosen s.inExtension xs } ys).chars := by
  rw [run_append, chars_run, inExtension_run]
  conv_rhs => rw [chars_run (s := { inExtension := lastChosen s.inExtension xs }), joined_nil_left]

/-- Joining keeps what is there. -/
theorem exists_joined_eq (l r : List Char) : ∃ more, joined l r = l ++ more := by
  rw [joined]
  split
  · exact ⟨r, rfl⟩
  · exact ⟨'\n' :: r, rfl⟩

/-- A line feed stands between two texts unless one of them is empty. -/
theorem ofList_joined : String.ofList (joined l r) =
    if String.ofList l = "" ∨ String.ofList r = "" then String.ofList l ++ String.ofList r
    else String.ofList l ++ "\n" ++ String.ofList r := by
  simp only [joined, String.ofList_eq_empty_iff]
  split
  · exact String.ofList_append
  · have hfeed : l ++ '\n' :: r = l ++ ['\n'] ++ r := by simp
    rw [hfeed, String.ofList_append, String.ofList_append]

/-- **The text of a run is its blocks with a line feed between any two.** -/
theorem text_run_eq_intercalate (steps : List Step) :
    (run {} steps).text = "\n".intercalate ((blocks false steps).map String.ofList) := by
  rw [text, chars_run, joined_nil_left]
  refine String.toList_injective ?_
  simp [Function.comp_def]

/-- **Source text is its blocks in order, one line feed apart**, each in the mode chosen last before
it and each ending its last line.  So more steps only add to a text, choosing a mode leaves it as it
is, and what two runs write, the second in the mode that the first ends in, meets in one line feed
where both write something. -/
theorem text_run (xs ys : List Step) :
    (run {} xs).text = "\n".intercalate ((blocks false xs).map String.ofList) ∧
      (∀ b ∈ blocks false xs, b.getLast? = some '\n') ∧
      (∃ more, (run {} (xs ++ ys)).text = (run {} xs).text ++ more) ∧
      (∀ m, (run {} (xs ++ [.setExtension m])).text = (run {} xs).text) ∧
      let a := (run {} xs).text
      let b := (run { inExtension := lastChosen false xs } ys).text
      (run {} (xs ++ ys)).text = if a = "" ∨ b = "" then a ++ b else a ++ "\n" ++ b := by
  refine ⟨text_run_eq_intercalate xs, fun _ => getLast?_of_mem_blocks, ?_, fun m => ?_, ?_⟩
  · obtain ⟨more, hmore⟩ := exists_joined_eq (run {} xs).chars
      (run { inExtension := lastChosen false xs } ys).chars
    refine ⟨String.ofList more, ?_⟩
    rw [text, chars_run_append, hmore, String.ofList_append, text]
  · rw [run_append]
    rfl
  · exact (congrArg String.ofList (chars_run_append xs ys)).trans ofList_joined

end Source

end Exemplar
