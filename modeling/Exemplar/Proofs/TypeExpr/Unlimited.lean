import Exemplar.Proofs.TypeExpr.Height

/-!
# Proofs/TypeExpr/Unlimited — what the limit of levels does to a reading

    read "T???"                   optional (optional (optional T))
    (read "T???").capped 2        optional (optional "T?")

Without a limit a text is read to its end, since what stands inside a form is shorter than the form
(`length_lt_of_mem_inside`).  Every node of that reading keeps the text that it was read from, and a
limit puts this text as a name in place of each node at one depth (`parseWithin_eq_capped`).
-/

namespace Exemplar.TypeExpr

open Exemplar.Text

variable {s t p : List Char} {n : ℕ}

/-! ## Reading without a limit -/

/-- What stands inside a form. -/
def Layer.inside {α : Type} : Layer α → List α
  | name | unsplit => []
  | optional a | array a | set a => [a]
  | dictionary k v => [k, v]

theorem length_trim_le (s : List Char) : (trim s).length ≤ s.length := by
  obtain ⟨l, r, -, -, h⟩ := exists_eq_append_trim s
  have hlength := congrArg List.length h
  simp only [List.length_append] at hlength
  omega

/-- **What stands inside a form is shorter**, so reading it ends. -/
theorem Form.length_lt {l : Layer (List Char)} (h : Form t l) :
    ∀ p ∈ l.inside, p.length < t.length := by
  cases h <;> simp [Layer.inside, bracketed, generic] <;> omega

/-- **What stands inside the form of a text is shorter than the text.** -/
theorem length_lt_of_mem_inside (h : p ∈ (Layer.of (trim s)).inside) : p.length < s.length := by
  refine Nat.lt_of_lt_of_le ?_ (length_trim_le s)
  rcases form_of (trim s) with hl | hl | hl
  · rw [hl] at h
    exact absurd h List.not_mem_nil
  · rw [hl] at h
    exact absurd h List.not_mem_nil
  · exact hl.length_lt p h

/-- A type with the trimmed text of every node. -/
inductive Reading where
  | name (text : List Char)
  | optional (text : List Char) (wrapped : Reading)
  | array (text : List Char) (element : Reading)
  | set (text : List Char) (element : Reading)
  | dictionary (text : List Char) (key value : Reading)
  | unsplit (text : List Char)

/-- The type spelled by `s`, peeling all layers. -/
def read (s : List Char) : Reading :=
  match _h : Layer.of (trim s) with
  | .name => .name (trim s)
  | .optional wrapped => .optional (trim s) (read wrapped)
  | .array element => .array (trim s) (read element)
  | .set element => .set (trim s) (read element)
  | .dictionary key value => .dictionary (trim s) (read key) (read value)
  | .unsplit => .unsplit (trim s)
termination_by s.length
decreasing_by all_goals exact length_lt_of_mem_inside (by simp [*, Layer.inside])

namespace Reading

/-- The text that a reading was read from. -/
def text : Reading → List Char
  | name t | optional t _ | array t _ | set t _ | dictionary t _ _ | unsplit t => t

/-- The type that was read. -/
def type : Reading → TypeExpr
  | name t => .named (String.ofList t)
  | optional _ u => .optional u.type
  | array _ u => .array u.type
  | set _ u => .set u.type
  | dictionary _ k v => .dictionary k.type v.type
  | unsplit t => .unsplit (String.ofList t)

/-- The nodes at depth `n`, which is how many optionals, arrays, sets and dictionaries they lie
in. -/
def nodesAt : ℕ → Reading → List Reading
  | 0, u => [u]
  | _ + 1, name _ | _ + 1, unsplit _ => []
  | n + 1, optional _ u | n + 1, array _ u | n + 1, set _ u => nodesAt n u
  | n + 1, dictionary _ k v => nodesAt n k ++ nodesAt n v

/-- The type that was read, but for each node at depth `n`, in whose place its text stands as a
name. -/
def capped : ℕ → Reading → TypeExpr
  | 0, u => .named (String.ofList u.text)
  | _ + 1, name t => .named (String.ofList t)
  | n + 1, optional _ u => .optional (u.capped n)
  | n + 1, array _ u => .array (u.capped n)
  | n + 1, set _ u => .set (u.capped n)
  | n + 1, dictionary _ k v => .dictionary (k.capped n) (v.capped n)
  | _ + 1, unsplit t => .unsplit (String.ofList t)

/-- A reading as a name. -/
def IsName (u : Reading) : Prop := ∃ t, u = name t

end Reading

/-- The reading with this outermost form, of the text `t`, over the readings inside. -/
def Layer.toReading (t : List Char) : Layer Reading → Reading
  | name => .name t
  | optional wrapped => .optional t wrapped
  | array element => .array t element
  | set element => .set t element
  | dictionary key value => .dictionary t key value
  | unsplit => .unsplit t

/-- **Reading peels one layer** and goes on with what stands inside. -/
theorem read_eq (s : List Char) :
    read s = ((Layer.of (trim s)).map read).toReading (trim s) := by
  rw [read]
  split <;> simp [*, Layer.map, Layer.toReading]

/-- What is read has the text that it is read from. -/
@[simp] theorem text_read (s : List Char) : (read s).text = trim s := by
  rw [read]
  split <;> rfl

/-! ## Reading within a limit -/

/-- **A limit puts names in place of the nodes at its depth.** -/
theorem parseWithin_eq_capped (n : ℕ) (s : List Char) : parseWithin n s = (read s).capped n := by
  induction n generalizing s with
  | zero => rw [parseWithin, Reading.capped, text_read]
  | succ n ih =>
    rw [parseWithin_succ, read_eq, funext ih]
    cases Layer.of (trim s) with
    | _ => rfl

/-- **A limit is not seen where there are only names at its depth**, and there alone. -/
theorem Reading.capped_eq_type_iff {u : Reading} :
    u.capped n = u.type ↔ ∀ x ∈ u.nodesAt n, x.IsName := by
  induction n generalizing u with
  | zero => cases u <;> simp [capped, type, text, nodesAt, IsName]
  | succ n ih =>
    cases u with
    | name | unsplit => simp [capped, type, nodesAt]
    | optional t u | array t u | set t u => simp [capped, type, nodesAt, ih]
    | dictionary t k v => simp [capped, type, nodesAt, ih, or_imp, forall_and]

/-- **The limit of levels puts names in place of the nodes at depth 64.**  Reading without a limit
peels the same layers, each time off a shorter text; the nodes at that depth give way to the texts
that they were read from, so that no type nests deeper, and this is seen wherever one of them is not
a name. -/
theorem parse_eq_capped (s : String) :
    (∀ p, read p = ((Layer.of (trim p)).map read).toReading (trim p) ∧
      ∀ q ∈ (Layer.of (trim p)).inside, q.length < p.length) ∧
    parse s = (read s.toList).capped 64 ∧ (parse s).height ≤ 64 ∧
    (parse s = (read s.toList).type ↔ ∀ x ∈ (read s.toList).nodesAt 64, x.IsName) := by
  refine ⟨fun p => ⟨read_eq p, fun q => length_lt_of_mem_inside⟩,
    parseWithin_eq_capped 64 s.toList, height_parseWithin_le 64 s.toList, ?_⟩
  rw [parse, parseWithin_eq_capped]
  exact Reading.capped_eq_type_iff

end Exemplar.TypeExpr
