import Exemplar.Decimal.Binary64

/-!
# Literal/Basic — sample values as literal expressions

A literal is the expression that a generated accessor uses for one argument. A type that sample data
knows nothing about is delegated to: its own accessor is named in place of a value.
-/

namespace Exemplar

/-- A literal expression. -/
inductive Literal where
  | string (text : String)
  | integer (value : Int64)
  | float (value : Binary64)
  | bool (value : Bool)
  | nil
  | array (elements : List Literal)
  | set (elements : List Literal)
  | dictionary (entries : List (Literal × Literal))
  /-- The accessor of another type. -/
  | delegate (typeName : String)
  deriving Repr, Inhabited

/-- The accessor name that is used where none is chosen. -/
def defaultAccessor : String := "sampleData"

namespace Literal

mutual

/-- Equality of literals. It is structural but for floats, which are compared as numbers. -/
def same : Literal → Literal → Bool
  | string a, string b => a == b
  | integer a, integer b => a == b
  | float a, float b => a.sameNumber b
  | bool a, bool b => a == b
  | nil, nil => true
  | array as, array bs => sameAll as bs
  | set as, set bs => sameAll as bs
  | dictionary as, dictionary bs => sameEntries as bs
  | delegate a, delegate b => a == b
  | _, _ => false

/-- Equality element by element. -/
def sameAll : List Literal → List Literal → Bool
  | [], [] => true
  | a :: as, b :: bs => same a b && sameAll as bs
  | _, _ => false

/-- Equality entry by entry, key and value. -/
def sameEntries : List (Literal × Literal) → List (Literal × Literal) → Bool
  | [], [] => true
  | (k, v) :: as, (l, w) :: bs => same k l && same v w && sameEntries as bs
  | _, _ => false

end

/-- **Induction on literals**, with a hypothesis for each element of an array or a set and for each
key and value of a dictionary. -/
@[elab_as_elim, induction_eliminator]
theorem induct {P : Literal → Prop} (string : ∀ text, P (.string text))
    (integer : ∀ value, P (.integer value)) (float : ∀ value, P (.float value))
    (bool : ∀ value, P (.bool value)) (nil : P .nil)
    (array : ∀ elements, (∀ l ∈ elements, P l) → P (.array elements))
    (set : ∀ elements, (∀ l ∈ elements, P l) → P (.set elements))
    (dictionary : ∀ entries, (∀ e ∈ entries, P e.1 ∧ P e.2) → P (.dictionary entries))
    (delegate : ∀ typeName, P (.delegate typeName)) (l : Literal) : P l := by
  refine Literal.rec (motive_1 := P) (motive_2 := fun ls => ∀ l ∈ ls, P l)
    (motive_3 := fun es => ∀ e ∈ es, P e.1 ∧ P e.2) (motive_4 := fun e => P e.1 ∧ P e.2)
    string integer float bool nil array set dictionary delegate ?_ ?_ ?_ ?_ ?_ l
  · intro l hl
    cases hl
  · intro l ls hl hls
    exact List.forall_mem_cons.2 ⟨hl, hls⟩
  · intro e he
    cases he
  · intro e es he hes
    exact List.forall_mem_cons.2 ⟨he, hes⟩
  · intro k v hk hv
    exact ⟨hk, hv⟩

end Literal

end Exemplar
