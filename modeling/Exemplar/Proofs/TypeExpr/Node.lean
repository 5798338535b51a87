import Exemplar.Sample.Synthesis
import Mathlib.Data.List.Basic

/-!
# Proofs/TypeExpr/Node — the nodes of a type and where they lie

    [String: Set<Int>?]  ▸  [String: Set<Int>?],  String,  Set<Int>?,  Set<Int>,  Int

A node is a part of a type together with the types around it.  Sampling stops at the containers that
lie in as many other containers as may be nested; which nodes these are is said by `IsCapped`
without following the sampling, and they are the ones that it reports (`cappedWithin_eq`).
-/

namespace Exemplar.TypeExpr

/-- An array, a set, or a dictionary with a key and a value. -/
def isContainer : TypeExpr → Bool
  | array _ | set _ | dictionary _ _ => true
  | named _ | optional _ | unsplit _ => false

/-- A part of a type, with the parts that it lies in, from the outermost on. -/
structure Node where
  above : List TypeExpr
  type : TypeExpr

/-- The nodes of a type that lies in `above`, from left to right, each before those inside it. -/
def nodesIn (above : List TypeExpr) : TypeExpr → List Node
  | named s => [⟨above, named s⟩]
  | unsplit s => [⟨above, unsplit s⟩]
  | optional t => ⟨above, optional t⟩ :: nodesIn (above ++ [optional t]) t
  | array t => ⟨above, array t⟩ :: nodesIn (above ++ [array t]) t
  | set t => ⟨above, set t⟩ :: nodesIn (above ++ [set t]) t
  | dictionary k v => ⟨above, dictionary k v⟩ ::
      (nodesIn (above ++ [dictionary k v]) k ++ nodesIn (above ++ [dictionary k v]) v)

/-- How many containers a node lies in. -/
def Node.depth (x : Node) : ℕ := x.above.countP isContainer

/-- A container in exactly `m` others, and in no optional. -/
def Node.IsCapped (m : ℕ) (x : Node) : Prop :=
  x.type.isContainer = true ∧ x.depth = m ∧ ∀ u ∈ x.above, u.isOptional = false

instance (m : ℕ) (x : Node) : Decidable (x.IsCapped m) :=
  inferInstanceAs (Decidable (_ ∧ _ ∧ ∀ u ∈ x.above, u.isOptional = false))

variable {above : List TypeExpr} {t u : TypeExpr} {x : Node} {inside : List Node} {m : ℕ}

/-- A node lies in all that the whole type lies in. -/
theorem prefix_of_mem_nodesIn (h : x ∈ nodesIn above t) : above <+: x.above := by
  induction t generalizing above with
  | named | unsplit =>
    obtain rfl := List.mem_singleton.1 h
    exact List.prefix_rfl
  | optional t ih | array t ih | set t ih =>
    obtain rfl | h := List.mem_cons.1 h
    · exact List.prefix_rfl
    · exact (List.prefix_append _ _).trans (ih h)
  | dictionary k v ihk ihv =>
    obtain rfl | h := List.mem_cons.1 h
    · exact List.prefix_rfl
    · obtain h | h := List.mem_append.1 h
      · exact (List.prefix_append _ _).trans (ihk h)
      · exact (List.prefix_append _ _).trans (ihv h)

/-- No node that lies in an optional is capped. -/
theorem filter_isCapped_of_optional (hu : u ∈ above) (h : u.isOptional = true) :
    (nodesIn above t).filter (Node.IsCapped m) = [] := by
  refine List.filter_eq_nil_iff.2 fun x hx hcapped => ?_
  have hcapped : x.IsCapped m := of_decide_eq_true hcapped
  have hno := hcapped.2.2 u ((prefix_of_mem_nodesIn hx).subset hu)
  exact Bool.false_ne_true (hno.symm.trans h)

/-- A capped container is the only capped node in itself. -/
theorem filter_isCapped_self (h : (⟨above, t⟩ : Node).IsCapped m)
    (hinside : ∀ x ∈ inside, above ++ [t] <+: x.above) :
    ((⟨above, t⟩ : Node) :: inside).filter (Node.IsCapped m) = [⟨above, t⟩] := by
  have hnone : inside.filter (Node.IsCapped m) = [] := by
    refine List.filter_eq_nil_iff.2 fun x hx hcapped => ?_
    have hcapped : x.IsCapped m := of_decide_eq_true hcapped
    have hle : (above ++ [t]).countP isContainer ≤ x.depth :=
      (hinside x hx).sublist.countP_le
    have hdepth : above.countP isContainer = m := h.2.1
    rw [List.countP_append, List.countP_singleton, if_pos h.1, hdepth, hcapped.2.1] at hle
    exact Nat.not_succ_le_self m hle
  rw [List.filter_cons, if_pos (decide_eq_true h), hnone]

/-- Where a node is not capped, the capped nodes are those inside. -/
theorem filter_isCapped_of_not (h : ¬ (⟨above, t⟩ : Node).IsCapped m) :
    ((⟨above, t⟩ : Node) :: inside).filter (Node.IsCapped m) = inside.filter (Node.IsCapped m) :=
  List.filter_cons_of_neg (by simpa using h)

/-- A container below as many others as may be nested is capped. -/
theorem isCapped_of_isContainer (h : t.isContainer = true)
    (habove : ∀ u ∈ above, u.isOptional = false) :
    (⟨above, t⟩ : Node).IsCapped (above.countP isContainer) := ⟨h, rfl, habove⟩

/-- A node in fewer containers than the cap is not capped. -/
theorem not_isCapped_of_lt (h : above.countP isContainer < m) :
    ¬ (⟨above, t⟩ : Node).IsCapped m :=
  fun hcapped => absurd hcapped.2.1 (Nat.ne_of_lt h)

theorem not_isCapped_of_isContainer_eq_false (h : t.isContainer = false) :
    ¬ (⟨above, t⟩ : Node).IsCapped m :=
  fun hcapped => Bool.false_ne_true (h.symm.trans hcapped.1)

theorem countP_concat (h : t.isContainer = true) :
    (above ++ [t]).countP isContainer = above.countP isContainer + 1 := by
  rw [List.countP_append, List.countP_singleton, if_pos h]

theorem not_isOptional_concat (habove : ∀ u ∈ above, u.isOptional = false)
    (h : t.isOptional = false) : ∀ u ∈ above ++ [t], u.isOptional = false := by
  intro u hu
  obtain hu | hu := List.mem_append.1 hu
  · exact habove u hu
  · exact List.mem_singleton.1 hu ▸ h

end Exemplar.TypeExpr

namespace Exemplar.Sample

open TypeExpr

variable {above : List TypeExpr} {t : TypeExpr} {m room : ℕ}

/-- **Sampling reports the capped nodes**, from left to right, each at the depth of the cap. -/
theorem cappedWithin_eq (habove : ∀ u ∈ above, u.isOptional = false)
    (hm : above.countP isContainer + room = m) :
    cappedWithin room (above.countP isContainer) t =
      ((nodesIn above t).filter (Node.IsCapped m)).map fun x => .capped x.type m := by
  induction t generalizing above room with
  | named | unsplit =>
    rw [nodesIn, filter_isCapped_of_not (not_isCapped_of_isContainer_eq_false rfl)]
    simp [cappedWithin]
  | optional t =>
    have hinside : optional t ∈ above ++ [optional t] := List.mem_append_right _ List.mem_cons_self
    rw [nodesIn, filter_isCapped_of_not (not_isCapped_of_isContainer_eq_false rfl),
      filter_isCapped_of_optional hinside rfl]
    simp [cappedWithin]
  | array t ih | set t ih =>
    cases room with
    | zero =>
      obtain rfl : above.countP isContainer = m := hm
      rw [nodesIn, filter_isCapped_self (isCapped_of_isContainer rfl habove)
        fun x => prefix_of_mem_nodesIn]
      rfl
    | succ room =>
      -- one container further in there is room for one less, up to the same cap
      rw [nodesIn, filter_isCapped_of_not (not_isCapped_of_lt (by omega)), cappedWithin]
      refine (congrArg (cappedWithin room · t) (countP_concat rfl).symm).trans
        (ih (not_isOptional_concat habove rfl) ?_)
      rw [countP_concat rfl]
      omega
  | dictionary k v ihk ihv =>
    cases room with
    | zero =>
      obtain rfl : above.countP isContainer = m := hm
      rw [nodesIn, filter_isCapped_self (isCapped_of_isContainer rfl habove) fun x hx =>
        (List.mem_append.1 hx).elim prefix_of_mem_nodesIn prefix_of_mem_nodesIn]
      rfl
    | succ room =>
      have hclear := not_isOptional_concat (t := dictionary k v) habove rfl
      have hdepth : (above ++ [dictionary k v]).countP isContainer
          = above.countP isContainer + 1 := countP_concat rfl
      have hcap : (above ++ [dictionary k v]).countP isContainer + room = m := by omega
      rw [nodesIn, filter_isCapped_of_not (not_isCapped_of_lt (by omega)), List.filter_append,
        List.map_append, ← ihk hclear hcap, ← ihv hclear hcap, hdepth, cappedWithin]

/-- A type that lies in nothing has all the room that the cap leaves. -/
theorem cappedWithin_zero (m : ℕ) (t : TypeExpr) :
    cappedWithin m 0 t
      = ((nodesIn [] t).filter (Node.IsCapped m)).map fun x => .capped x.type m := by
  have hnone : ∀ u ∈ ([] : List TypeExpr), u.isOptional = false := List.forall_mem_nil _
  exact cappedWithin_eq hnone (Nat.zero_add m)

end Exemplar.Sample
