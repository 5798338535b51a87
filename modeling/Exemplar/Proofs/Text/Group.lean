import Exemplar.Proofs.Text.Enclosed

/-!
# Proofs/Text/Group — an enclosed text is one outer group

    [a(b>]  a group        [A] & [B]  closed early        <A->  ends in an arrow

A group is a pair of brackets around a balanced text (`Pair.Group`), and that is what `enclosed`
finds (`Pair.enclosed_eq_some_iff_group`).  Seen from the whole text, the scan comes back to depth 0
at the last character and at none before it (`Pair.group_iff_firstReturn`).
-/

namespace Exemplar.Text

variable {s t : List Char} {c prev : Char}

/-- The pairs of brackets that stand around the inside of a type. -/
inductive Pair where
  | square
  | angle

namespace Pair

def first : Pair → Char
  | square => '['
  | angle => '<'

def last : Pair → Char
  | square => ']'
  | angle => '>'

/-- `t` is one outer group around `s`: a balanced text between the two brackets, where an angle
bracket at the end is not the end of an arrow. -/
structure Group (b : Pair) (s t : List Char) : Prop where
  eq_wrap : t = b.first :: s ++ [b.last]
  balanced : Balanced s
  not_arrow : b = angle → s.getLast? ≠ some '-'

theorem depth_first : (b : Pair) → depth [b.first] = 1
  | square => depth_square_open
  | angle => depth_angle_open

theorem first_ne_dash (b : Pair) : b.first ≠ '-' := ne_dash_of_opens b.depth_first

theorem depth_first_cons (b : Pair) (s : List Char) : depth (b.first :: s) = 1 + depth s := by
  rw [depth_cons b.first_ne_dash, b.depth_first]

/-- The last bracket of a pair closes unless it is the tip of an arrow. -/
theorem closes_last_iff (b : Pair) (h : prev ≠ '-') :
    tilt (s.getLastD prev) b.last = .closes ↔ (b = angle → s.getLast? ≠ some '-') := by
  cases b with
  | square => simp [last]
  | angle => rw [last, tilt_angle_close_iff h, forall_prop_of_true rfl]

theorem enclosed_eq_some_iff_group (b : Pair) :
    enclosed b.first b.last t = some s ↔ b.Group s t := by
  rw [enclosed_eq_some_iff b.first_ne_dash, b.closes_last_iff b.first_ne_dash]
  exact ⟨fun ⟨ht, hs, ha⟩ => ⟨ht, hs, ha⟩, fun ⟨ht, hs, ha⟩ => ⟨ht, hs, ha⟩⟩

end Pair

/-! ## The scan of the whole text -/

/-- The depth comes back to 0 at the end of `t` and nowhere before. -/
structure FirstReturn (t : List Char) : Prop where
  depth_eq : depth t = 0
  ne_zero : ∀ p, p <+: t → p ≠ [] → p ≠ t → depth p ≠ 0

/-- Between an opening bracket and the first return to depth 0 the scan does not fall below the
depth of the inside: it goes down by one at most, so it would have to pass 0 on its way. -/
theorem FirstReturn.grounded {b : Pair} (h : FirstReturn (b.first :: s ++ [c])) : Grounded s := by
  intro p hp
  induction p using List.reverseRecOn with
  | nil => exact Int.le_refl 0
  | append_singleton p d ih =>
    have hnn : 0 ≤ depth p := ih ((List.prefix_append p [d]).trans hp)
    have hstep : depth p - 1 ≤ depth (p ++ [d]) := by
      rw [depth_concat]
      exact Tilt.le_shift _ _
    have hproper : b.first :: (p ++ [d]) ≠ b.first :: s ++ [c] := fun heq => by
      have hlen := congrArg List.length heq
      have hle := hp.length_le
      simp only [List.length_append, List.length_cons, List.length_nil] at hlen hle
      omega
    have hprefix : b.first :: (p ++ [d]) <+: b.first :: s ++ [c] :=
      List.cons_prefix_cons.2 ⟨rfl, hp.trans (List.prefix_append s [c])⟩
    have hne := h.ne_zero _ hprefix (List.cons_ne_nil _ _) hproper
    rw [b.depth_first_cons] at hne
    omega

namespace Pair

/-- A group comes back to the ground at its end only. -/
theorem Group.firstReturn {b : Pair} (h : b.Group s t) : FirstReturn t := by
  obtain ⟨rfl, hs, ha⟩ := h
  refine ⟨?_, fun p hp hne hproper => ?_⟩
  · rw [depth_wrap b.depth_first ((b.closes_last_iff noChar_ne_dash).2 ha), hs.depth_eq]
  · have hinside : p <+: b.first :: s := (List.prefix_concat_iff.1 hp).resolve_left hproper
    obtain ⟨q, rfl, hq⟩ := (List.prefix_cons_iff.1 hinside).resolve_left hne
    have hnn := hs.grounded q hq
    rw [depth_first_cons]
    omega

/-- **A group is opened by its first character, and closed by its last and by none before.** -/
theorem group_iff_firstReturn (b : Pair) :
    b.Group s t ↔ t = b.first :: s ++ [b.last] ∧ FirstReturn t := by
  refine ⟨fun h => ⟨h.eq_wrap, h.firstReturn⟩, ?_⟩
  rintro ⟨rfl, h⟩
  have hs := h.grounded
  have hnn := hs.depth_nonneg
  have hend := h.depth_eq
  rw [depth_concat, depth_first_cons, List.getLastD_cons] at hend
  -- before the last bracket the depth is 1 or more, and only a closing one leads from there to 0
  cases ht : tilt (s.getLastD b.first) b.last <;> rw [ht, Tilt.shift] at hend
  case opens => omega
  case flat => omega
  case closes => exact ⟨rfl, ⟨hs, by omega⟩, (b.closes_last_iff b.first_ne_dash).1 ht⟩

end Pair

/-- **A text is enclosed exactly when it is one outer group**, and what is no such group encloses
nothing.  Its two brackets belong together: the scan comes back to depth 0 at the last character and
not before. -/
theorem enclosed_outer_group (b : Pair) (t : List Char) :
    (∀ s, enclosed b.first b.last t = some s ↔ b.Group s t) ∧
      (enclosed b.first b.last t = none ↔ ∀ s, ¬ b.Group s t) ∧
      ∀ s, enclosed b.first b.last t = some s
        ↔ t = b.first :: s ++ [b.last] ∧ FirstReturn t := by
  have hgroup : ∀ s, enclosed b.first b.last t = some s ↔ b.Group s t :=
    fun _ => b.enclosed_eq_some_iff_group
  refine ⟨hgroup, ?_, fun s => (hgroup s).trans b.group_iff_firstReturn⟩
  rw [Option.eq_none_iff_forall_ne_some]
  exact forall_congr' fun s => not_congr (hgroup s)

example : enclosed '[' ']' "[é(->>]".toList = some "é(->>".toList ∧
    enclosed '[' ']' "[A] & [B]".toList = none ∧ enclosed '<' '>' "<A->".toList = none := by decide

end Exemplar.Text
