import Mathlib.Data.List.Forall2

/-!
# Proofs/Traversal — one step for each element, up to the first that fails

    a₁ ⟼ b₁,  a₂ ⟼ b₂,  a₃ ⟼ e,  …

Items are decoded, documents loaded and fixtures checked one after the other.  What such a traversal
comes to is settled by its steps alone: all of them succeed, or there is a first that does not
(`exists_forall₂_or_stopsAt`).
-/

namespace Exemplar

variable {α β γ ε : Type} {f : α → Except ε β} {as before : List α} {bs : List β} {a : α} {e : ε}

/-- Taken in order, the steps of `as` give `bs` for those in `before` and then fail at `a`. -/
structure StopsAt (f : α → Except ε β) (as before : List α) (bs : List β) (a : α) (e : ε) :
    Prop where
  split : ∃ after, as = before ++ a :: after
  ok : List.Forall₂ (fun a b => f a = .ok b) before bs
  error : f a = .error e

namespace StopsAt

theorem here (h : f a = .error e) : StopsAt f (a :: as) [] [] a e := ⟨⟨as, rfl⟩, .nil, h⟩

/-- A step that succeeds before the one that fails is kept. -/
theorem cons {c : α} {b : β} (hc : f c = .ok b) (h : StopsAt f as before bs a e) :
    StopsAt f (c :: as) (c :: before) (b :: bs) a e := by
  obtain ⟨after, rfl⟩ := h.split
  exact ⟨⟨after, rfl⟩, .cons hc h.ok, h.error⟩

end StopsAt

/-- **All steps succeed, or one is the first to fail.** -/
theorem exists_forall₂_or_stopsAt (f : α → Except ε β) (as : List α) :
    (∃ bs, List.Forall₂ (fun a b => f a = .ok b) as bs) ∨
      ∃ before bs a e, StopsAt f as before bs a e := by
  induction as with
  | nil => exact .inl ⟨[], .nil⟩
  | cons c as ih =>
    cases hc : f c with
    | error e => exact .inr ⟨[], [], c, e, .here hc⟩
    | ok b =>
      obtain ⟨bs, hbs⟩ | ⟨before, bs, a, e, h⟩ := ih
      · exact .inl ⟨b :: bs, .cons hc hbs⟩
      · exact .inr ⟨c :: before, b :: bs, a, e, h.cons hc⟩

/-- Every result comes from one of the items. -/
theorem exists_of_forall₂ {α β : Type*} {P : α → β → Prop} {as : List α} {bs : List β}
    (h : List.Forall₂ P as bs) {b : β} (hb : b ∈ bs) : ∃ a ∈ as, P a b := by
  induction h with
  | nil => cases hb
  | @cons a _ _ _ hab _ ih =>
    obtain rfl | hb := List.mem_cons.1 hb
    · exact ⟨a, List.mem_cons_self, hab⟩
    · obtain ⟨c, hc, hcb⟩ := ih hb
      exact ⟨c, List.mem_cons_of_mem _ hc, hcb⟩

/-! ## Steps with several results -/

/-- The results of all steps in a row, or what is made of the first failure. -/
def collect (f : α → Except ε (List β)) (complain : α → ε → γ) : List α → Except γ (List β)
  | [] => .ok []
  | a :: as =>
    match f a with
    | .error e => .error (complain a e)
    | .ok bs =>
      match collect f complain as with
      | .error c => .error c
      | .ok others => .ok (bs ++ others)

variable {f : α → Except ε (List β)} {bss : List (List β)} (complain : α → ε → γ)

/-- If every step succeeds, their results are collected in order. -/
theorem collect_of_forall₂ (h : List.Forall₂ (fun a bs => f a = .ok bs) as bss) :
    collect f complain as = .ok bss.flatten := by
  induction h with
  | nil => rfl
  | cons hstep _ ih => rw [collect, hstep, ih, List.flatten_cons]

end Exemplar
