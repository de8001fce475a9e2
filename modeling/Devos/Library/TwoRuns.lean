import Mathlib.Data.List.Chain
import Mathlib.Data.Nat.Notation
import Mathlib.Tactic.Lemma
import Mathlib.Tactic.SplitIfs

/-! Lists that ascend in an order, but for one place at most where they start again, and the insertion that keeps
them so. -/

namespace Devos.TwoRuns

variable {α : Type*} (r : α → α → Prop)

/-- `x` has a place between two neighbours `b` and `c` of `a :: l`: it is between them in the order, or before `c`
where the list starts again. -/
def Found (x : α) : α → List α → Prop
  | _, [] => False
  | a, b :: l => (r a x ∨ ¬r a b) ∧ r x b ∨ Found x b l

section Places

variable {r} {a b x : α} {l l₁ l₂ : List α}

lemma found_cons : Found r x a (b :: l) ↔ (r a x ∨ ¬r a b) ∧ r x b ∨ Found r x b l := Iff.rfl

lemma found_iff :
    Found r x a l ↔ ∃ l₁ b c l₂, a :: l = l₁ ++ b :: c :: l₂ ∧ (r b x ∨ ¬r b c) ∧ r x c := by
  induction l generalizing a with
  | nil =>
    refine ⟨False.elim, ?_⟩
    rintro ⟨l₁, b, c, l₂, heq, _⟩
    have hlen := congrArg List.length heq
    simp only [List.length_cons, List.length_nil, List.length_append] at hlen
    omega
  | cons b l ih =>
    rw [found_cons, ih]
    constructor
    · rintro (hplace | ⟨l₁, c, d, l₂, heq, hplace⟩)
      · exact ⟨[], a, b, l, rfl, hplace⟩
      · exact ⟨a :: l₁, c, d, l₂, congrArg (a :: ·) heq, hplace⟩
    · rintro ⟨l₁, c, d, l₂, heq, hplace⟩
      cases l₁ with
      | nil =>
        rw [List.nil_append] at heq
        obtain ⟨rfl, hrest⟩ := List.cons.inj heq
        obtain ⟨rfl, rfl⟩ := List.cons.inj hrest
        exact Or.inl hplace
      | cons e l₁ => exact Or.inr ⟨l₁, c, d, l₂, (List.cons.inj heq).2, hplace⟩

section Total

variable (htrans : ∀ a b c, r a b → r b c → r a c) (hirrefl : ∀ a, ¬r a a)
include htrans hirrefl

end Total

end Places

variable [DecidableRel r]

/-- What is behind `a` when `x` has gone to its first place behind it, or to the end. -/
def place (x : α) : α → List α → List α
  | _, [] => [x]
  | a, b :: l => if (r a x ∨ ¬r a b) ∧ r x b then x :: b :: l else b :: place x b l

section Breaks

variable {r} {a b x : α} {l l₁ l₂ : List α}

section Map

variable {β : Type*} {s : β → β → Prop} [DecidableRel s] {f : β → α}

end Map

end Breaks

end Devos.TwoRuns
