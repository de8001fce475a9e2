import Mathlib.Data.Nat.Notation
import Mathlib.Tactic.Lemma

/-! A memory with patches over it, each of which covers some of the addresses. The last one that is put on shows. -/

namespace Devos.Patches

variable {ι α : Type*} {p q : ι → Option α} {ps : ℕ → ι → Option α} {m : ι → α} {a : ι} {b : α} {n : ℕ}

def patch (p : ι → Option α) (m : ι → α) : ι → α := fun a => (p a).getD (m a)

/-- Patches with numbers of which the lowest is on top. -/
def topOf (ps : ℕ → ι → Option α) : ℕ → ι → Option α
  | 0, _ => none
  | n + 1, a => (topOf ps n a).or (ps n a)

@[simp] lemma patch_none (h : ∀ a, p a = none) : patch p m = m := by
  funext a
  rw [patch, h]
  rfl

lemma patch_patch : patch p (patch q m) = patch (fun a => (p a).or (q a)) m := by
  funext a
  cases hp : p a with
  | none => simp [patch, hp]
  | some c => simp [patch, hp]

lemma patch_topOf_zero : patch (topOf ps 0) m = m := patch_none fun _ => rfl

/-- One more patch below the others. -/
lemma patch_topOf_succ : patch (topOf ps (n + 1)) m = patch (topOf ps n) (patch (ps n) m) := patch_patch.symm

lemma topOf_eq_none : topOf ps n a = none ↔ ∀ k < n, ps k a = none := by
  induction n with
  | zero => simp [topOf]
  | succ n ih =>
    rw [topOf, Option.or_eq_none_iff, ih]
    constructor
    · rintro ⟨hlow, hlast⟩ k hk
      rcases Nat.lt_succ_iff_lt_or_eq.mp hk with hlt | rfl
      · exact hlow k hlt
      · exact hlast
    · exact fun h => ⟨fun k hk => h k (Nat.lt_succ_of_lt hk), h n (Nat.lt_succ_self n)⟩

lemma topOf_eq_some : topOf ps n a = some b ↔ ∃ k < n, ps k a = some b ∧ ∀ j < k, ps j a = none := by
  induction n with
  | zero => simp [topOf]
  | succ n ih =>
    rw [topOf, Option.or_eq_some_iff, ih, topOf_eq_none]
    constructor
    · rintro (⟨k, hk, hb⟩ | ⟨hlow, hlast⟩)
      · exact ⟨k, Nat.lt_succ_of_lt hk, hb⟩
      · exact ⟨n, Nat.lt_succ_self n, hlast, hlow⟩
    · rintro ⟨k, hk, hb⟩
      rcases Nat.lt_succ_iff_lt_or_eq.mp hk with hlt | rfl
      · exact Or.inl ⟨k, hlt, hb⟩
      · exact Or.inr ⟨hb.2, hb.1⟩

/-- What shows at an address: the lowest patch that covers it, or the memory. -/
theorem patch_topOf_iff : patch (topOf ps n) m a = b ↔
    (∃ k < n, ps k a = some b ∧ ∀ j < k, ps j a = none) ∨ (∀ k < n, ps k a = none) ∧ m a = b := by
  rw [← topOf_eq_some, ← topOf_eq_none, patch]
  cases topOf ps n a with
  | none => simp
  | some c => simp

end Devos.Patches
