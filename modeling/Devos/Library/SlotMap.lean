import Mathlib.Logic.Function.Basic
import Mathlib.Data.Nat.Notation
import Mathlib.Tactic.Lemma

/-! Numbered slots that hold keys with values, no key twice, as a map. -/

namespace Devos.SlotMap

variable {κ α : Type*} {s : ℕ → Option (κ × α)} {m : κ → Option α} {i : ℕ} {k k' : κ} {a : α}

/-- The slots hold what the map has, each key in one slot. -/
structure Shows (s : ℕ → Option (κ × α)) (m : κ → Option α) : Prop where
  once : ∀ {i j k a b}, s i = some (k, a) → s j = some (k, b) → i = j
  mem : ∀ k a, m k = some a ↔ ∃ i, s i = some (k, a)

lemma Shows.eq_some (h : Shows s m) (hi : s i = some (k, a)) : m k = some a := (h.mem k a).mpr ⟨i, hi⟩

lemma Shows.eq_none (h : Shows s m) : m k = none ↔ ∀ i a, s i ≠ some (k, a) := by
  rw [Option.eq_none_iff_forall_not_mem]
  constructor
  · exact fun hn i a hi => hn a (h.eq_some hi)
  · intro hn a ha
    obtain ⟨i, hi⟩ := (h.mem k a).mp ha
    exact hn i a hi

/-- A free slot takes a key that the map does not have. -/
lemma Shows.insert [DecidableEq κ] (h : Shows s m) (hi : s i = none) (hk : m k = none) (a : α) :
    Shows (Function.update s i (some (k, a))) (Function.update m k (some a)) := by
  have hno := h.eq_none.mp hk
  have hslot : ∀ {j k' b}, Function.update s i (some (k, a)) j = some (k', b) ↔
      j = i ∧ k' = k ∧ b = a ∨ j ≠ i ∧ k' ≠ k ∧ s j = some (k', b) := by
    intro j k' b
    by_cases hj : j = i
    · rw [hj, Function.update_self, Option.some.injEq, Prod.mk.injEq]
      simp [eq_comm]
    · rw [Function.update_of_ne hj]
      refine ⟨fun hs => Or.inr ⟨hj, ?_, hs⟩, ?_⟩
      · rintro rfl
        exact hno j b hs
      · rintro (⟨hj', _⟩ | ⟨_, _, hs⟩)
        · exact absurd hj' hj
        · exact hs
  refine ⟨?_, ?_⟩
  · intro j l k' b b' hj hl
    rcases hslot.mp hj with ⟨rfl, rfl, _⟩ | ⟨_, hk', hj'⟩
    · rcases hslot.mp hl with ⟨rfl, _, _⟩ | ⟨_, hne, _⟩
      · rfl
      · exact absurd rfl hne
    · rcases hslot.mp hl with ⟨_, he, _⟩ | ⟨_, _, hl'⟩
      · exact absurd he hk'
      · exact h.once hj' hl'
  · intro k' b
    by_cases hk' : k' = k
    · rw [hk', Function.update_self, Option.some.injEq]
      constructor
      · rintro rfl
        exact ⟨i, hslot.mpr (Or.inl ⟨rfl, rfl, rfl⟩)⟩
      · rintro ⟨j, hj⟩
        rcases hslot.mp hj with ⟨_, _, rfl⟩ | ⟨_, hne, _⟩
        · rfl
        · exact absurd rfl hne
    · rw [Function.update_of_ne hk', h.mem]
      constructor
      · rintro ⟨j, hj⟩
        refine ⟨j, hslot.mpr (Or.inr ⟨?_, hk', hj⟩)⟩
        rintro rfl
        rw [hi] at hj
        cases hj
      · rintro ⟨j, hj⟩
        rcases hslot.mp hj with ⟨_, he, _⟩ | ⟨_, _, hj'⟩
        · exact absurd he hk'
        · exact ⟨j, hj'⟩

/-- A slot is freed, and its key is gone. -/
lemma Shows.erase [DecidableEq κ] (h : Shows s m) (hi : s i = some (k, a)) :
    Shows (Function.update s i none) (Function.update m k none) := by
  have hslot : ∀ {j k' b}, Function.update s i none j = some (k', b) ↔ k' ≠ k ∧ s j = some (k', b) := by
    intro j k' b
    by_cases hj : j = i
    · rw [hj, Function.update_self]
      refine iff_of_false (fun he => by cases he) ?_
      rintro ⟨hne, hs⟩
      rw [hi] at hs
      cases hs
      exact hne rfl
    · rw [Function.update_of_ne hj]
      refine ⟨fun hs => ⟨?_, hs⟩, fun hs => hs.2⟩
      rintro rfl
      exact hj (h.once hs hi)
  refine ⟨fun hj hl => h.once (hslot.mp hj).2 (hslot.mp hl).2, ?_⟩
  intro k' b
  by_cases hk' : k' = k
  · rw [hk', Function.update_self]
    refine iff_of_false (fun he => by cases he) ?_
    rintro ⟨j, hj⟩
    exact (hslot.mp hj).1 rfl
  · rw [Function.update_of_ne hk', h.mem]
    exact exists_congr fun j => (by rw [hslot, and_iff_right hk'])

end Devos.SlotMap
