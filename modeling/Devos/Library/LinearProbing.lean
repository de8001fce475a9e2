import Devos.Library.Loops
import Mathlib.Data.Fin.Basic
import Mathlib.Data.ZMod.Defs
import Mathlib.Algebra.BigOperators.Fin
import Mathlib.Algebra.Order.BigOperators.Group.Finset

/-! Open addressing with linear probing: slots on a circle, what probing finds, and what becomes
of a table when its tail is put in again after a removal. -/

namespace Devos.LinearProbing

open Loops

variable {N : ℕ}

def steps (a b : Fin N) : ℕ := (b - a).val

lemma steps_lt (a b : Fin N) : steps a b < N := (b - a).isLt

variable [NeZero N]

def ahead (a : Fin N) (k : ℕ) : Fin N := a + Fin.ofNat N k

@[simp] lemma steps_self (a : Fin N) : steps a a = 0 := by simp [steps]

lemma steps_eq_zero {a b : Fin N} : steps a b = 0 ↔ a = b := by
  rw [steps, Fin.val_eq_zero_iff, sub_eq_zero, eq_comm]

lemma steps_triangle (a b c : Fin N) :
    steps a b + steps b c = steps a c ∨ steps a b + steps b c = steps a c + N := by
  have hsum : steps a c = (steps a b + steps b c) % N := by
    rw [steps, ← sub_add_sub_cancel c b a, Fin.val_add, Nat.add_comm]
    rfl
  have hb := steps_lt a b
  have hc := steps_lt b c
  rcases Nat.lt_or_ge (steps a b + steps b c) N with h | h
  · rw [Nat.mod_eq_of_lt h] at hsum
    exact Or.inl hsum.symm
  · rw [Nat.mod_eq_sub_mod h, Nat.mod_eq_of_lt (by omega)] at hsum
    exact Or.inr (by omega)

lemma steps_ahead (a : Fin N) {k : ℕ} (hk : k < N) : steps a (ahead a k) = k := by
  rw [steps, ahead, add_sub_cancel_left]
  exact Nat.mod_eq_of_lt hk

lemma ahead_steps (a b : Fin N) : ahead a (steps a b) = b := by
  have he : Fin.ofNat N (steps a b) = b - a := by
    apply Fin.ext
    exact Nat.mod_eq_of_lt (steps_lt a b)
  rw [ahead, he, add_sub_cancel]

lemma ahead_zero (a : Fin N) : ahead a 0 = a := by
  conv_rhs => rw [← ahead_steps a a, steps_self]

lemma ahead_ahead (a : Fin N) (j k : ℕ) : ahead (ahead a j) k = ahead a (j + k) := by
  have he : Fin.ofNat N j + Fin.ofNat N k = Fin.ofNat N (j + k) := by
    apply Fin.ext
    rw [Fin.val_add]
    exact (Nat.add_mod j k N).symm
  rw [ahead, ahead, ahead, add_assoc, he]

lemma steps_injective {a b c : Fin N} (h : steps a b = steps a c) : b = c := by
  rw [← ahead_steps a b, h, ahead_steps]

/-- What lies before `z` on the way from `a`, lies before it on the way from `s` that passes `a`. -/
lemma steps_between {s a y z : Fin N} (ha : steps s a < steps s z) (hy : steps a y < steps a z) :
    steps s y < steps s z := by
  have t₁ := steps_triangle s a z
  have t₂ := steps_triangle s a y
  have := steps_lt s z
  have := steps_lt a z
  omega

lemma one_lt_steps (hN : 1 < N) {a z : Fin N} (h₀ : z ≠ a) (h₁ : z ≠ ahead a 1) : 1 < steps a z := by
  have : steps a z ≠ 0 := fun h => h₀ (steps_eq_zero.mp h).symm
  have : steps a z ≠ 1 := fun h => h₁ (steps_injective (h.trans (steps_ahead a hN).symm))
  omega

section ProbeLoop

variable {ρ : Type*} (h : Fin N) (stop : Fin N → Option ρ)

def probeBody (i : ℕ) : Pass ℕ ρ :=
  match stop (ahead h i) with
  | some r => .leave r
  | none => .again (i + 1)

def StopsAt (z : Fin N) (r : ρ) : Prop :=
  stop z = some r ∧ ∀ a, steps h a < steps h z → stop a = none

variable {h stop}

lemma stopsAt_of_exists (hex : ∃ z, stop z ≠ none) : ∃ z r, StopsAt h stop z r := by
  classical
  have hd : ∃ d, stop (ahead h d) ≠ none := by
    obtain ⟨z, hz⟩ := hex
    exact ⟨steps h z, by rwa [ahead_steps]⟩
  let d := Nat.find hd
  obtain ⟨r, hr⟩ := Option.ne_none_iff_exists'.mp (Nat.find_spec hd)
  refine ⟨ahead h d, r, hr, ?_⟩
  intro a ha
  by_contra hne
  have hle : d ≤ steps h a := Nat.find_min' hd (by rwa [ahead_steps])
  have hd' : d < N := hle.trans_lt (steps_lt h a)
  rw [steps_ahead h hd'] at ha
  omega

lemma probe_again {i : ℕ} (hi : stop (ahead h i) = none) : probeBody h stop i = .again (i + 1) := by
  simp only [probeBody, hi]

lemma probe_leave {i : ℕ} {r : ρ} (hi : stop (ahead h i) = some r) : probeBody h stop i = .leave r := by
  simp only [probeBody, hi]

theorem iterate_of_stopsAt {z : Fin N} {r : ρ} (hs : StopsAt h stop z r) :
    iterate (probeBody h stop) N 0 = some r := by
  have hrun : ∀ k i, i + k = steps h z → iterate (probeBody h stop) (k + 1) i = some r := by
    intro k
    induction k with
    | zero =>
      intro i hi
      apply iterate_leave
      apply probe_leave
      rw [show i = steps h z by omega, ahead_steps]
      exact hs.1
    | succ k ih =>
      intro i hi
      have hlt : i < N := lt_of_le_of_lt (by omega) (steps_lt h z)
      rw [iterate_again (probe_again (hs.2 (ahead h i) (by rw [steps_ahead h hlt]; omega)))]
      exact ih (i + 1) (by omega)
  exact iterate_mono (hrun (steps h z) 0 (by omega)) (steps_lt h z)

lemma iterate_of_no_stop (hn : ∀ z, stop z = none) (n i : ℕ) : iterate (probeBody h stop) n i = none :=
  iterate_of_hang (fun _ => True) (fun i _ => ⟨i + 1, probe_again (hn _), trivial⟩) trivial n

end ProbeLoop

end Devos.LinearProbing
