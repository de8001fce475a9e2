import Devos.Library.Rehash
import Mathlib.Order.Lattice.Nat

/-! A measure that falls while the entries behind a removed one are put in again, whatever the
table looked like before. -/

namespace Devos.LinearProbing.Scheme

variable {N : ℕ} {α K : Type*} {S : Scheme N α K} [NeZero N]

variable (S) in
def offset (o : Option α) (z : Fin N) : ℕ := o.elim 0 (fun e => steps (S.start e) z)

variable (S) in
def displacement (t : Table N α) : ℕ := ∑ z, S.offset (t z) z

omit [NeZero N] in
lemma displacement_update (t : Table N α) (w : Fin N) (o : Option α) :
    S.displacement (Function.update t w o) + S.offset (t w) w = S.displacement t + S.offset o w := by
  have hsum : ∀ u : Table N α, S.displacement u =
      S.offset (u w) w + ∑ z ∈ Finset.univ.erase w, S.offset (u z) z := fun u =>
    (Finset.add_sum_erase Finset.univ (fun z => S.offset (u z) z) (Finset.mem_univ w)).symm
  have hrest : ∑ z ∈ Finset.univ.erase w, S.offset (Function.update t w o z) z =
      ∑ z ∈ Finset.univ.erase w, S.offset (t z) z := by
    apply Finset.sum_congr rfl
    intro z hz
    rw [Function.update_of_ne (Finset.ne_of_mem_erase hz)]
  rw [hsum (Function.update t w o), hsum t, hrest, Function.update_self]
  omega

omit [NeZero N] in
lemma displacement_le (t : Table N α) : S.displacement t ≤ N * N := by
  have hle : S.displacement t ≤ ∑ _z : Fin N, N := by
    apply Finset.sum_le_sum
    intro z _
    cases hz : t z with
    | none => simp [offset]
    | some e => exact (steps_lt (S.start e) z).le
  simpa using hle

lemma reput_displacement {t t' : Table N α} {y : Fin N} {e : α} (hy : t y = some e)
    (hput : S.Put (Function.update t y none) e t') :
    t' = t ∨ S.displacement t' < S.displacement t := by
  have hnone : Function.update t y none y = none := Function.update_self y none t
  have hout := displacement_update (S := S) t y none
  rw [hy, offset, offset, Option.elim_some, Option.elim_none, Nat.add_zero] at hout
  rcases hput with ⟨w, ⟨hw, hp⟩, rfl⟩ | ⟨z, ⟨⟨f, hf, hk⟩, hp⟩, rfl⟩
  · have hle : steps (S.start e) w ≤ steps (S.start e) y := by
      by_contra hlt
      obtain ⟨f, hf, _⟩ := hp y (not_le.mp hlt)
      rw [hnone] at hf
      cases hf
    have hin := displacement_update (S := S) (Function.update t y none) w (some e)
    rw [hw, offset, offset, Option.elim_some, Option.elim_none, Nat.add_zero] at hin
    by_cases hwy : w = y
    · refine Or.inl ?_
      rw [hwy, Function.update_idem, ← hy, Function.update_eq_self]
    · have : steps (S.start e) w ≠ steps (S.start e) y := fun h => hwy (steps_injective h)
      exact Or.inr (by omega)
  · refine Or.inr ?_
    have hlt : steps (S.start e) z < steps (S.start e) y := by
      rcases Nat.lt_trichotomy (steps (S.start e) z) (steps (S.start e) y) with hlt | heq | hlt
      · exact hlt
      · rw [steps_injective heq, hnone] at hf
        cases hf
      · obtain ⟨g, hg, _⟩ := hp y hlt
        rw [hnone] at hg
        cases hg
    omega

noncomputable def run (t : Table N α) (y : Fin N) : ℕ := sInf {d | t (ahead y d) = none}

lemma run_spec {t : Table N α} (hex : ∃ s, t s = none) (y : Fin N) : t (ahead y (run t y)) = none := by
  obtain ⟨s, hs⟩ := hex
  exact Nat.sInf_mem (s := {d | t (ahead y d) = none})
    ⟨steps y s, by rw [Set.mem_ofPred_eq, ahead_steps, hs]⟩

lemma run_lt {t : Table N α} (hex : ∃ s, t s = none) (y : Fin N) : run t y < N := by
  obtain ⟨s, hs⟩ := hex
  refine lt_of_le_of_lt (Nat.sInf_le ?_) (steps_lt y s)
  rw [Set.mem_ofPred_eq, ahead_steps, hs]

lemma run_next {t : Table N α} (hex : ∃ s, t s = none) {y : Fin N} (hy : t y ≠ none) :
    run t (ahead y 1) < run t y := by
  have hs := run_spec hex y
  have hpos : run t y ≠ 0 := by
    intro h
    rw [h, ahead_zero] at hs
    exact hy hs
  refine lt_of_le_of_lt (Nat.sInf_le ?_ : _ ≤ run t y - 1) (by omega)
  rw [Set.mem_ofPred_eq, ahead_ahead, show 1 + (run t y - 1) = run t y by omega, hs]

variable (S) in
noncomputable def variant (t : Table N α) (y : Fin N) : ℕ := S.displacement t * N + run t y

lemma variant_reput {t t' : Table N α} {y : Fin N} {e : α} (hex : ∃ s, t s = none)
    (hex' : ∃ s, t' s = none) (hy : t y = some e) (hput : S.Put (Function.update t y none) e t') :
    S.variant t' (ahead y 1) < S.variant t y := by
  rcases reput_displacement hy hput with rfl | hlt
  · exact Nat.add_lt_add_left (run_next hex (by simp [hy])) _
  · have hr := run_lt hex' (ahead y 1)
    have hm : S.displacement t' * N + N ≤ S.displacement t * N := by
      rw [← Nat.succ_mul]
      exact Nat.mul_le_mul_right N hlt
    rw [variant, variant]
    omega

lemma variant_lt {t : Table N α} (hex : ∃ s, t s = none) (y : Fin N) :
    S.variant t y < N * N * N + N :=
  Nat.add_lt_add_of_le_of_lt (Nat.mul_le_mul_right N (displacement_le t)) (run_lt hex y)

omit [NeZero N] in
lemma put_empty {t t' : Table N α} {y : Fin N} {e : α} (hex : ∃ s, t s = none) (hy : t y = some e)
    (hput : S.Put (Function.update t y none) e t') : ∃ s, t' s = none := by
  rcases hput with ⟨w, _, rfl⟩ | ⟨z, _, rfl⟩
  · by_cases hwy : w = y
    · obtain ⟨s, hs⟩ := hex
      refine ⟨s, ?_⟩
      rwa [hwy, Function.update_idem, ← hy, Function.update_eq_self]
    · exact ⟨y, by rw [Function.update_of_ne (Ne.symm hwy), Function.update_self]⟩
  · exact ⟨y, Function.update_self y none t⟩

end Devos.LinearProbing.Scheme
