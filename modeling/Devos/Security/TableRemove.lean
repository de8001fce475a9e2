import Devos.Security.TableProbes

/-! The two phases of `remove_func`: probing for the entry, then scanning on behind it. -/

namespace Devos.Security

open Loops LinearProbing

def probing (t : HashTable) (n : Word) (m : ℕ) : Removing := ⟨t, m + 1, probe n m, false⟩

def scanning (t : HashTable) (n : Word) (m : ℕ) : Removing := ⟨t, m + 1, probe n m, true⟩

lemma probe_next (n : Word) (m : ℕ) : probe n (m + 1) = ahead (probe n m) 1 := by
  rw [probe_eq, probe_eq, ahead_ahead]

section Bodies

variable {t : HashTable} {n : Word} {h : HKey} {m : ℕ}

lemma probing_pass (h₁ : (t (probe n m)).iNum ≠ n) (h₀ : (t (probe n m)).iNum ≠ 0) :
    removeBody n h (probing t n m) = .again (probing t n (m + 1)) := by
  simp only [removeBody, probing, if_neg h₀, h₁, false_and, if_false, Bool.false_eq_true]
  rfl

lemma probing_free (h₀ : (t (probe n m)).iNum = 0) :
    removeBody n h (probing t n m) = .leave (errRm, t) := by
  simp only [removeBody, probing, if_pos h₀, Bool.false_eq_true, if_false]

lemma probing_match (hn : n ≠ 0) (h₁ : (t (probe n m)).iNum = n)
    (hh : (t (probe n m)).hKey = h) :
    removeBody n h (probing t n m) = .again (scanning (free t (probe n m)) n (m + 2)) := by
  have h₀ : (t (probe n m)).iNum ≠ 0 := by rwa [h₁]
  have hc : compareHash h (t (probe n m)).hKey ≠ -einval := by
    rw [compareHash, if_pos hh.symm]
    decide
  have hand : (t (probe n m)).iNum = n ∧ false = false := ⟨h₁, rfl⟩
  rw [removeBody, probing, if_neg h₀, if_pos hand, if_neg hc]
  rfl

lemma probing_mismatch (hn : n ≠ 0) (h₁ : (t (probe n m)).iNum = n)
    (hh : (t (probe n m)).hKey ≠ h) :
    removeBody n h (probing t n m) = .leave (-einval, t) := by
  have h₀ : (t (probe n m)).iNum ≠ 0 := by rwa [h₁]
  have hc : compareHash h (t (probe n m)).hKey = -einval := by
    rw [compareHash, if_neg (fun he => hh he.symm)]
  have hand : (t (probe n m)).iNum = n ∧ false = false := ⟨h₁, rfl⟩
  rw [removeBody, probing, if_neg h₀, if_pos hand, if_pos hc]

lemma scanning_free (h₀ : (t (probe n m)).iNum = 0) :
    removeBody n h (scanning t n m) = .leave (succRm, t) := by
  simp only [removeBody, scanning, if_pos h₀, if_true]

lemma scanning_move (h₀ : (t (probe n m)).iNum ≠ 0) :
    ∃ t', removeBody n h (scanning t n m) = .again (scanning t' n (m + 1)) ∧
      scheme.Put (Function.update (view t) (probe n m) none) (t (probe n m)) (view t') := by
  have hadd : ∃ r t', addFunc (free t (probe n m)) (t (probe n m)) = some (r, t') := by
    have hfree : (free t (probe n m) (probe n m)).iNum = 0 := by simp [free]
    rcases found_or_missing h₀ ⟨_, Or.inr hfree⟩ with ⟨z, hz⟩ | ⟨w, hw⟩
    · exact ⟨_, _, addFunc_found h₀ hz⟩
    · exact ⟨_, _, addFunc_missing h₀ hw⟩
  obtain ⟨r, t', hadd⟩ := hadd
  refine ⟨t', ?_, ?_⟩
  · simp only [removeBody, scanning, if_neg h₀, Bool.true_eq_false, and_false, if_false, if_true, hadd]
    rfl
  · rw [← view_free]
    exact addFunc_put h₀ hadd

end Bodies

section Runs

variable {t : HashTable} {n : Word} {h : HKey}

lemma iterate_probing {d : ℕ} (hd : d ≤ tableSize)
    (hp : ∀ a, steps (scheme.home n) a < d → (t a).iNum ≠ n ∧ (t a).iNum ≠ 0) (k : ℕ) :
    iterate (removeBody n h) (k + d) (removeStart t n) = iterate (removeBody n h) k (probing t n d) := by
  induction d generalizing k with
  | zero => rfl
  | succ d ih =>
    have hstep : steps (scheme.home n) (probe n d) = d := by rw [probe_eq, steps_ahead _ (by omega)]
    obtain ⟨h₁, h₀⟩ := hp (probe n d) (by omega)
    rw [show k + (d + 1) = k + 1 + d by omega, ih (by omega) (fun a ha => hp a (by omega)),
      iterate_again (probing_pass h₁ h₀)]

lemma iterate_probing_stop {z : Fin tableSize} (hp : scheme.Passes (view t) n z) :
    ∃ d, d < tableSize ∧ probe n d = z ∧ ∀ k, iterate (removeBody n h) (k + d) (removeStart t n) =
      iterate (removeBody n h) k (probing t n d) := by
  refine ⟨steps (scheme.home n) z, steps_lt _ _, by rw [probe_eq, ahead_steps], ?_⟩
  exact iterate_probing (steps_lt _ _).le (passes_iff.mp hp)

lemma removePasses_eq : removePasses = tableSize * tableSize * tableSize + 3 * tableSize := rfl

lemma iterate_scanning {m : ℕ} (hfree : ∃ s, view t s = none) {k : ℕ}
    (hk : scheme.variant (view t) (probe n m) < k) :
    ∃ t', iterate (removeBody n h) k (scanning t n m) = some (succRm, t') ∧
      scheme.Scan (view t) (probe n m) (view t') := by
  let I (s : Removing) : Prop := ∃ t m, s = scanning t n m ∧ ∃ z, view t z = none
  let v (s : Removing) : ℕ := scheme.variant (view s.table) s.index
  have hstep : ∀ s s', I s → removeBody n h s = .again s' → I s' ∧ v s' < v s := by
    rintro s s' ⟨t, m, rfl, hex⟩ hb
    by_cases h₀ : (t (probe n m)).iNum = 0
    · rw [scanning_free h₀] at hb
      cases hb
    · obtain ⟨t', hm, hput⟩ := scanning_move (h := h) h₀
      rw [hm] at hb
      cases hb
      have hy : view t (probe n m) = some (t (probe n m)) := view_eq_some.mpr ⟨h₀, rfl⟩
      have hex' := Scheme.put_empty hex hy hput
      refine ⟨⟨t', m + 1, rfl, hex'⟩, ?_⟩
      have hv := Scheme.variant_reput hex hex' hy hput
      rwa [← probe_next] at hv
  obtain ⟨r, hr⟩ := iterate_of_variant I v hstep (s := scanning t n m) ⟨t, m, rfl, hfree⟩ hk
  let J (s : Removing) : Prop := ∃ t₁ m₁, s = scanning t₁ n m₁ ∧
    ∀ t', scheme.Scan (view t₁) (probe n m₁) t' → scheme.Scan (view t) (probe n m) t'
  have hJ : r.1 = succRm ∧ scheme.Scan (view t) (probe n m) (view r.2) := by
    refine iterate_invariant J (Q := fun r => r.1 = succRm ∧ scheme.Scan (view t) (probe n m) (view r.2))
      ?_ ?_ ⟨t, m, rfl, fun _ => id⟩ hr
    · rintro s s' ⟨t₁, m₁, rfl, hs⟩ hb
      by_cases h₀ : (t₁ (probe n m₁)).iNum = 0
      · rw [scanning_free h₀] at hb
        cases hb
      · obtain ⟨t₂, hm, hput⟩ := scanning_move (h := h) h₀
        rw [hm] at hb
        cases hb
        refine ⟨t₂, m₁ + 1, rfl, fun t' hscan => hs t' ?_⟩
        rw [probe_next] at hscan
        exact .move (view_eq_some.mpr ⟨h₀, rfl⟩) hput hscan
    · rintro s r ⟨t₁, m₁, rfl, hs⟩ hb
      by_cases h₀ : (t₁ (probe n m₁)).iNum = 0
      · rw [scanning_free h₀] at hb
        cases hb
        exact ⟨rfl, hs _ (.stop (view_eq_none.mpr h₀))⟩
      · obtain ⟨t₂, hm, _⟩ := scanning_move (h := h) h₀
        rw [hm] at hb
        cases hb
  obtain ⟨c, t'⟩ := r
  obtain ⟨rfl, hscan⟩ := hJ
  exact ⟨t', hr, hscan⟩

theorem removeFunc_missing {w : Fin tableSize} (hw : scheme.Missing (view t) n w) :
    removeFunc t n h = some (errRm, t) := by
  obtain ⟨hw, hp⟩ := hw
  obtain ⟨d, hd, rfl, hit⟩ := iterate_probing_stop (h := h) hp
  have hone := hit 1
  rw [iterate_leave (probing_free (view_eq_none.mp hw))] at hone
  exact iterate_mono hone (by rw [removePasses_eq]; omega)

theorem removeFunc_mismatch (hn : n ≠ 0) {z : Fin tableSize} (hz : scheme.Found (view t) n z)
    (hh : (t z).hKey ≠ h) : removeFunc t n h = some (-einval, t) := by
  obtain ⟨hz, hp⟩ := (found_iff hn).mp hz
  obtain ⟨d, hd, rfl, hit⟩ := iterate_probing_stop (h := h) hp
  have hone := hit 1
  rw [iterate_leave (probing_mismatch hn hz hh)] at hone
  exact iterate_mono hone (by rw [removePasses_eq]; omega)

theorem removeFunc_found (hn : n ≠ 0) {z : Fin tableSize} (hz : scheme.Found (view t) n z)
    (hh : (t z).hKey = h) :
    ∃ t', removeFunc t n h = some (succRm, t') ∧
      scheme.Scan (Function.update (view t) z none) (ahead z 2) (view t') := by
  obtain ⟨hz, hp⟩ := (found_iff hn).mp hz
  obtain ⟨d, hd, rfl, hit⟩ := iterate_probing_stop (h := h) hp
  have hfree : ∃ s, view (free t (probe n d)) s = none :=
    ⟨probe n d, by rw [view_free, Function.update_self]⟩
  have hv := Scheme.variant_lt (S := scheme) hfree (probe n (d + 2))
  obtain ⟨t', hrun, hscan⟩ := iterate_scanning (h := h) hfree hv
  refine ⟨t', ?_, ?_⟩
  · have hall := hit (tableSize * tableSize * tableSize + tableSize + 1)
    rw [iterate_again (probing_match hn hz hh), hrun] at hall
    exact iterate_mono hall (by rw [removePasses_eq]; omega)
  · rw [view_free, probe_next, probe_next, ahead_ahead] at hscan
    exact hscan

lemma not_terminates_removeFunc (hfull : ∀ z, (t z).iNum ≠ n ∧ (t z).iNum ≠ 0) :
    ¬ Terminates (removeBody n h) (removeStart t n) := by
  refine not_terminates_of_hang (fun s => ∃ m, s = probing t n m) ?_ ⟨0, rfl⟩
  rintro s ⟨m, rfl⟩
  obtain ⟨h₁, h₀⟩ := hfull (probe n m)
  exact ⟨_, probing_pass h₁ h₀, m + 1, rfl⟩

theorem removeFunc_cases {r : ℤ} {t' : HashTable} (hn : n ≠ 0)
    (hr : removeFunc t n h = some (r, t')) :
    (∃ z, scheme.Found (view t) n z ∧ (t z).hKey = h ∧ r = succRm ∧
        scheme.Scan (Function.update (view t) z none) (ahead z 2) (view t')) ∨
      (∃ z, scheme.Found (view t) n z ∧ (t z).hKey ≠ h ∧ r = -einval ∧ t' = t) ∨
      ∃ w, scheme.Missing (view t) n w ∧ r = errRm ∧ t' = t := by
  by_cases hex : ∃ z, (t z).iNum = n ∨ (t z).iNum = 0
  · rcases found_or_missing hn hex with ⟨z, hz⟩ | ⟨w, hw⟩
    · by_cases hh : (t z).hKey = h
      · obtain ⟨t₁, hrun, hscan⟩ := removeFunc_found hn hz hh
        rw [hrun] at hr
        cases hr
        exact Or.inl ⟨z, hz, hh, rfl, hscan⟩
      · rw [removeFunc_mismatch hn hz hh] at hr
        cases hr
        exact Or.inr (Or.inl ⟨z, hz, hh, rfl, rfl⟩)
    · rw [removeFunc_missing hw] at hr
      cases hr
      exact Or.inr (Or.inr ⟨w, hw, rfl, rfl⟩)
  · push Not at hex
    exact absurd ⟨_, _, hr⟩ (not_terminates_removeFunc (h := h) hex)

end Runs

end Devos.Security
