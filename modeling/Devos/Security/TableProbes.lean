import Devos.Security.Table
import Devos.Library.Displacement

/-! The three table calls as operations on a linearly probed table, and when they return. -/

namespace Devos.Security

open Loops LinearProbing

def view (t : HashTable) : LinearProbing.Table tableSize EDir :=
  fun z => if (t z).iNum = 0 then none else some (t z)

def scheme : Scheme tableSize EDir Word := ⟨EDir.iNum, fun n => probe n 0⟩

lemma probe_eq (n : Word) (i : ℕ) : probe n i = ahead (scheme.home n) i := by
  apply Fin.ext
  simp only [probe, ahead, scheme, Fin.ofNat, Fin.val_add]
  rw [← Nat.add_mod]
  congr 1
  omega

lemma view_eq_some {t : HashTable} {z : Fin tableSize} {e : EDir} :
    view t z = some e ↔ (t z).iNum ≠ 0 ∧ t z = e := by
  simp only [view]
  split <;> simp_all

lemma view_eq_none {t : HashTable} {z : Fin tableSize} : view t z = none ↔ (t z).iNum = 0 := by
  simp only [view]
  split <;> simp_all

lemma view_free (t : HashTable) (z : Fin tableSize) :
    view (free t z) = Function.update (view t) z none := by
  funext a
  by_cases ha : a = z
  · subst ha; simp [view, free]
  · simp [view, free, ha]

lemma view_update (t : HashTable) (z : Fin tableSize) {e : EDir} (he : e.iNum ≠ 0) :
    view (Function.update t z e) = Function.update (view t) z (some e) := by
  funext a
  by_cases ha : a = z
  · subst ha
    rw [view, Function.update_self, Function.update_self, if_neg he]
  · simp [view, ha]

def addStop (t : HashTable) (e : EDir) (z : Fin tableSize) : Option (ℤ × HashTable) :=
  if (t z).iNum = e.iNum then some (errAlrEnc, t)
  else if (t z).iNum ≠ 0 then none else some (z, Function.update t z e)

def searchStop (t : HashTable) (n : Word) (z : Fin tableSize) : Option ℤ :=
  if (t z).iNum = n then some z else if (t z).iNum ≠ 0 then none else some errNotFnd

lemma addBody_eq (t : HashTable) (e : EDir) :
    addBody t e = probeBody (scheme.home e.iNum) (addStop t e) := by
  funext i
  simp only [addBody, probeBody, addStop, probe_eq]
  split_ifs <;> rfl

lemma searchBody_eq (t : HashTable) (n : Word) :
    searchBody t n = probeBody (scheme.home n) (searchStop t n) := by
  funext i
  simp only [searchBody, probeBody, searchStop, probe_eq]
  split_ifs <;> rfl

lemma addStop_pass {t : HashTable} {e : EDir} {a : Fin tableSize}
    (ha : (t a).iNum ≠ e.iNum ∧ (t a).iNum ≠ 0) : addStop t e a = none := by
  rw [addStop, if_neg ha.1, if_pos ha.2]

lemma searchStop_pass {t : HashTable} {n : Word} {a : Fin tableSize}
    (ha : (t a).iNum ≠ n ∧ (t a).iNum ≠ 0) : searchStop t n a = none := by
  rw [searchStop, if_neg ha.1, if_pos ha.2]

lemma addStop_free {t : HashTable} {e : EDir} {a : Fin tableSize} (he : e.iNum ≠ 0)
    (ha : (t a).iNum = 0) : addStop t e a = some ((a : ℤ), Function.update t a e) := by
  rw [addStop, if_neg (by rw [ha]; exact he.symm), if_neg (by rw [ha]; simp)]

lemma searchStop_free {t : HashTable} {n : Word} {a : Fin tableSize} (hn : n ≠ 0)
    (ha : (t a).iNum = 0) : searchStop t n a = some errNotFnd := by
  rw [searchStop, if_neg (by rw [ha]; exact hn.symm), if_neg (by rw [ha]; simp)]

section Probes

variable {t : HashTable} {n : Word}

lemma passed_iff {a : Fin tableSize} :
    (∃ e, view t a = some e ∧ scheme.key e ≠ n) ↔ (t a).iNum ≠ n ∧ (t a).iNum ≠ 0 := by
  constructor
  · rintro ⟨e, he, hk⟩
    obtain ⟨h₀, rfl⟩ := view_eq_some.mp he
    exact ⟨hk, h₀⟩
  · rintro ⟨hn, h₀⟩
    exact ⟨t a, view_eq_some.mpr ⟨h₀, rfl⟩, hn⟩

lemma passes_iff {z : Fin tableSize} :
    scheme.Passes (view t) n z ↔ ∀ a, steps (scheme.home n) a < steps (scheme.home n) z →
      (t a).iNum ≠ n ∧ (t a).iNum ≠ 0 :=
  forall_congr' fun _ => imp_congr_right fun _ => passed_iff

lemma found_iff (hn : n ≠ 0) {z : Fin tableSize} :
    scheme.Found (view t) n z ↔ (t z).iNum = n ∧ scheme.Passes (view t) n z := by
  refine and_congr_left fun _ => ⟨?_, ?_⟩
  · rintro ⟨e, he, hk⟩
    obtain ⟨_, rfl⟩ := view_eq_some.mp he
    exact hk
  · intro h
    exact ⟨t z, view_eq_some.mpr ⟨by rwa [h], rfl⟩, h⟩

lemma missing_iff {z : Fin tableSize} :
    scheme.Missing (view t) n z ↔ (t z).iNum = 0 ∧ scheme.Passes (view t) n z :=
  and_congr_left fun _ => view_eq_none

lemma found_or_missing (hn : n ≠ 0) (hex : ∃ z, (t z).iNum = n ∨ (t z).iNum = 0) :
    (∃ z, scheme.Found (view t) n z) ∨ ∃ w, scheme.Missing (view t) n w := by
  let stop (z : Fin tableSize) : Option Unit :=
    if (t z).iNum = n ∨ (t z).iNum = 0 then some () else none
  have hstop : ∃ z, stop z ≠ none := by
    obtain ⟨z, hz⟩ := hex
    exact ⟨z, by simp only [stop, if_pos hz, ne_eq, reduceCtorEq, not_false_eq_true]⟩
  obtain ⟨z, r, hz, hp⟩ := stopsAt_of_exists (h := scheme.home n) hstop
  have hpass : scheme.Passes (view t) n z := by
    rw [passes_iff]
    intro a ha
    have hh := hp a ha
    simp only [stop, ite_eq_right_iff, reduceCtorEq, imp_false, not_or] at hh
    exact hh
  by_cases hz' : (t z).iNum = n
  · exact Or.inl ⟨z, (found_iff hn).mpr ⟨hz', hpass⟩⟩
  · refine Or.inr ⟨z, missing_iff.mpr ⟨?_, hpass⟩⟩
    by_contra h₀
    simp only [stop, if_neg (not_or.mpr ⟨hz', h₀⟩), reduceCtorEq] at hz

theorem searchFunc_found (hn : n ≠ 0) {z : Fin tableSize} (hz : scheme.Found (view t) n z) :
    searchFunc t n = some (z : ℤ) := by
  rw [searchFunc, searchBody_eq]
  obtain ⟨hz, hp⟩ := (found_iff hn).mp hz
  refine iterate_of_stopsAt (z := z) ⟨by rw [searchStop, if_pos hz], ?_⟩
  intro a ha
  exact searchStop_pass (passes_iff.mp hp a ha)

theorem searchFunc_missing (hn : n ≠ 0) {w : Fin tableSize} (hw : scheme.Missing (view t) n w) :
    searchFunc t n = some errNotFnd := by
  rw [searchFunc, searchBody_eq]
  obtain ⟨hw, hp⟩ := missing_iff.mp hw
  refine iterate_of_stopsAt (z := w) ⟨searchStop_free hn hw, ?_⟩
  intro a ha
  exact searchStop_pass (passes_iff.mp hp a ha)

theorem addFunc_found {e : EDir} (hn : e.iNum ≠ 0) {z : Fin tableSize}
    (hz : scheme.Found (view t) e.iNum z) : addFunc t e = some (errAlrEnc, t) := by
  rw [addFunc, addBody_eq]
  obtain ⟨hz, hp⟩ := (found_iff hn).mp hz
  refine iterate_of_stopsAt (z := z) ⟨by rw [addStop, if_pos hz], ?_⟩
  intro a ha
  exact addStop_pass (passes_iff.mp hp a ha)

theorem addFunc_missing {e : EDir} (hn : e.iNum ≠ 0) {w : Fin tableSize}
    (hw : scheme.Missing (view t) e.iNum w) : addFunc t e = some ((w : ℤ), Function.update t w e) := by
  rw [addFunc, addBody_eq]
  obtain ⟨hw, hp⟩ := missing_iff.mp hw
  refine iterate_of_stopsAt (z := w) ⟨addStop_free hn hw, ?_⟩
  intro a ha
  exact addStop_pass (passes_iff.mp hp a ha)

lemma addFunc_none {e : EDir} (hfull : ∀ z, (t z).iNum ≠ e.iNum ∧ (t z).iNum ≠ 0) :
    addFunc t e = none := by
  rw [addFunc, addBody_eq]
  exact iterate_of_no_stop (fun z => addStop_pass (hfull z)) _ _

lemma searchFunc_none (hfull : ∀ z, (t z).iNum ≠ n ∧ (t z).iNum ≠ 0) : searchFunc t n = none := by
  rw [searchFunc, searchBody_eq]
  exact iterate_of_no_stop (fun z => searchStop_pass (hfull z)) _ _

lemma errNotFnd_ne (z : Fin tableSize) : errNotFnd ≠ (z : ℤ) := by
  have : errNotFnd = -1 := rfl
  omega

theorem addFunc_cases {e : EDir} {r : ℤ} {t' : HashTable} (hn : e.iNum ≠ 0)
    (h : addFunc t e = some (r, t')) :
    (∃ w : Fin tableSize, scheme.Missing (view t) e.iNum w ∧ r = w ∧ t' = Function.update t w e) ∨
      ∃ z, scheme.Found (view t) e.iNum z ∧ r = errAlrEnc ∧ t' = t := by
  by_cases hex : ∃ z, (t z).iNum = e.iNum ∨ (t z).iNum = 0
  · rcases found_or_missing hn hex with ⟨z, hz⟩ | ⟨w, hw⟩
    · rw [addFunc_found hn hz] at h
      cases h
      exact Or.inr ⟨z, hz, rfl, rfl⟩
    · rw [addFunc_missing hn hw] at h
      cases h
      exact Or.inl ⟨w, hw, rfl, rfl⟩
  · push Not at hex
    rw [addFunc_none hex] at h
    cases h

theorem addFunc_put {e : EDir} {r : ℤ} {t' : HashTable} (hn : e.iNum ≠ 0)
    (h : addFunc t e = some (r, t')) : scheme.Put (view t) e (view t') := by
  rcases addFunc_cases hn h with ⟨w, hw, _, rfl⟩ | ⟨z, hz, _, rfl⟩
  · exact Or.inl ⟨w, hw, view_update t w hn⟩
  · exact Or.inr ⟨z, hz, rfl⟩

end Probes

end Devos.Security
