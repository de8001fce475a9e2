import Devos.Security.TableRemove
import Devos.Library.Runs
import Mathlib.Data.Fintype.Pigeonhole

/-! Runs of add and remove calls on the table, and when the probes of the next call end. -/

namespace Devos.Security

open Loops LinearProbing Runs

inductive Call where
  | add (value : EDir)
  | remove (n : Word) (hashToUse : HKey)

def Call.iNum : Call → Word
  | .add value => value.iNum
  | .remove n _ => n

def call (t : HashTable) : Call → Option HashTable
  | .add value => (addFunc t value).map Prod.snd
  | .remove n hashToUse => (removeFunc t n hashToUse).map Prod.snd

def Stored (t : HashTable) (n : Word) : Prop := ∃ z, (t z).iNum = n

instance (t : HashTable) (n : Word) : Decidable (Stored t n) := inferInstanceAs (Decidable (∃ _, _))

def occupied (t : HashTable) : Finset (Fin tableSize) := Finset.univ.filter (fun z => (t z).iNum ≠ 0)

def entries (t : HashTable) : ℕ := (occupied t).card

section Occupancy

variable {t : HashTable}

lemma mem_occupied {z : Fin tableSize} : z ∈ occupied t ↔ (t z).iNum ≠ 0 := by
  simp only [occupied, Finset.mem_filter, Finset.mem_univ, true_and]

lemma entries_lt_iff : entries t < tableSize ↔ ∃ z, (t z).iNum = 0 := by
  have hcard : (Finset.univ : Finset (Fin tableSize)).card = tableSize := Finset.card_fin _
  constructor
  · intro h
    by_contra hne
    push Not at hne
    have hall : occupied t = Finset.univ := by
      ext z
      simp only [mem_occupied, Finset.mem_univ, iff_true]
      exact hne z
    rw [entries, hall, hcard] at h
    exact lt_irrefl _ h
  · rintro ⟨z, hz⟩
    have hlt := Finset.card_lt_univ_of_notMem (s := occupied t) (x := z) (by simp [mem_occupied, hz])
    rwa [Fintype.card_fin] at hlt

lemma entries_update {w : Fin tableSize} {e : EDir} (hw : (t w).iNum = 0) (he : e.iNum ≠ 0) :
    entries (Function.update t w e) = entries t + 1 := by
  have hnot : w ∉ occupied t := by simp [mem_occupied, hw]
  have hset : occupied (Function.update t w e) = insert w (occupied t) := by
    ext z
    by_cases hz : z = w
    · simp only [mem_occupied, hz, Function.update_self, Finset.mem_insert, true_or, iff_true]
      exact he
    · simp only [mem_occupied, Finset.mem_insert, hz, false_or, Function.update_of_ne hz]
  rw [entries, hset, Finset.card_insert_of_notMem hnot, entries]

lemma entries_empty : entries emptyTable = 0 := by
  rw [entries, Finset.card_eq_zero]
  ext z
  simp [mem_occupied, emptyTable]

end Occupancy

lemma scan_end {t t' : LinearProbing.Table tableSize EDir} {y : Fin tableSize}
    (h : scheme.Scan t y t') : ∃ s, t' s = none := by
  induction h with
  | stop hy => exact ⟨_, hy⟩
  | move _ _ _ ih => exact ih

lemma call_add {t t' : HashTable} {value : EDir} (hn : value.iNum ≠ 0)
    (h : call t (.add value) = some t') :
    (∃ w : Fin tableSize, scheme.Missing (view t) value.iNum w ∧ t' = Function.update t w value) ∨
      (∃ z, scheme.Found (view t) value.iNum z) ∧ t' = t := by
  simp only [call, Option.map_eq_some_iff, Prod.exists] at h
  obtain ⟨r, _, hadd, rfl⟩ := h
  rcases addFunc_cases hn hadd with ⟨w, hw, _, rfl⟩ | ⟨z, hz, _, rfl⟩
  · exact Or.inl ⟨w, hw, rfl⟩
  · exact Or.inr ⟨⟨z, hz⟩, rfl⟩

lemma stored_iff {t : HashTable} {m : Word} (hm : m ≠ 0) :
    Stored t m ↔ ∃ e, Scheme.Holds (view t) e ∧ e.iNum = m := by
  constructor
  · rintro ⟨z, hz⟩
    exact ⟨t z, ⟨z, view_eq_some.mpr ⟨by rwa [hz], rfl⟩⟩, hz⟩
  · rintro ⟨e, ⟨z, hz⟩, he⟩
    obtain ⟨_, rfl⟩ := view_eq_some.mp hz
    exact ⟨z, he⟩

lemma put_holds {t t' : LinearProbing.Table tableSize EDir} {y : Fin tableSize} {e f : EDir}
    (hy : t y = some e) (hput : scheme.Put (Function.update t y none) e t')
    (hf : Scheme.Holds t' f) : Scheme.Holds t f := by
  have hback : Scheme.Holds (Function.update t y none) f → Scheme.Holds t f := by
    rintro ⟨z, hz⟩
    by_cases hzy : z = y
    · rw [hzy, Function.update_self] at hz
      cases hz
    · rw [Function.update_of_ne hzy] at hz
      exact ⟨z, hz⟩
  rcases hput with ⟨w, _, rfl⟩ | ⟨_, _, rfl⟩
  · obtain ⟨z, hz⟩ := hf
    by_cases hzw : z = w
    · rw [hzw, Function.update_self] at hz
      exact ⟨y, by rw [hy, hz]⟩
    · rw [Function.update_of_ne hzw] at hz
      exact hback ⟨z, hz⟩
  · exact hback hf

lemma scan_holds_of {t t' : LinearProbing.Table tableSize EDir} {y : Fin tableSize} {f : EDir}
    (h : scheme.Scan t y t') (hf : Scheme.Holds t' f) : Scheme.Holds t f := by
  induction h with
  | stop _ => exact hf
  | move hy hput _ ih => exact put_holds hy hput (ih hf)

lemma found_alone {n : Word} (hn : n ≠ 0) (hKey : HKey) :
    scheme.Found (view (Function.update emptyTable (probe n 0) ⟨n, hKey⟩)) n (probe n 0) := by
  refine (found_iff hn).mpr ⟨by rw [Function.update_self], ?_⟩
  intro a ha
  rw [show probe n 0 = scheme.home n from rfl, steps_self] at ha
  exact absurd ha (Nat.not_lt_zero _)

lemma stored_scan {t t' : HashTable} {x y : Fin tableSize}
    (hscan : scheme.Scan (Function.update (view t) x none) y (view t')) {m : Word} (hm : m ≠ 0)
    (hs : Stored t' m) : ∃ z, z ≠ x ∧ (t z).iNum = m := by
  obtain ⟨e, he, hem⟩ := (stored_iff hm).mp hs
  obtain ⟨z, hz⟩ := scan_holds_of hscan he
  by_cases hzx : z = x
  · rw [hzx, Function.update_self] at hz
    cases hz
  · rw [Function.update_of_ne hzx] at hz
    obtain ⟨_, rfl⟩ := view_eq_some.mp hz
    exact ⟨z, hzx, hem⟩

lemma absent_after_scan {t t' : HashTable} {n : Word} (hn : n ≠ 0) {x : Fin tableSize}
    (hx : ∀ z, (t z).iNum = n → z = x)
    (hscan : scheme.Scan (Function.update (view t) x none) (ahead x 2) (view t')) : ¬ Stored t' n := by
  intro hst
  obtain ⟨z, hzx, hz⟩ := stored_scan hscan hn hst
  exact hzx (hx z hz)

lemma absent_after_remove {t t' : HashTable} {n : Word} (hn : n ≠ 0) {hKey : HKey} {z : Fin tableSize}
    (hz : ∀ z', (t z').iNum = n → z' = z) (h : removeFunc t n hKey = some (succRm, t')) :
    ¬ Stored t' n := by
  rcases removeFunc_cases hn h with ⟨y, hy, _, _, hscan⟩ | ⟨_, _, _, hr, _⟩ | ⟨_, _, hr, _⟩
  · rw [← hz y ((found_iff hn).mp hy).1] at hz
    exact absent_after_scan hn hz hscan
  · exact absurd hr (by decide)
  · exact absurd hr (by decide)

def firstEntry : EDir := ⟨30, anyHKey⟩

end Devos.Security
