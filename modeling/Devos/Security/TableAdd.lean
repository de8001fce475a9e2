import Devos.Security.TableProbes

/-! `add` keeps every entry where `search` comes to it. -/

namespace Devos.Security

open Loops LinearProbing Scheme

/-- No free slot comes before an entry in the order in which its inode number is looked for, and no two entries have the
same number. -/
structure Structured (t : HashTable) : Prop where
  reached : ∀ z, (t z).iNum ≠ 0 → ∃ i, probe (t z).iNum i = z ∧ ∀ j < i, (t (probe (t z).iNum j)).iNum ≠ 0
  distinct : ∀ z z', (t z).iNum ≠ 0 → (t z).iNum = (t z').iNum → z = z'

section Structures

variable {t : HashTable} {value : EDir}

lemma Structured.wellProbed (h : Structured t) : scheme.WellProbed (view t) := by
  constructor
  · intro z e hz a ha hnone
    obtain ⟨hn, rfl⟩ := view_eq_some.mp hz
    obtain ⟨i, hi, hbefore⟩ := h.reached z hn
    have hlt : steps (scheme.home (t z).iNum) a < i := by
      by_contra hge
      have hsmall : i < tableSize := lt_of_le_of_lt (not_lt.mp hge) (steps_lt _ _)
      have hsteps := steps_ahead (scheme.home (t z).iNum) hsmall
      rw [← probe_eq, hi] at hsteps
      have hbound : steps (scheme.home (t z).iNum) a < steps (scheme.home (t z).iNum) z := ha
      omega
    have hstored := hbefore _ hlt
    rw [probe_eq, ahead_steps] at hstored
    exact hstored (view_eq_none.mp hnone)
  · intro z z' e e' hz hz' hkey
    obtain ⟨hn, rfl⟩ := view_eq_some.mp hz
    obtain ⟨_, rfl⟩ := view_eq_some.mp hz'
    exact h.distinct z z' hn hkey

end Structures

end Devos.Security
