import Mathlib.Data.BitVec
import Mathlib.Data.Nat.Notation
import Mathlib.Tactic.Lemma

/-! A memory of bytes with 32-bit addresses that go round at the end, and the words stored in it, lowest byte first. -/

namespace Devos.FlatMemory

abbrev Memory := BitVec 32 → BitVec 8

def store (m : Memory) (w a : BitVec 32) : Memory :=
  fun x => if (x - a).toNat < 4 then w.extractLsb' (8 * (x - a).toNat) 8 else m x

def load (m : Memory) (a : BitVec 32) : BitVec 32 := (m (a + 3) ++ m (a + 2)) ++ (m (a + 1) ++ m a)

def storeWords (m : Memory) (a : BitVec 32) : List (BitVec 32) → Memory
  | [] => m
  | w :: ws => storeWords (store m w a) (a + 4) ws

variable {m : Memory} {a b w x : BitVec 32}

lemma store_inside {k : ℕ} (hk : k < 4) : store m w a (a + BitVec.ofNat 32 k) = w.extractLsb' (8 * k) 8 := by
  have hsub : (a + BitVec.ofNat 32 k - a).toNat = k := by
    rw [BitVec.add_comm, BitVec.add_sub_cancel, BitVec.toNat_ofNat]
    omega
  rw [store, hsub, if_pos hk]

lemma store_outside (h : 4 ≤ (x - a).toNat) : store m w a x = m x := if_neg (by omega)

lemma extract_append (w : BitVec 32) :
    (w.extractLsb' 24 8 ++ w.extractLsb' 16 8) ++ (w.extractLsb' 8 8 ++ w.extractLsb' 0 8) = w := by
  apply BitVec.eq_of_getLsbD_eq
  intro i hi
  simp only [BitVec.getLsbD_append, BitVec.getLsbD_extractLsb']
  by_cases h₁ : i < 8
  · simp [h₁, show i < 16 by omega]
  · by_cases h₂ : i < 16
    · simp [h₁, h₂, show i - 8 < 8 by omega, show 8 + (i - 8) = i by omega]
    · by_cases h₃ : i < 24
      · simp [h₂, show i - 16 < 8 by omega, show 16 + (i - 16) = i by omega]
      · simp [h₂, show ¬ i - 16 < 8 by omega, show i - 16 - 8 < 8 by omega, show 24 + (i - 16 - 8) = i by omega]

lemma load_store_self : load (store m w a) a = w := by
  have h₀ : store m w a a = w.extractLsb' 0 8 := by
    have h := store_inside (m := m) (w := w) (a := a) (k := 0) (by omega)
    rwa [BitVec.add_zero] at h
  have h₁ := store_inside (m := m) (w := w) (a := a) (k := 1) (by omega)
  have h₂ := store_inside (m := m) (w := w) (a := a) (k := 2) (by omega)
  have h₃ := store_inside (m := m) (w := w) (a := a) (k := 3) (by omega)
  refine Eq.trans ?_ (extract_append w)
  rw [load, h₀]
  exact congrArg₂ _ (congrArg₂ _ h₃ h₂) (congrArg₂ _ h₁ rfl)

lemma load_congr {m' : Memory} (h : ∀ k < 4, m' (a + BitVec.ofNat 32 k) = m (a + BitVec.ofNat 32 k)) :
    load m' a = load m a := by
  have h₀ := h 0 (by omega)
  rw [BitVec.add_zero] at h₀
  rw [load, load, h₀]
  exact congrArg₂ _ (congrArg₂ _ (h 3 (by omega)) (h 2 (by omega))) (congrArg₂ _ (h 1 (by omega)) rfl)

lemma storeWords_outside {ws : List (BitVec 32)} (h : 4 * ws.length ≤ (x - a).toNat) : storeWords m a ws x = m x := by
  induction ws generalizing m a with
  | nil => rfl
  | cons w ws ih =>
    rw [List.length_cons] at h
    rw [storeWords, ih]
    · exact store_outside (by omega)
    · have hlt := (x - a).isLt
      have hsub : (x - (a + 4)).toNat = (x - a).toNat - 4 := by bv_omega
      omega

/-- As long as the words do not go round and meet, each of them can be read back. -/
lemma load_storeWords {ws : List (BitVec 32)} (h : 4 * ws.length ≤ 2 ^ 32) {k : ℕ} (hk : k < ws.length) :
    load (storeWords m a ws) (a + BitVec.ofNat 32 (4 * k)) = ws[k] := by
  induction ws generalizing m a k with
  | nil => cases hk
  | cons w ws ih =>
    rw [List.length_cons] at h hk
    cases k with
    | zero =>
      rw [Nat.mul_zero, BitVec.add_zero, storeWords, List.getElem_cons_zero]
      refine Eq.trans (load_congr fun k hk => storeWords_outside ?_) (load_store_self (m := m))
      have hsub : (a + BitVec.ofNat 32 k - (a + 4)).toNat = 2 ^ 32 + k - 4 := by bv_omega
      omega
    | succ k =>
      have hnext : a + BitVec.ofNat 32 (4 * (k + 1)) = a + 4 + BitVec.ofNat 32 (4 * k) := by bv_omega
      rw [hnext, storeWords, List.getElem_cons_succ]
      exact ih (by omega) (by omega)

end Devos.FlatMemory
