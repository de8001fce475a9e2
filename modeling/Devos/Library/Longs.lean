import Mathlib.Data.BitVec
import Mathlib.Data.Nat.Notation
import Mathlib.Tactic.Lemma

/-! Memory in pages of bytes, and the 32-bit words in a page, lowest byte first. -/

namespace Devos.Longs

/-- A byte of a page. -/
abbrev Memory := ℕ → ℕ → BitVec 8

variable {m : Memory} {p q i j w : ℕ}

def long (m : Memory) (p i : ℕ) : ℕ :=
  (m p (4 * i)).toNat + 256 * (m p (4 * i + 1)).toNat + 65536 * (m p (4 * i + 2)).toNat +
    16777216 * (m p (4 * i + 3)).toNat

def setLong (m : Memory) (p i w : ℕ) : Memory :=
  Function.update m p fun o => if o / 4 = i then BitVec.ofNat 8 (w / 256 ^ (o % 4)) else m p o

@[simp] lemma setLong_of_ne (h : q ≠ p) : setLong m p i w q = m q := Function.update_of_ne h _ _

lemma setLong_byte (o : ℕ) :
    setLong m p i w p o = if o / 4 = i then BitVec.ofNat 8 (w / 256 ^ (o % 4)) else m p o := by
  rw [setLong, Function.update_self]

lemma long_lt (m : Memory) (p i : ℕ) : long m p i < 2 ^ 32 := by
  unfold long
  omega

lemma long_setLong_self (hw : w < 2 ^ 32) : long (setLong m p i w) p i = w := by
  have h₀ : (4 * i) / 4 = i ∧ (4 * i) % 4 = 0 := by omega
  have h₁ : (4 * i + 1) / 4 = i ∧ (4 * i + 1) % 4 = 1 := by omega
  have h₂ : (4 * i + 2) / 4 = i ∧ (4 * i + 2) % 4 = 2 := by omega
  have h₃ : (4 * i + 3) / 4 = i ∧ (4 * i + 3) % 4 = 3 := by omega
  unfold long
  rw [setLong_byte, setLong_byte, setLong_byte, setLong_byte, if_pos h₀.1, if_pos h₁.1, if_pos h₂.1, if_pos h₃.1,
    h₀.2, h₁.2, h₂.2, h₃.2, BitVec.toNat_ofNat, BitVec.toNat_ofNat, BitVec.toNat_ofNat, BitVec.toNat_ofNat]
  omega

lemma long_setLong_of_ne (h : q ≠ p ∨ j ≠ i) : long (setLong m p i w) q j = long m q j := by
  unfold long
  by_cases hq : q = p
  · subst hq
    have hj := h.resolve_left (fun hne => hne rfl)
    have hcell : ∀ k < 4, setLong m q i w q (4 * j + k) = m q (4 * j + k) := by
      intro k hk
      rw [setLong_byte, if_neg]
      omega
    have h₀ := hcell 0 (by decide)
    rw [Nat.add_zero] at h₀
    rw [h₀, hcell 1 (by decide), hcell 2 (by decide), hcell 3 (by decide)]
  · rw [setLong_of_ne hq]

lemma setLong_comm {v : ℕ} (h : p ≠ q) : setLong (setLong m p i w) q j v = setLong (setLong m q j v) p i w := by
  unfold setLong
  rw [Function.update_of_ne (Ne.symm h), Function.update_of_ne h, Function.update_comm h]

lemma long_congr {m' : Memory} (h : m' p = m p) : long m' p i = long m p i := by
  unfold long
  rw [h]

/-- The bytes of a word are those of its number. -/
lemma bytes_of_long {m' : Memory} (h : long m' p i = long m p i) {o : ℕ} (ho : o / 4 = i) : m' p o = m p o := by
  have hcase : o = 4 * i ∨ o = 4 * i + 1 ∨ o = 4 * i + 2 ∨ o = 4 * i + 3 := by omega
  unfold long at h
  apply BitVec.eq_of_toNat_eq
  rcases hcase with rfl | rfl | rfl | rfl <;> omega

lemma long_zero (h : ∀ o, m p o = 0) (i : ℕ) : long m p i = 0 := by
  unfold long
  rw [h, h, h, h]
  rfl

/-- Memory that has the words `v`. -/
def ofLongs (v : ℕ → ℕ → ℕ) : Memory := fun p o => BitVec.ofNat 8 (v p (o / 4) / 256 ^ (o % 4))

lemma long_ofLongs {v : ℕ → ℕ → ℕ} (h : v p i < 2 ^ 32) : long (ofLongs v) p i = v p i := by
  have hsame : setLong (ofLongs v) p i (v p i) = ofLongs v := by
    funext q o
    by_cases hq : q = p
    · subst hq
      rw [setLong_byte]
      split_ifs with ho
      · rw [ofLongs, ho]
      · rfl
    · rw [setLong_of_ne hq]
  rw [← hsame]
  exact long_setLong_self h

section Flat

variable {m m' : ℕ → BitVec 8} {a b v : ℕ}

/-- The word at any address of memory that is not in pages. -/
def longAt (m : ℕ → BitVec 8) (a : ℕ) : ℕ := long (fun _ o => m (a + o)) 0 0

def setLongAt (m : ℕ → BitVec 8) (a w : ℕ) : ℕ → BitVec 8 :=
  fun x => if a ≤ x ∧ x < a + 4 then BitVec.ofNat 8 (w / 256 ^ (x - a)) else m x

lemma longAt_congr (h : ∀ j < 4, m' (a + j) = m (a + j)) : longAt m' a = longAt m a := by
  simp only [longAt, long, Nat.mul_zero, Nat.zero_add, h, Nat.reduceLT]

lemma setLongAt_of_not {x : ℕ} (h : ¬(a ≤ x ∧ x < a + 4)) : setLongAt m a w x = m x := if_neg h

lemma longAt_setLongAt_self (hw : w < 2 ^ 32) : longAt (setLongAt m a w) a = w := by
  have hbytes : ∀ j < 4, setLongAt m a w (a + j) = setLong (fun _ o => m (a + o)) 0 0 w 0 j := by
    intro j hj
    have hpart : j / 4 = 0 ∧ j % 4 = j := by omega
    rw [setLongAt, if_pos ⟨Nat.le_add_right _ _, by omega⟩, setLong_byte, if_pos hpart.1, hpart.2,
      Nat.add_sub_cancel_left]
  have hself := long_setLong_self (m := fun _ o => m (a + o)) (p := 0) (i := 0) hw
  simpa only [longAt, long, Nat.mul_zero, Nat.zero_add, hbytes, Nat.reduceLT] using hself

end Flat

end Devos.Longs
