import Devos.Basic
import Devos.Library.Loops

/-! Strings in memory, which end at the first zero byte. -/

namespace Devos

namespace CString

def cons (c : Byte) (hc : c ≠ 0) (s : CString) : CString := 
  ⟨c :: s.chars, fun h => (List.mem_cons.mp h).elim (fun h => hc h.symm) s.nulFree⟩

def append (a b : CString) : CString := 
  ⟨a.chars ++ b.chars, fun h => (List.mem_append.mp h).elim a.nulFree b.nulFree⟩

/-- The string at `a`, whose terminator is one of the next `n` bytes. -/
def read (m : ℕ → Byte) : ℕ → ℕ → Except Fault CString
  | _, 0 => .error .overrun
  | a, n + 1 => if hc : m a = 0 then .ok empty else (read m (a + 1) n).map (cons (m a) hc)

/-- `strcat` to an array of `n` bytes. -/
def strcat (n : ℕ) (a b : CString) : Except Fault CString :=
  if a.strlen + b.strlen < n then .ok (a.append b) else .error .overrun

variable {m m' : ℕ → Byte} {a n k : ℕ} {s : CString}

/-- The first zero byte from `a` on is `k` bytes away. -/
structure Ends (m : ℕ → Byte) (a k : ℕ) : Prop where
  zero : m (a + k) = 0
  before : ∀ j < k, m (a + j) ≠ 0

lemma Ends.unique {k' : ℕ} (h : Ends m a k) (h' : Ends m a k') : k = k' := by
  rcases Nat.lt_trichotomy k k' with hlt | heq | hlt
  · exact absurd h.zero (h'.before k hlt)
  · exact heq
  · exact absurd h'.zero (h.before k' hlt)

lemma ends_succ (ha : m a ≠ 0) : Ends m a (k + 1) ↔ Ends m (a + 1) k := by
  have hplace : ∀ j, a + 1 + j = a + (j + 1) := fun j => by omega
  constructor
  · intro h
    refine ⟨by rw [hplace]; exact h.zero, fun j hj => ?_⟩
    rw [hplace]
    exact h.before (j + 1) (Nat.succ_lt_succ hj)
  · intro h
    refine ⟨by rw [← hplace]; exact h.zero, fun j hj => ?_⟩
    cases j with
    | zero => exact ha
    | succ j =>
      rw [← hplace]
      exact h.before j (Nat.lt_of_succ_lt_succ hj)

lemma ends_zero (ha : m a = 0) : Ends m a 0 := ⟨ha, fun _ hj => absurd hj (Nat.not_lt_zero _)⟩

theorem read_strlen_iff : (∃ s, read m a n = .ok s ∧ s.strlen = k) ↔ k < n ∧ Ends m a k := by
  induction n generalizing a k with
  | zero => simp [read]
  | succ n ih =>
    rw [read]
    by_cases ha : m a = 0
    · rw [dif_pos ha]
      constructor
      · rintro ⟨s, hs, rfl⟩
        obtain rfl := Except.ok.inj hs
        exact ⟨Nat.succ_pos _, ends_zero ha⟩
      · rintro ⟨_, hends⟩
        exact ⟨empty, rfl, (ends_zero ha).unique hends⟩
    · rw [dif_neg ha]
      cases k with
      | zero =>
        constructor
        · rintro ⟨s, hs, hzero⟩
          obtain ⟨t, _, rfl⟩ := Loops.map_eq_ok hs
          cases hzero
        · rintro ⟨_, hends⟩
          exact absurd hends.zero ha
      | succ k =>
        rw [ends_succ ha, Nat.succ_lt_succ_iff, ← ih]
        constructor
        · rintro ⟨s, hs, hlen⟩
          obtain ⟨t, ht, rfl⟩ := Loops.map_eq_ok hs
          exact ⟨t, ht, Nat.succ.inj hlen⟩
        · rintro ⟨t, ht, hlen⟩
          exact ⟨cons (m a) ha t, by rw [ht]; rfl, congrArg Nat.succ hlen⟩

lemma ends_of_read (h : read m a n = .ok s) : Ends m a s.strlen := (read_strlen_iff.mp ⟨s, h, rfl⟩).2

lemma Ends.congr (h : Ends m a k) (heq : ∀ j ≤ k, m' (a + j) = m (a + j)) : Ends m' a k :=
  ⟨by rw [heq k (le_refl _)]; exact h.zero, fun j hj => by rw [heq j hj.le]; exact h.before j hj⟩

/-- The bytes of `s` are at `a`, and the zero after them. -/
def Holds (m : ℕ → Byte) (a : ℕ) (s : CString) : Prop := ∀ j ≤ s.strlen, m (a + j) = s.char j

lemma Holds.congr {a' : ℕ} (h : Holds m a s) (heq : ∀ j ≤ s.strlen, m' (a' + j) = m (a + j)) : Holds m' a' s :=
  fun j hj => (heq j hj).trans (h j hj)

lemma holds_cons {c : Byte} {hc : c ≠ 0} : Holds m a (cons c hc s) ↔ m a = c ∧ Holds m (a + 1) s := by
  have hplace : ∀ j, a + 1 + j = a + (j + 1) := fun j => by omega
  constructor
  · intro h
    refine ⟨h 0 (Nat.zero_le _), fun j hj => ?_⟩
    rw [hplace]
    exact h (j + 1) (Nat.succ_le_succ hj)
  · rintro ⟨hfirst, h⟩ j hj
    cases j with
    | zero => exact hfirst
    | succ j =>
      rw [← hplace]
      exact h j (Nat.le_of_succ_le_succ hj)

theorem read_eq_iff : read m a n = .ok s ↔ s.strlen < n ∧ Holds m a s := by
  induction n generalizing a s with
  | zero => simp [read]
  | succ n ih =>
    obtain ⟨chars, hnul⟩ := s
    rw [read]
    cases chars with
    | nil =>
      by_cases ha : m a = 0
      · rw [dif_pos ha]
        refine iff_of_true rfl ⟨Nat.succ_pos _, fun j hj => ?_⟩
        obtain rfl := Nat.le_zero.mp hj
        exact ha
      · rw [dif_neg ha]
        refine iff_of_false (fun h => ?_) fun h => ha (h.2 0 (Nat.le_refl _))
        obtain ⟨t, _, ht⟩ := Loops.map_eq_ok h
        cases congrArg chars ht
    | cons c chars =>
      have hc : c ≠ 0 := fun h => hnul (h ▸ List.mem_cons_self)
      have hrest : (0 : Byte) ∉ chars := fun h => hnul (List.mem_cons_of_mem _ h)
      change _ ↔ strlen ⟨chars, hrest⟩ + 1 < n + 1 ∧ Holds m a (cons c hc ⟨chars, hrest⟩)
      rw [holds_cons, Nat.succ_lt_succ_iff]
      by_cases ha : m a = 0
      · rw [dif_pos ha]
        refine iff_of_false (fun h => ?_) fun h => hc (h.2.1.symm.trans ha)
        cases Except.ok.inj h
      · rw [dif_neg ha]
        constructor
        · intro h
          obtain ⟨t, ht, hcons⟩ := Loops.map_eq_ok h
          obtain ⟨rfl, rfl⟩ := List.cons.inj (congrArg CString.chars hcons)
          exact ⟨(ih.mp ht).1, rfl, (ih.mp ht).2⟩
        · rintro ⟨hlen, rfl, hholds⟩
          rw [ih.mpr ⟨hlen, hholds⟩]
          rfl

end CString

end Devos
