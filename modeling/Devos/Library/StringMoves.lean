import Mathlib.Data.Nat.Notation
import Mathlib.Tactic.Lemma

/-! Memory of which a window may be written, and the repeated string instructions of a processor on
it: moves and stores of `k` cells at a time, upwards and downwards. -/

namespace Devos.StringMoves

variable {ε β : Type*}

/-- A memory, the window `[lo, hi)` of it that may be written, and what a store elsewhere does. -/
structure Window (ε : Type*) where
  lo : ℕ
  hi : ℕ
  fault : ε

namespace Window

variable (w : Window ε)

def put (a k : ℕ) (f : ℕ → β) (m : ℕ → β) : Except ε (ℕ → β) :=
  if w.lo ≤ a ∧ a + k ≤ w.hi then .ok fun b => if a ≤ b ∧ b < a + k then f (b - a) else m b else .error w.fault

def moves (k : ℕ) : ℕ → ℕ → ℕ → (ℕ → β) → Except ε (ℕ → β)
  | 0, _, _, m => .ok m
  | n + 1, dst, src, m => (w.put dst k (fun i => m (src + i)) m).bind (moves k n (dst + k) (src + k))

def movesDown (k : ℕ) : ℕ → ℕ → ℕ → (ℕ → β) → Except ε (ℕ → β)
  | 0, _, _, m => .ok m
  | n + 1, dst, src, m => (w.put dst k (fun i => m (src + i)) m).bind (movesDown k n (dst - k) (src - k))

def stores (k : ℕ) (f : ℕ → β) : ℕ → ℕ → (ℕ → β) → Except ε (ℕ → β)
  | 0, _, m => .ok m
  | n + 1, dst, m => (w.put dst k f m).bind (stores k f n (dst + k))

def storesDown (k : ℕ) (f : ℕ → β) : ℕ → ℕ → (ℕ → β) → Except ε (ℕ → β)
  | 0, _, m => .ok m
  | n + 1, dst, m => (w.put dst k f m).bind (storesDown k f n (dst - k))

variable {w} {k n dst src a : ℕ} {f : ℕ → β} {m : ℕ → β}

lemma put_eq (hlo : w.lo ≤ a) (hhi : a + k ≤ w.hi) :
    w.put a k f m = .ok fun b => if a ≤ b ∧ b < a + k then f (b - a) else m b := if_pos ⟨hlo, hhi⟩

/-- Upwards, to lower addresses. -/
theorem moves_eq (hlo : w.lo ≤ dst) (hhi : dst + k * n ≤ w.hi) (hsrc : dst + k ≤ src) :
    w.moves k n dst src m = .ok fun b => if dst ≤ b ∧ b < dst + k * n then m (b + src - dst) else m b := by
  induction n generalizing dst src m with
  | zero =>
    rw [moves]
    congr 1
    funext b
    rw [if_neg (by omega)]
  | succ n ih =>
    have hsucc : k * (n + 1) = k * n + k := Nat.mul_succ k n
    rw [moves, put_eq hlo (by omega), Except.bind, ih (by omega) (by omega) (by omega)]
    congr 1
    funext b
    have hcell : b + (src + k) - (dst + k) = b + src - dst := by omega
    rw [hcell]
    by_cases hb : dst + k ≤ b ∧ b < dst + k + k * n
    · rw [if_pos hb, if_neg (by omega), if_pos (by omega)]
    · rw [if_neg hb]
      by_cases hfirst : dst ≤ b ∧ b < dst + k
      · rw [if_pos hfirst, if_pos (by omega)]
        congr 1
        omega
      · rw [if_neg hfirst, if_neg (by omega)]

/-- Downwards, to higher addresses; `dst` and `src` are the highest cells, `k` at a time. -/
theorem movesDown_eq (hlo : w.lo + k * n ≤ dst + k) (hhi : dst + k ≤ w.hi) (hsrc : src + k ≤ dst)
    (hlow : k * n ≤ src + k) :
    w.movesDown k n dst src m =
      .ok fun b => if dst + k ≤ b + k * n ∧ b < dst + k then m (b + src - dst) else m b := by
  induction n generalizing dst src m with
  | zero =>
    rw [movesDown]
    congr 1
    funext b
    rw [if_neg (by omega)]
  | succ n ih =>
    have hsucc : k * (n + 1) = k * n + k := Nat.mul_succ k n
    rw [movesDown, put_eq (by omega) hhi, Except.bind]
    cases n with
    | zero =>
      rw [movesDown]
      congr 1
      funext b
      by_cases hb : dst ≤ b ∧ b < dst + k
      · rw [if_pos hb, if_pos (by omega)]
        congr 1
        omega
      · rw [if_neg hb, if_neg (by omega)]
    | succ n =>
      have hsucc' : k * (n + 1) = k * n + k := Nat.mul_succ k n
      rw [ih (by omega) (by omega) (by omega) (by omega)]
      congr 1
      funext b
      have hcell : b + (src - k) - (dst - k) = b + src - dst := by omega
      rw [hcell]
      by_cases hb : dst - k + k ≤ b + k * (n + 1) ∧ b < dst - k + k
      · rw [if_pos hb, if_neg (by omega), if_pos (by omega)]
      · rw [if_neg hb]
        by_cases hfirst : dst ≤ b ∧ b < dst + k
        · rw [if_pos hfirst, if_pos (by omega)]
          congr 1
          omega
        · rw [if_neg hfirst, if_neg (by omega)]

theorem stores_eq (hlo : w.lo ≤ dst) (hhi : dst + k * n ≤ w.hi) :
    w.stores k f n dst m = .ok fun b => if dst ≤ b ∧ b < dst + k * n then f ((b - dst) % k) else m b := by
  induction n generalizing dst m with
  | zero =>
    rw [stores]
    congr 1
    funext b
    rw [if_neg (by omega)]
  | succ n ih =>
    have hsucc : k * (n + 1) = k * n + k := Nat.mul_succ k n
    rw [stores, put_eq hlo (by omega), Except.bind, ih (by omega) (by omega)]
    congr 1
    funext b
    by_cases hb : dst + k ≤ b ∧ b < dst + k + k * n
    · have hcell : b - dst = b - (dst + k) + k := by omega
      rw [if_pos hb, if_pos (by omega), hcell, Nat.add_mod_right]
    · rw [if_neg hb]
      by_cases hfirst : dst ≤ b ∧ b < dst + k
      · rw [if_pos hfirst, if_pos (by omega), Nat.mod_eq_of_lt (by omega)]
      · rw [if_neg hfirst, if_neg (by omega)]

/-- Downwards from the cells at `dst`. -/
theorem storesDown_eq (hlo : w.lo + k * n ≤ dst + k) (hhi : dst + k ≤ w.hi) :
    w.storesDown k f n dst m =
      .ok fun b => if dst + k ≤ b + k * n ∧ b < dst + k then f ((b + k * n - (dst + k)) % k) else m b := by
  induction n generalizing dst m with
  | zero =>
    rw [storesDown]
    congr 1
    funext b
    rw [if_neg (by omega)]
  | succ n ih =>
    have hsucc : k * (n + 1) = k * n + k := Nat.mul_succ k n
    rw [storesDown, put_eq (by omega) hhi, Except.bind]
    cases n with
    | zero =>
      rw [storesDown]
      congr 1
      funext b
      by_cases hb : dst ≤ b ∧ b < dst + k
      · rw [if_pos hb, if_pos (by omega), Nat.mod_eq_of_lt (by omega)]
        congr 1
        omega
      · rw [if_neg hb, if_neg (by omega)]
    | succ n =>
      have hsucc' : k * (n + 1) = k * n + k := Nat.mul_succ k n
      rw [ih (by omega) (by omega)]
      congr 1
      funext b
      by_cases hb : dst - k + k ≤ b + k * (n + 1) ∧ b < dst - k + k
      · have hcell : b + k * (n + 1) - (dst - k + k) = b + k * (n + 1 + 1) - (dst + k) := by omega
        rw [if_pos hb, if_pos (by omega), hcell]
      · rw [if_neg hb]
        by_cases hfirst : dst ≤ b ∧ b < dst + k
        · have hcell : b + k * (n + 1 + 1) - (dst + k) = b - dst + k * (n + 1) := by omega
          rw [if_pos hfirst, if_pos (by omega), hcell, Nat.add_mul_mod_self_left, Nat.mod_eq_of_lt (by omega)]
        · rw [if_neg hfirst, if_neg (by omega)]

end Window

end Devos.StringMoves
