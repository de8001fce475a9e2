import Mathlib.Logic.Function.Basic
import Mathlib.Data.List.Range
import Mathlib.Data.Nat.Notation
import Mathlib.Tactic.Lemma

/-! A ring of `n` cells between two positions, as the list of what it holds. One cell stays free, so
that a full ring differs from an empty one. -/

namespace Devos

structure Ring (α : Type*) where
  cell : ℕ → α
  head : ℕ
  tail : ℕ

namespace Ring

variable {α : Type*} {n : ℕ} {r : Ring α}

def size (n : ℕ) (r : Ring α) : ℕ := (r.head + n - r.tail) % n

def held (n : ℕ) (r : Ring α) : List α := (List.range (r.size n)).map fun k => r.cell ((r.tail + k) % n)

def push (n : ℕ) (r : Ring α) (c : α) : Ring α :=
  { r with cell := Function.update r.cell r.head c, head := (r.head + 1) % n }

def pop (n : ℕ) (r : Ring α) : Ring α := { r with tail := (r.tail + 1) % n }

structure Inside (n : ℕ) (r : Ring α) : Prop where
  head_lt : r.head < n
  tail_lt : r.tail < n

lemma Inside.push (h : r.Inside n) (c : α) : (r.push n c).Inside n :=
  ⟨Nat.mod_lt _ (by have := h.head_lt; omega), h.tail_lt⟩

lemma Inside.pop (h : r.Inside n) : (r.pop n).Inside n :=
  ⟨h.head_lt, Nat.mod_lt _ (by have := h.head_lt; omega)⟩

lemma Inside.pushes (h : r.Inside n) (cs : List α) : (cs.foldl (Ring.push n) r).Inside n := by
  induction cs generalizing r with
  | nil => exact h
  | cons c cs ih => exact ih (h.push c)

lemma Inside.size_cases (h : r.Inside n) :
    r.size n = if r.tail ≤ r.head then r.head - r.tail else r.head + n - r.tail := by
  have h₁ := h.head_lt
  have h₂ := h.tail_lt
  rw [size]
  by_cases hle : r.tail ≤ r.head
  · rw [if_pos hle, show r.head + n - r.tail = r.head - r.tail + n by omega, Nat.add_mod_right,
      Nat.mod_eq_of_lt (by omega)]
  · rw [if_neg hle, Nat.mod_eq_of_lt (by omega)]

lemma size_lt (hn : 0 < n) (r : Ring α) : r.size n < n := Nat.mod_lt _ hn

@[simp] lemma length_held (n : ℕ) (r : Ring α) : (r.held n).length = r.size n := by simp [held]

lemma Inside.size_eq_zero (h : r.Inside n) : r.size n = 0 ↔ r.head = r.tail := by
  have h₁ := h.head_lt
  have h₂ := h.tail_lt
  rw [h.size_cases]
  split <;> omega

lemma Inside.held_eq_nil (h : r.Inside n) (heq : r.head = r.tail) : r.held n = [] := by
  rw [held, h.size_eq_zero.mpr heq]
  rfl

lemma Inside.size_push (h : r.Inside n) (hfull : r.size n ≠ n - 1) (c : α) :
    (r.push n c).size n = r.size n + 1 := by
  have h₁ := h.head_lt
  have h₂ := h.tail_lt
  have hnext : (r.head + 1) % n = if r.head + 1 = n then 0 else r.head + 1 := by
    split
    next heq => rw [heq, Nat.mod_self]
    next hne => exact Nat.mod_eq_of_lt (by omega)
  have hsize := h.size_cases
  rw [(h.push c).size_cases]
  simp only [Ring.push, hnext]
  rw [hsize] at hfull ⊢
  split_ifs at hfull ⊢ <;> omega

lemma Inside.size_pop (h : r.Inside n) (hne : r.head ≠ r.tail) : (r.pop n).size n + 1 = r.size n := by
  have h₁ := h.head_lt
  have h₂ := h.tail_lt
  have hnext : (r.tail + 1) % n = if r.tail + 1 = n then 0 else r.tail + 1 := by
    split
    next heq => rw [heq, Nat.mod_self]
    next hlt => exact Nat.mod_eq_of_lt (by omega)
  rw [h.size_cases, h.pop.size_cases]
  simp only [Ring.pop, hnext]
  split_ifs <;> omega

lemma Inside.cell_ne_head (h : r.Inside n) {k : ℕ} (hk : k < r.size n) : (r.tail + k) % n ≠ r.head := by
  have h₁ := h.head_lt
  have h₂ := h.tail_lt
  rw [h.size_cases] at hk
  by_cases hlt : r.tail + k < n
  · rw [Nat.mod_eq_of_lt hlt]
    split_ifs at hk <;> omega
  · rw [Nat.mod_eq_sub_mod (by omega), Nat.mod_eq_of_lt (by split_ifs at hk <;> omega)]
    split_ifs at hk <;> omega

lemma Inside.head_eq (h : r.Inside n) : (r.tail + r.size n) % n = r.head := by
  have h₁ := h.head_lt
  have h₂ := h.tail_lt
  rw [h.size_cases]
  by_cases hle : r.tail ≤ r.head
  · rw [if_pos hle, Nat.mod_eq_of_lt (by omega)]
    omega
  · rw [if_neg hle, show r.tail + (r.head + n - r.tail) = r.head + n by omega, Nat.add_mod_right,
      Nat.mod_eq_of_lt h₁]

theorem Inside.held_push (h : r.Inside n) (hfull : r.size n ≠ n - 1) (c : α) :
    (r.push n c).held n = r.held n ++ [c] := by
  rw [held, h.size_push hfull, List.range_succ, List.map_append, held]
  congr 1
  · apply List.map_congr_left
    intro k hk
    exact Function.update_of_ne (h.cell_ne_head (List.mem_range.mp hk)) _ _
  · change [Function.update r.cell r.head c ((r.tail + r.size n) % n)] = [c]
    rw [h.head_eq, Function.update_self]

/-- One more than fits, and the ring looks empty. -/
lemma Inside.size_push_full (h : r.Inside n) (hfull : r.size n = n - 1) (c : α) : (r.push n c).size n = 0 := by
  have h₁ := h.head_lt
  have h₂ := h.tail_lt
  rw [(h.push c).size_eq_zero]
  rw [h.size_cases] at hfull
  by_cases hwrap : r.head + 1 = n
  · simp only [Ring.push, hwrap, Nat.mod_self]
    split_ifs at hfull <;> omega
  · simp only [Ring.push, Nat.mod_eq_of_lt (show r.head + 1 < n by omega)]
    split_ifs at hfull <;> omega

lemma Inside.held_push_cases (h : r.Inside n) (c : α) :
    (r.push n c).held n = r.held n ++ [c] ∨ (r.push n c).held n = [] := by
  by_cases hfull : r.size n = n - 1
  · exact Or.inr ((h.push c).held_eq_nil ((h.push c).size_eq_zero.mp (h.size_push_full hfull c)))
  · exact Or.inl (h.held_push hfull c)

theorem Inside.held_pushes (h : r.Inside n) {cs : List α} (hroom : r.size n + cs.length ≤ n - 1) :
    (cs.foldl (Ring.push n) r).held n = r.held n ++ cs := by
  induction cs generalizing r with
  | nil => rw [List.foldl_nil, List.append_nil]
  | cons c cs ih =>
    rw [List.length_cons] at hroom
    have hsize := h.size_push (by omega) c
    rw [List.foldl_cons, ih (h.push c) (by omega), h.held_push (by omega), List.append_assoc, List.singleton_append]

/-- The last cell taken back. -/
theorem Inside.held_back (h : r.Inside n) (hne : r.head ≠ r.tail) :
    r.held n = ({ r with head := (r.head + (n - 1)) % n } : Ring α).held n ++ [r.cell ((r.head + (n - 1)) % n)] := by
  have h₁ := h.head_lt
  have hback : ({ r with head := (r.head + (n - 1)) % n } : Ring α).Inside n :=
    ⟨Nat.mod_lt _ (by omega), h.tail_lt⟩
  have hpush : ({ r with head := (r.head + (n - 1)) % n } : Ring α).push n (r.cell ((r.head + (n - 1)) % n)) = r := by
    have hhead : ((r.head + (n - 1)) % n + 1) % n = r.head := by
      rw [Nat.mod_add_mod, show r.head + (n - 1) + 1 = r.head + n by omega, Nat.add_mod_right, Nat.mod_eq_of_lt h₁]
    simp [Ring.push, hhead]
  have hroom : ({ r with head := (r.head + (n - 1)) % n } : Ring α).size n ≠ n - 1 := by
    intro hfull
    have hzero := hback.size_push_full hfull (r.cell ((r.head + (n - 1)) % n))
    rw [hpush, h.size_eq_zero] at hzero
    exact hne hzero
  have hheld := hback.held_push hroom (r.cell ((r.head + (n - 1)) % n))
  rwa [hpush] at hheld

theorem Inside.held_pop (h : r.Inside n) (hne : r.head ≠ r.tail) :
    r.held n = r.cell r.tail :: (r.pop n).held n := by
  rw [held, ← h.size_pop hne, List.range_succ_eq_map, List.map_cons, Nat.add_zero, Nat.mod_eq_of_lt h.tail_lt,
    List.map_map, held]
  congr 1
  apply List.map_congr_left
  intro k _
  have hmod : (r.tail + (k + 1)) % n = ((r.tail + 1) % n + k) % n := by
    rw [Nat.mod_add_mod]
    congr 1
    omega
  exact congrArg r.cell hmod

/-- What was held before is still there below what has been put behind it, even if the last cell does not fit. -/
theorem Inside.held_undo (h : r.Inside n) {q : Ring α} {cs : List α} (htail : q.tail = r.tail)
    (hheld : r.held n = q.held n ++ cs) (c : α) : ({ r.push n c with head := q.head } : Ring α).held n = q.held n := by
  have hsize : q.size n ≤ r.size n := by
    rw [← length_held n q, ← length_held n r, hheld, List.length_append]
    exact Nat.le_add_right _ _
  have htake : q.held n = (r.held n).take (q.size n) := by
    rw [hheld, ← length_held n q, List.take_left]
  have hsame : ({ r.push n c with head := q.head } : Ring α).size n = q.size n := by
    change (q.head + n - r.tail) % n = _
    rw [← htail]
    rfl
  rw [htake, held, hsame, held, ← List.map_take, List.take_range, Nat.min_eq_left hsize]
  apply List.map_congr_left
  intro k hk
  exact Function.update_of_ne (h.cell_ne_head (lt_of_lt_of_le (List.mem_range.mp hk) hsize)) _ _

end Ring

end Devos
