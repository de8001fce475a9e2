import Devos.Library.Loops
import Mathlib.Logic.Equiv.Basic
import Mathlib.Algebra.Group.End
import Mathlib.Order.Defs.LinearOrder
import Mathlib.Order.Basic

/-! Exchange sort as a permutation of positions, and the search that recovers a permutation from
the sorted values. -/

namespace Devos.ExchangeSort

open Loops Equiv

variable {α β : Type*}

def exchange (f : ℕ → α) (i j : ℕ) : ℕ → α :=
  Function.update (Function.update f i (f j)) j (f i)

lemma exchange_eq_comp (f : ℕ → α) (i j : ℕ) : exchange f i j = f ∘ swap i j := by
  funext x
  simp only [exchange, Function.comp_apply, swap_apply_def]
  by_cases hj : x = j
  · subst hj
    by_cases hi : x = i
    · subst hi; simp
    · simp [hi]
  · by_cases hi : x = i
    · subst hi; simp [hj]
    · simp [hi, hj]

lemma exchange_comp (f : ℕ → α) (p : Perm ℕ) (i j : ℕ) :
    exchange (f ∘ p) i j = f ∘ (p * swap i j) := by
  rw [exchange_eq_comp]
  rfl

def Below (n : ℕ) (p : Perm ℕ) : Prop := ∀ x, n ≤ x → p x = x

lemma below_one (n : ℕ) : Below n 1 := fun _ _ => rfl

lemma Below.lt {n : ℕ} {p : Perm ℕ} (hp : Below n p) {x : ℕ} (hx : x < n) : p x < n := by
  by_contra hh
  have he : p (p x) = p x := hp (p x) (by omega)
  have := p.injective he
  omega

lemma Below.mul {n : ℕ} {p q : Perm ℕ} (hp : Below n p) (hq : Below n q) : Below n (p * q) := by
  intro x hx
  rw [Perm.mul_apply, hq x hx, hp x hx]

lemma below_swap {n i j : ℕ} (hi : i < n) (hj : j < n) : Below n (swap i j) := by
  intro x hx
  exact swap_apply_of_ne_of_ne (by omega) (by omega)

lemma Below.symm {n : ℕ} {p : Perm ℕ} (hp : Below n p) : Below n p.symm := by
  intro x hx
  rw [Equiv.symm_apply_eq, hp x hx]

section Ordering

variable [LinearOrder α] (key : ℕ → α) (n : ℕ)

def promote (i j : ℕ) (p : Perm ℕ) : Perm ℕ :=
  if key (p j) < key (p i) then p * swap i j else p

def order : Perm ℕ := forLoop 0 n (fun i => forLoop i n (promote key i)) 1

variable {key n}

lemma promote_below {i j : ℕ} {p : Perm ℕ} (hi : i < n) (hj : j < n) (hp : Below n p) :
    Below n (promote key i j p) := by
  unfold promote
  split
  · exact hp.mul (below_swap hi hj)
  · exact hp

/-- Positions below `i` hold their final keys: nothing behind them is smaller. -/
def Settled (key : ℕ → α) (n i : ℕ) (p : Perm ℕ) : Prop :=
  ∀ a b, a < i → a ≤ b → b < n → key (p a) ≤ key (p b)

lemma settled_mul_swap {i j : ℕ} {p : Perm ℕ} (hi : i ≤ j) (hj : j < n) (hs : Settled key n i p) :
    Settled key n i (p * swap i j) := by
  intro a b ha hab hb
  have hfix : swap i j a = a := swap_apply_of_ne_of_ne (by omega) (by omega)
  have hback : a ≤ swap i j b ∧ swap i j b < n := by
    rw [swap_apply_def]
    split_ifs <;> omega
  rw [Perm.mul_apply, Perm.mul_apply, hfix]
  exact hs a _ ha hback.1 hback.2

lemma promote_round {i : ℕ} {p : Perm ℕ} (hi : i < n) (hp : Below n p) (hs : Settled key n i p) :
    Below n (forLoop i n (promote key i) p) ∧ Settled key n (i + 1) (forLoop i n (promote key i) p) := by
  have hround : Below n (forLoop i n (promote key i) p) ∧
      Settled key n i (forLoop i n (promote key i) p) ∧
      ∀ b, i ≤ b → b < n →
        key (forLoop i n (promote key i) p i) ≤ key (forLoop i n (promote key i) p b) := by
    refine forLoop_induction
      (P := fun j q => Below n q ∧ Settled key n i q ∧ ∀ b, i ≤ b → b < j → key (q i) ≤ key (q b))
      hi.le ⟨hp, hs, by omega⟩ ?_
    rintro j q hij hjn ⟨hq, hqs, hmin⟩
    refine ⟨promote_below hi hjn hq, ?_, ?_⟩
    · unfold promote
      split
      · exact settled_mul_swap hij hjn hqs
      · exact hqs
    · intro b hib hbj
      unfold promote
      split
      next hlt =>
        rw [Perm.mul_apply, Perm.mul_apply, swap_apply_left]
        by_cases hbj' : b = j
        · subst hbj'
          rw [swap_apply_right]
          exact hlt.le
        · by_cases hbi : b = i
          · rw [hbi, swap_apply_left]
          · rw [swap_apply_of_ne_of_ne hbi hbj']
            exact hlt.le.trans (hmin b hib (by omega))
      next hge =>
        by_cases hbj' : b = j
        · rw [hbj']
          exact not_lt.mp hge
        · exact hmin b hib (by omega)
  refine ⟨hround.1, ?_⟩
  intro a b ha hab hb
  rcases Nat.lt_succ_iff_lt_or_eq.mp ha with ha' | rfl
  · exact hround.2.1 a b ha' hab hb
  · exact hround.2.2 b hab hb

theorem order_spec : Below n (order key n) ∧ Settled key n n (order key n) := by
  refine forLoop_induction (P := fun i p => Below n p ∧ Settled key n i p) (Nat.zero_le n)
    ⟨below_one n, by intro a b ha; omega⟩ ?_
  rintro i p - hin ⟨hp, hs⟩
  exact promote_round hin hp hs

theorem order_below : Below n (order key n) := order_spec.1

variable (key) in
theorem order_sorted {a b : ℕ} (hab : a ≤ b) (hb : b < n) :
    key (order key n a) ≤ key (order key n b) :=
  order_spec.2 a b (by omega) hab hb

/-- Keys that are in order stay where they are. -/
theorem order_of_sorted (h : ∀ a b, a ≤ b → b < n → key a ≤ key b) : order key n = 1 := by
  refine forLoop_induction (P := fun _ p => p = 1) (Nat.zero_le n) rfl ?_
  rintro i p - hin rfl
  refine forLoop_induction (P := fun _ p => p = 1) hin.le rfl ?_
  rintro j p hij hjn rfl
  exact if_neg (not_lt.mpr (h i j hij hjn))

end Ordering

section Recover

variable [DecidableEq β] (target sorted : ℕ → β) (n : ℕ)

def fetch (i j : ℕ) (q : Perm ℕ) : Perm ℕ :=
  if target i = sorted (q j) then q * swap i j else q

def recover : Perm ℕ := forLoop 0 n (fun i => forLoop i n (fetch target sorted i)) 1

variable {target sorted n}

lemma fetch_below {i j : ℕ} {q : Perm ℕ} (hi : i < n) (hj : j < n) (hq : Below n q) :
    Below n (fetch target sorted i j q) := by
  unfold fetch
  split
  · exact hq.mul (below_swap hi hj)
  · exact hq

theorem recover_below : Below n (recover target sorted n) := by
  refine forLoop_induction (P := fun _ q => Below n q) (Nat.zero_le n) (below_one n) ?_
  intro i q _ hin hq
  refine forLoop_induction (P := fun _ q => Below n q) hin.le hq ?_
  intro j q' _ hjn hq'
  exact fetch_below hin hjn hq'

def Recovered (target sorted : ℕ → β) (n i : ℕ) (q : Perm ℕ) : Prop :=
  Below n q ∧ ∀ a, a < i → sorted (q a) = target a

lemma fetch_round {i : ℕ} {q : Perm ℕ} (hi : i < n)
    (hex : ∃ x, x < n ∧ sorted x = target i)
    (hfresh : ∀ a, a < i → target a ≠ target i) (hq : Recovered target sorted n i q) :
    Recovered target sorted n (i + 1) (forLoop i n (fetch target sorted i) q) := by
  have hround : Recovered target sorted n i (forLoop i n (fetch target sorted i) q) ∧
      (sorted (forLoop i n (fetch target sorted i) q i) = target i ∨
        ∃ x, n ≤ x ∧ x < n ∧ sorted (forLoop i n (fetch target sorted i) q x) = target i) := by
    refine forLoop_induction
      (P := fun j q => Recovered target sorted n i q ∧
        (sorted (q i) = target i ∨ ∃ x, j ≤ x ∧ x < n ∧ sorted (q x) = target i))
      hi.le ⟨hq, Or.inr ?_⟩ ?_
    · obtain ⟨x, hx, he⟩ := hex
      have hxn : q.symm x < n := hq.1.symm.lt hx
      refine ⟨q.symm x, ?_, hxn, by rw [apply_symm_apply, he]⟩
      by_contra hlt
      have hh := hq.2 (q.symm x) (by omega)
      rw [apply_symm_apply, he] at hh
      exact hfresh _ (by omega) hh.symm
    · rintro j r hij hjn ⟨⟨hr, hdone⟩, hwant⟩
      unfold fetch
      split
      next heq =>
        refine ⟨⟨hr.mul (below_swap hi hjn), ?_⟩, Or.inl ?_⟩
        · intro a ha
          rw [Perm.mul_apply, swap_apply_of_ne_of_ne (by omega) (by omega)]
          exact hdone a ha
        · rw [Perm.mul_apply, swap_apply_left]
          exact heq.symm
      next hne =>
        refine ⟨⟨hr, hdone⟩, hwant.imp_right ?_⟩
        rintro ⟨x, hjx, hxn, hx⟩
        have hxj : x ≠ j := by
          rintro rfl
          exact hne hx.symm
        exact ⟨x, by omega, hxn, hx⟩
  obtain ⟨⟨hb, hdone⟩, hwant⟩ := hround
  refine ⟨hb, ?_⟩
  intro a ha
  rcases Nat.lt_succ_iff_lt_or_eq.mp ha with ha' | rfl
  · exact hdone a ha'
  · rcases hwant with hw | ⟨x, hx, hxn, _⟩
    · exact hw
    · omega

theorem recover_sorted {p : Perm ℕ} (hp : Below n p)
    (hinj : ∀ x y, x < n → y < n → target x = target y → x = y)
    (hsorted : ∀ x, x < n → sorted x = target (p x)) :
    Recovered target sorted n n (recover target sorted n) := by
  refine forLoop_induction (P := fun i q => Recovered target sorted n i q) (Nat.zero_le n)
    ⟨below_one n, by omega⟩ ?_
  intro i q _ hin hq
  refine fetch_round hin ?_ ?_ hq
  · exact ⟨p.symm i, hp.symm.lt hin, by rw [hsorted _ (hp.symm.lt hin), apply_symm_apply]⟩
  · intro a ha he
    have := hinj a i (by omega) hin he
    omega

theorem recover_inverse {p : Perm ℕ} (hp : Below n p)
    (hinj : ∀ x y, x < n → y < n → target x = target y → x = y)
    (hsorted : ∀ x, x < n → sorted x = target (p x)) :
    p * recover target sorted n = 1 := by
  obtain ⟨hb, hdone⟩ := recover_sorted hp hinj hsorted
  ext x
  rw [Perm.mul_apply, Perm.one_apply]
  by_cases hx : x < n
  · have hh := hdone x hx
    rw [hsorted _ (hb.lt hx)] at hh
    exact hinj _ _ (hp.lt (hb.lt hx)) hx hh
  · rw [hb x (by omega), hp x (by omega)]

lemma fetch_apply_of_lt {i j a : ℕ} {q : Perm ℕ} (ha : a < i) (hij : i ≤ j) : fetch target sorted i j q a = q a := by
  unfold fetch
  split_ifs
  · rw [Perm.mul_apply, swap_apply_of_ne_of_ne (by omega) (by omega)]
  · rfl

/-- The search does not end with the first match, so that the first of several equal values takes the place of the last. -/
theorem recover_repeated {i : ℕ} (hi : i + 1 < n) (heq : target i = target (i + 1))
    (hfirst : ∀ a b, a < i → a < b → b < n → target a ≠ target b) : i < recover target target n i := by
  have hrun : (n ≤ i → recover target target n = 1) ∧ (i < n → i < recover target target n i) := by
    refine forLoop_induction (P := fun k (q : Perm ℕ) => (k ≤ i → q = 1) ∧ (i < k → i < q i)) (Nat.zero_le n)
      ⟨fun _ => rfl, by omega⟩ ?_
    rintro k q - hkn ⟨hone, hmoved⟩
    rcases lt_trichotomy k i with hlt | rfl | hgt
    · refine ⟨fun _ => ?_, by omega⟩
      rw [hone hlt.le]
      refine forLoop_induction (P := fun _ q => q = 1) hkn.le rfl ?_
      rintro j q hkj hjn rfl
      unfold fetch
      rcases Nat.lt_or_eq_of_le hkj with hj | rfl
      · exact if_neg (hfirst k j hlt hj hjn)
      · rw [Perm.one_apply, if_pos rfl, swap_self]
        rfl
    · refine ⟨by omega, fun _ => ?_⟩
      rw [hone (le_refl k)]
      -- the places that the round has not come to are as they were
      have hround : (∀ x, n ≤ x → forLoop k n (fetch target target k) 1 x = x) ∧
          (k + 1 < n → k < forLoop k n (fetch target target k) 1 k) := by
        refine forLoop_induction (P := fun j (q : Perm ℕ) => (∀ x, j ≤ x → q x = x) ∧ (k + 1 < j → k < q k)) hkn.le
          ⟨fun _ _ => rfl, by omega⟩ ?_
        rintro j q hkj hjn ⟨hrest, hdone⟩
        have hself := hrest j (le_refl j)
        unfold fetch
        split_ifs with hmatch
        · refine ⟨?_, ?_⟩
          · intro x hx
            rw [Perm.mul_apply, swap_apply_of_ne_of_ne (by omega) (by omega), hrest x (by omega)]
          · intro hj
            rw [Perm.mul_apply, swap_apply_left, hself]
            omega
        · refine ⟨fun x hx => hrest x (by omega), ?_⟩
          intro hj
          apply hdone
          rcases Nat.lt_or_eq_of_le (show k + 1 ≤ j by omega) with hlt | rfl
          · exact hlt
          · rw [hself] at hmatch
            exact absurd heq hmatch
      exact hround.2 hi
    · refine ⟨by omega, fun _ => ?_⟩
      refine forLoop_induction (P := fun _ (q : Perm ℕ) => i < q i) hkn.le (hmoved hgt) ?_
      intro j q hkj _ hq
      rw [fetch_apply_of_lt hgt hkj]
      exact hq
  exact hrun.2 (by omega)

end Recover

end Devos.ExchangeSort
