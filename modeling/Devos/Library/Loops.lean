import Mathlib.Logic.Function.Basic
import Mathlib.Logic.Relation
import Mathlib.Data.Nat.Notation
import Mathlib.Tactic.Lemma

/-! Counted loops and unbounded loops as functions on a state, with their induction rules. -/

namespace Devos.Loops

variable {σ ρ : Type*}

def rounds (body : ℕ → σ → σ) (lo : ℕ) (s : σ) : ℕ → σ
  | 0 => s
  | n + 1 => body (lo + n) (rounds body lo s n)

def forLoop (lo hi : ℕ) (body : ℕ → σ → σ) (s : σ) : σ := rounds body lo s (hi - lo)

theorem forLoop_induction {lo hi : ℕ} {body : ℕ → σ → σ} {s : σ} {P : ℕ → σ → Prop}
    (hle : lo ≤ hi) (hi₀ : P lo s)
    (hstep : ∀ i s, lo ≤ i → i < hi → P i s → P (i + 1) (body i s)) :
    P hi (forLoop lo hi body s) := by
  have hr : ∀ n, lo + n ≤ hi → P (lo + n) (rounds body lo s n) := by
    intro n hn
    induction n with
    | zero => exact hi₀
    | succ n ih => exact hstep (lo + n) _ (by omega) (by omega) (ih (by omega))
  have hh := hr (hi - lo) (by omega)
  rwa [show lo + (hi - lo) = hi by omega] at hh

theorem forLoop_simulation {τ : Type*} {lo hi : ℕ} {body : ℕ → σ → σ} {body' : ℕ → τ → τ}
    {s : σ} {t : τ} (R : σ → τ → Prop) (hs : R s t)
    (hstep : ∀ i s t, lo ≤ i → i < hi → R s t → R (body i s) (body' i t)) :
    R (forLoop lo hi body s) (forLoop lo hi body' t) := by
  have hr : ∀ n, lo + n ≤ max lo hi → R (rounds body lo s n) (rounds body' lo t n) := by
    intro n hn
    induction n with
    | zero => exact hs
    | succ n ih => exact hstep (lo + n) _ _ (by omega) (by omega) (ih (by omega))
  exact hr (hi - lo) (by omega)

/-- A counted loop whose body can fail. -/
def forLoopE {ε : Type*} (body : ℕ → σ → Except ε σ) (s : σ) : ℕ → Except ε σ
  | 0 => .ok s
  | n + 1 => (forLoopE body s n).bind (body n)

lemma forLoopE_succ {ε : Type*} {body : ℕ → σ → Except ε σ} {s : σ} {n : ℕ} :
    forLoopE body s (n + 1) = (forLoopE body s n).bind (body n) := rfl

theorem forLoopE_induction {ε : Type*} {body : ℕ → σ → Except ε σ} {s : σ} {n : ℕ} {P : ℕ → σ → Prop}
    (h₀ : P 0 s) (hstep : ∀ i s, i < n → P i s → ∃ s', body i s = .ok s' ∧ P (i + 1) s') :
    ∃ s', forLoopE body s n = .ok s' ∧ P n s' := by
  induction n with
  | zero => exact ⟨s, rfl, h₀⟩
  | succ n ih =>
    obtain ⟨s', hs', hp⟩ := ih (fun i s hi => hstep i s (by omega))
    obtain ⟨s'', hb, hp'⟩ := hstep n s' (by omega) hp
    refine ⟨s'', ?_, hp'⟩
    rw [forLoopE_succ, hs', ← hb]
    rfl

lemma bind_eq_ok {ε α β : Type*} {x : Except ε α} {f : α → Except ε β} {b : β} (h : x.bind f = .ok b) :
    ∃ a, x = .ok a ∧ f a = .ok b := by
  cases x with
  | error e => cases h
  | ok a => exact ⟨a, rfl, h⟩

lemma map_eq_ok {ε α β : Type*} {x : Except ε α} {f : α → β} {b : β} (h : x.map f = .ok b) :
    ∃ a, x = .ok a ∧ f a = b := by
  cases x with
  | error e => cases h
  | ok a => exact ⟨a, rfl, Except.ok.inj h⟩

theorem forLoopE_invariant {ε : Type*} {body : ℕ → σ → Except ε σ} {s s' : σ} {n : ℕ} {P : ℕ → σ → Prop}
    (h₀ : P 0 s) (hstep : ∀ i s s', P i s → body i s = .ok s' → P (i + 1) s') (h : forLoopE body s n = .ok s') :
    P n s' := by
  induction n generalizing s' with
  | zero =>
    obtain rfl := Except.ok.inj h
    exact h₀
  | succ n ih =>
    obtain ⟨t, ht, hb⟩ := bind_eq_ok h
    exact hstep n t s' (ih ht) hb

lemma forLoopE_error {ε : Type*} {body : ℕ → σ → Except ε σ} {s : σ} {e : ε} (h : body 0 s = .error e) (n : ℕ) :
    forLoopE body s (n + 1) = .error e := by
  induction n with
  | zero => exact h
  | succ n ih =>
    rw [forLoopE_succ, ih]
    rfl

/-- A turn that fails ends the loop. -/
lemma forLoopE_error_of_le {ε : Type*} {body : ℕ → σ → Except ε σ} {s : σ} {e : ε} {m n : ℕ}
    (h : forLoopE body s m = .error e) (hmn : m ≤ n) : forLoopE body s n = .error e := by
  induction hmn with
  | refl => exact h
  | step _ ih =>
    rw [forLoopE_succ, ih]
    rfl

/-- What one pass through a loop body does: go round again, or leave with a result. -/
inductive Pass (σ ρ : Type*) where
  | again (s : σ)
  | leave (r : ρ)

/-- At most `n` passes of an unbounded loop; `none` when they do not reach its exit. -/
def iterate (body : σ → Pass σ ρ) : ℕ → σ → Option ρ
  | 0, _ => none
  | n + 1, s =>
    match body s with
    | .again s' => iterate body n s'
    | .leave r => some r

def Returns (body : σ → Pass σ ρ) (s : σ) (r : ρ) : Prop := ∃ n, iterate body n s = some r

def Terminates (body : σ → Pass σ ρ) (s : σ) : Prop := ∃ r, Returns body s r

section

variable {body : σ → Pass σ ρ} {s s' : σ} {r r' : ρ}

lemma iterate_zero : iterate body 0 s = none := rfl

lemma iterate_succ {n : ℕ} : iterate body (n + 1) s = match body s with
    | .again s' => iterate body n s'
    | .leave r => some r := rfl

lemma iterate_again {n : ℕ} (h : body s = .again s') : iterate body (n + 1) s = iterate body n s' := by
  rw [iterate_succ, h]

lemma iterate_leave {n : ℕ} (h : body s = .leave r) : iterate body (n + 1) s = some r := by
  rw [iterate_succ, h]

lemma iterate_mono {n m : ℕ} (h : iterate body n s = some r) (hm : n ≤ m) :
    iterate body m s = some r := by
  induction n generalizing m s with
  | zero => simp [iterate_zero] at h
  | succ n ih =>
    obtain ⟨m, rfl⟩ : ∃ k, m = k + 1 := ⟨m - 1, by omega⟩
    cases hb : body s with
    | again s' =>
      rw [iterate_again hb] at h ⊢
      exact ih h (by omega)
    | leave r' =>
      rw [iterate_leave hb] at h ⊢
      exact h

theorem iterate_of_variant (I : σ → Prop) (v : σ → ℕ)
    (hstep : ∀ s s', I s → body s = .again s' → I s' ∧ v s' < v s) {n : ℕ}
    (hs : I s) (hv : v s < n) : ∃ r, iterate body n s = some r := by
  induction n generalizing s with
  | zero => omega
  | succ n ih =>
    cases hb : body s with
    | again s' =>
      obtain ⟨hs', hlt⟩ := hstep s s' hs hb
      rw [iterate_again hb]
      exact ih hs' (by omega)
    | leave r => exact ⟨r, iterate_leave hb⟩

theorem iterate_invariant (I : σ → Prop) {Q : ρ → Prop}
    (hagain : ∀ s s', I s → body s = .again s' → I s')
    (hleave : ∀ s r, I s → body s = .leave r → Q r) {n : ℕ}
    (hs : I s) (hr : iterate body n s = some r) : Q r := by
  induction n generalizing s with
  | zero => simp [iterate_zero] at hr
  | succ n ih =>
    cases hb : body s with
    | again s' =>
      rw [iterate_again hb] at hr
      exact ih (hagain s s' hs hb) hr
    | leave r' =>
      rw [iterate_leave hb] at hr
      cases hr
      exact hleave s r hs hb

theorem iterate_of_hang (I : σ → Prop) (hstep : ∀ s, I s → ∃ s', body s = .again s' ∧ I s')
    (hs : I s) (n : ℕ) : iterate body n s = none := by
  induction n generalizing s with
  | zero => rfl
  | succ n ih =>
    obtain ⟨s', hb, hs'⟩ := hstep s hs
    rw [iterate_again hb]
    exact ih hs'

theorem not_terminates_of_hang (I : σ → Prop) (hstep : ∀ s, I s → ∃ s', body s = .again s' ∧ I s')
    (hs : I s) : ¬ Terminates body s := by
  rintro ⟨r, n, hn⟩
  rw [iterate_of_hang I hstep hs n] at hn
  cases hn

lemma returns_leave (h : body s = .leave r) : Returns body s r := ⟨1, iterate_leave h⟩

lemma Returns.again (h : body s = .again s') (hr : Returns body s' r) : Returns body s r := by
  obtain ⟨n, hn⟩ := hr
  exact ⟨n + 1, (iterate_again h).trans hn⟩

lemma Returns.unique (h : Returns body s r) (h' : Returns body s r') : r = r' := by
  obtain ⟨n, hn⟩ := h
  obtain ⟨m, hm⟩ := h'
  have hn' := iterate_mono hn (Nat.le_max_left n m)
  rw [iterate_mono hm (Nat.le_max_right n m)] at hn'
  exact (Option.some.inj hn').symm

/-- Passes that do not leave the loop. -/
def Passes (body : σ → Pass σ ρ) : σ → σ → Prop := Relation.ReflTransGen fun s s' => body s = .again s'

lemma Passes.returns (h : Passes body s s') (hr : Returns body s' r) : Returns body s r := by
  induction h with
  | refl => exact hr
  | tail _ hb ih => exact ih (hr.again hb)

end

end Devos.Loops
