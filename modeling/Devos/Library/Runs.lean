import Mathlib.Data.Nat.Notation
import Mathlib.Tactic.Lemma

/-! Transition systems with labelled steps, and what holds in every state of their runs. -/

namespace Devos.Runs

structure System (σ α : Type*) where
  init : σ → Prop
  step : σ → α → σ → Prop

namespace System

variable {σ α : Type*} (M : System σ α) (ok : σ → α → Prop)

inductive Reach : σ → Prop
  | start {s} : M.init s → Reach s
  | next {s a s'} : Reach s → ok s a → M.step s a s' → Reach s'

variable {M ok}

theorem Reach.invariant {I : σ → Prop} (hinit : ∀ s, M.init s → I s)
    (hstep : ∀ s a s', I s → ok s a → M.step s a s' → I s') {s : σ} (hs : M.Reach ok s) : I s := by
  induction hs with
  | start h => exact hinit _ h
  | next _ hok hs ih => exact hstep _ _ _ ih hok hs

lemma Reach.mono {ok' : σ → α → Prop} (hok : ∀ s a, ok s a → ok' s a) {s : σ} (hs : M.Reach ok s) :
    M.Reach ok' s := by
  induction hs with
  | start h => exact .start h
  | next _ h hs ih => exact .next ih (hok _ _ h) hs

/-- A run with the list of its labels. -/
inductive Trace (M : System σ α) (ok : σ → α → Prop) (s : σ) : List α → σ → Prop
  | nil : Trace M ok s [] s
  | snoc {as a s' s''} : Trace M ok s as s' → ok s' a → M.step s' a s'' → Trace M ok s (as ++ [a]) s''

theorem Trace.invariant {I : σ → Prop} (hstep : ∀ s a s', I s → ok s a → M.step s a s' → I s') {s s' : σ}
    {as : List α} (hs : Trace M ok s as s') (hI : I s) : I s' := by
  induction hs with
  | nil => exact hI
  | snoc _ hok hs ih => exact hstep _ _ _ ih hok hs

theorem Trace.trans {s s' s'' : σ} {as bs : List α} (h : Trace M ok s as s') (h' : Trace M ok s' bs s'') :
    Trace M ok s (as ++ bs) s'' := by
  induction h' with
  | nil => rwa [List.append_nil]
  | snoc _ hok hs ih =>
    rw [← List.append_assoc]
    exact .snoc ih hok hs

lemma Trace.single {s s' : σ} {a : α} (hok : ok s a) (hs : M.step s a s') : Trace M ok s [a] s' := .snoc .nil hok hs

lemma Trace.of_snoc {s s'' : σ} {as : List α} {a : α} (h : Trace M ok s (as ++ [a]) s'') :
    ∃ s', Trace M ok s as s' ∧ ok s' a ∧ M.step s' a s'' := by
  generalize hbs : as ++ [a] = bs at h
  cases h with
  | nil => exact absurd hbs (by simp)
  | snoc h hok hs =>
    obtain ⟨rfl, ha⟩ := List.append_inj' hbs rfl
    cases ha
    exact ⟨_, h, hok, hs⟩

theorem Trace.of_append {s s'' : σ} {as bs : List α} (h : Trace M ok s (as ++ bs) s'') :
    ∃ s', Trace M ok s as s' ∧ Trace M ok s' bs s'' := by
  generalize hcs : as ++ bs = cs at h
  induction h generalizing bs with
  | nil =>
    obtain ⟨rfl, rfl⟩ := List.append_eq_nil_iff.mp hcs
    exact ⟨s, .nil, .nil⟩
  | @snoc ds d t t' h hok hs ih =>
    rcases List.eq_nil_or_concat bs with rfl | ⟨bs, b, rfl⟩
    · rw [List.append_nil] at hcs
      subst hcs
      exact ⟨_, .snoc h hok hs, .nil⟩
    · rw [List.concat_eq_append, ← List.append_assoc] at hcs
      obtain ⟨hds, hd⟩ := List.append_inj' hcs rfl
      cases hd
      obtain ⟨s', has, hbs⟩ := ih hds
      exact ⟨s', has, List.concat_eq_append ▸ .snoc hbs hok hs⟩

/-- The labels of the simulating run are images of the run's. -/
theorem Trace.simulates_map {τ β : Type*} {N : System τ β} {R : σ → τ → Prop} {f : α → β}
    (hstep : ∀ s t a s', R s t → ok s a → M.step s a s' → ∃ t', N.step t (f a) t' ∧ R s' t')
    {s s' : σ} {t : τ} {as : List α} (hs : Trace M ok s as s') (hR : R s t) :
    ∃ t', Trace N (fun _ _ => True) t (as.map f) t' ∧ R s' t' := by
  induction hs with
  | nil => exact ⟨t, .nil, hR⟩
  | snoc _ hok hs ih =>
    obtain ⟨t', ht, hR'⟩ := ih
    obtain ⟨t'', ht', hR''⟩ := hstep _ _ _ _ hR' hok hs
    rw [List.map_append, List.map_singleton]
    exact ⟨t'', .snoc ht trivial ht', hR''⟩

theorem Trace.simulates {τ : Type*} {N : System τ α} {R : σ → τ → Prop}
    (hstep : ∀ s t a s', R s t → ok s a → M.step s a s' → ∃ t', N.step t a t' ∧ R s' t')
    {s s' : σ} {t : τ} {as : List α} (hs : Trace M ok s as s') (hR : R s t) :
    ∃ t', Trace N (fun _ _ => True) t as t' ∧ R s' t' := by
  obtain ⟨t', ht, hR'⟩ := simulates_map (f := id) hstep hs hR
  rw [List.map_id] at ht
  exact ⟨t', ht, hR'⟩

end System

end Devos.Runs
