import Mathlib.Logic.Relation
import Mathlib.Logic.Function.Basic
import Mathlib.Data.List.Nodup
import Mathlib.Tactic.Lemma

/-! What is reached from some roots by following pointers, one from each node at most. -/

namespace Devos.Pointers

open Relation

variable {T : Type*} {next next' : T → Option T} {roots roots' : T → Prop} {a b t : T}

def Leads (next : T → Option T) : T → T → Prop := ReflTransGen fun a b => next a = some b

def Reached (next : T → Option T) (roots : T → Prop) (b : T) : Prop := ∃ a, roots a ∧ Leads next a b

lemma Leads.mono (hnext : ∀ a b, next a = some b → next' a = some b) (h : Leads next a b) : Leads next' a b :=
  ReflTransGen.mono hnext _ _ h

lemma Leads.eq_of_none (ha : next a = none) (h : Leads next a b) : a = b := by
  induction h with
  | refl => rfl
  | tail _ hlast ih =>
    subst ih
    rw [ha] at hlast
    cases hlast

lemma Reached.root (h : roots a) : Reached next roots a := ⟨a, h, .refl⟩

lemma Reached.follow (h : Reached next roots a) (hab : next a = some b) : Reached next roots b := by
  obtain ⟨c, hc, hlead⟩ := h
  exact ⟨c, hc, hlead.tail hab⟩

lemma Reached.mono (hnext : ∀ a b, next a = some b → next' a = some b)
    (hroots : ∀ a, roots a → Reached next' roots' a) (h : Reached next roots b) : Reached next' roots' b := by
  obtain ⟨a, ha, hlead⟩ := h
  obtain ⟨c, hc, hca⟩ := hroots a ha
  exact ⟨c, hc, ReflTransGen.trans hca (hlead.mono hnext)⟩

/-- A node is taken away, and what it points to becomes a root. -/
lemma Reached.bypass (hnext : ∀ a, a ≠ t → next' a = next a) (hroots : ∀ a, roots a → a ≠ t → roots' a)
    (htarget : ∀ c, next t = some c → roots' c) (h : Reached next roots b) (hb : b ≠ t) :
    Reached next' roots' b := by
  obtain ⟨a, ha, hlead⟩ := h
  induction hlead with
  | refl => exact .root (hroots a ha hb)
  | @tail x y _ hxy ih =>
    by_cases hx : x = t
    · rw [hx] at hxy
      exact .root (htarget y hxy)
    · apply (ih hx).follow
      rw [hnext x hx, hxy]

section Chains

variable {o : Option T} {l l₁ l₂ : List T}

/-- The pointers lead from `o` through the nodes of the list to a null pointer. -/
def Chain (next : T → Option T) : Option T → List T → Prop
  | o, [] => o = none
  | o, a :: l => o = some a ∧ Chain next (next a) l

lemma Chain.head (h : Chain next o l) : o = l.head? := by
  cases l with
  | nil => exact h
  | cons a l => exact h.1

lemma Chain.unique (h₁ : Chain next o l₁) (h₂ : Chain next o l₂) : l₁ = l₂ := by
  induction l₁ generalizing o l₂ with
  | nil =>
    have hhead := h₂.head
    rw [h₁.head] at hhead
    exact (List.head?_eq_none_iff.mp hhead.symm).symm
  | cons a l₁ ih =>
    have hhead := h₂.head
    rw [h₁.head, List.head?_cons] at hhead
    obtain ⟨m, rfl⟩ := List.head?_eq_some_iff.mp hhead.symm
    rw [ih h₁.2 h₂.2]

lemma Chain.congr (h : Chain next o l) (hnext : ∀ a ∈ l, next' a = next a) : Chain next' o l := by
  induction l generalizing o with
  | nil => exact h
  | cons a l ih =>
    refine ⟨h.1, ?_⟩
    rw [hnext a (by simp)]
    exact ih h.2 fun b hb => hnext b (by simp [hb])

lemma Chain.tail (h : Chain next o (a :: l)) : Chain next (next a) l := h.2

lemma Chain.behind (h : Chain next o (l₁ ++ a :: l₂)) : Chain next (next a) l₂ := by
  induction l₁ generalizing o with
  | nil => exact h.2
  | cons b l₁ ih => exact ih h.2

lemma Chain.reached (h : Chain next o l) (hb : b ∈ l) : Reached next (fun a => o = some a) b := by
  induction l generalizing o with
  | nil => cases hb
  | cons a l ih =>
    have hroot : Reached next (fun c => o = some c) a := .root h.1
    rcases List.mem_cons.mp hb with rfl | hb
    · exact hroot
    · apply (ih h.2 hb).mono
      · exact fun _ _ hab => hab
      · exact fun c hc => hroot.follow hc

variable [DecidableEq T]

/-- `b` is put behind `a`. -/
lemma Chain.insert (h : Chain next o (l₁ ++ a :: l₂)) (hnodup : (l₁ ++ a :: l₂).Nodup) (hb : b ∉ l₁ ++ a :: l₂) :
    Chain (Function.update (Function.update next b (next a)) a (some b)) o (l₁ ++ a :: b :: l₂) := by
  have hfar : ∀ c, c ≠ a → c ≠ b → Function.update (Function.update next b (next a)) a (some b) c = next c := by
    intro c hca hcb
    rw [Function.update_of_ne hca, Function.update_of_ne hcb]
  induction l₁ generalizing o with
  | nil =>
    have hba : b ≠ a := by
      rintro rfl
      simp at hb
    refine ⟨h.1, ?_⟩
    rw [Function.update_self]
    refine ⟨rfl, ?_⟩
    rw [Function.update_of_ne hba, Function.update_self]
    apply h.2.congr
    intro c hc
    apply hfar
    · rintro rfl
      simp [hc] at hnodup
    · rintro rfl
      simp [hc] at hb
  | cons d l₁ ih =>
    simp only [List.cons_append, List.nodup_cons, List.mem_cons, not_or] at hnodup hb
    refine ⟨h.1, ?_⟩
    rw [hfar d _ (Ne.symm hb.1)]
    · exact ih h.2 hnodup.2 hb.2
    · rintro rfl
      simp at hnodup

end Chains

end Devos.Pointers
