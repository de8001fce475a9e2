import Mathlib.Data.Fintype.Card
import Mathlib.Data.Finset.Card
import Mathlib.Algebra.BigOperators.Ring.Finset
import Mathlib.Data.Fintype.BigOperators
import Mathlib.Data.Fin.VecNotation
import Mathlib.Data.List.Count
import Mathlib.Tactic.Lemma

/-! Tables whose slots may refer to entries, and how many slots refer to each. -/

namespace Devos.RefCount

variable {α β : Type*} [Fintype α] [DecidableEq β] {σ : α → Option β} {a a' : α} {b c : β}

def refs (σ : α → Option β) (b : β) : ℕ := (Finset.univ.filter fun a => σ a = some b).card

lemma refs_le (σ : α → Option β) (b : β) : refs σ b ≤ Fintype.card α := Finset.card_le_univ _

lemma refs_pos (h : σ a = some b) : 0 < refs σ b :=
  Finset.card_pos.mpr ⟨a, Finset.mem_filter.mpr ⟨Finset.mem_univ a, h⟩⟩

lemma eq_of_refs_one (h : refs σ b = 1) (ha : σ a = some b) (ha' : σ a' = some b) : a = a' := by
  obtain ⟨x, hx⟩ := Finset.card_eq_one.mp h
  have hmem : ∀ y, σ y = some b → y = x := by
    intro y hy
    have hin : y ∈ Finset.univ.filter fun a => σ a = some b := Finset.mem_filter.mpr ⟨Finset.mem_univ y, hy⟩
    rw [hx] at hin
    exact Finset.mem_singleton.mp hin
  rw [hmem a ha, hmem a' ha']

/-- The slots of a reference are told apart by what `f` says of them. -/
lemma refs_le_of_inj {γ : Type*} [Fintype γ] (f : α → γ)
    (hf : ∀ a a', σ a = some b → σ a' = some b → f a = f a' → a = a') : refs σ b ≤ Fintype.card γ := by
  rw [refs, ← Finset.card_univ]
  apply Finset.card_le_card_of_injOn f
  · exact fun _ _ => Finset.mem_coe.mpr (Finset.mem_univ _)
  · intro a ha a' ha' heq
    simp only [Finset.coe_filter, Finset.mem_univ, true_and, Set.mem_ofPred_eq] at ha ha'
    exact hf a a' ha ha' heq

lemma refs_eq_zero (h : ∀ a, σ a ≠ some b) : refs σ b = 0 := by
  rw [refs, Finset.card_eq_zero, Finset.filter_eq_empty_iff]
  exact fun a _ => h a

/-- Only the slot `a` can refer to `b`. -/
lemma refs_of_iff {P : Prop} [Decidable P] (h : ∀ x, σ x = some b ↔ P ∧ x = a) : refs σ b = if P then 1 else 0 := by
  split_ifs with hp
  · rw [refs, Finset.card_eq_one]
    refine ⟨a, ?_⟩
    ext x
    simp [h, hp]
  · apply refs_eq_zero
    intro x hx
    exact hp ((h x).mp hx).1

variable [DecidableEq α]

/-- A slot that refers to nothing gets a reference. -/
lemma refs_set (h : σ a = none) (b c : β) :
    refs (Function.update σ a (some b)) c = refs σ c + if c = b then 1 else 0 := by
  by_cases hc : c = b
  · have hset : (Finset.univ.filter fun x => Function.update σ a (some b) x = some c) =
        insert a (Finset.univ.filter fun x => σ x = some c) := by
      ext x
      by_cases hx : x = a
      · simp [hx, hc]
      · simp [hx]
    have hnot : a ∉ Finset.univ.filter fun x => σ x = some c := by simp [h]
    rw [refs, hset, Finset.card_insert_of_notMem hnot, if_pos hc, refs]
  · have hset : (Finset.univ.filter fun x => Function.update σ a (some b) x = some c) =
        Finset.univ.filter fun x => σ x = some c := by
      ext x
      by_cases hx : x = a
      · simp [hx, h, Ne.symm hc]
      · simp [hx]
    rw [refs, hset, if_neg hc, refs, Nat.add_zero]

/-- A slot gives up its reference. -/
lemma refs_clear (h : σ a = some b) (c : β) :
    refs (Function.update σ a none) c + (if c = b then 1 else 0) = refs σ c := by
  have hback : Function.update (Function.update σ a none) a (some b) = σ := by
    rw [Function.update_idem, ← h, Function.update_eq_self]
  have hset := refs_set (Function.update_self a none σ) b c
  rw [hback] at hset
  exact hset.symm

/-- A slot changes, from any reference or none to any other or none. -/
lemma refs_update (σ : α → Option β) (a : α) (v : Option β) (c : β) :
    refs (Function.update σ a v) c + (if σ a = some c then 1 else 0) =
      refs σ c + if v = some c then 1 else 0 := by
  have hclear : refs (Function.update σ a none) c + (if σ a = some c then 1 else 0) = refs σ c := by
    cases ha : σ a with
    | none => rw [← ha, Function.update_eq_self, ha, if_neg (by simp), Nat.add_zero]
    | some b =>
      have hb := refs_clear ha c
      simp only [Option.some.injEq, eq_comm (a := b)]
      exact hb
  cases v with
  | none => rw [hclear, if_neg (by simp), Nat.add_zero]
  | some b =>
    have hset := refs_set (Function.update_self a none σ) b c
    rw [Function.update_idem] at hset
    simp only [Option.some.injEq, eq_comm (a := b)]
    omega

section Rows

variable {γ : Type*} [Fintype γ] {τ τ' : α × γ → Option β} {x : α}

omit [DecidableEq α] in
lemma refs_rows (τ : α × γ → Option β) (b : β) : refs τ b = ∑ x, refs (fun y => τ (x, y)) b := by
  simp only [refs, Finset.card_filter]
  exact Fintype.sum_prod_type _

/-- Only row `x` changes, and so do the counts. -/
lemma refs_row (h : ∀ a, a ≠ x → ∀ y, τ' (a, y) = τ (a, y)) (b : β) :
    refs τ' b + refs (fun y => τ (x, y)) b = refs τ b + refs (fun y => τ' (x, y)) b := by
  have hrest : ∑ a ∈ Finset.univ.erase x, refs (fun y => τ' (a, y)) b =
      ∑ a ∈ Finset.univ.erase x, refs (fun y => τ (a, y)) b := by
    apply Finset.sum_congr rfl
    intro a ha
    rw [show (fun y => τ' (a, y)) = fun y => τ (a, y) from funext (h a (Finset.ne_of_mem_erase ha))]
  have hrow' := Finset.add_sum_erase Finset.univ (fun a => refs (fun y => τ' (a, y)) b) (Finset.mem_univ x)
  have hrow := Finset.add_sum_erase Finset.univ (fun a => refs (fun y => τ (a, y)) b) (Finset.mem_univ x)
  rw [hrest] at hrow'
  rw [refs_rows, refs_rows τ, ← hrow, ← hrow']
  omega

end Rows

lemma refs_fin {n : ℕ} (σ : Fin n → Option β) (b : β) :
    refs σ b = (List.finRange n).countP fun i => σ i = some b := by
  simp [refs, Finset.card_def, Fin.univ_def, List.countP_eq_length_filter]

section Holders

variable {ι : Type*} [DecidableEq ι] {held : List (ι × β)} {x y : ι}

/-- How many of the references that `held` lists, each with its holder, are to `b`. -/
def users {ι : Type*} (held : List (ι × β)) (b : β) : ℕ := held.countP fun r => r.2 = b

omit [DecidableEq ι] in
lemma users_cons (x : ι) (b c : β) : users ((x, b) :: held) c = users held c + if b = c then 1 else 0 := by
  simp [users, List.countP_cons]

omit [DecidableEq ι] in
lemma users_pos (h : (x, b) ∈ held) : 0 < users held b := by
  rw [users, List.countP_pos_iff]
  exact ⟨(x, b), h, by simp⟩

lemma users_erase (h : (x, b) ∈ held) (c : β) :
    users (held.erase (x, b)) c + (if b = c then 1 else 0) = users held c := by
  have hpos := users_pos h
  rw [users, List.countP_erase, users]
  by_cases hbc : b = c
  · subst hbc
    unfold users at hpos
    simp [h]
    omega
  · simp [h, hbc]

lemma holder_unique (h : users held b = 1) (hx : (x, b) ∈ held) (hy : (y, b) ∈ held) : x = y := by
  by_contra hne
  have hrest : (y, b) ∈ held.erase (x, b) := by
    apply (List.mem_erase_of_ne _).mpr hy
    intro he
    exact hne (congrArg Prod.fst he).symm
  have hpos := users_pos hrest
  have herase := users_erase hx b
  simp at herase
  omega

end Holders

section Lists

variable {ι : Type*} [Fintype ι] {u v : ι → List β} {x y : ι}

/-- How often `b` stands in the lists of all holders. -/
def total {ι : Type*} [Fintype ι] (u : ι → List β) (b : β) : ℕ := ∑ x, (u x).count b

variable [DecidableEq ι]

lemma count_le_total (u : ι → List β) (x : ι) (b : β) : (u x).count b ≤ total u b := by
  have hsum := Finset.add_sum_erase Finset.univ (fun y => (u y).count b) (Finset.mem_univ x)
  unfold total
  omega

lemma total_pos (h : b ∈ u x) : 0 < total u b :=
  Nat.lt_of_lt_of_le (List.count_pos_iff.mpr h) (count_le_total u x b)

/-- Only one list changes. -/
lemma total_change (h : ∀ y, y ≠ x → v y = u y) (b : β) :
    total v b + (u x).count b = total u b + (v x).count b := by
  have hrest : ∑ y ∈ Finset.univ.erase x, (v y).count b = ∑ y ∈ Finset.univ.erase x, (u y).count b := by
    apply Finset.sum_congr rfl
    intro y hy
    rw [h y (Finset.ne_of_mem_erase hy)]
  have hsum' := Finset.add_sum_erase Finset.univ (fun y => (v y).count b) (Finset.mem_univ x)
  have hsum := Finset.add_sum_erase Finset.univ (fun y => (u y).count b) (Finset.mem_univ x)
  rw [hrest] at hsum'
  unfold total
  omega

lemma two_le_total (hne : x ≠ y) (hx : b ∈ u x) (hy : b ∈ u y) : 2 ≤ total u b := by
  have hchange := total_change (u := u) (v := Function.update u x []) (x := x)
    (fun z hz => Function.update_of_ne hz _ _) b
  have hpos : 0 < total (Function.update u x []) b := by
    apply total_pos (x := y)
    rwa [Function.update_of_ne (Ne.symm hne)]
  have hone := List.count_pos_iff.mpr hx
  rw [Function.update_self, List.count_nil] at hchange
  omega

end Lists

end Devos.RefCount
