import Devos.Mm.Processes

/-! What is read at the places of the processes, and what faults and `verify_area` leave of it. -/

namespace Devos.Mm.Pages

open Longs RefCount

/-- The byte at a place: a zero before there is a page, and nothing certain in the kernel's pages. -/
def content (m : Pages) (x : Place) (o : ℕ) : Option Byte :=
  match m.walk x with
  | none => some 0
  | some p => if p < lowMem then none else some (m.mem p o)

/-- What is certain at the places of the processes stays. -/
def Reveals (m m' : Pages) : Prop :=
  ∀ x : Place, 16 ≤ x.1.val → ∀ o b, m.content x o = some b → m'.content x o = some b

section Contents

variable {m m' m'' : Pages} {own : ℕ → ℕ} {D W : Place → Prop} {x : Place} {d e : Fin 1024} {p q o : ℕ} {b : Byte}

lemma content_of_mapped (hx : 16 ≤ x.1.val) (hp : m.mapped x = some p) (hlo : lowMem ≤ p) :
    m.content x o = some (m.mem p o) := by
  rw [content, walk_eq_mapped hx, hp]
  exact if_neg (not_lt.mpr hlo)

lemma content_of_none (hx : 16 ≤ x.1.val) (hp : m.mapped x = none) : m.content x o = some 0 := by
  rw [content, walk_eq_mapped hx, hp]

/-- The same page with the same bytes, if not the kernel's. -/
lemma content_congr (hx : 16 ≤ x.1.val) (hmapped : m'.mapped x = m.mapped x)
    (hmem : ∀ p, m.mapped x = some p → lowMem ≤ p → m'.mem p = m.mem p) : m'.content x o = m.content x o := by
  rw [content, content, walk_eq_mapped hx, walk_eq_mapped hx, hmapped]
  cases hp : m.mapped x with
  | none => rfl
  | some p =>
    dsimp only
    split_ifs with hlo
    · rfl
    · rw [hmem p hp (not_lt.mp hlo)]

lemma Only.content (h : Only D W m m') (hx : 16 ≤ x.1.val) (hD : ¬D x) : m'.content x o = m.content x o :=
  content_congr hx (h.mapped x hD) fun p hp hlo => h.data x p hD hp hlo

lemma Reveals.refl (m : Pages) : Reveals m m := fun _ _ _ _ h => h

lemma Reveals.trans (h : Reveals m m') (h' : Reveals m' m'') : Reveals m m'' :=
  fun x hx o b hb => h' x hx o b (h x hx o b hb)

lemma Only.reveals (h : Only nowhere W m m') : Reveals m m' := by
  intro x hx o b hb
  rw [h.content hx id]
  exact hb

lemma Only.reveals_at (h : Only (only d e) W m m')
    (hat : 16 ≤ d.val → ∀ o b, m.content (d, e) o = some b → m'.content (d, e) o = some b) : Reveals m m' := by
  intro x hx o b hb
  by_cases hxe : x = (d, e)
  · subst hxe
    exact hat hx o b hb
  · rw [h.content hx hxe]
    exact hb

lemma Unshared.reveals (h : Unshared own d e q m m') (hq : m.mapped (d, e) = some q) : Reveals m m' := by
  apply h.only.reveals_at
  intro hd o b hb
  obtain ⟨t, p, _, hp, hlo, _, hmem⟩ := h.same
  rw [content_of_mapped hd hp hlo, hmem]
  rw [Pages.content, walk_eq_mapped hd, hq] at hb
  dsimp only at hb
  split_ifs at hb
  exact hb

lemma Filled.reveals (h : Filled own d e m m') (hnone : m.mapped (d, e) = none) : Reveals m m' := by
  apply h.only.reveals_at
  intro hd o b hb
  obtain ⟨t, p, _, hp, hlo, _, hzero⟩ := h.fresh
  rw [content_of_none hd hnone] at hb
  rw [content_of_mapped hd hp hlo, hzero]
  exact hb

/-- A place that may be written stays so when nothing happens to it. -/
lemma Open.only (h : Open m x) (hon : Only D W m m') (hD : ¬D x) (hW : ¬W x) : Open m' x := by
  cases ht : m.table x.1 with
  | none =>
    intro t' ht' hp
    have hnone : m'.mapped x = none := by rw [hon.mapped x hD, mapped_of_none ht]
    rw [mapped_of_table ht', link, if_pos hp] at hnone
    cases hnone
  | some t =>
    obtain ⟨ht', hl⟩ := hon.words x t hD hW ht
    intro u hu hp
    rw [ht', Option.some.injEq] at hu
    subst hu
    rw [hl] at hp ⊢
    exact h t ht hp

lemma Filled.opens (h : Filled own d e m m') (x : Place) (hx : Open m x) : Open m' x := by
  by_cases hxe : x = (d, e)
  · rw [hxe]
    exact h.isOpen
  · exact hx.only h.only hxe id

/-- What `verify_area` does, as far as it gets. -/
structure Verified (own : ℕ → ℕ) (m m' : Pages) : Prop where
  counted : Counted own m'
  tables : m'.table = m.table
  lost : m'.lost = m.lost
  reveals : Reveals m m'
  opens : ∀ x, Open m x → Open m' x

lemma Unshared.verified (h : Unshared own d e q m m') (hq : m.mapped (d, e) = some q) : Verified own m m' := by
  refine ⟨h.counted, h.tables, h.only.lost, h.reveals hq, ?_⟩
  intro x hx
  by_cases hxe : x = (d, e)
  · rw [hxe]
    exact h.isOpen
  · exact hx.only h.only hxe id

lemma Counted.verifyFrom (h : Counted own m) (n start : ℕ) :
    ∃ m' b, m.verifyFrom n start = (m', b) ∧ Verified own m m' ∧
      (b = true → ∀ k < n, Open m' (placeOf (start + 4096 * k))) := by
  induction n generalizing m start with
  | zero => exact ⟨m, true, rfl, ⟨h, rfl, rfl, Reveals.refl m, fun _ hx => hx⟩, fun _ k hk => absurd hk (Nat.not_lt_zero k)⟩
  | succ n ih =>
    have hnext : ∀ m₁, m.writeVerify (placeOf start).1 (placeOf start).2 = (m₁, true) → Verified own m m₁ →
        Open m₁ (placeOf start) → ∃ m' b, m.verifyFrom (n + 1) start = (m', b) ∧ Verified own m m' ∧
          (b = true → ∀ k < n + 1, Open m' (placeOf (start + 4096 * k))) := by
      intro m₁ hw hv hopen
      obtain ⟨m', b, hrun, hv', hall⟩ := ih hv.counted (start + 4096)
      refine ⟨m', b, ?_, ⟨hv'.counted, hv'.tables.trans hv.tables, hv'.lost.trans hv.lost,
        hv.reveals.trans hv'.reveals, fun x hx => hv'.opens x (hv.opens x hx)⟩, ?_⟩
      · rw [Pages.verifyFrom, hw]
        exact hrun
      · intro hb k hk
        cases k with
        | zero => exact hv'.opens _ hopen
        | succ k =>
          have hplace : start + 4096 * (k + 1) = start + 4096 + 4096 * k := by omega
          rw [hplace]
          exact hall hb k (by omega)
    rcases h.writeVerify (placeOf start).1 (placeOf start).2 with
      ⟨hw, hopen⟩ | ⟨q, m₁, _, hq, hw, hun⟩ | ⟨hw, _⟩
    · exact hnext m hw ⟨h, rfl, rfl, Reveals.refl m, fun _ hx => hx⟩ hopen
    · exact hnext m₁ hw (hun.verified hq) hun.isOpen
    · refine ⟨m, false, ?_, ⟨h, rfl, rfl, Reveals.refl m, fun _ hx => hx⟩, by rintro ⟨⟩⟩
      rw [Pages.verifyFrom, hw]

end Contents

end Devos.Mm.Pages
