import Devos.Library.LinearProbing
import Mathlib.Data.Fintype.Fin
import Mathlib.Data.Multiset.Filter

/-! Tables with linear probing, and removal by taking the following entries out and putting them in
again. -/

namespace Devos.LinearProbing

variable {N : ℕ} {α K : Type*}

abbrev Table (N : ℕ) (α : Type*) := Fin N → Option α

structure Scheme (N : ℕ) (α K : Type*) where
  key : α → K
  home : K → Fin N

namespace Scheme

variable (S : Scheme N α K)

def start (e : α) : Fin N := S.home (S.key e)

def Reaches (t : Table N α) (h z : Fin N) : Prop := ∀ a, steps h a < steps h z → t a ≠ none

def Distinct (t : Table N α) : Prop :=
  ∀ z z' e e', t z = some e → t z' = some e' → S.key e = S.key e' → z = z'

structure WellProbed (t : Table N α) : Prop where
  reaches : ∀ z e, t z = some e → Reaches t (S.start e) z
  distinct : S.Distinct t

def Holds (t : Table N α) (e : α) : Prop := ∃ z, t z = some e

def entries (t : Table N α) : Multiset α := Finset.univ.val.filterMap t

def Passes (t : Table N α) (k : K) (z : Fin N) : Prop :=
  ∀ a, steps (S.home k) a < steps (S.home k) z → ∃ e, t a = some e ∧ S.key e ≠ k

def Found (t : Table N α) (k : K) (z : Fin N) : Prop :=
  (∃ e, t z = some e ∧ S.key e = k) ∧ S.Passes t k z

def Missing (t : Table N α) (k : K) (z : Fin N) : Prop := t z = none ∧ S.Passes t k z

def Put (t : Table N α) (e : α) (t' : Table N α) : Prop :=
  (∃ w, S.Missing t (S.key e) w ∧ t' = Function.update t w (some e)) ∨
    ∃ z, S.Found t (S.key e) z ∧ t' = t

variable {S} [NeZero N]

lemma found_not_missing {t : Table N α} {k : K} {z w : Fin N} (hz : S.Found t k z)
    (hw : S.Missing t k w) : False := by
  obtain ⟨⟨e, he, hk⟩, hp⟩ := hz
  rcases Nat.lt_trichotomy (steps (S.home k) z) (steps (S.home k) w) with hlt | heq | hlt
  · obtain ⟨e', he', hk'⟩ := hw.2 z hlt
    rw [he] at he'
    cases he'
    exact hk' hk
  · have := steps_injective heq
    subst this
    rw [hw.1] at he
    cases he
  · obtain ⟨e', he', _⟩ := hp w hlt
    rw [hw.1] at he'
    cases he'

omit [NeZero N] in
lemma not_found_before {t : Table N α} {k : K} {z z' : Fin N} (hz : S.Found t k z)
    (hz' : S.Found t k z') : ¬ steps (S.home k) z < steps (S.home k) z' := by
  intro hlt
  obtain ⟨⟨e, he, hk⟩, _⟩ := hz
  obtain ⟨e', he', hk'⟩ := hz'.2 z hlt
  rw [he] at he'
  cases he'
  exact hk' hk

lemma found_unique {t : Table N α} {k : K} {z z' : Fin N} (hz : S.Found t k z)
    (hz' : S.Found t k z') : z = z' :=
  steps_injective (le_antisymm (not_lt.mp (not_found_before hz' hz)) (not_lt.mp (not_found_before hz hz')))

theorem missing_iff {t : Table N α} (ht : S.WellProbed t) {k : K} {w : Fin N} (hw : S.Missing t k w) :
    ¬ ∃ e, Holds t e ∧ S.key e = k := by
  rintro ⟨e, ⟨z, hz⟩, rfl⟩
  have hreach := ht.reaches z e hz
  rcases Nat.lt_trichotomy (steps (S.start e) z) (steps (S.start e) w) with hlt | heq | hlt
  · obtain ⟨e', he', hk'⟩ := hw.2 z hlt
    rw [hz] at he'
    cases he'
    exact hk' rfl
  · have := steps_injective heq
    subst this
    rw [hw.1] at hz
    cases hz
  · exact hreach w hlt hw.1

theorem wellProbed_put {t : Table N α} (ht : S.WellProbed t) {e : α} {w : Fin N}
    (hw : S.Missing t (S.key e) w) : S.WellProbed (Function.update t w (some e)) := by
  have habsent := missing_iff ht hw
  have hmono : ∀ a, t a ≠ none → Function.update t w (some e) a ≠ none := by
    intro a ha
    by_cases haw : a = w
    · subst haw; simp
    · rwa [Function.update_of_ne haw]
  refine ⟨?_, ?_⟩
  · intro z f hz a ha
    by_cases hzw : z = w
    · subst hzw
      rw [Function.update_self] at hz
      cases hz
      obtain ⟨f, hf, _⟩ := hw.2 a ha
      exact hmono a (by simp [hf])
    · rw [Function.update_of_ne hzw] at hz
      exact hmono a (ht.reaches z f hz a ha)
  · intro z z' f f' hz hz' hk
    by_cases hzw : z = w <;> by_cases hzw' : z' = w
    · rw [hzw, hzw']
    · subst hzw
      rw [Function.update_self] at hz
      rw [Function.update_of_ne hzw'] at hz'
      cases hz
      exact absurd ⟨f', ⟨z', hz'⟩, hk.symm⟩ habsent
    · subst hzw'
      rw [Function.update_self] at hz'
      rw [Function.update_of_ne hzw] at hz
      cases hz'
      exact absurd ⟨f, ⟨z, hz⟩, hk⟩ habsent
    · rw [Function.update_of_ne hzw] at hz
      rw [Function.update_of_ne hzw'] at hz'
      exact ht.distinct z z' f f' hz hz' hk

omit [NeZero N] in
lemma taken_out_eq_some {t : Table N α} {x z : Fin N} {e : α} :
    Function.update t x none z = some e ↔ z ≠ x ∧ t z = some e := by
  by_cases hz : z = x
  · subst hz
    rw [Function.update_self]
    exact iff_of_false (fun h => Option.some_ne_none e h.symm) (fun h => h.1 rfl)
  · rw [Function.update_of_ne hz]
    exact (and_iff_right hz).symm

omit [NeZero N] in
lemma Distinct.mono {t t₀ : Table N α} (hd : S.Distinct t₀) (h : ∀ z e, t z = some e → t₀ z = some e) :
    S.Distinct t :=
  fun z z' e e' hz hz' hk => hd z z' e e' (h z e hz) (h z' e' hz') hk

/-- Entry `e`, taken out of slot `y` and put in again, has come to slot `w`. -/
structure Moved (S : Scheme N α K) (t t' : Table N α) (e : α) (y w : Fin N) : Prop where
  near : steps (S.start e) w ≤ steps (S.start e) y
  passed : ∀ a, steps (S.start e) a < steps (S.start e) w → t a ≠ none
  old : t y = some e
  new : t' w = some e
  free : w ≠ y → t w = none
  left : w ≠ y → t' y = none
  same : ∀ a, a ≠ w → a ≠ y → t' a = t a

omit [NeZero N] in
lemma reput_moved {t t' : Table N α} (hd : S.Distinct t) {y : Fin N} {e : α} (hy : t y = some e)
    (hput : S.Put (Function.update t y none) e t') : ∃ w, S.Moved t t' e y w := by
  rcases hput with ⟨w, ⟨hw, hp⟩, rfl⟩ | ⟨z, ⟨⟨f, hf, hk⟩, _⟩, _⟩
  · refine ⟨w, ?_, ?_, hy, Function.update_self _ _ _, fun hne => ?_, fun hne => ?_, fun a haw hay => ?_⟩
    · by_contra hlt
      obtain ⟨f, hf, _⟩ := hp y (not_le.mp hlt)
      exact (taken_out_eq_some.mp hf).1 rfl
    · intro a ha
      obtain ⟨f, hf, _⟩ := hp a ha
      rw [(taken_out_eq_some.mp hf).2]
      exact Option.some_ne_none f
    · rwa [Function.update_of_ne hne] at hw
    · rw [Function.update_of_ne hne.symm, Function.update_self]
    · rw [Function.update_of_ne haw, Function.update_of_ne hay]
  · obtain ⟨hzy, hz⟩ := taken_out_eq_some.mp hf
    exact absurd (hd z y f e hz hy hk) hzy

namespace Moved

section Table

variable {t t' : Table N α} {e f : α} {y w z : Fin N} (h : S.Moved t t' e y w)
include h

omit [NeZero N]

lemma eq_of_stayed (hw : w = y) : t' = t := by
  subst hw
  funext a
  by_cases ha : a = w
  · rw [ha, h.new, h.old]
  · exact h.same a ha ha

lemma entry (hz : t' z = some f) : z = w ∧ f = e ∨ z ≠ w ∧ z ≠ y ∧ t z = some f := by
  by_cases hzw : z = w
  · rw [hzw, h.new] at hz
    exact Or.inl ⟨hzw, (Option.some.inj hz).symm⟩
  · have hzy : z ≠ y := by
      rintro rfl
      rw [h.left (Ne.symm hzw)] at hz
      cases hz
    exact Or.inr ⟨hzw, hzy, h.same z hzw hzy ▸ hz⟩

lemma distinct (hd : S.Distinct t) : S.Distinct t' := by
  intro z z' f f' hz hz' hk
  rcases h.entry hz with ⟨rfl, rfl⟩ | ⟨_, hzy, h₁⟩ <;> rcases h.entry hz' with ⟨rfl, rfl⟩ | ⟨_, hzy', h₂⟩
  · rfl
  · exact absurd (hd z' y f' f h₂ h.old hk.symm) hzy'
  · exact absurd (hd z y f f' h₁ h.old hk) hzy
  · exact hd z z' f f' h₁ h₂ hk

lemma holds : Holds t' f ↔ Holds t f := by
  constructor
  · rintro ⟨z, hz⟩
    rcases h.entry hz with ⟨_, rfl⟩ | ⟨_, _, hz⟩
    · exact ⟨y, h.old⟩
    · exact ⟨z, hz⟩
  · rintro ⟨z, hz⟩
    by_cases hzy : z = y
    · rw [hzy, h.old] at hz
      exact ⟨w, hz ▸ h.new⟩
    · by_cases hzw : z = w
      · rw [hzw, h.free (hzw ▸ hzy)] at hz
        cases hz
      · exact ⟨z, (h.same z hzw hzy).trans hz⟩

end Table

lemma nearer {t t' : Table N α} {e : α} {y w : Fin N} (h : S.Moved t t' e y w) (hne : w ≠ y) :
    steps (S.start e) w < steps (S.start e) y :=
  lt_of_le_of_ne h.near fun he => hne (steps_injective he)

end Moved

variable (S) in
inductive Scan : Table N α → Fin N → Table N α → Prop
  | stop {t y} : t y = none → Scan t y t
  | move {t y e t' t''} : t y = some e → S.Put (Function.update t y none) e t' →
      Scan t' (ahead y 1) t'' → Scan t y t''

def Displaced (S : Scheme N α K) (t : Table N α) (x y : Fin N) : Prop :=
  ∃ e, t y = some e ∧ steps (S.start e) x < steps (S.start e) y

/-- A scan that leaves slot `x + 1` out loses nothing when that slot is empty or holds an entry at
home, or when some later entry of the run will be moved into the gap at `x`. -/
def SkipSafe (S : Scheme N α K) (t : Table N α) (x : Fin N) : Prop :=
  ∀ e, t (ahead x 1) = some e → S.start e = ahead x 1 ∨
    ∃ y, 2 ≤ steps x y ∧ (∀ a, 2 ≤ steps x a → steps x a ≤ steps x y → t a ≠ none) ∧
      Displaced S t x y

structure Scanning (S : Scheme N α K) (t₀ t : Table N α) (x : Fin N) (e₁ : α) (m : ℕ) : Prop where
  rest : ∀ a, m ≤ steps x a → t a = t₀ a
  skipped : t (ahead x 1) = some e₁
  occupied : ∀ a, steps x a < m → t₀ a ≠ none
  holes : ∀ z e a, t z = some e → steps (S.start e) a < steps (S.start e) z → t a = none →
    steps x a < m ∧ (m ≤ steps x z ∨ z = ahead x 1)
  distinct : S.Distinct t
  gap : t = Function.update t₀ x none ∧ (∀ y, 2 ≤ steps x y → steps x y < m → ¬ Displaced S t₀ x y) ∨
    t x ≠ none ∧ ∃ y, 2 ≤ steps x y ∧ steps x y < m ∧ Displaced S t₀ x y

lemma start_ne_next_iff (hN : 2 ≤ N) {x : Fin N} {e : α} :
    S.start e ≠ ahead x 1 ↔ steps (S.start e) x < steps (S.start e) (ahead x 1) := by
  have h₁ := steps_ahead x (show 1 < N by omega)
  have h₂ := steps_triangle (S.start e) x (ahead x 1)
  have h₃ := steps_lt (S.start e) x
  constructor
  · intro hne
    have : steps (S.start e) (ahead x 1) ≠ 0 := fun h => hne (steps_eq_zero.mp h)
    omega
  · intro hlt he
    rw [← he, steps_self] at hlt
    omega

lemma scanning_start {t₀ : Table N α} (ht : S.WellProbed t₀) (hN : 2 < N) {x : Fin N} {e₀ e₁ : α}
    (hx : t₀ x = some e₀) (hx₁ : t₀ (ahead x 1) = some e₁) :
    Scanning S t₀ (Function.update t₀ x none) x e₁ 2 := by
  have h₁ := steps_ahead x (show 1 < N by omega)
  have hne : ∀ a, 0 < steps x a → a ≠ x := by
    rintro a ha rfl
    rw [steps_self] at ha
    omega
  refine ⟨?_, ?_, ?_, ?_, ?_, Or.inl ⟨rfl, by omega⟩⟩
  · intro a ha
    rw [Function.update_of_ne (hne a (by omega))]
  · rw [Function.update_of_ne (hne _ (by omega)), hx₁]
  · intro a ha
    by_cases ha₀ : steps x a = 0
    · rw [← steps_eq_zero.mp ha₀, hx]; simp
    · rw [steps_injective (show steps x a = steps x (ahead x 1) by omega), hx₁]; simp
  · intro z e a hz ha hta
    obtain ⟨hzx, hz⟩ := taken_out_eq_some.mp hz
    have hax : a = x := by
      by_contra hax
      rw [Function.update_of_ne hax] at hta
      exact ht.reaches z e hz a ha hta
    subst hax
    refine ⟨by simp, ?_⟩
    by_cases hz₁ : steps a z = 1
    · exact Or.inr (steps_injective (hz₁.trans h₁.symm))
    · have : steps a z ≠ 0 := fun h => hzx (steps_eq_zero.mp h).symm
      exact Or.inl (by omega)
  · exact ht.distinct.mono fun z e hz => (taken_out_eq_some.mp hz).2

section Move

variable {t₀ t t' : Table N α} {x y s w : Fin N} {e e₁ : α} {m : ℕ}

lemma further (hy : steps x y = m) {a : Fin N} (hay : a ≠ y) (ha : m ≤ steps x a) : m + 1 ≤ steps x a := by
  rcases Nat.lt_or_eq_of_le ha with h | h
  · exact h
  · exact absurd (steps_injective (h.symm.trans hy.symm)) hay

variable (hsc : Scanning S t₀ t x e₁ m) (hmv : S.Moved t t' e y w)
include hsc hmv

/-- An entry that moves goes back into the part that is scanned. -/
lemma Scanning.came (hne : w ≠ y) : steps x w < m :=
  (hsc.holes y e w hmv.old (hmv.nearer hne) (hmv.free hne)).1

variable (hy : steps x y = m)
include hy

lemma Scanning.entry_before : t₀ y = some e := by
  rw [← hsc.rest y hy.ge, hmv.old]

lemma Scanning.free_behind (hs : t₀ s = none) : m < steps x s := by
  have hsy : s ≠ y := by
    rintro rfl
    rw [hsc.entry_before hmv hy] at hs
    cases hs
  by_contra hle
  rcases Nat.lt_or_eq_of_le (not_lt.mp hle) with hlt | heq
  · exact hsc.occupied s hlt hs
  · exact hsy (steps_injective (heq.trans hy.symm))

lemma Scanning.skipped_after (hm : 2 ≤ m) : t' (ahead x 1) = some e₁ := by
  have hN : 1 < N := by
    have := steps_lt x y
    omega
  have h₁ := steps_ahead x hN
  have hne : ahead x 1 ≠ y := by
    rintro rfl
    omega
  have hne' : ahead x 1 ≠ w := by
    rintro rfl
    have hfree := hmv.free hne
    rw [hsc.skipped] at hfree
    cases hfree
  rw [hmv.same _ hne' hne, hsc.skipped]

lemma Scanning.holes_after (hs : t₀ s = none) (z : Fin N) (f : α) (a : Fin N) (hz : t' z = some f)
    (ha : steps (S.start f) a < steps (S.start f) z) (hta : t' a = none) :
    steps x a < m + 1 ∧ (m + 1 ≤ steps x z ∨ z = ahead x 1) := by
  have haw : a ≠ w := by
    rintro rfl
    rw [hmv.new] at hta
    cases hta
  rcases hmv.entry hz with ⟨rfl, rfl⟩ | ⟨hzw, hzy, hz⟩
  · -- nothing empty lies before the slot that was just filled
    have hne := hmv.passed a ha
    have hay : a = y := by
      by_contra hay
      rw [hmv.same a haw hay] at hta
      exact hne hta
    subst hay
    exact absurd ha (not_lt.mpr hmv.near)
  · by_cases hay : a = y
    · -- the slot just vacated: a way through it from outside the scanned part would meet `s`
      subst hay
      refine ⟨by omega, ?_⟩
      by_contra hcon
      rw [not_or] at hcon
      have hzm : steps x z < m := by
        by_contra hge
        exact hcon.1 (further hy hzy (not_lt.mp hge))
      have hts := hsc.free_behind hmv hy hs
      have hbetween : steps a s < steps a z := by
        have t₃ := steps_triangle x a z
        have t₄ := steps_triangle x a s
        have := steps_lt a z
        have := steps_lt a s
        have := steps_lt x s
        omega
      have hfree : t s = none := (hsc.rest s hts.le).trans hs
      rcases (hsc.holes z f s hz (steps_between ha hbetween) hfree).2 with hh | hh
      · omega
      · exact hcon.2 hh
    · rw [hmv.same a haw hay] at hta
      obtain ⟨ham, hzm⟩ := hsc.holes z f a hz ha hta
      exact ⟨by omega, hzm.imp_left (further hy hzy)⟩

lemma Scanning.gap_after (hm : 2 ≤ m) :
    t' = Function.update t₀ x none ∧ (∀ y, 2 ≤ steps x y → steps x y < m + 1 → ¬ Displaced S t₀ x y) ∨
      t' x ≠ none ∧ ∃ y, 2 ≤ steps x y ∧ steps x y < m + 1 ∧ Displaced S t₀ x y := by
  have hyx : x ≠ y := by
    rintro rfl
    rw [steps_self] at hy
    omega
  have hty := hsc.entry_before hmv hy
  rcases hsc.gap with ⟨ht, hnone⟩ | ⟨htx, y', hy₂, hym, hdis⟩
  · have htx : t x = none := by rw [ht, Function.update_self]
    by_cases hwy : w = y
    · refine Or.inl ⟨(hmv.eq_of_stayed hwy).trans ht, fun y' hy₂ hym => ?_⟩
      by_cases hyy : y' = y
      · rintro ⟨f, hf, hlt⟩
        rw [hyy] at hf hlt
        rw [hty] at hf
        cases hf
        exact hmv.passed x (hwy ▸ hlt) htx
      · refine hnone y' hy₂ ?_
        by_contra hge
        have := further hy hyy (not_lt.mp hge)
        omega
    · have hwx : w = x := by
        by_contra hwx
        have hfree := hmv.free hwy
        rw [ht, Function.update_of_ne hwx] at hfree
        exact hsc.occupied w (hsc.came hmv hwy) hfree
      subst hwx
      refine Or.inr ⟨?_, y, by omega, by omega, e, hty, hmv.nearer hwy⟩
      rw [hmv.new]
      exact Option.some_ne_none e
  · refine Or.inr ⟨?_, y', hy₂, by omega, hdis⟩
    by_cases hxw : x = w
    · rw [hxw, hmv.new]
      exact Option.some_ne_none e
    · rwa [hmv.same x hxw hyx]

lemma Scanning.moved (hs : t₀ s = none) (hm : 2 ≤ m) : Scanning S t₀ t' x e₁ (m + 1) where
  rest a ha := by
    have hay : a ≠ y := by
      rintro rfl
      omega
    have haw : a ≠ w := by
      rintro rfl
      have := hsc.came hmv hay
      omega
    rw [hmv.same a haw hay, hsc.rest a (by omega)]
  skipped := hsc.skipped_after hmv hy hm
  occupied a ha := by
    by_cases hay : a = y
    · rw [hay, hsc.entry_before hmv hy]
      exact Option.some_ne_none e
    · refine hsc.occupied a ?_
      by_contra hge
      have := further hy hay (not_lt.mp hge)
      omega
  holes := hsc.holes_after hmv hy hs
  distinct := hmv.distinct hsc.distinct
  gap := hsc.gap_after hmv hy hm

end Move

lemma scanning_scan {t₀ t t' : Table N α} {x y s : Fin N} {e₁ : α} {m : ℕ} (hs : t₀ s = none)
    (hm : 2 ≤ m) (hy : steps x y = m) (hsc : Scanning S t₀ t x e₁ m) (hscan : S.Scan t y t') :
    ∃ m' y', 2 ≤ m' ∧ steps x y' = m' ∧ t' y' = none ∧ Scanning S t₀ t' x e₁ m' := by
  induction hscan generalizing m with
  | @stop t y hty => exact ⟨m, y, hm, hy, hty, hsc⟩
  | @move t y e t₁ t₂ hty hput _ ih =>
    obtain ⟨w, hmv⟩ := reput_moved hsc.distinct hty hput
    have hnext := hsc.moved hmv hy hs hm
    have hlt : m + 1 < N := by
      have hle : ¬ steps x s < m + 1 := fun h => hnext.occupied s h hs
      have := steps_lt x s
      by_contra hge
      have heq : steps x s = m + 1 := by omega
      omega
    refine ih (by omega) ?_ hnext
    rw [← ahead_steps x y, hy, ahead_ahead, steps_ahead x hlt]

lemma scanning_end {t₀ t : Table N α} {x y : Fin N} {e₁ : α} {m : ℕ} (hN : 2 < N)
    (hx₁ : t₀ (ahead x 1) = some e₁) (hm : 2 ≤ m) (hy : steps x y = m) (hty : t y = none)
    (hsc : Scanning S t₀ t x e₁ m) :
    (SkipSafe S t₀ x → S.WellProbed t) ∧ (¬ SkipSafe S t₀ x → t x = none ∧ S.start e₁ ≠ ahead x 1) := by
  have h₁ := steps_ahead x (show 1 < N by omega)
  have hty₀ : t₀ y = none := by rw [← hsc.rest y (by omega), hty]
  refine ⟨?_, ?_⟩
  · intro hsafe
    refine ⟨?_, hsc.distinct⟩
    intro z f hz a ha hta
    obtain ⟨ham, hz'⟩ := hsc.holes z f a hz ha hta
    -- the way from the gap at `a` on to `z` would cross the empty slot `y`
    have hcross : steps a y < steps a z → False := by
      intro hlt
      have := (hsc.holes z f y hz (steps_between ha hlt) hty).1
      omega
    have hzy : z ≠ y := by
      rintro rfl
      rw [hty] at hz
      cases hz
    have t₃ := steps_triangle x a z
    have t₄ := steps_triangle x a y
    have := steps_lt a z
    have := steps_lt a y
    have := steps_lt x y
    rcases hz' with hz' | rfl
    · have : steps x z ≠ m := fun h => hzy (steps_injective (h.trans hy.symm))
      exact hcross (by omega)
    · have hf : f = e₁ := by
        have := hsc.skipped
        rw [hz] at this
        exact Option.some.inj this
      subst hf
      rcases hsafe f hx₁ with hhome | ⟨y', hy₂, hocc, hdis⟩
      · rw [hhome, steps_self] at ha
        omega
      · have hlt : steps x y' < m := by
          by_contra hge
          exact hocc y (by omega) (by omega) hty₀
        rcases hsc.gap with ⟨_, hnone⟩ | ⟨htx, _⟩
        · exact hnone y' hy₂ hlt hdis
        · have hax : steps x a ≠ 0 := fun h => htx (by rwa [steps_eq_zero.mp h])
          have haz : steps x a ≠ 1 := by
            intro h
            rw [steps_injective (h.trans h₁.symm)] at ha
            omega
          exact hcross (by omega)
  · intro hunsafe
    have hhome : S.start e₁ ≠ ahead x 1 := by
      intro h
      refine hunsafe (fun f hf => Or.inl ?_)
      rw [hx₁] at hf
      cases hf
      exact h
    refine ⟨?_, hhome⟩
    rcases hsc.gap with ⟨ht, _⟩ | ⟨_, y', hy₂, hym, hdis⟩
    · rw [ht]; simp
    · refine absurd (fun f hf => Or.inr ⟨y', hy₂, ?_, hdis⟩) hunsafe
      intro a _ ha
      exact hsc.occupied a (by omega)

theorem scan_holds {t t' : Table N α} {y : Fin N} (hd : S.Distinct t) (hscan : S.Scan t y t') :
    S.Distinct t' ∧ ∀ e, Holds t' e ↔ Holds t e := by
  induction hscan with
  | stop _ => exact ⟨hd, fun _ => Iff.rfl⟩
  | @move t y e t₁ t₂ hty hput _ ih =>
    obtain ⟨w, hmv⟩ := reput_moved hd hty hput
    obtain ⟨hd', hh⟩ := ih (hmv.distinct hd)
    exact ⟨hd', fun f => (hh f).trans hmv.holds⟩

omit [NeZero N] in
lemma Distinct.nodup {t : Table N α} (hd : S.Distinct t) : (entries t).Nodup := by
  apply Multiset.Nodup.filterMap _ _ Finset.univ.nodup
  intro z z' e hz hz'
  exact hd z z' e e hz hz' rfl

lemma scan_eq_of_empty {t₀ t t' : Table N α} (ht : S.WellProbed t₀) (hN : 2 < N) {x y : Fin N}
    (hx₁ : t₀ (ahead x 1) = none) (he : t = Function.update t₀ x none) (hscan : S.Scan t y t') :
    t' = Function.update t₀ x none := by
  induction hscan with
  | stop _ => exact he
  | @move t y e t₁ t₂ hty hput _ ih =>
    obtain ⟨hyx, hty₀⟩ := taken_out_eq_some.mp (he ▸ hty)
    have hd : S.Distinct t := ht.distinct.mono fun z f hz => (taken_out_eq_some.mp (he ▸ hz)).2
    obtain ⟨w, hmv⟩ := reput_moved hd hty hput
    by_cases hwy : w = y
    · exact ih ((hmv.eq_of_stayed hwy).trans he)
    · exfalso
      have hocc := ht.reaches y e hty₀
      have hwx : w = x := by
        by_contra hwx
        have hfree := hmv.free hwy
        rw [he, Function.update_of_ne hwx] at hfree
        exact hocc w (hmv.nearer hwy) hfree
      subst hwx
      have hy₁ : y ≠ ahead w 1 := by
        rintro rfl
        rw [hx₁] at hty₀
        cases hty₀
      refine hocc (ahead w 1) (steps_between (hmv.nearer hwy) ?_) hx₁
      rw [steps_ahead w (show 1 < N by omega)]
      exact one_lt_steps (by omega) hyx hy₁

theorem scan_after_removal {t₀ t' : Table N α} (ht : S.WellProbed t₀) (hN : 2 < N) {x s : Fin N}
    {e₀ : α} (hx : t₀ x = some e₀) (hs : t₀ s = none)
    (hscan : S.Scan (Function.update t₀ x none) (ahead x 2) t') :
    (SkipSafe S t₀ x → S.WellProbed t') ∧
      (¬ SkipSafe S t₀ x → ∃ e₁, Holds t' e₁ ∧ t' (ahead x 1) = some e₁ ∧ t' x = none ∧
        steps (S.start e₁) x < steps (S.start e₁) (ahead x 1)) := by
  cases hx₁ : t₀ (ahead x 1) with
  | none =>
    have he := scan_eq_of_empty ht hN hx₁ rfl hscan
    have hback : ∀ z f, t' z = some f → z ≠ x ∧ t₀ z = some f :=
      fun z f hz => taken_out_eq_some.mp (he ▸ hz)
    refine ⟨fun _ => ⟨?_, ?_⟩, fun hunsafe => absurd (fun f hf => ?_) hunsafe⟩
    · intro z f hz a ha hta
      obtain ⟨hzx, hz⟩ := hback z f hz
      have hocc := ht.reaches z f hz
      have hax : a = x := by
        by_contra hax
        rw [he, Function.update_of_ne hax] at hta
        exact hocc a ha hta
      subst hax
      have hz₁ : z ≠ ahead a 1 := by
        rintro rfl
        rw [hx₁] at hz
        cases hz
      refine hocc (ahead a 1) (steps_between ha ?_) hx₁
      rw [steps_ahead a (show 1 < N by omega)]
      exact one_lt_steps (by omega) hzx hz₁
    · exact ht.distinct.mono fun z f hz => (hback z f hz).2
    · rw [hx₁] at hf
      cases hf
  | some e₁ =>
    obtain ⟨m, y, hm, hy, hty, hsc⟩ := scanning_scan hs (le_refl 2) (steps_ahead x hN)
      (scanning_start ht hN hx hx₁) hscan
    obtain ⟨hsafe, hunsafe⟩ := scanning_end hN hx₁ hm hy hty hsc
    refine ⟨hsafe, fun h => ?_⟩
    obtain ⟨htx, hhome⟩ := hunsafe h
    exact ⟨e₁, ⟨_, hsc.skipped⟩, hsc.skipped, htx, (start_ne_next_iff (show 2 ≤ N by omega)).mp hhome⟩

end Scheme

end Devos.LinearProbing
