import Devos.Mm.Sharing

/-! Page faults: a page for a place without one, and a page of its own for a place that shares one. -/

namespace Devos.Mm.Pages

open Longs RefCount

section Single

variable {m m' : Pages} {own : ℕ → ℕ} {p q t w o : ℕ} {d e : Fin 1024} {x : Place} {b : Byte}

lemma Only.of_setEntry (h : Counted own m) (ht : m.table d = some t) (hw : w < 2 ^ 32)
    (hmem : m'.mem = (m.setEntry t e w).mem) (hlost : m'.lost = m.lost) :
    Only (only d e) nowhere m m' ∧ m'.table = m.table ∧ m'.mapped = Function.update m.mapped (d, e) (target w) ∧
      long m'.mem t e = w := by
  have hpages : ∀ q, q ≠ t → m'.mem q = m.mem q := by
    intro q hq
    rw [hmem]
    exact setLong_of_ne hq
  have h0 := hpages 0 (Ne.symm (h.table_ne_zero ht))
  have htable : m'.table = m.table := table_congr h0
  have hmapped : m'.mapped = Function.update m.mapped (d, e) (target w) := by
    rw [← h.mapped_setEntry ht hw e]
    exact mapped_congr (congrFun hmem 0) fun _ t _ => congrFun hmem t
  refine ⟨?_, htable, hmapped, ?_⟩
  · constructor
    · intro x hx
      rw [hmapped, Function.update_of_ne hx]
    · intro x p _ hx _
      apply hpages
      rintro rfl
      exact h.mapped_ne_table ht hx
    · intro p _ hlo
      apply hpages
      rintro rfl
      exact absurd (h.table_range d p ht).1 (not_le.mpr hlo)
    · exact fun _ _ => long_congr h0
    · intro x t' hx _ ht'
      rw [htable]
      refine ⟨ht', ?_⟩
      rw [hmem]
      apply long_setLong_of_ne
      by_contra hsame
      obtain ⟨rfl, hsnd⟩ := not_or.mp hsame |>.imp not_not.mp not_not.mp
      exact hx (Prod.ext (h.table_inj ht' ht) (Fin.ext hsnd))
    · exact hlost
  · rw [hmem]
    exact long_setLong_self hw

/-- A page that only the kernel has goes to a place without one. -/
lemma Counted.putEntry (h : Counted (add own p) m) (hp : own p = 0) (ht : m.table d = some t)
    (hnone : m.mapped (d, e) = none) : Counted own (m.setEntry t e (full p)) := by
  have hadd : add own p p ≠ 0 := add_ne_zero.mpr (Or.inr rfl)
  obtain ⟨hlo, hhi⟩ := h.own_range p hadd
  obtain ⟨hmapped, htable, _⟩ := h.of_own hadd
  apply h.replace ht (full_lt hhi) rfl
  · intro r _ _
    rw [target_full]
    change m.memMap r + _ + _ = m.memMap r + _ + _
    by_cases hr : p = r
    · subst hr
      simp [hnone, add]
      omega
    · simp [hnone, add, hr, Ne.symm hr]
  · exact fun _ _ _ => rfl
  · intro r hr
    rw [target_full, Option.some.injEq] at hr
    exact hr ▸ hhi
  · intro r hr _
    rw [target_full, Option.some.injEq] at hr
    subst hr
    exact ⟨fun _ => table_ne_of_refs htable, hp, fun y hy => absurd hy (ne_of_refs hmapped)⟩
  · intro r hr _
    rw [target_full, Option.some.injEq] at hr
    subst hr
    exact ⟨hlo, h.own_once p hadd⟩
  · intro r hr _ y t' _ hyt hyp _
    rw [target_full, Option.some.injEq] at hr
    subst hr
    exact absurd (mapped_eq_some.mpr ⟨t', hyt, hyp⟩) (ne_of_refs hmapped)
  · exact fun r hr => add_ne_zero.mpr (Or.inl hr)

/-- A fresh page of zeros at a place. -/
structure Filled (own : ℕ → ℕ) (d e : Fin 1024) (m m' : Pages) : Prop where
  counted : Counted own m'
  only : Only (only d e) nowhere m m'
  fresh : ∃ t p, m'.table d = some t ∧ m'.mapped (d, e) = some p ∧ lowMem ≤ p ∧ writable (long m'.mem t e) ∧
    ∀ o, m'.mem p o = 0

lemma Counted.fill (h : Counted (add own p) m) (hp : own p = 0) (hzero : ∀ o, m.mem p o = 0) (ht : m.table d = some t)
    (hnone : m.mapped (d, e) = none) : Filled own d e m (m.setEntry t e (full p)) := by
  obtain ⟨hlo, hhi⟩ := h.own_range p (add_ne_zero.mpr (Or.inr rfl))
  obtain ⟨hon, htable, hmapped, hlong⟩ := Only.of_setEntry h ht (full_lt hhi) (e := e) rfl rfl
  refine ⟨h.putEntry hp ht hnone, hon, t, p, by rw [htable, ht], ?_, hlo, ?_, ?_⟩
  · rw [hmapped, Function.update_self, target_full]
  · rw [hlong]
    exact writable_full p
  · intro o
    have hne : p ≠ t := by
      rintro rfl
      exact table_ne_of_refs (h.of_own (add_ne_zero.mpr (Or.inr rfl))).2.1 ht
    exact (congrFun (setLong_of_ne hne) o).trans (hzero o)

/-- `put_page` with a page of zeros. -/
lemma Counted.putPage (h : Counted (add own p) m) (hp : own p = 0) (hzero : ∀ o, m.mem p o = 0) (hd : 16 ≤ d.val)
    (hnone : m.mapped (d, e) = none) :
    (∃ m', m.putPage p d e = some m' ∧ Filled own d e m m') ∨
      m.putPage p d e = none ∧ m.free = 0 ∧ m.table d = none := by
  rw [Pages.putPage]
  by_cases hpr : present (long m.mem 0 d)
  · have ht : m.table d = some (frame (long m.mem 0 d)) := by
      rw [link_of_table hd, link, if_pos hpr]
    rw [if_pos hpr]
    exact Or.inl ⟨_, rfl, h.fill hp hzero ht hnone⟩
  · have ht : m.table d = none := by
      rw [link_of_table hd, link, if_neg hpr]
    rw [if_neg hpr]
    cases hg : m.getFreePage with
    | none => exact Or.inr ⟨rfl, getFreePage_eq_none.mp hg, ht⟩
    | some r =>
      obtain ⟨t, m₁⟩ := r
      obtain ⟨h₁, hon₁, hown, _, _, hzero₁⟩ := h.getFreePage hg
      obtain ⟨h₂, hon₂, ht₂, hmapped₂⟩ := h₁.setTable hown hd (by rw [hon₁.table_eq, ht]) hzero₁
      have hadd : add own p p ≠ 0 := add_ne_zero.mpr (Or.inr rfl)
      have hpt : p ≠ t := by
        rintro rfl
        exact hadd hown
      have hp0 : p ≠ 0 := by
        have hlo := (h.own_range p hadd).1
        dsimp only [lowMem] at hlo
        omega
      obtain ⟨_, _, _, heq⟩ := getFreePage_eq_some hg
      have hmem : m₁.mem p = m.mem p := by
        rw [heq]
        exact Function.update_of_ne hpt _ _
      have hkept : (m₁.setEntry 0 d (full t)).mem p = m₁.mem p := setLong_of_ne hp0
      have hfill := h₂.fill hp (fun o => by rw [hkept, hmem, hzero]) ht₂ (by rw [hmapped₂, hon₁.mapped_eq, hnone])
      refine Or.inl ⟨_, rfl, hfill.counted, ?_, hfill.fresh⟩
      exact ((hon₁.mono (fun _ => False.elim) fun _ hx => hx).trans (hon₂ e)).trans hfill.only

/-- `do_no_page` puts a page at the place, or has no page for it, or has it and no page for its table. -/
lemma Counted.doNoPage (h : Counted own m) (hd : 16 ≤ d.val) (hnone : m.mapped (d, e) = none) :
    (∃ m', m.doNoPage d e = (m', true) ∧ Filled own d e m m') ∨
      m.doNoPage d e = (m, false) ∧ m.free = 0 ∨
      ∃ m₁ p, m.doNoPage d e = ({ m₁ with lost := p :: m.lost }, false) ∧ m.free = 1 ∧ m.table d = none ∧
        own p = 0 ∧ Counted (add own p) m₁ ∧ Only nowhere nowhere m m₁ := by
  rw [Pages.doNoPage]
  cases hg : m.getFreePage with
  | none => exact Or.inr (Or.inl ⟨rfl, getFreePage_eq_none.mp hg⟩)
  | some r =>
    obtain ⟨p, m₁⟩ := r
    obtain ⟨h₁, hon₁, hown, _, _, hzero⟩ := h.getFreePage hg
    have hfree : m₁.free + 1 = m.free := free_getFreePage hg
    dsimp only
    rcases h₁.putPage hown hzero hd (by rw [hon₁.mapped_eq, hnone]) with ⟨m', hput, hfill⟩ | ⟨hput, hfree₁, ht⟩
    · rw [hput]
      refine Or.inl ⟨m', rfl, hfill.counted, ?_, hfill.fresh⟩
      exact (hon₁.mono (fun _ => False.elim) fun _ hx => hx).trans hfill.only
    · rw [hput]
      refine Or.inr (Or.inr ⟨m₁, p, ?_, by omega, ?_, hown, h₁, hon₁⟩)
      · rw [hon₁.lost]
      · rw [← hon₁.table_eq, ht]

/-- With one page, and no table for the place, there is none. -/
lemma doNoPage_lost (hd : 16 ≤ d.val) (hfree : m.free = 1) (ht : m.table d = none) : (m.doNoPage d e).2 = false := by
  rw [Pages.doNoPage]
  cases hg : m.getFreePage with
  | none => rfl
  | some r =>
    obtain ⟨p, m₁⟩ := r
    have hleft : m₁.free + 1 = m.free := free_getFreePage hg
    have hnext : m₁.getFreePage = none := getFreePage_eq_none.mpr (by omega)
    obtain ⟨hlo, _, _, rfl⟩ := getFreePage_eq_some hg
    have hzero : p ≠ 0 := by
      dsimp only [lowMem] at hlo
      omega
    have habsent : ¬present (long (Function.update m.mem p fun _ => 0) 0 d) := by
      rw [long_congr (Function.update_of_ne hzero.symm _ _)]
      intro hp
      rw [link_of_table hd, link, if_pos hp] at ht
      cases ht
    dsimp only
    rw [Pages.putPage, if_neg habsent, hnext]
    rfl

/-- A place that may be written has a page of its own, with what was in the page `q`. -/
structure Unshared (own : ℕ → ℕ) (d e : Fin 1024) (q : ℕ) (m m' : Pages) : Prop where
  counted : Counted own m'
  only : Only (only d e) nowhere m m'
  tables : m'.table = m.table
  same : ∃ t p, m'.table d = some t ∧ m'.mapped (d, e) = some p ∧ lowMem ≤ p ∧ writable (long m'.mem t e) ∧
    m'.mem p = m.mem q

/-- The only reference to a page may write. -/
lemma Counted.allow (h : Counted own m) (ht : m.table d = some t) (hq : m.link t e = some q) (hlo : lowMem ≤ q)
    (hone : m.memMap q = 1) : Unshared own d e q m (m.setEntry t e (allowWrite (long m.mem t e))) := by
  obtain ⟨hpr, hframe⟩ := link_eq_some.mp hq
  have hx : m.mapped (d, e) = some q := by rw [mapped_of_table ht, hq]
  have hhi := h.mapped_range _ q hx
  have hw : allowWrite (long m.mem t e) < 2 ^ 32 := allowWrite_lt (by rw [hframe]; exact hhi)
  have htarget : target (allowWrite (long m.mem t e)) = some q := by
    rw [target, if_pos (present_allowWrite hpr), frame_allowWrite, hframe]
  obtain ⟨hon, htable, hmapped, hlong⟩ := Only.of_setEntry h ht hw (e := e) rfl rfl
  refine ⟨?_, hon, htable, t, q, by rw [htable, ht], ?_, hlo, ?_, ?_⟩
  · apply h.replace ht hw rfl
    · intro r _ _
      rw [htarget, hx]
      rfl
    · exact fun _ _ _ => rfl
    · intro r hr
      rw [htarget, Option.some.injEq] at hr
      exact hr ▸ hhi
    · intro r hr _
      rw [htarget, Option.some.injEq] at hr
      subst hr
      exact ⟨fun d' hd' => h.mapped_ne_table hd' hx, h.own_eq_zero hx, fun y hy => h.aligned y _ q hlo hy hx⟩
    · intro r hr _
      rw [htarget, Option.some.injEq] at hr
      exact hr ▸ ⟨hlo, hone⟩
    · intro r hr _ _ _ _ _ _ _
      rw [htarget, Option.some.injEq] at hr
      exact hr ▸ hone
    · exact fun _ hr => hr
  · rw [hmapped, Function.update_self, htarget]
  · rw [hlong]
    exact writable_allowWrite _
  · apply setLong_of_ne
    rintro rfl
    exact h.mapped_ne_table ht hx

/-- The place gets the page `p` instead of `q`. -/
lemma Counted.exchange (h : Counted (add own p) m) (hp : own p = 0) (ht : m.table d = some t)
    (hx : m.mapped (d, e) = some q) (hq : lowMem ≤ q → m'.memMap q + 1 = m.memMap q)
    (hsame : ∀ r, r ≠ q ∨ r < lowMem → m'.memMap r = m.memMap r) (hmem : m'.mem = (m.setEntry t e (full p)).mem) :
    Counted own m' := by
  have hadd : add own p p ≠ 0 := add_ne_zero.mpr (Or.inr rfl)
  obtain ⟨hlo, hhi⟩ := h.own_range p hadd
  obtain ⟨hmapped, htable, _⟩ := h.of_own hadd
  have hpq : p ≠ q := by
    rintro rfl
    exact ne_of_refs hmapped hx
  apply h.replace ht (full_lt hhi) hmem
  · intro r hr _
    rw [target_full, hx]
    by_cases hrq : r = q
    · subst hrq
      have hone := hq hr
      simp [add, hpq, Ne.symm hpq]
      omega
    · rw [hsame r (Or.inl hrq)]
      by_cases hrp : r = p
      · subst hrp
        simp [add, Ne.symm hpq]
        omega
      · simp [add, hrp, Ne.symm hrp, Ne.symm hrq]
  · intro r hr _
    rw [hx, ne_eq, Option.some.injEq] at hr
    exact hsame r (Or.inl (Ne.symm hr))
  · intro r hr
    rw [target_full, Option.some.injEq] at hr
    exact hr ▸ hhi
  · intro r hr _
    rw [target_full, Option.some.injEq] at hr
    subst hr
    exact ⟨fun _ => table_ne_of_refs htable, hp, fun y hy => absurd hy (ne_of_refs hmapped)⟩
  · intro r hr _
    rw [target_full, Option.some.injEq] at hr
    subst hr
    exact ⟨hlo, by rw [hsame p (Or.inl hpq)]; exact h.own_once p hadd⟩
  · intro r hr _ y t' _ hyt hyp _
    rw [target_full, Option.some.injEq] at hr
    subst hr
    exact absurd (mapped_eq_some.mpr ⟨t', hyt, hyp⟩) (ne_of_refs hmapped)
  · exact fun r hr => add_ne_zero.mpr (Or.inl hr)

/-- `un_wp_page` at a place with a page. -/
lemma Counted.unWpPage (h : Counted own m) (ht : m.table d = some t) (hq : m.link t e = some q) :
    (∃ m', m.unWpPage t e = (m', true) ∧ Unshared own d e q m m') ∨ m.unWpPage t e = (m, false) ∧ m.free = 0 := by
  have hx : m.mapped (d, e) = some q := by rw [mapped_of_table ht, hq]
  rw [Pages.unWpPage, (link_eq_some.mp hq).2]
  dsimp only
  by_cases halone : lowMem ≤ q ∧ m.memMap q = 1
  · rw [if_pos halone]
    exact Or.inl ⟨_, rfl, h.allow ht hq halone.1 halone.2⟩
  · rw [if_neg halone]
    cases hg : m.getFreePage with
    | none => exact Or.inr ⟨rfl, getFreePage_eq_none.mp hg⟩
    | some r =>
      obtain ⟨p, m₁⟩ := r
      obtain ⟨h₁, hon₁, hown, hrefs, htrefs, _⟩ := h.getFreePage hg
      obtain ⟨hlo, hhi, _, heq⟩ := getFreePage_eq_some hg
      have hx₁ : m₁.mapped (d, e) = some q := by rw [hon₁.mapped_eq, hx]
      have ht₁ : m₁.table d = some t := by rw [hon₁.table_eq, ht]
      have hqp : q ≠ p := by
        rintro rfl
        exact ne_of_refs hrefs hx
      have hpt : p ≠ t := by
        rintro rfl
        exact table_ne_of_refs htrefs ht
      have hqt : q ≠ t := by
        rintro rfl
        exact h.mapped_ne_table ht hx
      have hold : m₁.mem q = m.mem q := by
        rw [heq]
        exact Function.update_of_ne hqp _ _
      have hnot : ∀ d', m₁.table d' ≠ some p := by
        intro d'
        rw [hon₁.table_eq]
        exact table_ne_of_refs htrefs
      obtain ⟨h₂, hmapped₂, htable₂⟩ := h₁.touch hlo hnot (m₁.mem q)
      refine Or.inl ⟨_, rfl, ?_⟩
      generalize hm₃ : (if lowMem ≤ q then m₁.setMap q (m₁.memMap q - 1) else m₁) = m₃
      have hmem₃ : m₃.mem = m₁.mem := by
        rw [← hm₃]
        split_ifs <;> rfl
      have hlost₃ : m₃.lost = m₁.lost := by
        rw [← hm₃]
        split_ifs <;> rfl
      have hmem : ((m₃.setEntry t e (full p)).copyPage q p).mem =
          setLong (Function.update m₁.mem p (m₁.mem q)) t e (full p) := by
        unfold copyPage setEntry
        dsimp only
        rw [hmem₃, setLong_of_ne hqt]
        unfold setLong
        rw [Function.update_of_ne (Ne.symm hpt), Function.update_comm hpt]
      have hcount : (lowMem ≤ q → m₃.memMap q + 1 = m₁.memMap q) ∧
          ∀ r, r ≠ q ∨ r < lowMem → m₃.memMap r = m₁.memMap r := by
        rw [← hm₃]
        constructor
        · intro hq'
          have hpos := h₁.pos hx₁ hq'
          rw [if_pos hq']
          change Function.update m₁.memMap q (m₁.memMap q - 1) q + 1 = _
          rw [Function.update_self]
          omega
        · intro r hr
          split_ifs with hq'
          · apply Function.update_of_ne
            rintro rfl
            omega
          · rfl
      have hon₂ : Only nowhere nowhere m₁ { m₁ with mem := Function.update m₁.mem p (m₁.mem q) } := by
        refine Only.of_mem ?_ rfl
        intro r hr
        apply Function.update_of_ne
        rintro rfl
        rcases hr with hr | ⟨x, hr⟩ | ⟨d', hr⟩
        · omega
        · rw [hon₁.mapped_eq] at hr
          exact ne_of_refs hrefs hr
        · exact hnot d' hr
      obtain ⟨hon₃, htable₃, hmapped₃, hlong₃⟩ := Only.of_setEntry h₂ (by rw [htable₂, ht₁]) (full_lt hhi) hmem hlost₃
      refine ⟨?_, ?_, by rw [htable₃, htable₂, hon₁.table_eq], t, p, by rw [htable₃, htable₂, ht₁], ?_, hlo, ?_, ?_⟩
      · exact h₂.exchange hown (by rw [htable₂, ht₁]) (by rw [hmapped₂, hx₁]) hcount.1 hcount.2 hmem
      · have hfirst := hon₁.trans hon₂
        exact (hfirst.mono (fun _ => False.elim) fun _ hx => hx).trans hon₃
      · rw [hmapped₃, Function.update_self, target_full]
      · rw [hlong₃]
        exact writable_full p
      · rw [hmem, setLong_of_ne hpt, Function.update_self, hold]

/-- If there is a page at the place, it may be written. -/
def Open (m : Pages) (x : Place) : Prop :=
  ∀ t, m.table x.1 = some t → present (long m.mem t x.2) → writable (long m.mem t x.2)

lemma Unshared.isOpen (h : Unshared own d e q m m') : Open m' (d, e) := by
  obtain ⟨t, _, ht, _, _, hw, _⟩ := h.same
  intro t' ht' _
  rw [ht, Option.some.injEq] at ht'
  exact ht' ▸ hw

lemma Filled.isOpen (h : Filled own d e m m') : Open m' (d, e) := by
  obtain ⟨t, _, ht, _, _, hw, _⟩ := h.fresh
  intro t' ht' _
  rw [ht, Option.some.injEq] at ht'
  exact ht' ▸ hw

/-- `write_verify`, at any place of memory. -/
lemma Counted.writeVerify (h : Counted own m) (d e : Fin 1024) :
    m.writeVerify d e = (m, true) ∧ Open m (d, e) ∨
      (∃ q m', 16 ≤ d.val ∧ m.mapped (d, e) = some q ∧ m.writeVerify d e = (m', true) ∧ Unshared own d e q m m') ∨
      m.writeVerify d e = (m, false) ∧ m.free = 0 := by
  rw [Pages.writeVerify]
  by_cases hpr : present (long m.mem 0 d)
  · rw [if_pos hpr]
    dsimp only
    by_cases hd : 16 ≤ d.val
    · have ht : m.table d = some (frame (long m.mem 0 d)) := by
        rw [link_of_table hd, link, if_pos hpr]
      by_cases hw : present (long m.mem (frame (long m.mem 0 d)) e) ∧
          ¬writable (long m.mem (frame (long m.mem 0 d)) e)
      · have hq : m.link (frame (long m.mem 0 d)) e = some (frame (long m.mem (frame (long m.mem 0 d)) e)) :=
          if_pos hw.1
        rw [if_pos hw]
        rcases h.unWpPage ht hq with ⟨m', hrun, hun⟩ | ⟨hrun, hfree⟩
        · exact Or.inr (Or.inl ⟨_, m', hd, by rw [mapped_of_table ht, hq], hrun, hun⟩)
        · exact Or.inr (Or.inr ⟨hrun, hfree⟩)
      · rw [if_neg hw]
        refine Or.inl ⟨rfl, ?_⟩
        intro t ht' hp
        rw [ht, Option.some.injEq] at ht'
        subst ht'
        by_contra hno
        exact hw ⟨hp, hno⟩
    · have hk := h.kernel d (not_le.mp hd)
      have hlow : d.val < 2 := by
        by_contra hge
        rw [hk, if_neg hge] at hpr
        exact absurd hpr (by decide)
      rw [if_pos hlow] at hk
      rw [hk, frame_full, h.kernel_map d hlow e e.isLt, if_neg fun hv => hv.2 (writable_full _)]
      refine Or.inl ⟨rfl, ?_⟩
      intro t ht
      rw [table, if_neg hd] at ht
      cases ht
  · rw [if_neg hpr]
    refine Or.inl ⟨rfl, ?_⟩
    intro t ht
    unfold table link at ht
    rw [if_neg hpr] at ht
    split_ifs at ht

/-- A byte goes to the page at a place. -/
def store (x : Place) (o : ℕ) (b : Byte) (m : Pages) : Pages :=
  match m.walk x with
  | none => m
  | some p => { m with mem := Function.update m.mem p (Function.update (m.mem p) o b) }

/-- A store through an entry that may be written changes the page of this place only. -/
lemma Counted.store (h : Counted own m) (ht : m.table x.1 = some t) (hp : m.link t x.2 = some p)
    (hw : writable (long m.mem t x.2)) (o : ℕ) (b : Byte) :
    Counted own (m.store x o b) ∧ Only (only x.1 x.2) nowhere m (m.store x o b) ∧ lowMem ≤ p ∧
      (m.store x o b).table = m.table ∧ (m.store x o b).mapped = m.mapped ∧
      (∀ t' d, m.table d = some t' → (m.store x o b).mem t' = m.mem t') ∧
      (m.store x o b).mem p = Function.update (m.mem p) o b := by
  obtain ⟨hlo, hone⟩ := h.writes x t p ht hp hw
  have hx : m.mapped x = some p := mapped_eq_some.mpr ⟨t, ht, hp⟩
  have hd : 16 ≤ x.1.val := by
    by_contra hno
    rw [table, if_neg hno] at ht
    cases ht
  have hstore : m.store x o b = { m with mem := Function.update m.mem p (Function.update (m.mem p) o b) } := by
    rw [Pages.store, walk_eq_mapped hd, hx]
  have hne : ∀ d, m.table d ≠ some p := fun d hd => h.mapped_ne_table hd hx
  obtain ⟨hc, hmapped, htable⟩ := h.touch hlo hne (Function.update (m.mem p) o b)
  rw [hstore]
  have htables : ∀ t' d, m.table d = some t' →
      Function.update m.mem p (Function.update (m.mem p) o b) t' = m.mem t' := by
    intro t' d ht'
    apply Function.update_of_ne
    rintro rfl
    exact hne d ht'
  refine ⟨hc, ?_, hlo, htable, hmapped, htables, Function.update_self _ _ _⟩
  constructor
  · exact fun y _ => congrFun hmapped y
  · intro y q hy hq _
    apply Function.update_of_ne
    rintro rfl
    exact hy (h.once hlo hone hq hx)
  · intro q _ hq
    apply Function.update_of_ne
    rintro rfl
    exact absurd hlo (not_le.mpr hq)
  · intro d' _
    apply long_congr
    apply Function.update_of_ne
    rintro rfl
    exact absurd hlo (by decide)
  · intro y t' _ _ ht'
    rw [htable]
    exact ⟨ht', long_congr (htables t' y.1 ht')⟩
  · rfl

end Single

end Devos.Mm.Pages
