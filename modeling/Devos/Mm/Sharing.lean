import Devos.Mm.Operations
import Mathlib.Data.Nat.Count

/-! The copy that `fork` makes of page tables. -/

namespace Devos.Mm.Pages

open Longs RefCount Loops

section Entries

variable {m : Pages} {own : ℕ → ℕ} {p q t w : ℕ} {s d e : Fin 1024} {x : Place}

lemma Counted.own_eq_zero (h : Counted own m) (hx : m.mapped x = some p) : own p = 0 := by
  by_contra hne
  exact ne_of_refs (h.of_own hne).1 hx

/-- A page is mapped once in each of the 64 address spaces, at the most. -/
lemma Counted.count_le (h : Counted own m) (hlo : lowMem ≤ p) (hx : m.mapped x = some p) : m.memMap p ≤ 64 := by
  have hcount := h.counts p hlo (h.mapped_range x p hx)
  have htable : refs m.table p = 0 := refs_eq_zero fun d hd => h.mapped_ne_table hd hx
  have hown := h.own_eq_zero hx
  have hrefs : refs m.mapped p ≤ Fintype.card (Fin 64) := by
    apply refs_le_of_inj fun y : Place => (⟨y.1.val / 16, by omega⟩ : Fin 64)
    intro y z hy hz heq
    obtain ⟨hmod, hsnd⟩ := h.aligned y z p hlo hy hz
    have hdiv : y.1.val / 16 = z.1.val / 16 := congrArg Fin.val heq
    exact Prod.ext (Fin.ext (by omega)) hsnd
  rw [Fintype.card_fin] at hrefs
  omega

lemma denyWrite_high (h : present w) : lowMem * 4096 < denyWrite w ↔ lowMem ≤ frame w := by
  rw [← frame_denyWrite h]
  have hp := present_denyWrite h
  unfold present at hp
  unfold frame
  dsimp only [lowMem]
  omega

lemma target_denyWrite (h : present w) : target (denyWrite w) = some (frame w) := by
  rw [target, if_pos (present_denyWrite h), frame_denyWrite h]

/-- The kernel's own table maps each page at its number. -/
lemma Counted.kernel_link (h : Counted own m) (e : Fin 1024) : m.link 1 e = some e.val := by
  have hmap := h.kernel_map 0 (by decide) e e.isLt
  rw [Nat.mul_zero, Nat.zero_add, Nat.add_zero] at hmap
  rw [link, hmap, if_pos (present_full _), frame_full]

/-- The entries `E` of the table at `s`, in page `t`, are shared with the one at `d`, in page `p`. -/
structure Shared (own : ℕ → ℕ) (s d : Fin 1024) (t p : ℕ) (E : Fin 1024 → Prop) [DecidablePred E] (m m' : Pages) :
    Prop where
  counted : Counted own m'
  mapped : ∀ x, m'.mapped x = if x.1 = d ∧ E x.2 then m.link t x.2 else m.mapped x
  pages : ∀ q, q ≠ p → (m.table s = some t → q ≠ t) → m'.mem q = m.mem q
  links : ∀ e : Fin 1024, m'.link t e = m.link t e
  used : ∀ q, m'.memMap q = 0 ↔ m.memMap q = 0
  lost : m'.lost = m.lost

/-- What a table is copied from: that of a task, or the kernel's. -/
def Source (m : Pages) (s : Fin 1024) (t : ℕ) (e : Fin 1024) : Prop :=
  m.table s = some t ∨ m.table s = none ∧ t = 1 ∧ e.val < 160

/-- An entry that can no longer be written through refers to the same page. -/
lemma Counted.deny (h : Counted own m) (hs : m.table s = some t) (hp : present (long m.mem t e)) :
    Counted own (m.setEntry t e (denyWrite (long m.mem t e))) ∧
      (m.setEntry t e (denyWrite (long m.mem t e))).mapped = m.mapped ∧
      (m.setEntry t e (denyWrite (long m.mem t e))).table = m.table := by
  have hw := lt_of_le_of_lt (denyWrite_le _) (long_lt m.mem t e)
  have hx : m.mapped (s, e) = target (denyWrite (long m.mem t e)) := by
    rw [mapped_of_table hs, link, if_pos hp, target_denyWrite hp]
  refine ⟨?_, ?_, table_setEntry (h.table_ne_zero hs)⟩
  · apply h.replace hs hw rfl
    · intro q _ _
      rw [hx]
      rfl
    · exact fun _ _ _ => rfl
    · intro p hp
      rw [← hx] at hp
      exact h.mapped_range _ p hp
    · intro p hp hlo
      rw [← hx] at hp
      exact ⟨fun d' hd' => h.mapped_ne_table hd' hp, h.own_eq_zero hp, fun y hy => h.aligned y _ p hlo hy hp⟩
    · exact fun _ _ hwrite => absurd hwrite (not_writable_denyWrite _)
    · exact fun p _ _ y t' _ hyt hyp hyw => (h.writes y t' p hyt hyp hyw).2
    · exact fun _ hq => hq
  · rw [h.mapped_setEntry hs hw e, ← hx, Function.update_eq_self]

/-- A second entry for a page that no entry can write. -/
lemma Counted.share (h : Counted own m) (hd : m.table d = some p) (hempty : m.mapped (d, e) = none)
    (hw : w < 2 ^ 32) (hp : target w = some q) (hwrite : ¬writable w) (hhi : q < highMemory) {m' : Pages}
    (hmem : m'.mem = (m.setEntry p e w).mem)
    (hcount : ∀ r, m'.memMap r = m.memMap r + if lowMem ≤ q ∧ r = q then 1 else 0)
    (hx : lowMem ≤ q → ∃ s t, m.mapped (s, e) = some q ∧ s.val % 16 = d.val % 16 ∧
      m.table s = some t ∧ ¬writable (long m.mem t e)) : Counted own m' := by
  apply h.replace hd hw hmem
  · intro r hlo _
    rw [hcount, hp]
    by_cases hr : r = q
    · subst hr
      simp [hempty, hlo]
    · simp [hempty, hr, Ne.symm hr]
  · intro r _ hr
    rw [hp, ne_eq, Option.some.injEq] at hr
    rw [hcount, if_neg (fun hv => hr hv.2.symm), Nat.add_zero]
  · intro r hr
    rw [hp, Option.some.injEq] at hr
    exact hr ▸ hhi
  · intro r hr hlo
    rw [hp, Option.some.injEq] at hr
    subst hr
    obtain ⟨s, t, hs, halign, _⟩ := hx hlo
    refine ⟨fun d' hd' => h.mapped_ne_table hd' hs, h.own_eq_zero hs, ?_⟩
    intro y hy
    obtain ⟨hmod, hsnd⟩ := h.aligned y _ q hlo hy hs
    exact ⟨hmod.trans halign, hsnd⟩
  · exact fun _ _ hv => absurd hv hwrite
  · intro r hr hlo y t' _ hyt hyp hyw
    rw [hp, Option.some.injEq] at hr
    subst hr
    obtain ⟨s, t, hs, _, hst, hno⟩ := hx hlo
    have hone := (h.writes y t' q hyt hyp hyw).2
    have hy : y = (s, e) := h.once hlo hone (mapped_eq_some.mpr ⟨t', hyt, hyp⟩) hs
    subst hy
    rw [hst, Option.some.injEq] at hyt
    subst hyt
    exact absurd hyw hno
  · exact fun _ hq => hq

lemma Counted.copyEntry (h : Counted own m) (hs : Source m s t e) (hd : m.table d = some p) (hne : s ≠ d)
    (halign : s.val % 16 = d.val % 16) (hempty : m.mapped (d, e) = none) :
    Shared own s d t p (· = e) m (m.copyEntry t p e) := by
  have htp : t ≠ p := by
    rintro rfl
    rcases hs with hs | ⟨_, rfl, _⟩
    · exact hne (h.table_inj hs hd)
    · exact absurd (h.table_range d 1 hd).1 (by decide)
  have hshared : ∀ m' : Pages, Counted own m' → m'.mapped = Function.update m.mapped (d, e) (m.link t e) →
      (∀ q, q ≠ p → (m.table s = some t → q ≠ t) → m'.mem q = m.mem q) → (∀ e : Fin 1024, m'.link t e = m.link t e) →
      (∀ q, m'.memMap q = 0 ↔ m.memMap q = 0) → m'.lost = m.lost → Shared own s d t p (· = e) m m' := by
    intro m' hc hmapped hpages hlinks hused hlost
    refine ⟨hc, ?_, hpages, hlinks, hused, hlost⟩
    intro x
    rw [hmapped]
    by_cases hx : x = (d, e)
    · rw [hx, Function.update_self, if_pos ⟨rfl, rfl⟩]
    · rw [Function.update_of_ne hx, if_neg fun hv => hx (Prod.ext hv.1 hv.2)]
  rw [Pages.copyEntry]
  by_cases hp : present (long m.mem t e)
  · have hlink : m.link t e = some (frame (long m.mem t e)) := if_pos hp
    have hw := lt_of_le_of_lt (denyWrite_le _) (long_lt m.mem t e)
    have htarget := target_denyWrite hp
    rw [if_pos hp]
    dsimp only
    rw [frame_denyWrite hp]
    by_cases hq : lowMem ≤ frame (long m.mem t e)
    · rw [if_pos ((denyWrite_high hp).mpr hq)]
      have hst : m.table s = some t := by
        rcases hs with hs | ⟨_, rfl, he⟩
        · exact hs
        · rw [h.kernel_link, Option.some.injEq] at hlink
          dsimp only [lowMem] at hq
          omega
      obtain ⟨h₁, hmapped₁, htable₁⟩ := h.deny hst hp
      have hx : m.mapped (s, e) = some (frame (long m.mem t e)) := by rw [mapped_of_table hst, hlink]
      have hcount := h.count_le hq hx
      have hpos := h.pos hx hq
      generalize hold : frame (long m.mem t e) = q at *
      generalize hword : denyWrite (long m.mem t e) = w at *
      have hmem : setLong (setLong m.mem p e w) t e w = setLong (setLong m.mem t e w) p e w :=
        setLong_comm (Ne.symm htp)
      have hover : (m.memMap q + 1) % 2 ^ 16 = m.memMap q + 1 := Nat.mod_eq_of_lt (by omega)
      change Shared own s d t p (· = e) m (((m.setEntry p e w).setEntry t e w).setMap q ((m.memMap q + 1) % 2 ^ 16))
      rw [hover]
      apply hshared
      · apply h₁.share (by rw [htable₁, hd]) (by rw [hmapped₁, hempty]) hw htarget (hword ▸ not_writable_denyWrite _)
          (h.mapped_range _ _ hx) hmem
        · intro r
          change Function.update m.memMap q (m.memMap q + 1) r = m.memMap r + _
          by_cases hr : r = q
          · rw [hr, Function.update_self, if_pos ⟨hq, rfl⟩]
          · rw [Function.update_of_ne hr, if_neg fun hv => hr hv.2, Nat.add_zero]
        · intro _
          refine ⟨s, t, by rw [hmapped₁, hx], halign, by rw [htable₁, hst], ?_⟩
          rw [long_setEntry hw, if_pos ⟨rfl, rfl⟩, ← hword]
          exact not_writable_denyWrite _
      · have hsame : (((m.setEntry p e w).setEntry t e w).setMap q (m.memMap q + 1)).mapped =
            ((m.setEntry t e w).setEntry p e w).mapped :=
          mapped_congr (congrFun hmem 0) fun _ t _ => congrFun hmem t
        rw [hsame, h₁.mapped_setEntry (by rw [htable₁, hd]) hw e, hmapped₁, htarget, hlink]
      · intro r hrp hrt
        exact (setLong_of_ne (hrt hst)).trans (setLong_of_ne hrp)
      · intro e'
        have hset : (((m.setEntry p e w).setEntry t e w).setMap q (m.memMap q + 1)).link t e' =
          ((m.setEntry p e w).setEntry t e w).link t e' := rfl
        rw [hset, link_setEntry hw]
        split_ifs with he'
        · rw [htarget, ← hlink, he'.2]
        · exact link_congr (setLong_of_ne htp)
      · intro r
        change Function.update m.memMap q (m.memMap q + 1) r = 0 ↔ _
        by_cases hr : r = q
        · rw [hr, Function.update_self]
          omega
        · rw [Function.update_of_ne hr]
      · rfl
    · rw [if_neg (mt (denyWrite_high hp).mp hq)]
      have hhi : frame (long m.mem t e) < highMemory := lt_trans (not_le.mp hq) (by decide)
      apply hshared
      · apply h.share hd hempty hw htarget (not_writable_denyWrite _) hhi rfl
        · intro r
          rw [if_neg fun hv => hq hv.1]
          rfl
        · exact fun hlo => absurd hlo hq
      · rw [h.mapped_setEntry hd hw e, htarget, hlink]
      · exact fun q hqp _ => setLong_of_ne hqp
      · exact fun e' => link_congr (setLong_of_ne htp)
      · exact fun _ => Iff.rfl
      · rfl
  · have hlink : m.link t e = none := if_neg hp
    rw [if_neg hp]
    apply hshared m h
    · rw [hlink, ← hempty, Function.update_eq_self]
    · exact fun _ _ _ => rfl
    · exact fun _ => rfl
    · exact fun _ => Iff.rfl
    · rfl

lemma Shared.table_eq {E : Fin 1024 → Prop} [DecidablePred E] {m' : Pages} (hm : Shared own s d t p E m m')
    (h : Counted own m) (hd : m.table d = some p) : m'.table = m.table := by
  apply table_congr
  apply hm.pages 0 (Ne.symm (h.table_ne_zero hd))
  intro hs
  exact Ne.symm (h.table_ne_zero hs)

lemma Counted.copyTable {nr : ℕ} (h : Counted own m)
    (hs : m.table s = some t ∧ nr = 1024 ∨ m.table s = none ∧ t = 1 ∧ nr = 160) (hd : m.table d = some p)
    (hne : s ≠ d) (halign : s.val % 16 = d.val % 16) (hempty : ∀ e, m.mapped (d, e) = none) :
    Shared own s d t p (·.val < nr) m (forLoop 0 nr (Pages.copyEntry t p) m) := by
  have hnr : nr ≤ 1024 := by omega
  apply forLoop_induction (P := fun i m' => Shared own s d t p (·.val < i) m m') (Nat.zero_le nr)
  · exact ⟨h, fun _ => (if_neg (by simp)).symm, fun _ _ _ => rfl, fun _ => rfl, fun _ => Iff.rfl, rfl⟩
  · intro i m₁ _ hi hm₁
    have htable := hm₁.table_eq h hd
    have hi' : i < 1024 := lt_of_lt_of_le hi hnr
    have hsource : Source m₁ s t ⟨i, hi'⟩ := by
      unfold Source
      rw [htable]
      rcases hs with ⟨hs, _⟩ | ⟨hs, ht, rfl⟩
      · exact Or.inl hs
      · exact Or.inr ⟨hs, ht, hi⟩
    have hnone : m₁.mapped (d, ⟨i, hi'⟩) = none := by
      rw [hm₁.mapped, if_neg fun hv => lt_irrefl _ hv.2]
      exact hempty _
    have hm₂ := hm₁.counted.copyEntry hsource (by rw [htable, hd]) hne halign hnone
    refine ⟨hm₂.counted, ?_, ?_, ?_, ?_, hm₂.lost.trans hm₁.lost⟩
    · intro x
      rw [hm₂.mapped, hm₁.links, hm₁.mapped]
      by_cases hx : x.1 = d ∧ x.2 = ⟨i, hi'⟩
      · rw [if_pos hx, if_pos ⟨hx.1, by rw [hx.2]; exact Nat.lt_succ_self i⟩]
      · have hiff : (x.1 = d ∧ x.2.val < i) ↔ x.1 = d ∧ x.2.val < i + 1 := by
          constructor
          · exact fun hv => ⟨hv.1, Nat.lt_succ_of_lt hv.2⟩
          · intro hv
            have hne' : x.2.val ≠ i := fun heq => hx ⟨hv.1, Fin.ext heq⟩
            exact ⟨hv.1, by omega⟩
        rw [if_neg hx, if_congr hiff rfl rfl]
    · intro q hqp hqt
      rw [hm₂.pages q hqp (by rw [htable]; exact hqt), hm₁.pages q hqp hqt]
    · intro e
      rw [hm₂.links, hm₁.links]
    · intro q
      rw [hm₂.used, hm₁.used]

end Entries

section Supply

variable {m m' : Pages} {own : ℕ → ℕ} {p : ℕ}

/-- The number of free pages. -/
def free (m : Pages) : ℕ := Nat.count (fun i => m.memMap (lowMem + i) = 0) pagingPages

lemma lastFree_eq_none (n : ℕ) : m.lastFree n = none ↔ Nat.count (fun i => m.memMap (lowMem + i) = 0) n = 0 := by
  induction n with
  | zero => simp [lastFree]
  | succ n ih =>
    rw [lastFree, Nat.count_succ]
    split_ifs with hfree
    · simp
    · rw [ih, Nat.add_zero]

lemma getFreePage_eq_none : m.getFreePage = none ↔ m.free = 0 := by
  rw [Pages.getFreePage, Option.map_eq_none_iff, lastFree_eq_none]
  rfl

lemma free_congr (h : ∀ q, m'.memMap q = 0 ↔ m.memMap q = 0) : m'.free = m.free := by
  unfold free
  simp only [h]

lemma free_getFreePage (h : m.getFreePage = some (p, m')) : m'.free + 1 = m.free := by
  obtain ⟨hlo, hhi, hfree, rfl⟩ := getFreePage_eq_some h
  have hk : p - lowMem ∈ (Finset.range pagingPages).filter fun i => m.memMap (lowMem + i) = 0 := by
    rw [Finset.mem_filter, Finset.mem_range]
    dsimp only [lowMem, highMemory, pagingPages] at *
    exact ⟨by omega, by rw [Nat.add_sub_cancel' hlo]; exact hfree⟩
  have herase : (Finset.range pagingPages).filter (fun i => Function.update m.memMap p 1 (lowMem + i) = 0) =
      ((Finset.range pagingPages).filter fun i => m.memMap (lowMem + i) = 0).erase (p - lowMem) := by
    ext i
    rw [Finset.mem_filter, Finset.mem_erase, Finset.mem_filter]
    by_cases hi : lowMem + i = p
    · rw [hi, Function.update_self]
      have heq : i = p - lowMem := by omega
      simp [heq]
    · rw [Function.update_of_ne hi]
      have hne : i ≠ p - lowMem := by omega
      simp [hne]
  have hcard := Finset.card_erase_add_one hk
  unfold free
  rw [Nat.count_eq_card_filter_range, Nat.count_eq_card_filter_range, ← hcard]
  exact congrArg (fun u => u.card + 1) herase

end Supply

section Tables

variable {m : Pages} {own : ℕ → ℕ} {p t : ℕ} {s d : Fin 1024}

/-- What the processor finds at a place, in the kernel's part of the directory too. -/
def walk (m : Pages) (x : Place) : Option ℕ := (m.link 0 x.1).bind fun t => m.link t x.2

lemma walk_eq_mapped {x : Place} (hx : 16 ≤ x.1.val) : m.walk x = m.mapped x := by
  unfold walk mapped
  rw [link_of_table hx]

/-- The kernel's part of the directory has the two tables after it. -/
lemma Counted.kernel_dir {d : Fin 1024} (h : Counted own m) (hd : d.val < 16) :
    m.link 0 d = if d.val < 2 then some (1 + d.val) else none := by
  rw [link, h.kernel d hd]
  by_cases hlow : d.val < 2
  · rw [if_pos hlow, if_pos hlow, if_pos (present_full _), frame_full]
  · rw [if_neg hlow, if_neg hlow, if_neg (by decide)]

lemma Only.walk {D W : Place → Prop} {m' : Pages} {x : Place} (hon : Only D W m m') (h : Counted own m) (hx : ¬D x)
    (hlow : x.1.val < 16 → ∀ e, ¬D (x.1, e)) : m'.walk x = m.walk x := by
  by_cases hd : 16 ≤ x.1.val
  · rw [walk_eq_mapped hd, walk_eq_mapped hd, hon.mapped x hx]
  · have hdir : m'.link 0 x.1 = m.link 0 x.1 := by
      unfold link
      rw [hon.dirs x.1 (hlow (not_le.mp hd))]
    rw [Pages.walk, Pages.walk, hdir, h.kernel_dir (not_le.mp hd)]
    split_ifs with hlo
    · exact link_congr (hon.low _ (by omega) (by dsimp only [lowMem]; omega))
    · rfl

/-- The number of page tables behind `n` directory entries from `src` on. -/
def tables (m : Pages) : ℕ → ℕ → ℕ
  | _, 0 => 0
  | src, n + 1 => (if present (long m.mem 0 src) then 1 else 0) + m.tables (src + 1) n

lemma tables_congr {m' : Pages} {src n : ℕ} (h : ∀ k, src ≤ k → k < src + n → long m'.mem 0 k = long m.mem 0 k) :
    m'.tables src n = m.tables src n := by
  induction n generalizing src with
  | zero => rfl
  | succ n ih =>
    rw [tables, tables, h src (le_refl _) (by omega), ih]
    intro k hk hk'
    exact h k (by omega) (by omega)

/-- A fresh table for a directory entry without one. -/
lemma Counted.setTable (h : Counted (add own p) m) (hp : own p = 0) (hd : 16 ≤ d.val) (hnone : m.table d = none)
    (hzero : ∀ o, m.mem p o = 0) :
    Counted own (m.setEntry 0 d (full p)) ∧ (∀ e, Only (only d e) nowhere m (m.setEntry 0 d (full p))) ∧
      (m.setEntry 0 d (full p)).table d = some p ∧ (m.setEntry 0 d (full p)).mapped = m.mapped := by
  have hadd : add own p p ≠ 0 := add_ne_zero.mpr (Or.inr rfl)
  obtain ⟨hlo, hhi⟩ := h.own_range p hadd
  obtain ⟨hmapped, htable, _⟩ := h.of_own hadd
  have hw := full_lt hhi
  have hempty : ∀ e : Fin 1024, m.link p e = none := by
    intro e
    rw [link, if_neg]
    rw [long_zero hzero]
    decide
  have hnew : ∀ t, target (full p) = some t → t ≠ 0 ∧ ∀ e : Fin 1024, m.link t e = none := by
    intro t ht
    rw [target_full, Option.some.injEq] at ht
    subst ht
    exact ⟨by dsimp only [lowMem] at hlo; omega, hempty⟩
  have hold : ∀ e, m.mapped (d, e) = none := fun e => mapped_of_none hnone
  have hsame := h.mapped_setDir hd hw hold hnew
  refine ⟨?_, fun e => Only.of_setDir h rfl rfl hsame ⟨e, rfl⟩ fun _ _ _ => hnone, ?_, hsame⟩
  · apply h.redirect hd hw hold rfl
    · intro t ht
      rw [target_full, Option.some.injEq] at ht
      subst ht
      exact ⟨hlo, hhi, hmapped, htable, hp, h.own_once _ hadd, hempty⟩
    · intro ht
      rw [target_full] at ht
      cases ht
    · intro q _ _
      change m.memMap q + _ + _ = m.memMap q + _ + _
      rw [target_full]
      by_cases hq : p = q
      · subst hq
        simp [hnone, add]
        omega
      · simp [hnone, add, hq, Ne.symm hq]
    · exact fun _ _ _ => rfl
    · exact fun q hq => add_ne_zero.mpr (Or.inl hq)
  · rw [table_setDir hd hw, Function.update_self, target_full]

lemma Shared.only {E : Fin 1024 → Prop} [DecidablePred E] {m' : Pages} (hm : Shared own s d t p E m m')
    (h : Counted own m) (hd : m.table d = some p) : Only (row d) (row s) m m' := by
  have htable := hm.table_eq h hd
  constructor
  · intro x hx
    rw [hm.mapped, if_neg fun hv => hx hv.1]
  · intro x q _ hq _
    apply hm.pages
    · rintro rfl
      exact h.mapped_ne_table hd hq
    · rintro hs rfl
      exact h.mapped_ne_table hs hq
  · intro q _ hlo
    apply hm.pages
    · rintro rfl
      exact absurd (h.table_range d q hd).1 (not_le.mpr hlo)
    · rintro hs rfl
      exact absurd (h.table_range s q hs).1 (not_le.mpr hlo)
  · intro d' _
    apply long_congr
    apply hm.pages 0 (Ne.symm (h.table_ne_zero hd))
    exact fun hs => Ne.symm (h.table_ne_zero hs)
  · intro x t' hx hxs ht'
    rw [htable]
    refine ⟨ht', long_congr (hm.pages t' ?_ ?_)⟩
    · rintro rfl
      exact hx (h.table_inj ht' hd)
    · rintro hs rfl
      exact hxs (h.table_inj ht' hs)
  · exact hm.lost

/-- A turn of the loop of `copy_page_tables` with a table to copy and a page to copy it to. -/
lemma Counted.copyDir {m₁ : Pages} {nr : ℕ} (h : Counted own m)
    (hs : nr = 1024 ∧ 16 ≤ s.val ∨ nr = 160 ∧ s.val = 0) (hd : 16 ≤ d.val) (hne : s ≠ d)
    (halign : s.val % 16 = d.val % 16) (hnone : m.table d = none) (hp : present (long m.mem 0 s))
    (hg : m.getFreePage = some (p, m₁)) {m' : Pages}
    (hm' : m' = forLoop 0 nr (Pages.copyEntry (frame (long m.mem 0 s)) p) (m₁.setEntry 0 d (full p))) :
    Counted own m' ∧ Only (row d) (row s) m m' ∧ m'.free + 1 = m.free ∧
      ∀ e : Fin 1024, m'.mapped (d, e) = if e.val < nr then m.walk (s, e) else none := by
  obtain ⟨h₁, hon₁, hown, _, _, hzero⟩ := h.getFreePage hg
  have htable₁ := hon₁.table_eq
  obtain ⟨h₂, hon₂, hd₂, hmapped₂⟩ := h₁.setTable hown hd (by rw [htable₁, hnone]) hzero
  have hlink : m.link 0 s = some (frame (long m.mem 0 s)) := if_pos hp
  have hwalk : ∀ e, m.walk (s, e) = m.link (frame (long m.mem 0 s)) e := by
    intro e
    rw [walk, hlink]
    rfl
  generalize frame (long m.mem 0 s) = t at *
  have hsource : (m.table s = some t ∧ nr = 1024) ∨ m.table s = none ∧ t = 1 ∧ nr = 160 := by
    rcases hs with ⟨hnr, hs⟩ | ⟨hnr, hs⟩
    · exact Or.inl ⟨by rw [link_of_table hs, hlink], hnr⟩
    · have hk := h.kernel 0 (by decide)
      rw [if_pos (by decide)] at hk
      rw [hs, link, hk, if_pos (present_full _), frame_full, Option.some.injEq] at hlink
      refine Or.inr ⟨?_, hlink.symm, hnr⟩
      rw [table, if_neg (by omega)]
  have hlinks : t ≠ 0 ∧ ∀ e : Fin 1024, m₁.link t e = m.link t e := by
    rcases hsource with ⟨hst, _⟩ | ⟨_, rfl, _⟩
    · refine ⟨h.table_ne_zero hst, fun e => ?_⟩
      unfold link
      rw [(hon₁.words (s, e) t id id hst).2]
    · exact ⟨by decide, fun e => link_congr (hon₁.low 1 (by decide) (by decide))⟩
  have hlinks₂ : ∀ e : Fin 1024, (m₁.setEntry 0 d (full p)).link t e = m.link t e := by
    intro e
    rw [← hlinks.2 e]
    exact link_congr (setLong_of_ne hlinks.1)
  have hs₂ : (m₁.setEntry 0 d (full p)).table s = m.table s := by
    rw [(hon₂ 0).table fun _ hx => hne (only_row hx), htable₁]
  have hempty : ∀ e, (m₁.setEntry 0 d (full p)).mapped (d, e) = none := by
    intro e
    rw [hmapped₂, hon₁.mapped_eq]
    exact mapped_of_none hnone
  have hm := h₂.copyTable (by rw [hs₂]; exact hsource) hd₂ hne halign hempty
  rw [← hm'] at hm
  refine ⟨hm.counted, ?_, ?_, ?_⟩
  · have hfirst : Only (row d) (row s) m (m₁.setEntry 0 d (full p)) :=
      (hon₁.mono (fun _ => False.elim) fun _ => False.elim).trans ((hon₂ 0).mono (fun _ => only_row) fun _ => False.elim)
    exact hfirst.trans (hm.only h₂ hd₂)
  · rw [free_congr hm.used]
    have hfree : m₁.free + 1 = m.free := free_getFreePage hg
    exact hfree
  · intro e
    rw [hm.mapped, hlinks₂, hwalk, hempty]
    simp

/-- What `copy_page_tables` leaves behind, with or without enough memory. -/
lemma Counted.copyDirs {nr : ℕ} (h : Counted own m) (n src dst : ℕ) (hsrc : nr = 1024 ∧ 16 ≤ src ∨ nr = 160 ∧ src + n ≤ 1)
    (hdst : 16 ≤ dst) (hs : src + n ≤ 1024) (hd : dst + n ≤ 1024) (halign : src % 16 = dst % 16)
    (hdisj : src + n ≤ dst ∨ dst + n ≤ src)
    (hempty : ∀ d : Fin 1024, dst ≤ d.val → d.val < dst + n → m.table d = none) :
    ∃ m' b, m.copyDirs nr n src dst = .ok (m', b) ∧ Counted own m' ∧ Only (rows dst n) (rows src n) m m' ∧
      (b = true ↔ m.tables src n ≤ m.free) ∧
      (b = true → ∀ x y : Place, rows src n x → y.1.val + src = x.1.val + dst → y.2 = x.2 →
        m'.mapped y = if x.2.val < nr then m.walk x else none) := by
  induction n generalizing m src dst with
  | zero => exact ⟨m, true, rfl, h, Only.refl m, by simp [tables], fun _ x y hx => absurd hx.1 (by have := hx.2; omega)⟩
  | succ n ih =>
    have hd' : dst < 1024 := by omega
    have hs' : src < 1024 := by omega
    have hnone := hempty ⟨dst, hd'⟩ (le_refl _) (by dsimp only; omega)
    have habsent : ¬present (long m.mem 0 dst) := by
      rw [h.absent ⟨dst, hd'⟩ hdst hnone]
      decide
    have hs₀ : nr = 1024 ∧ 16 ≤ src ∨ nr = 160 ∧ src = 0 := by omega
    have hnext : ∀ m₁, Counted own m₁ → Only (row ⟨dst, hd'⟩) (row ⟨src, hs'⟩) m m₁ →
        (if present (long m.mem 0 src) then 1 else 0) + m₁.free = m.free →
        (∀ e : Fin 1024, m₁.mapped (⟨dst, hd'⟩, e) = if e.val < nr then m.walk (⟨src, hs'⟩, e) else none) →
        ∃ m' b, m₁.copyDirs nr n (src + 1) (dst + 1) = .ok (m', b) ∧ Counted own m' ∧
          Only (rows dst (n + 1)) (rows src (n + 1)) m m' ∧ (b = true ↔ m.tables src (n + 1) ≤ m.free) ∧
          (b = true → ∀ x y : Place, rows src (n + 1) x → y.1.val + src = x.1.val + dst → y.2 = x.2 →
            m'.mapped y = if x.2.val < nr then m.walk x else none) := by
      intro m₁ h₁ hon₁ hcost hrow
      have hkeep : ∀ d : Fin 1024, d.val ≠ dst → ∀ e, ¬row ⟨dst, hd'⟩ (d, e) :=
        fun d hne e heq => hne (congrArg Fin.val heq)
      obtain ⟨m', b, hrun, hc, hon, hb, hcopied⟩ := ih h₁ (src + 1) (dst + 1) (by omega) (by omega)
        (by omega) (by omega) (by omega) (by omega) (by
          intro d hle hlt
          rw [hon₁.table (hkeep d (by omega))]
          exact hempty d (by omega) (by omega))
      refine ⟨m', b, hrun, hc, ?_, ?_, ?_⟩
      · have hfirst : Only (rows dst (n + 1)) (rows src (n + 1)) m m₁ := by
          apply hon₁.mono
          · exact fun x hx => row_rows hx (le_refl dst) (Nat.lt_add_of_pos_right (Nat.succ_pos n))
          · exact fun x hx => row_rows hx (le_refl src) (Nat.lt_add_of_pos_right (Nat.succ_pos n))
        apply hfirst.trans (hon.mono _ _)
        · exact fun x hx => ⟨by have := hx.1; omega, by have := hx.2; omega⟩
        · exact fun x hx => ⟨by have := hx.1; omega, by have := hx.2; omega⟩
      · have htables : m₁.tables (src + 1) n = m.tables (src + 1) n := by
          apply tables_congr
          intro k hk hk'
          exact hon₁.dirs ⟨k, by omega⟩ (hkeep _ (by dsimp only; omega))
        rw [hb, htables, tables]
        omega
      · intro hbt x y hx hxy hy
        have hle := hx.1
        have hlt := hx.2
        by_cases hfirst : x.1.val = src
        · have hx₁ : x.1 = ⟨src, hs'⟩ := Fin.ext hfirst
          have hy₁ : y.1 = ⟨dst, hd'⟩ := Fin.ext (by dsimp only; omega)
          rw [hon.mapped y fun hv => absurd hv.1 (by omega), ← Prod.eta y, hy₁, hrow, hy, ← hx₁]
        · have hx' : rows (src + 1) n x := ⟨by omega, by omega⟩
          rw [hcopied hbt x y hx' (by omega) hy]
          have hhigh : 16 ≤ x.1.val := by omega
          rw [walk_eq_mapped hhigh, walk_eq_mapped hhigh, hon₁.mapped x]
          intro heq
          have hv : x.1.val = dst := congrArg Fin.val heq
          omega
    rw [Pages.copyDirs, if_neg habsent]
    by_cases hp : present (long m.mem 0 src)
    · rw [if_pos hp]
      cases hg : m.getFreePage with
      | none =>
        refine ⟨m, false, rfl, h, Only.refl m, ?_, by simp⟩
        rw [getFreePage_eq_none] at hg
        rw [tables, if_pos hp, hg]
        simp
      | some r =>
        obtain ⟨p, m₁⟩ := r
        obtain ⟨h₁, hon₁, hfree, hrow⟩ := h.copyDir (s := ⟨src, hs'⟩) (d := ⟨dst, hd'⟩) hs₀ hdst
          (by rw [ne_eq, Fin.mk.injEq]; omega) halign hnone hp hg rfl
        exact hnext _ h₁ hon₁ (by rw [if_pos hp, Nat.add_comm]; exact hfree) hrow
    · rw [if_neg hp]
      apply hnext m h (Only.refl m)
      · rw [if_neg hp, Nat.zero_add]
      · intro e
        have hwalk : m.walk (⟨src, hs'⟩, e) = none := by
          rw [walk, link, if_neg hp]
          rfl
        rw [mapped_of_none hnone, hwalk, ite_self]

end Tables

end Devos.Mm.Pages
