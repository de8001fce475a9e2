import Devos.Mm.Counts

/-! What the functions of `mm/memory.c` do to the tables and the counts, and what they leave alone. -/

namespace Devos.Mm.Pages

open Longs RefCount Loops

/-- Nothing changes outside of the places in `D`, but for the access to those in `W`. -/
structure Only (D W : Place → Prop) (m m' : Pages) : Prop where
  mapped : ∀ x, ¬D x → m'.mapped x = m.mapped x
  data : ∀ x p, ¬D x → m.mapped x = some p → lowMem ≤ p → m'.mem p = m.mem p
  low : ∀ p, p ≠ 0 → p < lowMem → m'.mem p = m.mem p
  dirs : ∀ d : Fin 1024, (∀ e, ¬D (d, e)) → long m'.mem 0 d = long m.mem 0 d
  words : ∀ x t, ¬D x → ¬W x → m.table x.1 = some t → m'.table x.1 = some t ∧ long m'.mem t x.2 = long m.mem t x.2
  lost : m'.lost = m.lost

/-- No place. -/
def nowhere (_ : Place) : Prop := False

section Frames

variable {D D' W W' : Place → Prop} {m m' m'' : Pages} {d : Fin 1024} {x : Place}

lemma Only.refl (m : Pages) : Only D W m m :=
  ⟨fun _ _ => rfl, fun _ _ _ _ _ => rfl, fun _ _ _ => rfl, fun _ _ => rfl, fun _ _ _ _ ht => ⟨ht, rfl⟩, rfl⟩

lemma Only.trans (h : Only D W m m') (h' : Only D W m' m'') : Only D W m m'' := by
  constructor
  · intro x hx
    rw [h'.mapped x hx, h.mapped x hx]
  · intro x p hx hp hlo
    rw [h'.data x p hx (by rw [h.mapped x hx]; exact hp) hlo, h.data x p hx hp hlo]
  · intro p hp hlo
    rw [h'.low p hp hlo, h.low p hp hlo]
  · intro d hd
    rw [h'.dirs d hd, h.dirs d hd]
  · intro x t hx hxw ht
    obtain ⟨ht', hl⟩ := h.words x t hx hxw ht
    obtain ⟨ht'', hl'⟩ := h'.words x t hx hxw ht'
    exact ⟨ht'', hl'.trans hl⟩
  · rw [h'.lost, h.lost]

lemma Only.mono (h : Only D W m m') (hD : ∀ x, D x → D' x) (hW : ∀ x, W x → W' x) : Only D' W' m m' := by
  constructor
  · exact fun x hx => h.mapped x fun hd => hx (hD x hd)
  · exact fun x p hx => h.data x p fun hd => hx (hD x hd)
  · exact h.low
  · exact fun d hd => h.dirs d fun e he => hd e (hD _ he)
  · exact fun x t hx hw => h.words x t (fun hd => hx (hD x hd)) fun hd => hw (hW x hd)
  · exact h.lost

lemma table_of_long (h : long m'.mem 0 d = long m.mem 0 d) : m'.table d = m.table d := by
  unfold table link
  rw [h]

lemma Only.table (h : Only D W m m') (hd : ∀ e, ¬D (d, e)) : m'.table d = m.table d := table_of_long (h.dirs d hd)

lemma Only.mapped_eq (h : Only nowhere W m m') : m'.mapped = m.mapped := funext fun x => h.mapped x id

lemma Only.table_eq (h : Only nowhere W m m') : m'.table = m.table := funext fun _ => h.table fun _ => id

/-- Bytes change in pages that are neither mapped nor tables. -/
lemma Only.of_mem (hmem : ∀ q, q < lowMem ∨ (∃ x, m.mapped x = some q) ∨ (∃ d, m.table d = some q) → m'.mem q = m.mem q)
    (hlost : m'.lost = m.lost) : Only nowhere nowhere m m' := by
  have h0 := hmem 0 (Or.inl (by decide))
  have htable : m'.table = m.table := table_congr h0
  constructor
  · intro x _
    rw [mapped_congr h0 fun d t ht => hmem t (Or.inr (Or.inr ⟨d, ht⟩))]
  · exact fun x p _ hx _ => hmem p (Or.inr (Or.inl ⟨x, hx⟩))
  · exact fun p _ hlo => hmem p (Or.inl hlo)
  · exact fun d _ => long_congr h0
  · intro x t _ _ ht
    rw [htable]
    exact ⟨ht, long_congr (hmem t (Or.inr (Or.inr ⟨x.1, ht⟩)))⟩
  · exact hlost

end Frames

section Single

variable {m m' : Pages} {own own' : ℕ → ℕ} {p t w : ℕ} {d e : Fin 1024}

/-- The counts of pages outside of the tables change with their owners. -/
lemma Counted.recount (h : Counted own m) (hmem : m'.mem = m.mem)
    (hcount : ∀ q, m'.memMap q = m.memMap q ∧ own' q = own q ∨
      lowMem ≤ q ∧ q < highMemory ∧ refs m.mapped q = 0 ∧ refs m.table q = 0 ∧ m'.memMap q = own' q ∧ own' q ≤ 1) :
    Counted own' m' := by
  have htable : m'.table = m.table := table_congr (congrFun hmem 0)
  have hmapped : m'.mapped = m.mapped := mapped_congr (congrFun hmem 0) fun _ t _ => congrFun hmem t
  constructor
  · intro q hlo hhi
    have hq := h.counts q hlo hhi
    rw [hmapped, htable]
    rcases hcount q with ⟨h₁, h₂⟩ | ⟨_, _, h₁, h₂, h₃, _⟩ <;> omega
  · rw [htable]
    exact h.table_range
  · intro d t ht
    rw [htable] at ht
    have hpos := refs_pos ht
    rcases hcount t with ⟨h₁, _⟩ | ⟨_, _, _, h₂, _⟩
    · rw [h₁]
      exact h.table_once d t ht
    · omega
  · intro q hq
    rcases hcount q with ⟨_, h₂⟩ | ⟨hlo, hhi, _⟩
    · exact h.own_range q (h₂ ▸ hq)
    · exact ⟨hlo, hhi⟩
  · intro q hq
    rcases hcount q with ⟨h₁, h₂⟩ | ⟨_, _, _, _, h₃, h₄⟩
    · rw [h₁]
      exact h.own_once q (h₂ ▸ hq)
    · omega
  · rw [hmapped]
    exact h.mapped_range
  · rw [hmapped]
    exact h.aligned
  · intro x t p ht hp hw
    rw [htable] at ht
    rw [link_congr (congrFun hmem t)] at hp
    rw [hmem] at hw
    obtain ⟨hlo, hone⟩ := h.writes x t p ht hp hw
    have hpos := refs_pos (mapped_eq_some.mpr ⟨t, ht, hp⟩)
    rcases hcount p with ⟨h₁, _⟩ | ⟨_, _, h₁, _⟩
    · exact ⟨hlo, h₁.trans hone⟩
    · omega
  · rw [htable, hmem]
    exact h.absent
  · rw [hmem]
    exact h.kernel
  · rw [hmem]
    exact h.kernel_map

/-- No count depends on the pages that are forgotten. -/
lemma Counted.setLost (h : Counted own m) (l : List ℕ) : Counted own { m with lost := l } :=
  ⟨h.counts, h.table_range, h.table_once, h.own_range, h.own_once, h.mapped_range, h.aligned, h.writes, h.absent,
    h.kernel, h.kernel_map⟩

lemma Counted.getFreePage (h : Counted own m) (hg : m.getFreePage = some (p, m')) :
    Counted (add own p) m' ∧ Only nowhere nowhere m m' ∧ own p = 0 ∧ refs m.mapped p = 0 ∧ refs m.table p = 0 ∧
      ∀ o, m'.mem p o = 0 := by
  obtain ⟨hlo, hhi, hfree, heq⟩ := getFreePage_eq_some hg
  have hmem : m'.mem = Function.update m.mem p fun _ => 0 := congrArg mem heq
  have hmap : m'.memMap = Function.update m.memMap p 1 := congrArg memMap heq
  have hlost : m'.lost = m.lost := (congrArg Pages.lost heq).trans rfl
  obtain ⟨hmapped, htable, hown⟩ := h.of_free hlo hhi hfree
  have htouch := h.touch hlo (fun d => table_ne_of_refs htable) fun _ => 0
  refine ⟨?_, ?_, hown, hmapped, htable, ?_⟩
  · apply htouch.1.recount hmem
    intro q
    rw [htouch.2.1, htouch.2.2, hmap]
    by_cases hq : q = p
    · rw [hq]
      refine Or.inr ⟨hlo, hhi, hmapped, htable, ?_⟩
      simp [add, hown]
    · refine Or.inl ?_
      simp [add, hq]
  · apply Only.of_mem _ hlost
    intro q hq
    rw [hmem]
    apply Function.update_of_ne
    rintro rfl
    rcases hq with hq | ⟨x, hx⟩ | ⟨d, hd⟩
    · omega
    · exact ne_of_refs hmapped hx
    · exact table_ne_of_refs htable hd
  · intro o
    rw [hmem, Function.update_self]

lemma Counted.own_of_add (h : Counted (add own p) m) : own p = 0 := by
  have hadd : add own p p ≠ 0 := add_ne_zero.mpr (Or.inr rfl)
  have hone := (h.of_own hadd).2.2
  unfold add at hone
  simpa using hone

lemma Counted.freePage_own (h : Counted (add own p) m) :
    ∃ m', freePage p m = .ok m' ∧ Counted own m' ∧ Only nowhere nowhere m m' := by
  have hp := h.own_of_add
  have hadd : add own p p ≠ 0 := add_ne_zero.mpr (Or.inr rfl)
  obtain ⟨hlo, hhi⟩ := h.own_range p hadd
  obtain ⟨hmapped, htable, _⟩ := h.of_own hadd
  have hone := h.own_once p hadd
  refine ⟨m.setMap p 0, ?_, ?_, ?_⟩
  · rw [freePage, if_neg (not_lt.mpr hlo), if_neg (not_lt.mpr hhi.le), hone]
    rfl
  · refine h.recount rfl ?_
    intro q
    by_cases hq : q = p
    · rw [hq]
      refine Or.inr ⟨hlo, hhi, hmapped, htable, ?_⟩
      simp [setMap, hp]
    · refine Or.inl ?_
      simp [setMap, add, hq]
  · exact Only.of_mem (fun _ _ => rfl) rfl

end Single

section Tables

variable {m m' : Pages} {own own' : ℕ → ℕ} {p t w : ℕ} {d e : Fin 1024}

/-- A directory entry changes that has no pages under it, before and after. -/
theorem Counted.redirect (h : Counted own m) (hd : 16 ≤ d.val) (hw : w < 2 ^ 32) (hold : ∀ e, m.mapped (d, e) = none)
    (hmem : m'.mem = (m.setEntry 0 d w).mem)
    (hnew : ∀ t, target w = some t → lowMem ≤ t ∧ t < highMemory ∧ refs m.mapped t = 0 ∧ refs m.table t = 0 ∧
      own' t = 0 ∧ m'.memMap t = 1 ∧ ∀ e : Fin 1024, m.link t e = none)
    (habsent : target w = none → w = 0)
    (hcount : ∀ q, lowMem ≤ q → q < highMemory →
      m'.memMap q + (if m.table d = some q then 1 else 0) + own q =
        m.memMap q + (if target w = some q then 1 else 0) + own' q)
    (hsame : ∀ q, m.table d ≠ some q → target w ≠ some q → m'.memMap q = m.memMap q)
    (hown : ∀ q, own' q ≠ 0 → own q ≠ 0) : Counted own' m' := by
  have hpages : ∀ q, q ≠ 0 → m'.mem q = m.mem q := by
    intro q hq
    rw [hmem]
    exact setLong_of_ne hq
  have htable : m'.table = Function.update m.table d (target w) := by
    rw [← table_setDir hd hw]
    exact table_congr (congrFun hmem 0)
  have hmapped : m'.mapped = m.mapped := by
    rw [← h.mapped_setDir hd hw hold fun t ht => ⟨by have := (hnew t ht).1; dsimp only [lowMem] at this; omega,
      (hnew t ht).2.2.2.2.2.2⟩]
    exact mapped_congr (congrFun hmem 0) fun _ t _ => congrFun hmem t
  have hlong : ∀ k, k ≠ d.val → long m'.mem 0 k = long m.mem 0 k := by
    intro k hk
    rw [long_congr (congrFun hmem 0)]
    exact long_setLong_of_ne (Or.inr hk)
  constructor
  · intro q hlo hhi
    have hc := hcount q hlo hhi
    have hq := h.counts q hlo hhi
    have hu := refs_update m.table d (target w) q
    rw [hmapped, htable]
    omega
  · intro d' t ht
    rw [htable] at ht
    by_cases hd' : d' = d
    · rw [hd', Function.update_self] at ht
      exact ⟨(hnew t ht).1, (hnew t ht).2.1⟩
    · rw [Function.update_of_ne hd'] at ht
      exact h.table_range d' t ht
  · intro d' t ht
    rw [htable] at ht
    by_cases hd' : d' = d
    · rw [hd', Function.update_self] at ht
      exact (hnew t ht).2.2.2.2.2.1
    · rw [Function.update_of_ne hd'] at ht
      rw [hsame t]
      · exact h.table_once d' t ht
      · exact fun hold => hd' (h.table_inj ht hold)
      · exact fun hn => table_ne_of_refs (hnew t hn).2.2.2.1 ht
  · exact fun q hq => h.own_range q (hown q hq)
  · intro q hq
    rw [hsame q]
    · exact h.own_once q (hown q hq)
    · exact table_ne_of_refs (h.of_own (hown q hq)).2.1
    · exact fun hn => hq (hnew q hn).2.2.2.2.1
  · rw [hmapped]
    exact h.mapped_range
  · rw [hmapped]
    exact h.aligned
  · intro x t p ht hp hpw
    rw [htable] at ht
    by_cases hx : x.1 = d
    · rw [hx, Function.update_self] at ht
      obtain ⟨hlo, _, _, _, _, _, hnone⟩ := hnew t ht
      rw [link_congr (hpages t (by dsimp only [lowMem] at hlo; omega)), hnone] at hp
      cases hp
    · rw [Function.update_of_ne hx] at ht
      rw [link_congr (hpages t (h.table_ne_zero ht))] at hp
      rw [long_congr (hpages t (h.table_ne_zero ht))] at hpw
      have hxp := mapped_eq_some.mpr ⟨t, ht, hp⟩
      obtain ⟨hlo, hone⟩ := h.writes x t p ht hp hpw
      refine ⟨hlo, (hsame p ?_ ?_).trans hone⟩
      · exact fun hpt => h.mapped_ne_table hpt hxp
      · exact fun hn => ne_of_refs (hnew p hn).2.2.1 hxp
  · intro d' hd' hnone
    rw [htable] at hnone
    by_cases hdd : d' = d
    · rw [hdd, Function.update_self] at hnone
      rw [hdd, long_congr (congrFun hmem 0), long_setEntry hw, if_pos ⟨rfl, rfl⟩]
      exact habsent hnone
    · rw [Function.update_of_ne hdd] at hnone
      rw [hlong d' fun hv => hdd (Fin.ext hv)]
      exact h.absent d' hd' hnone
  · intro k hk
    rw [hlong k (by omega)]
    exact h.kernel k hk
  · intro k hk e he
    rw [long_congr (hpages _ (by omega))]
    exact h.kernel_map k hk e he

/-- The row of a directory entry. -/
def row (d : Fin 1024) (x : Place) : Prop := x.1 = d

/-- One place. -/
def only (d e : Fin 1024) (x : Place) : Prop := x = (d, e)

lemma only_row {x : Place} (hx : only d e x) : row d x := congrArg Prod.fst hx

lemma Only.of_setDir {D : Place → Prop} (h : Counted own m) (hmem : m'.mem = (m.setEntry 0 d w).mem)
    (hlost : m'.lost = m.lost) (hmapped : m'.mapped = m.mapped) (hD : ∃ e, D (d, e))
    (hrow : ∀ x, ¬D x → row d x → m.table d = none) : Only D nowhere m m' := by
  have hpages : ∀ q, q ≠ 0 → m'.mem q = m.mem q := by
    intro q hq
    rw [hmem]
    exact setLong_of_ne hq
  have hlong : ∀ k : Fin 1024, k ≠ d → long m'.mem 0 k = long m.mem 0 k := by
    intro k hk
    rw [long_congr (congrFun hmem 0)]
    exact long_setLong_of_ne (Or.inr fun hv => hk (Fin.ext hv))
  constructor
  · exact fun x _ => congrFun hmapped x
  · intro x p _ _ hlo
    apply hpages
    dsimp only [lowMem] at hlo
    omega
  · exact fun p hp _ => hpages p hp
  · intro d' hd'
    obtain ⟨e, he⟩ := hD
    exact hlong d' fun heq => hd' e (heq ▸ he)
  · intro x t hx _ ht
    refine ⟨?_, long_congr (hpages t (h.table_ne_zero ht))⟩
    rw [table_of_long (hlong x.1 ?_)]
    · exact ht
    · intro heq
      have hnone := hrow x hx heq
      rw [← heq, ht] at hnone
      cases hnone
  · exact hlost

end Tables

section Free

variable {m : Pages} {own : ℕ → ℕ} {p t : ℕ} {d : Fin 1024}

/-- One reference less to a page in use; nothing counts those to the kernel's pages. -/
lemma freePage_ok (hhi : p < highMemory) (hpos : lowMem ≤ p → 0 < m.memMap p) :
    ∃ m', m.freePage p = .ok m' ∧ m'.mem = m.mem ∧ m'.lost = m.lost ∧ (∀ q, q ≠ p → m'.memMap q = m.memMap q) ∧
      (lowMem ≤ p → m'.memMap p + 1 = m.memMap p) := by
  by_cases hlo : p < lowMem
  · exact ⟨m, if_pos hlo, rfl, rfl, fun _ _ => rfl, fun hle => absurd hlo (not_lt.mpr hle)⟩
  · have hp := hpos (not_lt.mp hlo)
    refine ⟨m.setMap p (m.memMap p - 1), ?_, rfl, rfl, ?_, ?_⟩
    · rw [freePage, if_neg hlo, if_neg (not_lt.mpr hhi.le), if_neg (ne_of_gt hp)]
    · exact fun q hq => Function.update_of_ne hq _ _
    · intro _
      have hself : (m.setMap p (m.memMap p - 1)).memMap p = m.memMap p - 1 := Function.update_self _ _ _
      omega

/-- What has been freed of a table: the entries in `F`. -/
structure EntriesFreed (own : ℕ → ℕ) (d : Fin 1024) (t : ℕ) (F : Fin 1024 → Prop) (m m' : Pages) : Prop where
  counted : Counted own m'
  pages : ∀ q, q ≠ t → m'.mem q = m.mem q
  mapped : ∀ x, m'.mapped x = m.mapped x ∧ ¬(x.1 = d ∧ F x.2) ∨ m'.mapped x = none ∧ x.1 = d ∧ F x.2
  lost : m'.lost = m.lost

lemma Counted.freeEntry (h : Counted own m) (ht : m.table d = some t) (e : Fin 1024) :
    ∃ m', m.freeEntry t e = .ok m' ∧ EntriesFreed own d t (· = e) m m' := by
  have hx : m.mapped (d, e) = m.link t e := mapped_of_table ht
  obtain ⟨m₁, hfree, hmem, hlost, hcount⟩ : ∃ m₁, (if present (long m.mem t e) then m.freePage (frame (long m.mem t e))
      else .ok m) = .ok m₁ ∧ m₁.mem = m.mem ∧ m₁.lost = m.lost ∧ ∀ q,
        (m.mapped (d, e) = some q → lowMem ≤ q → m₁.memMap q + 1 = m.memMap q) ∧
          (m.mapped (d, e) ≠ some q → m₁.memMap q = m.memMap q) := by
    by_cases hp : present (long m.mem t e)
    · have hxp : m.mapped (d, e) = some (frame (long m.mem t e)) := by
        rw [hx, link, if_pos hp]
      obtain ⟨m₁, hfree, hmem, hlost, hother, hself⟩ := freePage_ok (h.mapped_range _ _ hxp) (h.pos hxp)
      refine ⟨m₁, by rw [if_pos hp, hfree], hmem, hlost, ?_⟩
      intro q
      rw [hxp, ne_eq, Option.some.injEq]
      constructor
      · rintro rfl
        exact hself
      · exact fun hq => hother q (Ne.symm hq)
    · have hxn : m.mapped (d, e) = none := by
        rw [hx, link, if_neg hp]
      refine ⟨m, if_neg hp, rfl, rfl, ?_⟩
      intro q
      rw [hxn]
      exact ⟨by rintro ⟨⟩, fun _ => rfl⟩
  have hset : (m₁.setEntry t e 0).mem = (m.setEntry t e 0).mem := by
    unfold setEntry
    rw [hmem]
  have hmapped : (m₁.setEntry t e 0).mapped = Function.update m.mapped (d, e) none := by
    rw [← target_zero, ← h.mapped_setEntry ht (by decide) e]
    exact mapped_congr (congrFun hset 0) fun _ t _ => congrFun hset t
  refine ⟨m₁.setEntry t e 0, ?_, ?_, ?_, ?_, hlost⟩
  · rw [Pages.freeEntry, hfree]
    rfl
  · apply h.replace ht (e := e) (by decide : 0 < 2 ^ 32) hset
    · intro q hlo _
      obtain ⟨hdown, hsame⟩ := hcount q
      change m₁.memMap q + _ + _ = _
      rw [target_zero]
      by_cases hq : m.mapped (d, e) = some q
      · have hone := hdown hq hlo
        simp [hq]
        omega
      · have hone := hsame hq
        simp [hq, hone]
    · exact fun q hq _ => (hcount q).2 hq
    · rintro p ⟨⟩
    · rintro p ⟨⟩
    · rintro p ⟨⟩
    · rintro p ⟨⟩
    · exact fun _ hq => hq
  · intro q hq
    rw [hset]
    exact setLong_of_ne hq
  · intro x
    rw [hmapped]
    by_cases hxe : x = (d, e)
    · rw [hxe, Function.update_self]
      exact Or.inr ⟨rfl, rfl, rfl⟩
    · rw [Function.update_of_ne hxe]
      exact Or.inl ⟨rfl, fun hv => hxe (Prod.ext hv.1 hv.2)⟩

lemma EntriesFreed.table_eq {F : Fin 1024 → Prop} {m' : Pages} (h : EntriesFreed own d t F m m') (ht : t ≠ 0) :
    m'.table = m.table := table_congr (h.pages 0 (Ne.symm ht))

lemma EntriesFreed.only {F : Fin 1024 → Prop} {m' : Pages} (hf : EntriesFreed own d t F m m') (h : Counted own m)
    (ht : m.table d = some t) : Only (row d) nowhere m m' := by
  have htable := hf.table_eq (h.table_ne_zero ht)
  constructor
  · intro x hx
    rcases hf.mapped x with ⟨heq, _⟩ | ⟨_, hxd, _⟩
    · exact heq
    · exact absurd hxd hx
  · intro x p _ hp _
    apply hf.pages
    rintro rfl
    exact h.mapped_ne_table ht hp
  · intro p _ hlo
    apply hf.pages
    rintro rfl
    exact absurd (h.table_range d p ht).1 (not_le.mpr hlo)
  · exact fun _ _ => long_congr (hf.pages 0 (Ne.symm (h.table_ne_zero ht)))
  · intro x t' hx _ ht'
    rw [htable]
    refine ⟨ht', long_congr (hf.pages t' ?_)⟩
    rintro rfl
    exact hx (h.table_inj ht' ht)
  · exact hf.lost

/-- The loop of `free_page_tables` over a table. -/
lemma Counted.freeEntries (h : Counted own m) (ht : m.table d = some t) :
    ∃ m', forLoopE (Pages.freeEntry t) m 1024 = .ok m' ∧ EntriesFreed own d t (fun _ => True) m m' := by
  have hloop : ∃ m', forLoopE (Pages.freeEntry t) m 1024 = .ok m' ∧ EntriesFreed own d t (·.val < 1024) m m' := by
    apply forLoopE_induction (P := fun n m' => EntriesFreed own d t (·.val < n) m m')
    · exact ⟨h, fun _ _ => rfl, fun x => Or.inl ⟨rfl, by simp⟩, rfl⟩
    · intro n m₁ hn hf
      have ht₁ : m₁.table d = some t := by
        rw [hf.table_eq (h.table_ne_zero ht)]
        exact ht
      obtain ⟨m₂, hfree, hf₂⟩ := hf.counted.freeEntry ht₁ ⟨n, hn⟩
      refine ⟨m₂, hfree, hf₂.counted, ?_, ?_, hf₂.lost.trans hf.lost⟩
      · intro q hq
        rw [hf₂.pages q hq, hf.pages q hq]
      · intro x
        rcases hf₂.mapped x with ⟨heq, hx⟩ | ⟨heq, hxd, hxe⟩
        · rw [heq]
          rcases hf.mapped x with ⟨heq', hx'⟩ | ⟨heq', hxd, hxe⟩
          · refine Or.inl ⟨heq', ?_⟩
            rintro ⟨hxd, hxe⟩
            have hne : x.2 ≠ ⟨n, hn⟩ := fun hv => hx ⟨hxd, hv⟩
            have hlt : x.2.val ≠ n := fun hv => hne (Fin.ext hv)
            exact hx' ⟨hxd, by omega⟩
          · exact Or.inr ⟨heq', hxd, Nat.lt_succ_of_lt hxe⟩
        · refine Or.inr ⟨heq, hxd, ?_⟩
          rw [hxe]
          exact Nat.lt_succ_self n
  obtain ⟨m', hrun, hf⟩ := hloop
  refine ⟨m', hrun, hf.counted, hf.pages, ?_, hf.lost⟩
  intro x
  rcases hf.mapped x with ⟨heq, hx⟩ | ⟨heq, hxd, _⟩
  · exact Or.inl ⟨heq, fun hv => hx ⟨hv.1, x.2.isLt⟩⟩
  · exact Or.inr ⟨heq, hxd, trivial⟩

lemma link_of_table (hd : 16 ≤ d.val) : m.table d = m.link 0 d := if_pos hd

lemma Counted.freeDir (h : Counted own m) (hd : 16 ≤ d.val) :
    ∃ m', m.freeDir d = .ok m' ∧ Counted own m' ∧ Only (row d) nowhere m m' ∧ m'.table d = none := by
  by_cases hp : present (long m.mem 0 d)
  · have ht : m.table d = some (frame (long m.mem 0 d)) := by
      rw [link_of_table hd, link, if_pos hp]
    generalize hfr : frame (long m.mem 0 d) = t at ht
    obtain ⟨m₁, hrun, hf⟩ := h.freeEntries ht
    have hnone : ∀ e, m₁.mapped (d, e) = none := by
      intro e
      rcases hf.mapped (d, e) with ⟨_, hx⟩ | ⟨heq, _⟩
      · exact absurd ⟨rfl, trivial⟩ hx
      · exact heq
    have ht₁ : m₁.table d = some t := by
      rw [hf.table_eq (h.table_ne_zero ht)]
      exact ht
    obtain ⟨hlo, hhi⟩ := hf.counted.table_range d t ht₁
    have hone := hf.counted.table_once d t ht₁
    obtain ⟨m₂, hfree, hmem, hlost, hother, hself⟩ := freePage_ok hhi fun _ => by rw [hone]; exact Nat.one_pos
    have hset : (m₂.setEntry 0 d 0).mem = (m₁.setEntry 0 d 0).mem := by
      unfold setEntry
      rw [hmem]
    have hmapped : (m₂.setEntry 0 d 0).mapped = m₁.mapped := by
      rw [← hf.counted.mapped_setDir hd (by decide : 0 < 2 ^ 32) hnone (by rintro t ⟨⟩)]
      exact mapped_congr (congrFun hset 0) fun _ t _ => congrFun hset t
    refine ⟨m₂.setEntry 0 d 0, ?_, ?_, ?_, ?_⟩
    · simp only [Pages.freeDir, if_pos hp, hfr, hrun, Except.bind, hfree]
      rfl
    · apply hf.counted.redirect hd (by decide : 0 < 2 ^ 32) hnone hset
      · rintro t ⟨⟩
      · exact fun _ => rfl
      · intro q _ _
        change m₂.memMap q + _ + _ = _
        by_cases hq : t = q
        · subst hq
          have hdown := hself hlo
          simp [ht₁, target_zero]
          omega
        · simp [ht₁, target_zero, hq, hother q (Ne.symm hq)]
      · intro q hq _
        rw [ht₁, ne_eq, Option.some.injEq] at hq
        exact hother q (Ne.symm hq)
      · exact fun _ hq => hq
    · exact (hf.only h ht).trans (Only.of_setDir hf.counted hset hlost hmapped ⟨0, rfl⟩ fun _ hx hr => absurd hr hx)
    · rw [link_of_table hd, link_congr (congrFun hset 0), link_setEntry (by decide), if_pos ⟨rfl, rfl⟩]
      rfl
  · refine ⟨m, if_neg hp, h, Only.refl m, ?_⟩
    rw [link_of_table hd, link, if_neg hp]

/-- The rows of `k` directory entries from `s` on. -/
def rows (s k : ℕ) (x : Place) : Prop := s ≤ x.1.val ∧ x.1.val < s + k

lemma row_rows {x : Place} {s k : ℕ} (hx : row d x) (hlo : s ≤ d.val) (hhi : d.val < s + k) : rows s k x := by
  have hv : x.1 = d := hx
  exact ⟨hv ▸ hlo, hv ▸ hhi⟩

lemma Counted.freePageTables (h : Counted own m) (start size : ℕ) (hstart : start % 2 ^ 22 = 0)
    (hlo : 16 ≤ start / 2 ^ 22) (hhi : start / 2 ^ 22 + tablesFor size ≤ 1024) :
    ∃ m', m.freePageTables start size = .ok m' ∧ Counted own m' ∧
      Only (rows (start / 2 ^ 22) (tablesFor size)) nowhere m m' ∧
      ∀ d : Fin 1024, start / 2 ^ 22 ≤ d.val → d.val < start / 2 ^ 22 + tablesFor size → m'.table d = none := by
  generalize hs : start / 2 ^ 22 = s at *
  generalize hk : tablesFor size = k at *
  have hne : ¬(start % 2 ^ 22 ≠ 0 ∨ start = 0) := by omega
  have hloop : ∃ m', forLoopE (fun i => Pages.freeDir (s + i)) m k = .ok m' ∧ Counted own m' ∧
      Only (rows s k) nowhere m m' ∧ ∀ d : Fin 1024, s ≤ d.val → d.val < s + k → m'.table d = none := by
    apply forLoopE_induction (P := fun n m' => Counted own m' ∧ Only (rows s k) nowhere m m' ∧
      ∀ d : Fin 1024, s ≤ d.val → d.val < s + n → m'.table d = none)
    · exact ⟨h, Only.refl m, fun d h₁ h₂ => absurd h₁ (by omega)⟩
    · intro n m₁ hn hm₁
      obtain ⟨hc, hon, hnone⟩ := hm₁
      have hd : s + n < 1024 := by omega
      obtain ⟨m₂, hfree, hc₂, hon₂, hnone₂⟩ := hc.freeDir (d := ⟨s + n, hd⟩) (by dsimp only; omega)
      have hrow : ∀ x, row ⟨s + n, hd⟩ x → rows s k x :=
        fun x hx => row_rows hx (Nat.le_add_right s n) (Nat.add_lt_add_left hn s)
      refine ⟨m₂, hfree, hc₂, hon.trans (hon₂.mono hrow fun _ hw => hw), ?_⟩
      · intro d h₁ h₂
        by_cases hdn : d.val = s + n
        · rw [show d = ⟨s + n, hd⟩ from Fin.ext hdn]
          exact hnone₂
        · rw [hon₂.table fun _ hrow => hdn (congrArg Fin.val hrow)]
          exact hnone d h₁ (by omega)
  rw [Pages.freePageTables, if_neg hne, hs, hk]
  exact hloop

end Free

end Devos.Mm.Pages
