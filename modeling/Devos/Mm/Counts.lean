import Devos.Mm.Pages
import Devos.Library.RefCount
import Mathlib.Tactic.SplitIfs

/-! What refers to a page, and what the functions of `mm/memory.c` do to these references. -/

namespace Devos.Mm

open Longs RefCount

section Words

variable {w p : ℕ}

lemma frame_full (p : ℕ) : frame (full p) = p := by
  unfold frame full
  omega

lemma present_full (p : ℕ) : present (full p) := by
  unfold present full
  omega

lemma writable_full (p : ℕ) : writable (full p) := by
  unfold writable full
  omega

lemma full_lt (h : p < highMemory) : full p < 2 ^ 32 := by
  unfold full
  dsimp only [highMemory] at h
  omega

lemma frame_denyWrite (h : present w) : frame (denyWrite w) = frame w := by
  unfold frame denyWrite
  unfold present at h
  split_ifs with hw
  · unfold writable at hw
    omega
  · rfl

lemma present_denyWrite (h : present w) : present (denyWrite w) := by
  unfold present denyWrite at *
  split_ifs with hw
  · unfold writable at hw
    omega
  · exact h

lemma not_writable_denyWrite (w : ℕ) : ¬writable (denyWrite w) := by
  unfold denyWrite
  split_ifs with hw
  · unfold writable at *
    omega
  · exact hw

lemma denyWrite_le (w : ℕ) : denyWrite w ≤ w := by
  unfold denyWrite
  split_ifs <;> omega

lemma frame_allowWrite (w : ℕ) : frame (allowWrite w) = frame w := by
  unfold frame allowWrite
  split_ifs with hw
  · rfl
  · unfold writable at hw
    omega

lemma present_allowWrite (h : present w) : present (allowWrite w) := by
  unfold present allowWrite at *
  split_ifs with hw
  · exact h
  · omega

lemma writable_allowWrite (w : ℕ) : writable (allowWrite w) := by
  unfold allowWrite
  split_ifs with hw
  · exact hw
  · unfold writable at *
    omega

lemma allowWrite_lt (hw : frame w < highMemory) : allowWrite w < 2 ^ 32 := by
  unfold allowWrite
  unfold frame at hw
  dsimp only [highMemory] at hw
  split_ifs <;> omega

end Words

namespace Pages

/-- A place for a page: an entry of the directory and one of its table. -/
abbrev Place := Fin 1024 × Fin 1024

/-- The page that an entry refers to. -/
def link (m : Pages) (t i : ℕ) : Option ℕ :=
  if present (long m.mem t i) then some (frame (long m.mem t i)) else none

/-- The page tables of the tasks. The first sixteen entries of the directory are the kernel's map of all memory,
which owns no page. -/
def table (m : Pages) (d : Fin 1024) : Option ℕ := if 16 ≤ d.val then m.link 0 d else none

/-- The pages of the tasks. -/
def mapped (m : Pages) (x : Place) : Option ℕ := (m.table x.1).bind fun t => m.link t x.2

/-- The counts are the references, `own p` of them from outside of the tables; tables are shared by no two entries
and what a task may write is its own. -/
structure Counted (own : ℕ → ℕ) (m : Pages) : Prop where
  counts : ∀ p, lowMem ≤ p → p < highMemory → m.memMap p = refs m.mapped p + refs m.table p + own p
  table_range : ∀ d t, m.table d = some t → lowMem ≤ t ∧ t < highMemory
  table_once : ∀ d t, m.table d = some t → m.memMap t = 1
  own_range : ∀ p, own p ≠ 0 → lowMem ≤ p ∧ p < highMemory
  own_once : ∀ p, own p ≠ 0 → m.memMap p = 1
  mapped_range : ∀ (x : Place) p, m.mapped x = some p → p < highMemory
  aligned : ∀ (x y : Place) p, lowMem ≤ p → m.mapped x = some p → m.mapped y = some p →
    x.1.val % 16 = y.1.val % 16 ∧ x.2 = y.2
  writes : ∀ (x : Place) t p, m.table x.1 = some t → m.link t x.2 = some p → writable (long m.mem t x.2) →
    lowMem ≤ p ∧ m.memMap p = 1
  absent : ∀ d : Fin 1024, 16 ≤ d.val → m.table d = none → long m.mem 0 d = 0
  kernel : ∀ d < 16, long m.mem 0 d = if d < 2 then full (1 + d) else 0
  kernel_map : ∀ d < 2, ∀ e < 1024, long m.mem (1 + d) e = full (1024 * d + e)

variable {m : Pages} {own : ℕ → ℕ} {p t i w : ℕ} {d : Fin 1024} {x : Place}

lemma link_eq_some : m.link t i = some p ↔ present (long m.mem t i) ∧ frame (long m.mem t i) = p := by
  unfold link
  split_ifs with h
  · simp [h]
  · simp [h]

lemma mapped_eq_some : m.mapped x = some p ↔ ∃ t, m.table x.1 = some t ∧ m.link t x.2 = some p := by
  unfold mapped
  rw [Option.bind_eq_some_iff]

lemma mapped_of_table (ht : m.table x.1 = some t) : m.mapped x = m.link t x.2 := by
  unfold mapped
  rw [ht]
  rfl

lemma mapped_of_none (ht : m.table x.1 = none) : m.mapped x = none := by
  unfold mapped
  rw [ht]
  rfl

section Counting

variable (h : Counted own m)
include h

lemma Counted.of_table (ht : m.table d = some t) : refs m.mapped t = 0 ∧ refs m.table t = 1 ∧ own t = 0 := by
  obtain ⟨hlo, hhi⟩ := h.table_range d t ht
  have hone := h.table_once d t ht
  have hcount := h.counts t hlo hhi
  have hpos := refs_pos ht
  omega

lemma Counted.table_inj {d' : Fin 1024} (ht : m.table d = some t) (ht' : m.table d' = some t) : d = d' :=
  eq_of_refs_one (h.of_table ht).2.1 ht ht'

lemma Counted.mapped_ne_table (ht : m.table d = some t) : m.mapped x ≠ some t := by
  intro hx
  have hpos := refs_pos hx
  rw [(h.of_table ht).1] at hpos
  exact absurd hpos (lt_irrefl 0)

lemma Counted.of_free (hlo : lowMem ≤ p) (hhi : p < highMemory) (hp : m.memMap p = 0) :
    refs m.mapped p = 0 ∧ refs m.table p = 0 ∧ own p = 0 := by
  have hcount := h.counts p hlo hhi
  omega

lemma Counted.of_own (hp : own p ≠ 0) : refs m.mapped p = 0 ∧ refs m.table p = 0 ∧ own p = 1 := by
  obtain ⟨hlo, hhi⟩ := h.own_range p hp
  have hone := h.own_once p hp
  have hcount := h.counts p hlo hhi
  omega

lemma Counted.pos (hx : m.mapped x = some p) (hlo : lowMem ≤ p) : 0 < m.memMap p := by
  have hcount := h.counts p hlo (h.mapped_range x p hx)
  have hpos := refs_pos hx
  omega

end Counting

lemma ne_of_refs (hp : refs m.mapped p = 0) : m.mapped x ≠ some p := by
  intro hx
  have hpos := refs_pos hx
  omega

lemma table_ne_of_refs (hp : refs m.table p = 0) : m.table d ≠ some p := by
  intro hd
  have hpos := refs_pos hd
  omega

section Changes

variable {m' : Pages} {e : Fin 1024}

/-- What an entry with the word `w` refers to. -/
def target (w : ℕ) : Option ℕ := if present w then some (frame w) else none

lemma target_full (p : ℕ) : target (full p) = some p := by
  rw [target, if_pos (present_full p), frame_full]

lemma target_zero : target 0 = none := rfl

lemma long_setEntry (hw : w < 2 ^ 32) (q j : ℕ) :
    long (m.setEntry t i w).mem q j = if q = t ∧ j = i then w else long m.mem q j := by
  unfold setEntry
  split_ifs with heq
  · obtain ⟨rfl, rfl⟩ := heq
    exact long_setLong_self hw
  · exact long_setLong_of_ne (not_and_or.mp heq)

lemma link_setEntry (hw : w < 2 ^ 32) (q j : ℕ) :
    (m.setEntry t i w).link q j = if q = t ∧ j = i then target w else m.link q j := by
  unfold link target
  rw [long_setEntry hw]
  by_cases heq : q = t ∧ j = i
  · simp only [if_pos heq]
  · simp only [if_neg heq]

lemma link_congr (h : m'.mem t = m.mem t) : m'.link t i = m.link t i := by
  unfold link
  rw [long_congr h]

lemma table_congr (h : m'.mem 0 = m.mem 0) : m'.table = m.table := by
  funext d
  unfold table
  rw [link_congr h]

lemma mapped_congr (h : m'.mem 0 = m.mem 0) (ht : ∀ d t, m.table d = some t → m'.mem t = m.mem t) :
    m'.mapped = m.mapped := by
  funext x
  unfold mapped
  rw [table_congr h]
  cases hx : m.table x.1 with
  | none => rfl
  | some t => exact link_congr (ht _ _ hx)

lemma table_setEntry (ht : t ≠ 0) : (m.setEntry t i w).table = m.table :=
  table_congr (setLong_of_ne (Ne.symm ht))

lemma Counted.table_ne_zero (h : Counted own m) (ht : m.table d = some t) : t ≠ 0 := by
  have hlo := (h.table_range d t ht).1
  dsimp only [lowMem] at hlo
  omega

lemma Counted.mapped_setEntry (h : Counted own m) (ht : m.table d = some t) (hw : w < 2 ^ 32) (e : Fin 1024) :
    (m.setEntry t e w).mapped = Function.update m.mapped (d, e) (target w) := by
  funext x
  unfold mapped
  rw [table_setEntry (h.table_ne_zero ht)]
  by_cases hx : x = (d, e)
  · rw [hx, Function.update_self, ht, Option.bind_some, link_setEntry hw, if_pos ⟨rfl, rfl⟩]
  · rw [Function.update_of_ne hx]
    cases hxt : m.table x.1 with
    | none => rfl
    | some t' =>
      rw [Option.bind_some, Option.bind_some, link_setEntry hw, if_neg]
      rintro ⟨rfl, he⟩
      exact hx (Prod.ext (h.table_inj hxt ht) (Fin.ext he))

lemma table_setDir (hd : 16 ≤ d.val) (hw : w < 2 ^ 32) :
    (m.setEntry 0 d w).table = Function.update m.table d (target w) := by
  funext d'
  unfold table
  rw [link_setEntry hw]
  by_cases hd' : d' = d
  · rw [hd', Function.update_self, if_pos hd, if_pos ⟨rfl, rfl⟩]
  · rw [Function.update_of_ne hd']
    have hne : ¬(0 = 0 ∧ d'.val = d.val) := fun hv => hd' (Fin.ext hv.2)
    rw [if_neg hne]

/-- A directory entry changes that has no pages under it, before and after. -/
lemma Counted.mapped_setDir (h : Counted own m) (hd : 16 ≤ d.val) (hw : w < 2 ^ 32)
    (hold : ∀ e, m.mapped (d, e) = none)
    (hnew : ∀ t, target w = some t → t ≠ 0 ∧ ∀ e : Fin 1024, m.link t e = none) :
    (m.setEntry 0 d w).mapped = m.mapped := by
  funext x
  unfold mapped
  rw [table_setDir hd hw]
  by_cases hx : x.1 = d
  · have hnone : m.mapped x = none := by
      rw [← hold x.2, ← hx]
    rw [hx, Function.update_self]
    cases hw' : target w with
    | none =>
      rw [← hx]
      exact hnone.symm
    | some t =>
      obtain ⟨ht, hempty⟩ := hnew t hw'
      rw [Option.bind_some, link_congr (setLong_of_ne ht), hempty, ← hx]
      exact hnone.symm
  · rw [Function.update_of_ne hx]
    cases hxt : m.table x.1 with
    | none => rfl
    | some t' => exact link_congr (setLong_of_ne (h.table_ne_zero hxt))

end Changes

/-- One more reference from outside of the tables. -/
def add (own : ℕ → ℕ) (p : ℕ) : ℕ → ℕ := fun q => own q + if q = p then 1 else 0

lemma add_ne_zero {q : ℕ} : add own p q ≠ 0 ↔ own q ≠ 0 ∨ q = p := by
  unfold add
  split_ifs with hq
  · simp [hq]
  · simp [hq]

section FreePages

lemma lastFree_eq_some {n : ℕ} (h : m.lastFree n = some p) :
    lowMem ≤ p ∧ p < lowMem + n ∧ m.memMap p = 0 := by
  induction n with
  | zero => cases h
  | succ n ih =>
    rw [lastFree] at h
    split_ifs at h with hfree
    · obtain rfl := Option.some.inj h
      exact ⟨Nat.le_add_right _ _, by omega, hfree⟩
    · obtain ⟨hlo, hhi, hp⟩ := ih h
      exact ⟨hlo, by omega, hp⟩

/-- A free page comes back marked and clear, and nothing else has changed. -/
lemma getFreePage_eq_some {m' : Pages} (h : m.getFreePage = some (p, m')) :
    lowMem ≤ p ∧ p < highMemory ∧ m.memMap p = 0 ∧
      m' = { m.setMap p 1 with mem := Function.update m.mem p fun _ => 0 } := by
  obtain ⟨q, hq, heq⟩ := Option.map_eq_some_iff.mp h
  obtain ⟨rfl, rfl⟩ := Prod.mk.inj heq
  obtain ⟨hlo, hhi, hfree⟩ := lastFree_eq_some hq
  exact ⟨hlo, hhi, hfree, rfl⟩

end FreePages

section Steps

variable {m' : Pages} {own' : ℕ → ℕ} {e : Fin 1024}

lemma Counted.once (h : Counted own m) (hlo : lowMem ≤ p) (hp : m.memMap p = 1) {y : Place} (hx : m.mapped x = some p)
    (hy : m.mapped y = some p) : x = y := by
  have hcount := h.counts p hlo (h.mapped_range x p hx)
  have hpos := refs_pos hx
  exact eq_of_refs_one (by omega) hx hy

/-- Bytes change in a page that is not a table. -/
lemma Counted.touch (h : Counted own m) (hlo : lowMem ≤ p) (hp : ∀ d, m.table d ≠ some p) (f : ℕ → Byte) :
    Counted own { m with mem := Function.update m.mem p f } ∧
      ({ m with mem := Function.update m.mem p f } : Pages).mapped = m.mapped ∧
      ({ m with mem := Function.update m.mem p f } : Pages).table = m.table := by
  have hlow : ∀ q < lowMem, Function.update m.mem p f q = m.mem q :=
    fun q hq => Function.update_of_ne (ne_of_lt (lt_of_lt_of_le hq hlo)) _ _
  have h0 := hlow 0 (by decide)
  have hmem : ∀ d t, m.table d = some t → Function.update m.mem p f t = m.mem t := by
    intro d t ht
    apply Function.update_of_ne
    rintro rfl
    exact hp d ht
  have htable : ({ m with mem := Function.update m.mem p f } : Pages).table = m.table := table_congr h0
  have hmapped : ({ m with mem := Function.update m.mem p f } : Pages).mapped = m.mapped := mapped_congr h0 hmem
  refine ⟨?_, hmapped, htable⟩
  constructor
  · rw [hmapped, htable]
    exact h.counts
  · rw [htable]
    exact h.table_range
  · rw [htable]
    exact h.table_once
  · exact h.own_range
  · exact h.own_once
  · rw [hmapped]
    exact h.mapped_range
  · rw [hmapped]
    exact h.aligned
  · intro x t q ht hq hw
    rw [htable] at ht
    rw [link_congr (hmem _ t ht)] at hq
    rw [long_congr (hmem _ t ht)] at hw
    exact h.writes x t q ht hq hw
  · intro d hd hnone
    rw [htable] at hnone
    rw [long_congr h0]
    exact h.absent d hd hnone
  · intro d hd
    rw [long_congr h0]
    exact h.kernel d hd
  · intro d hd e he
    rw [long_congr (hlow _ (by dsimp only [lowMem]; omega))]
    exact h.kernel_map d hd e he

/-- An entry of a table changes, and with it the counts of the page it referred to and of the one it refers to. -/
theorem Counted.replace (h : Counted own m) (ht : m.table d = some t) (hw : w < 2 ^ 32)
    (hmem : m'.mem = (m.setEntry t e w).mem)
    (hcount : ∀ q, lowMem ≤ q → q < highMemory →
      m'.memMap q + (if m.mapped (d, e) = some q then 1 else 0) + own q =
        m.memMap q + (if target w = some q then 1 else 0) + own' q)
    (hsame : ∀ q, m.mapped (d, e) ≠ some q → target w ≠ some q → m'.memMap q = m.memMap q)
    (hrange : ∀ p, target w = some p → p < highMemory)
    (hfresh : ∀ p, target w = some p → lowMem ≤ p → (∀ d', m.table d' ≠ some p) ∧ own' p = 0 ∧
      ∀ y, m.mapped y = some p → y.1.val % 16 = d.val % 16 ∧ y.2 = e)
    (hwrite : ∀ p, target w = some p → writable w → lowMem ≤ p ∧ m'.memMap p = 1)
    (hothers : ∀ p, target w = some p → lowMem ≤ p → ∀ y t', y ≠ (d, e) → m.table y.1 = some t' →
      m.link t' y.2 = some p → writable (long m.mem t' y.2) → m'.memMap p = 1)
    (hown : ∀ q, own' q ≠ 0 → own q ≠ 0) : Counted own' m' := by
  have hlow : ∀ q < lowMem, m'.mem q = m.mem q := by
    intro q hq
    rw [hmem]
    exact setLong_of_ne (ne_of_lt (lt_of_lt_of_le hq (h.table_range d t ht).1))
  have h0 := hlow 0 (by decide)
  have htable : m'.table = m.table := table_congr h0
  have hmapped : m'.mapped = Function.update m.mapped (d, e) (target w) := by
    rw [← h.mapped_setEntry ht hw e]
    exact mapped_congr (congrFun hmem 0) fun d' t' _ => congrFun hmem t'
  have hnotable : ∀ d' p, m.table d' = some p → lowMem ≤ p → target w ≠ some p :=
    fun d' p hd' hlo hp => (hfresh p hp hlo).1 d' hd'
  have hkept : ∀ d' q, m.table d' = some q → m'.memMap q = 1 := by
    intro d' q hq
    have hlo := (h.table_range d' q hq).1
    rw [hsame q (h.mapped_ne_table hq) (hnotable d' q hq hlo)]
    exact h.table_once d' q hq
  constructor
  · intro q hlo hhi
    have hc := hcount q hlo hhi
    have hq := h.counts q hlo hhi
    have hu := refs_update m.mapped (d, e) (target w) q
    rw [hmapped, htable]
    omega
  · rw [htable]
    exact h.table_range
  · rw [htable]
    exact hkept
  · exact fun q hq => h.own_range q (hown q hq)
  · intro q hq
    have hq' := hown q hq
    have hlo := (h.own_range q hq').1
    rw [hsame q (ne_of_refs (h.of_own hq').1) fun hp => hq (hfresh q hp hlo).2.1]
    exact h.own_once q hq'
  · intro x p hx
    rw [hmapped] at hx
    by_cases hxe : x = (d, e)
    · rw [hxe, Function.update_self] at hx
      exact hrange p hx
    · rw [Function.update_of_ne hxe] at hx
      exact h.mapped_range x p hx
  · have halign : ∀ (y : Place) p, lowMem ≤ p → target w = some p → m'.mapped y = some p →
        y.1.val % 16 = d.val % 16 ∧ y.2 = e := by
      intro y p hlo hp hy
      rw [hmapped] at hy
      by_cases hye : y = (d, e)
      · rw [hye]
        exact ⟨rfl, rfl⟩
      · rw [Function.update_of_ne hye] at hy
        exact (hfresh p hp hlo).2.2 y hy
    intro x y p hlo hx hy
    by_cases hp : target w = some p
    · obtain ⟨hx₁, hx₂⟩ := halign x p hlo hp hx
      obtain ⟨hy₁, hy₂⟩ := halign y p hlo hp hy
      exact ⟨hx₁.trans hy₁.symm, hx₂.trans hy₂.symm⟩
    · have hold : ∀ z, m'.mapped z = some p → m.mapped z = some p := by
        intro z hz
        rw [hmapped] at hz
        by_cases hze : z = (d, e)
        · rw [hze, Function.update_self] at hz
          exact absurd hz hp
        · rwa [Function.update_of_ne hze] at hz
      exact h.aligned x y p hlo (hold x hx) (hold y hy)
  · intro x t' p hxt hp hpw
    rw [htable] at hxt
    have hlink : m'.link t' x.2 = (m.setEntry t e w).link t' x.2 := link_congr (congrFun hmem t')
    have hlong : long m'.mem t' x.2 = long (m.setEntry t e w).mem t' x.2 := long_congr (congrFun hmem t')
    rw [hlink, link_setEntry hw] at hp
    rw [hlong, long_setEntry hw] at hpw
    by_cases hxe : t' = t ∧ x.2.val = e.val
    · rw [if_pos hxe] at hp hpw
      exact hwrite p hp hpw
    · rw [if_neg hxe] at hp hpw
      obtain ⟨hlo, hone⟩ := h.writes x t' p hxt hp hpw
      have hne : x ≠ (d, e) := by
        rintro rfl
        exact hxe ⟨Option.some.inj (hxt.symm.trans ht), rfl⟩
      refine ⟨hlo, ?_⟩
      by_cases hpt : target w = some p
      · exact hothers p hpt hlo x t' hne hxt hp hpw
      · rw [hsame p _ hpt]
        · exact hone
        · intro hold
          exact hne (h.once hlo hone (mapped_eq_some.mpr ⟨t', hxt, hp⟩) hold)
  · intro d' hd' hnone
    rw [htable] at hnone
    rw [long_congr h0]
    exact h.absent d' hd' hnone
  · intro d' hd'
    rw [long_congr h0]
    exact h.kernel d' hd'
  · intro d' hd' e' he'
    rw [long_congr (hlow _ (by dsimp only [lowMem]; omega))]
    exact h.kernel_map d' hd' e' he'

end Steps

end Pages

end Devos.Mm
