import Devos.Mm.Counting

/-! A `fork` for which there is no memory leaves everything as it was. -/

namespace Devos.Mm.Machine

open RefCount Longs Kernel Pages

/-- `s'` is as `s` for the pages, for the process `t` and for all tables of tasks and files, with no address space for
`nr`. -/
structure Untouched (s : Machine) (t : Task) (nr : Fin 64) (s' : Machine) : Prop where
  memMap : ∀ p, lowMem ≤ p → p < highMemory → s'.pages.memMap p = s.pages.memMap p
  walk : ∀ a < t.dataLimit, s'.pages.walk (t.place a) = s.pages.walk (t.place a)
  bytes : ∀ a < t.dataLimit, ∀ p, s.pages.walk (t.place a) = some p → ∀ o < 4096, s'.pages.mem p o = s.pages.mem p o
  absent : ∀ d : Fin 1024, rows (16 * nr.val) 16 (d, 0) → ¬present (long s'.pages.mem 0 d)
  task : s'.task = s.task
  fileTable : s'.fileTable = s.fileTable
  inode : s'.inode = s.inode

section Fork

variable {s : Machine} {c nr : Fin 64} {t : Task} {m : Pages} {p a : ℕ}

lemma Undone.table_eq (h : Undone s c nr t m) (hs : Sound s) (hp : Placed c t) (hfree : s.task nr = none) :
    m.table = s.pages.table := by
  have hle := hp.tables_le
  funext d
  by_cases hd : rows (16 * nr.val) (tablesFor t.dataLimit) (d, 0)
  · rw [h.gone d hd, hs.no_tables hfree d ⟨hd.1, by have := hd.2; omega⟩]
  · exact h.only.table fun _ => hd

lemma Undone.mapped_eq (h : Undone s c nr t m) (hs : Sound s) (hp : Placed c t) (hfree : s.task nr = none) :
    m.mapped = s.pages.mapped := by
  have htable := h.table_eq hs hp hfree
  funext x
  by_cases hx : rows (16 * nr.val) (tablesFor t.dataLimit) x
  · have hgone : m.table x.1 = none := h.gone x.1 hx
    rw [mapped_of_none hgone, mapped_of_none (by rw [← htable, hgone])]
  · exact h.only.mapped x hx

/-- The page directory has the same bytes. -/
lemma Undone.directory (h : Undone s c nr t m) (hs : Sound s) (hp : Placed c t) (hnr : nr ≠ 0) (hfree : s.task nr = none)
    {o : ℕ} (ho : o < 4096) : m.mem 0 o = s.pages.mem 0 o := by
  have hle := hp.tables_le
  have hpos : nr.val ≠ 0 := fun hv => hnr (Fin.ext hv)
  refine bytes_of_long (i := (⟨o / 4, by omega⟩ : Fin 1024).val) ?_ rfl
  generalize (⟨o / 4, by omega⟩ : Fin 1024) = d
  by_cases hd : rows (16 * nr.val) (tablesFor t.dataLimit) (d, 0)
  · have hlow : 16 * nr.val ≤ d.val := hd.1
    have hgone : s.pages.table d = none := hs.no_tables hfree d ⟨hlow, by have := hd.2; omega⟩
    rw [h.counted.absent d (by omega) (h.gone d hd), hs.counted.absent d (by omega) hgone]
  · exact h.only.dirs d fun _ => hd

lemma Undone.untouched (h : Undone s c nr t m) (hs : Sound s) (ht : s.task c = some t) (hnr : nr ≠ 0)
    (hfree : s.task nr = none) : Untouched s t nr { s with pages := m } := by
  have hp := hs.placed c t ht
  have htable := h.table_eq hs hp hfree
  have hmapped := h.mapped_eq hs hp hfree
  have hpos : nr.val ≠ 0 := fun hv => hnr (Fin.ext hv)
  have hout : ∀ a < t.dataLimit, ¬rows (16 * nr.val) (tablesFor t.dataLimit) (t.place a) := by
    intro a ha hrow
    have hsame : c = nr := by
      apply Fin.ext
      have hle := hp.tables_le
      have hown := (hp.row_place ha).2
      have h₁ := hrow.1
      have h₂ := hrow.2
      have h₃ := hown.1
      have h₄ := hown.2
      omega
    rw [hsame, hfree] at ht
    cases ht
  constructor
  · intro p hlo hhi
    have hafter := h.counted.counts p hlo hhi
    have hbefore := hs.counted.counts p hlo hhi
    rw [hmapped, htable] at hafter
    exact hafter.trans hbefore.symm
  · intro a ha
    refine h.only.walk hs.counted (hout a ha) ?_
    intro hlow e hrow
    have hfrom : 16 * nr.val ≤ (t.place a).1.val := hrow.1
    omega
  · intro a ha p hwalk o ho
    by_cases hlo : lowMem ≤ p
    · have hc : c ≠ 0 := by
        rintro rfl
        obtain ⟨he, hpage, _⟩ := hs.kernel_place hp ha
        obtain rfl := Option.some.inj (hwalk.symm.trans hpage)
        dsimp only [lowMem] at hlo
        omega
      have hmap : s.pages.mapped (t.place a) = some p := by rw [← walk_eq_mapped (hp.high hc ha), hwalk]
      have hsame : m.mem p = s.pages.mem p := h.only.data _ p (hout a ha) hmap hlo
      exact congrFun hsame o
    · by_cases hzero : p = 0
      · rw [hzero]
        exact h.directory hs hp hnr hfree ho
      · have hsame : m.mem p = s.pages.mem p := h.only.low p hzero (not_le.mp hlo)
        exact congrFun hsame o
  · intro d hd hpresent
    have hfrom : 16 * nr.val ≤ d.val := hd.1
    have hnone : m.table d = none := by rw [htable, hs.no_tables hfree d hd]
    rw [link_of_table (by omega), link, if_pos hpresent] at hnone
    cases hnone
  · rfl
  · rfl
  · rfl

/-- `fork` fails just when there are not as many free pages as its task structure and the page tables need. -/
theorem fork_undone (h : machine.Reach Tame s) (pid : ℤ) (ht : s.task c = some t) (hnr : nr ≠ 0)
    (hfree : s.task nr = none) :
    ∃ s' r, s.copyProcess nr t pid = .ok (s', r) ∧
      (s.pages.tables (16 * c.val) (tablesFor t.dataLimit) < s.pages.free ∧ r = pid ∧ (s'.task nr).isSome = true ∨
        s.pages.free ≤ s.pages.tables (16 * c.val) (tablesFor t.dataLimit) ∧ r = -eagain ∧ Untouched s t nr s') := by
  have hs := Sound.of_run h
  rcases copyProcess_spec hs pid ht hnr hfree with ⟨m, hrun, hundone, hle⟩ | ⟨s', hrun, hforked, hlt⟩
  · exact ⟨_, _, hrun, Or.inr ⟨hle, rfl, hundone.untouched hs ht hnr hfree⟩⟩
  · obtain ⟨u, _, _, _, htask⟩ := hforked.child
    refine ⟨s', pid, hrun, Or.inl ⟨hlt, rfl, ?_⟩⟩
    rw [htask, Function.update_self]
    rfl

lemma tables_crowded : crowded.pages.free ≤ crowded.pages.tables (16 * (1 : Fin 64).val) (tablesFor 0x4000000) := by
  have hlong : long crowdedPages.mem 0 16 = full 514 := long_crowded (by decide) (by decide)
  have hsome : 1 ≤ crowdedPages.tables 16 (15 + 1) := by
    rw [Pages.tables, hlong, if_pos (present_full _)]
    exact Nat.le_add_right _ _
  rw [free_crowded]
  exact hsome

theorem fork_undone_crowded : ∃ s' r, crowded.copyProcess 2 (plainTask 1 513 0x4000000) 2 = .ok (s', r) ∧ r = -eagain ∧
    Untouched crowded (plainTask 1 513 0x4000000) 2 s' := by
  obtain ⟨s', r, hrun, hcase⟩ := fork_undone (c := 1) (.start init_crowded) 2 task_crowded_one (by decide : (2 : Fin 64) ≠ 0) rfl
  rcases hcase with ⟨hlt, _⟩ | ⟨_, hr, huntouched⟩
  · exact absurd hlt (not_lt.mpr tables_crowded)
  · exact ⟨s', r, hrun, hr, huntouched⟩

end Fork

end Devos.Mm.Machine
