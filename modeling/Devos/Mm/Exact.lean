import Devos.Mm.Processes

/-! Each page above `LOW_MEM` is counted as often as it is referred to, as long as none is lost. -/

namespace Devos.Mm

open Runs RefCount Kernel Pages

namespace Machine

/-- The pages of the task structures; that of process 0 is the kernel's. -/
def taskPage (s : Machine) (i : Fin 64) : Option ℕ := if i = 0 then none else (s.task i).map Task.page

def pipePage (s : Machine) (k : Fin Fs.nrInode) : Option ℕ :=
  if (s.inode k).iPipe then some (s.inode k).iSize else none

/-- The references to a page: the entries of page tables, the page directory's, and the kernel's own. -/
def references (s : Machine) (p : ℕ) : ℕ :=
  refs s.pages.mapped p + refs s.pages.table p + refs s.taskPage p + refs s.pipePage p

/-- `mem_map` is exact. -/
def Exact (s : Machine) : Prop := ∀ p, lowMem ≤ p → p < highMemory → s.pages.memMap p = s.references p

/-- What has a page besides the tables. -/
def owners (s : Machine) (p : ℕ) : ℕ := refs s.taskPage p + refs s.pipePage p + s.pages.lost.count p

/-- A directory entry in the address space of a living process. -/
def Covers (s : Machine) (d : Fin 1024) : Prop :=
  ∃ i t, s.task i = some t ∧ t.phase = .alive ∧ rows (16 * i.val) (tablesFor t.dataLimit) (d, 0)

/-- Segments as `fork`, `exec` and the start of process 0 leave them. -/
structure Placed (i : Fin 64) (t : Task) : Prop where
  codeBase : t.codeBase = i.val * 0x4000000
  dataBase : t.dataBase = i.val * 0x4000000
  codeLimit : t.codeLimit ≤ t.dataLimit
  dataLimit : t.dataLimit ≤ 0x4000000
  first : i = 0 → t.dataLimit = 0xA0000

structure Sound (s : Machine) : Prop where
  counted : Counted s.owners s.pages
  placed : ∀ i t, s.task i = some t → Placed i t
  covered : ∀ d p, s.pages.table d = some p → s.Covers d
  unused : ∀ k, (s.inode k).iCount = 0 → (s.inode k).iPipe = false

section Spaces

variable {i : Fin 64} {t : Task} {a : ℕ}

lemma Placed.tables_le (h : Placed i t) : tablesFor t.dataLimit ≤ 16 := by
  have hlimit := h.dataLimit
  unfold tablesFor
  omega

lemma Placed.start (h : Placed i t) : t.dataBase / 2 ^ 22 = 16 * i.val ∧ t.dataBase % 2 ^ 22 = 0 := by
  rw [h.dataBase]
  omega

lemma Placed.row_place (h : Placed i t) (ha : a < t.dataLimit) :
    (t.place a).1.val = 16 * i.val + a / 2 ^ 22 ∧ rows (16 * i.val) (tablesFor t.dataLimit) (t.place a) := by
  have hlimit := h.dataLimit
  have hval : (t.place a).1.val = (t.dataBase + a) / 2 ^ 22 % 1024 := rfl
  have hi := i.isLt
  rw [h.dataBase] at hval
  refine ⟨by omega, by omega, ?_⟩
  unfold tablesFor
  omega

end Spaces

section Frames

variable {s : Machine} {m : Pages} {i : Fin 64}

lemma owners_setPages (hlost : m.lost = s.pages.lost) : ({ s with pages := m } : Machine).owners = s.owners := by
  funext p
  unfold owners
  rw [hlost]
  rfl

/-- Pages and tables change, processes and pipes do not. -/
lemma Sound.setPages (h : Sound s) (hc : Counted s.owners m) (hlost : m.lost = s.pages.lost)
    (hcovered : ∀ d p, m.table d = some p → s.Covers d) : Sound { s with pages := m } := by
  refine ⟨?_, h.placed, hcovered, h.unused⟩
  rw [owners_setPages hlost]
  exact hc

lemma Sound.enter (h : Sound s) (c : Fin 64) : Sound (s.enter c) := ⟨h.counted, h.placed, h.covered, h.unused⟩

/-- The page and the segments of a task are kept. -/
structure Keeps (t t' : Task) : Prop where
  page : t'.page = t.page
  codeBase : t'.codeBase = t.codeBase
  codeLimit : t'.codeLimit = t.codeLimit
  dataBase : t'.dataBase = t.dataBase
  dataLimit : t'.dataLimit = t.dataLimit

lemma Placed.keep {t t' : Task} (h : Placed i t) (hk : Keeps t t') : Placed i t' := by
  refine ⟨?_, ?_, ?_, ?_, ?_⟩
  · rw [hk.codeBase, h.codeBase]
  · rw [hk.dataBase, h.dataBase]
  · rw [hk.codeLimit, hk.dataLimit]
    exact h.codeLimit
  · rw [hk.dataLimit]
    exact h.dataLimit
  · rw [hk.dataLimit]
    exact h.first

variable {c : Fin 64} {t t' : Task}

lemma task_put (i : Fin 64) : (s.put c t').task i = if i = c then some t' else s.task i :=
  Function.update_apply s.task c (some t') i

lemma taskPage_put (ht : s.task c = some t) (hp : t'.page = t.page) : (s.put c t').taskPage = s.taskPage := by
  funext i
  unfold taskPage
  rw [task_put]
  by_cases hi : i = c
  · rw [if_pos hi, hi, ht]
    simp [hp]
  · rw [if_neg hi]

lemma owners_congr {s' : Machine} (htask : s'.taskPage = s.taskPage) (hpipe : s'.pipePage = s.pipePage)
    (hlost : s'.pages.lost = s.pages.lost) : s'.owners = s.owners := by
  funext p
  unfold owners
  rw [htask, hpipe, hlost]

lemma Sound.put (h : Sound s) (ht : s.task c = some t) (hk : Keeps t t')
    (hphase : t.phase = .alive → t'.phase = .alive ∨
      ∀ d p, s.pages.table d = some p → ¬rows (16 * c.val) (tablesFor t.dataLimit) (d, 0)) : Sound (s.put c t') := by
  constructor
  · rw [owners_congr (taskPage_put ht hk.page) rfl rfl]
    exact h.counted
  · intro i u hu
    rw [task_put] at hu
    split_ifs at hu with hi
    · obtain rfl := Option.some.inj hu
      subst hi
      exact (h.placed i t ht).keep hk
    · exact h.placed i u hu
  · intro d p hd
    obtain ⟨i, u, hu, halive, hrow⟩ := h.covered d p hd
    by_cases hi : i = c
    · subst hi
      obtain rfl := Option.some.inj (ht.symm.trans hu)
      rcases hphase halive with halive' | hfree
      · exact ⟨i, t', by rw [task_put, if_pos rfl], halive', by rw [hk.dataLimit]; exact hrow⟩
      · exact absurd hrow (hfree d p hd)
    · exact ⟨i, u, by rw [task_put, if_neg hi, hu], halive, hrow⟩
  · exact h.unused

/-- Descriptors and files do not count. -/
lemma Sound.setFiles (h : Sound s) (ht : s.task c = some t) (files : Fs.FileTask)
    (fileTable : Fs.FileTable (Fin Fs.nrInode)) :
    Sound ({ s with fileTable := fileTable }.put c { t with files := files }) :=
  Sound.put ⟨h.counted, h.placed, h.covered, h.unused⟩ ht ⟨rfl, rfl, rfl, rfl, rfl⟩ Or.inl

end Frames

/-- The processes of `s'` are those of `s`, where they were. -/
def LivesOn (s s' : Machine) : Prop :=
  ∀ i u', s'.task i = some u' → u'.phase = .alive →
    ∃ u, s.task i = some u ∧ u.phase = .alive ∧ u'.dataBase = u.dataBase ∧ u'.dataLimit = u.dataLimit

/-- A step that no process sees. -/
structure Calm (s s' : Machine) : Prop where
  sound : Sound s'
  only : Only nowhere nowhere s.pages s'.pages
  lives : LivesOn s s'
  areas : s'.areas = s.areas

section Calms

variable {s s' s'' : Machine} {c : Fin 64} {t t' : Task}

lemma LivesOn.of_task (h : s'.task = s.task) : LivesOn s s' := by
  intro i u' hu halive
  rw [h] at hu
  exact ⟨u', hu, halive, rfl, rfl⟩

lemma LivesOn.trans (h : LivesOn s s') (h' : LivesOn s' s'') : LivesOn s s'' := by
  intro i u'' hu'' halive''
  obtain ⟨u', hu', halive', hbase', hlimit'⟩ := h' i u'' hu'' halive''
  obtain ⟨u, hu, halive, hbase, hlimit⟩ := h i u' hu' halive'
  exact ⟨u, hu, halive, hbase'.trans hbase, hlimit'.trans hlimit⟩

lemma LivesOn.put (ht : s.task c = some t) (hk : Keeps t t') (hphase : t'.phase = .alive → t.phase = .alive) :
    LivesOn s (s.put c t') := by
  intro i u' hu halive
  rw [task_put] at hu
  split_ifs at hu with hi
  · obtain rfl := Option.some.inj hu
    exact ⟨t, hi ▸ ht, hphase halive, hk.dataBase, hk.dataLimit⟩
  · exact ⟨u', hu, halive, rfl, rfl⟩

lemma Calm.trans (h : Calm s s') (h' : Calm s' s'') : Calm s s'' :=
  ⟨h'.sound, h.only.trans h'.only, h.lives.trans h'.lives, h'.areas.trans h.areas⟩

lemma Sound.calm_setFiles (h : Sound s) (ht : s.task c = some t) (files : Fs.FileTask)
    (fileTable : Fs.FileTable (Fin Fs.nrInode)) :
    Calm s ({ s with fileTable := fileTable }.put c { t with files := files }) := by
  refine ⟨h.setFiles ht files fileTable, Only.refl _, ?_, rfl⟩
  have hput : LivesOn { s with fileTable := fileTable } ({ s with fileTable := fileTable }.put c { t with files := files }) :=
    LivesOn.put ht ⟨rfl, rfl, rfl, rfl, rfl⟩ id
  exact hput

end Calms

section Inodes

variable {s s' : Machine} {k : Fin Fs.nrInode} {p : ℕ}

lemma inode_setInode (i : MInode) (j : Fin Fs.nrInode) :
    (s.setInode k i).inode j = if j = k then i else s.inode j := Function.update_apply s.inode k i j

lemma pipePage_setInode (i : MInode) :
    (s.setInode k i).pipePage = Function.update s.pipePage k (if i.iPipe then some i.iSize else none) := by
  funext j
  unfold pipePage
  rw [inode_setInode]
  by_cases hj : j = k
  · rw [if_pos hj, hj, Function.update_self]
  · rw [if_neg hj, Function.update_of_ne hj]

lemma Sound.setInode (h : Sound s) {i : MInode} (hc : i.iCount = 0 → i.iPipe = false)
    (hpage : (if i.iPipe then some i.iSize else none) = s.pipePage k) : Sound (s.setInode k i) := by
  have hpages : (s.setInode k i).pipePage = s.pipePage := by
    rw [pipePage_setInode, hpage, Function.update_eq_self]
  have howners : (s.setInode k i).owners = s.owners := owners_congr rfl hpages rfl
  refine ⟨?_, h.placed, h.covered, ?_⟩
  · rw [howners]
    exact h.counted
  · intro j hj
    rw [inode_setInode] at hj ⊢
    split_ifs at hj ⊢ with hjk
    · exact hc hj
    · exact h.unused j hj

lemma Sound.iput (h : Sound s) {k : Option (Fin Fs.nrInode)} (hs : s.iput k = .ok s') :
    Calm s s' ∧ s'.task = s.task := by
  cases k with
  | none =>
    obtain rfl := Except.ok.inj hs
    exact ⟨⟨h, Only.refl _, LivesOn.of_task rfl, rfl⟩, rfl⟩
  | some k =>
    rw [Machine.iput] at hs
    split_ifs at hs with hzero hlast
    · obtain ⟨hpipe, hone⟩ := hlast
      have hpage : s.pipePage k = some (s.inode k).iSize := if_pos hpipe
      have hempty : ∀ m : Pages, ({ s with pages := m }.setInode k
          { s.inode k with iCount := 0, iPipe := false }).pipePage = Function.update s.pipePage k none :=
        fun _ => pipePage_setInode _
      have howners : s.owners = add (s.setInode k { s.inode k with iCount := 0, iPipe := false }).owners
          (s.inode k).iSize := by
        funext q
        have hrefs := refs_clear hpage q
        have hsame : (s.setInode k { s.inode k with iCount := 0, iPipe := false }).pipePage =
          Function.update s.pipePage k none := hempty s.pages
        have htask : (s.setInode k { s.inode k with iCount := 0, iPipe := false }).taskPage = s.taskPage := rfl
        have hlost : (s.setInode k { s.inode k with iCount := 0, iPipe := false }).pages.lost = s.pages.lost := rfl
        unfold add owners
        rw [hsame, htask, hlost]
        omega
      have hcount := h.counted
      rw [howners] at hcount
      obtain ⟨m, hfree, hc, hon⟩ := hcount.freePage_own
      rw [hfree] at hs
      obtain rfl := Except.ok.inj hs
      refine ⟨⟨⟨?_, h.placed, ?_, ?_⟩, hon, LivesOn.of_task rfl, rfl⟩, rfl⟩
      · have hsame : ({ s with pages := m }.setInode k { s.inode k with iCount := 0, iPipe := false }).owners =
            (s.setInode k { s.inode k with iCount := 0, iPipe := false }).owners := owners_congr rfl rfl hon.lost
        exact hsame ▸ hc
      · intro d q hd
        exact h.covered d q (by rw [← hon.table_eq]; exact hd)
      · intro j hj
        change (({ s with pages := m }.setInode k _).inode j).iCount = 0 at hj
        change (({ s with pages := m }.setInode k _).inode j).iPipe = false
        rw [inode_setInode] at hj ⊢
        split_ifs at hj ⊢ with hjk
        · rfl
        · exact h.unused j hj
    · obtain rfl := Except.ok.inj hs
      refine ⟨⟨h.setInode ?_ rfl, Only.refl _, LivesOn.of_task rfl, rfl⟩, rfl⟩
      intro hcount
      dsimp only at hcount ⊢
      by_contra hpipe
      exact hlast ⟨by simpa using hpipe, by omega⟩

/-- `if (inode) inode->i_count++` -/
lemma Sound.hold (h : Sound s) (k : Option (Fin Fs.nrInode)) : Sound (s.hold k) ∧ (s.hold k).task = s.task ∧
    (s.hold k).pages = s.pages := by
  cases k with
  | none => exact ⟨h, rfl, rfl⟩
  | some k => exact ⟨h.setInode (fun hc => absurd hc (Nat.succ_ne_zero _)) rfl, rfl, rfl⟩

lemma Sound.getPipeInode (h : Sound s) (hk : (s.inode k).iCount = 0) :
    Calm s (s.getPipeInode k).1 ∧ (s.getPipeInode k).1.task = s.task := by
  have hnone : s.pipePage k = none := by
    rw [pipePage, h.unused k hk]
    rfl
  rw [Machine.getPipeInode]
  cases hg : s.pages.getFreePage with
  | none => exact ⟨⟨h.setInode (fun _ => rfl) hnone.symm, Only.refl _, LivesOn.of_task rfl, rfl⟩, rfl⟩
  | some r =>
    obtain ⟨p, m⟩ := r
    obtain ⟨hc, hon, _⟩ := h.counted.getFreePage hg
    refine ⟨⟨⟨?_, h.placed, ?_, ?_⟩, hon, LivesOn.of_task rfl, rfl⟩, rfl⟩
    · have howners : ({ s with pages := m }.setInode k ⟨2, true, p⟩).owners = add s.owners p := by
        have hpages : ({ s with pages := m }.setInode k ⟨2, true, p⟩).pipePage =
          Function.update s.pipePage k (some p) := pipePage_setInode _
        funext q
        have hrefs := refs_set hnone p q
        have htask : ({ s with pages := m }.setInode k ⟨2, true, p⟩).taskPage = s.taskPage := rfl
        have hlost : ({ s with pages := m }.setInode k ⟨2, true, p⟩).pages.lost = s.pages.lost := hon.lost
        unfold add owners
        rw [hpages, htask, hlost]
        omega
      exact howners.symm ▸ hc
    · intro d q hd
      exact h.covered d q (by rw [← hon.table_eq]; exact hd)
    · intro j hj
      change (({ s with pages := m }.setInode k ⟨2, true, p⟩).inode j).iCount = 0 at hj
      change (({ s with pages := m }.setInode k ⟨2, true, p⟩).inode j).iPipe = false
      rw [inode_setInode] at hj ⊢
      split_ifs at hj ⊢ with hjk
      exact h.unused j hj

lemma Sound.sysPipe {c : Fin 64} {t : Task} (h : Sound s) (ht : s.task c = some t) (hk : (s.inode k).iCount = 0) :
    Calm s (s.sysPipe c t k) := by
  obtain ⟨hs, htask⟩ := h.getPipeInode hk
  unfold Machine.sysPipe
  generalize Fs.pipeReserve t.files s.fileTable = reserved
  obtain ⟨files, fileTable, ends⟩ := reserved
  cases ends with
  | none => exact h.calm_setFiles ht files fileTable
  | some ends =>
    generalize s.getPipeInode k = got at *
    obtain ⟨s₁, inode⟩ := got
    dsimp only at hs htask ⊢
    generalize Fs.pipeFinish files fileTable ends inode = r
    obtain ⟨files', fileTable', value⟩ := r
    exact hs.trans (hs.sound.calm_setFiles (by rw [htask, ht]) files' fileTable')

end Inodes

section Exit

variable {s s' : Machine} {i c : Fin 64} {t u : Task}

lemma Sound.release (h : Sound s) (ht : s.task i = some t) (hphase : t.phase ≠ .alive) (hs : s.release i t = .ok s') :
    Calm s s' := by
  rw [Machine.release] at hs
  split_ifs at hs with hi
  have hpage : s.taskPage i = some t.page := by
    rw [taskPage, if_neg hi, ht]
    rfl
  have htasks : ∀ m : Pages, ({ s with pages := m, task := Function.update s.task i none } : Machine).taskPage =
      Function.update s.taskPage i none := by
    intro m
    funext j
    unfold taskPage
    by_cases hj : j = i
    · rw [hj]
      simp
    · simp [hj]
  have howners : s.owners = add ({ s with task := Function.update s.task i none } : Machine).owners t.page := by
    funext q
    have hrefs := refs_clear hpage q
    have hsame : ({ s with task := Function.update s.task i none } : Machine).taskPage =
      Function.update s.taskPage i none := htasks s.pages
    have hpipe : ({ s with task := Function.update s.task i none } : Machine).pipePage = s.pipePage := rfl
    unfold add owners
    rw [hsame, hpipe]
    dsimp only
    omega
  have hcount := h.counted
  rw [howners] at hcount
  obtain ⟨m, hfree, hc, hon⟩ := hcount.freePage_own
  rw [hfree] at hs
  obtain rfl := Except.ok.inj hs
  have hold : ∀ j v, Function.update s.task i none j = some v → j ≠ i ∧ s.task j = some v := by
    intro j v hv
    by_cases hj : j = i
    · rw [hj, Function.update_self] at hv
      cases hv
    · rw [Function.update_of_ne hj] at hv
      exact ⟨hj, hv⟩
  refine ⟨⟨?_, fun j v hv => h.placed j v (hold j v hv).2, ?_, h.unused⟩, hon,
    fun j v hv halive => ⟨v, (hold j v hv).2, halive, rfl, rfl⟩, rfl⟩
  · have hsame : ({ s with pages := m, task := Function.update s.task i none } : Machine).owners =
        ({ s with task := Function.update s.task i none } : Machine).owners := owners_congr rfl rfl hon.lost
    exact hsame ▸ hc
  · intro d q hd
    obtain ⟨j, v, hv, halive, hrow⟩ := h.covered d q (by rw [← hon.table_eq]; exact hd)
    refine ⟨j, v, ?_, halive, hrow⟩
    change Function.update s.task i none j = some v
    rw [Function.update_of_ne, hv]
    rintro rfl
    exact hphase (Option.some.inj (ht.symm.trans hv) ▸ halive)

lemma Sound.endExit (h : Sound s) (ht : s.task c = some t) (hphase : t.phase = .exiting)
    (hs : s.endExit c t = .ok s') : Calm s s' := by
  obtain ⟨s₁, h₁, hs⟩ := Loops.bind_eq_ok hs
  obtain ⟨s₂, h₂, hs⟩ := Loops.bind_eq_ok hs
  obtain ⟨hs₁, htask₁⟩ := h.iput h₁
  obtain ⟨hs₂, htask₂⟩ := hs₁.sound.iput h₂
  have ht₂ : s₂.task c = some t := by rw [htask₂, htask₁, ht]
  have hdead : t.phase ≠ .alive := by
    rw [hphase]
    rintro ⟨⟩
  apply (hs₁.trans hs₂).trans
  split_ifs at hs
  · obtain rfl := Except.ok.inj hs
    refine ⟨hs₂.sound.put ht₂ ⟨rfl, rfl, rfl, rfl, rfl⟩ fun halive => absurd halive hdead, Only.refl _, ?_, rfl⟩
    refine LivesOn.put ht₂ ⟨rfl, rfl, rfl, rfl, rfl⟩ ?_
    rintro ⟨⟩
  · exact hs₂.sound.release ht₂ hdead hs

lemma Sound.sysClose {fd : ℕ} (h : Sound s) (ht : s.task c = some t) (hs : s.sysClose c t fd = .ok s') : Calm s s' := by
  obtain ⟨r, _, hs⟩ := Loops.bind_eq_ok hs
  have hset := h.calm_setFiles ht r.1 r.2.1
  exact hset.trans (hset.sound.iput hs).1

lemma Sound.mapTasks (h : Sound s) {f : Task → Task} (hk : ∀ t, Keeps t (f t)) (hphase : ∀ t, (f t).phase = t.phase) :
    Sound { s with task := fun i => (s.task i).map f } := by
  constructor
  · have htask : ({ s with task := fun i => (s.task i).map f } : Machine).taskPage = s.taskPage := by
      have hpage : Task.page ∘ f = Task.page := funext fun t => (hk t).page
      funext i
      simp [taskPage, hpage]
    rw [owners_congr htask rfl rfl]
    exact h.counted
  · intro i t' ht'
    obtain ⟨t, ht, rfl⟩ := Option.map_eq_some_iff.mp ht'
    exact (h.placed i t ht).keep (hk t)
  · intro d p hd
    obtain ⟨i, t, ht, halive, hrow⟩ := h.covered d p hd
    refine ⟨i, f t, by simp [ht], (hphase t).trans halive, ?_⟩
    rw [(hk t).dataLimit]
    exact hrow
  · exact h.unused

lemma Sound.freeSegments_returns (h : Sound s) (ht : s.task c = some t) (hc : c ≠ 0) :
    ∃ m₁ m₂, s.pages.freePageTables t.codeBase t.codeLimit = .ok m₁ ∧
      m₁.freePageTables t.dataBase t.dataLimit = .ok m₂ := by
  have hp := h.placed c t ht
  have hbase : t.codeBase = t.dataBase := by rw [hp.codeBase, hp.dataBase]
  obtain ⟨hstart, halign⟩ := hp.start
  have hle := hp.tables_le
  have hcode : tablesFor t.codeLimit ≤ tablesFor t.dataLimit := by
    have hlimit := hp.codeLimit
    unfold tablesFor
    omega
  have hpos : c.val ≠ 0 := fun hv => hc (Fin.ext hv)
  have hlt := c.isLt
  obtain ⟨m₁, hfree₁, hc₁, _⟩ := h.counted.freePageTables t.codeBase t.codeLimit
    (by rw [hbase, halign]) (by rw [hbase, hstart]; omega) (by rw [hbase, hstart]; omega)
  obtain ⟨m₂, hfree₂, _⟩ := hc₁.freePageTables t.dataBase t.dataLimit halign
    (by rw [hstart]; omega) (by rw [hstart]; omega)
  exact ⟨m₁, m₂, hfree₁, hfree₂⟩

lemma Sound.beginExit_returns (h : Sound s) (ht : s.task c = some t) (hc : c ≠ 0) : ∃ s', s.beginExit c t = .ok s' := by
  obtain ⟨m₁, m₂, hfree₁, hfree₂⟩ := h.freeSegments_returns ht hc
  rw [Machine.beginExit, hfree₁, Except.bind, hfree₂]
  exact ⟨_, rfl⟩

/-- The tables of both segments go, and no others. -/
lemma Sound.freeSegments {m₁ m₂ : Pages} (h : Sound s) (ht : s.task c = some t)
    (h₁ : s.pages.freePageTables t.codeBase t.codeLimit = .ok m₁)
    (h₂ : m₁.freePageTables t.dataBase t.dataLimit = .ok m₂) :
    c ≠ 0 ∧ Counted s.owners m₂ ∧ Only (rows (16 * c.val) (tablesFor t.dataLimit)) nowhere s.pages m₂ ∧
      (∀ d, rows (16 * c.val) (tablesFor t.dataLimit) (d, 0) → m₂.table d = none) ∧
      ∀ d p, m₂.table d = some p → s.pages.table d = some p := by
  have hp := h.placed c t ht
  have hbase : t.codeBase = t.dataBase := by rw [hp.codeBase, hp.dataBase]
  obtain ⟨hstart, halign⟩ := hp.start
  have hle := hp.tables_le
  have hcode : tablesFor t.codeLimit ≤ tablesFor t.dataLimit := by
    have hlimit := hp.codeLimit
    unfold tablesFor
    omega
  have hc : c.val ≠ 0 := by
    intro hzero
    have hnil : t.codeBase = 0 := by rw [hp.codeBase, hzero, Nat.zero_mul]
    rw [freePageTables, if_pos (Or.inr hnil)] at h₁
    cases h₁
  have hlt := c.isLt
  obtain ⟨m₁', hfree₁, hc₁, hon₁, _⟩ := h.counted.freePageTables t.codeBase t.codeLimit
    (by rw [hbase, halign]) (by rw [hbase, hstart]; omega) (by rw [hbase, hstart]; omega)
  obtain rfl := Except.ok.inj (h₁.symm.trans hfree₁)
  obtain ⟨m₂', hfree₂, hc₂, hon₂, hnone⟩ := hc₁.freePageTables t.dataBase t.dataLimit halign
    (by rw [hstart]; omega) (by rw [hstart]; omega)
  obtain rfl := Except.ok.inj (h₂.symm.trans hfree₂)
  rw [hbase, hstart] at hon₁
  rw [hstart] at hon₂ hnone
  have hon : Only (rows (16 * c.val) (tablesFor t.dataLimit)) nowhere s.pages m₂ := by
    apply Only.trans _ hon₂
    apply hon₁.mono _ fun _ hx => hx
    exact fun x hx => ⟨hx.1, lt_of_lt_of_le hx.2 (Nat.add_le_add_left hcode _)⟩
  refine ⟨fun hzero => hc (congrArg Fin.val hzero), hc₂, hon, fun d hrow => hnone d hrow.1 hrow.2, ?_⟩
  intro d p hd
  rw [← hon.table]
  · exact hd
  · intro e hrow
    rw [hnone d hrow.1 hrow.2] at hd
    cases hd

/-- The tables of a process go when it exits. -/
lemma Sound.beginExit (h : Sound s) (ht : s.task c = some t) (hs : s.beginExit c t = .ok s') :
    Sound s' ∧ Only (rows (16 * c.val) (tablesFor t.dataLimit)) nowhere s.pages s'.pages ∧ LivesOn s s' ∧
      s'.areas = s.areas ∧ ∀ u, s'.task c = some u → u.phase ≠ .alive := by
  obtain ⟨m₁, h₁, hs⟩ := Loops.bind_eq_ok hs
  obtain ⟨m₂, h₂, hs⟩ := Loops.map_eq_ok hs
  obtain ⟨_, hc₂, hon, hnone, hkept⟩ := h.freeSegments ht h₁ h₂
  subst hs
  have hmap : ∀ u : Task, Keeps u (if u.father = t.pid then { u with father := 0 } else u) := by
    intro u
    split_ifs <;> exact ⟨rfl, rfl, rfl, rfl, rfl⟩
  have hphase : ∀ u : Task, (if u.father = t.pid then { u with father := 0 } else u).phase = u.phase := by
    intro u
    split_ifs <;> rfl
  have hpages := (h.setPages hc₂ hon.lost fun d p hd => h.covered d p (hkept d p hd)).mapTasks hmap hphase
  refine ⟨?_, hon, ?_, rfl, ?_⟩
  rotate_left
  · intro i u' hu halive
    by_cases hi : i = c
    · subst hi
      rw [task_put, if_pos rfl, Option.some.injEq] at hu
      rw [← hu] at halive
      cases halive
    · rw [task_put, if_neg hi] at hu
      obtain ⟨v, hv, rfl⟩ := Option.map_eq_some_iff.mp hu
      exact ⟨v, hv, (hphase v).symm.trans halive, (hmap v).dataBase, (hmap v).dataLimit⟩
  · intro u hu halive
    rw [task_put, if_pos rfl, Option.some.injEq] at hu
    rw [← hu] at halive
    cases halive
  apply hpages.put (t := if t.father = t.pid then { t with father := 0 } else t)
  · change (s.task c).map _ = _
    rw [ht]
    rfl
  · exact ⟨rfl, rfl, rfl, rfl, rfl⟩
  · rintro -
    refine Or.inr fun d p hd hrow => ?_
    rw [(hmap t).dataLimit] at hrow
    rw [hnone d hrow] at hd
    cases hd

end Exit

section Fork

variable {s s' : Machine} {c nr : Fin 64} {t : Task} {m : Pages} {own : ℕ → ℕ} {pid : ℤ}

/-- The addresses of `nr` show what those of `c` have shown. -/
def Copied (c nr : Fin 64) (t : Task) (m m' : Pages) : Prop :=
  ∀ x y : Place, rows (16 * c.val) (tablesFor t.dataLimit) x → y.1.val + 16 * c.val = x.1.val + 16 * nr.val →
    y.2 = x.2 → m'.mapped y = if x.2.val < (if c = 0 then 0xA0 else 1024) then m.walk x else none

lemma copyMem_undo {m₁ m₂ : Pages} {free : Pages → Except Fault Pages} (hfree : free m₁ = .ok m₂) :
    ((Except.ok (m₁, false) : Except Fault (Pages × Bool)).bind fun (m, copied) =>
      if copied then .ok (m, true) else (free m).map (·, false)) = .ok (m₂, false) := by
  simp only [Except.bind, Bool.false_eq_true, if_false, hfree]
  rfl

lemma copyMem_spec (h : Counted own m) (hp : Placed c t) (hnr : nr ≠ 0) (hc : nr ≠ c)
    (hempty : ∀ d : Fin 1024, rows (16 * nr.val) (tablesFor t.dataLimit) (d, 0) → m.table d = none) :
    ∃ m' b, copyMem nr t m = .ok (m', b) ∧ Counted own m' ∧
      Only (rows (16 * nr.val) (tablesFor t.dataLimit)) (rows (16 * c.val) (tablesFor t.dataLimit)) m m' ∧
      (b = true ↔ m.tables (16 * c.val) (tablesFor t.dataLimit) ≤ m.free) ∧ (b = true → Copied c nr t m m') ∧
      (b = false → ∀ d : Fin 1024, rows (16 * nr.val) (tablesFor t.dataLimit) (d, 0) → m'.table d = none) := by
  obtain ⟨hstart, halign⟩ := hp.start
  have hle := hp.tables_le
  have hc' := c.isLt
  have hnr' := nr.isLt
  have hpos : nr.val ≠ 0 := fun hv => hnr (Fin.ext hv)
  have hne : nr.val ≠ c.val := fun hv => hc (Fin.ext hv)
  have hdst : nr.val * 0x4000000 / 2 ^ 22 = 16 * nr.val ∧ nr.val * 0x4000000 % 2 ^ 22 = 0 := by omega
  have hzero : t.dataBase = 0 ↔ c = 0 := by
    rw [hp.dataBase, Fin.ext_iff, Fin.val_zero]
    omega
  have hsrc : (if c = 0 then 0xA0 else 1024) = 1024 ∧ 16 ≤ 16 * c.val ∨
      (if c = 0 then 0xA0 else 1024) = 160 ∧ 16 * c.val + tablesFor t.dataLimit ≤ 1 := by
    by_cases hc0 : c = 0
    · rw [if_pos hc0, hp.first hc0, hc0]
      exact Or.inr ⟨rfl, by decide⟩
    · have hval : c.val ≠ 0 := fun hv => hc0 (Fin.ext hv)
      rw [if_neg hc0]
      exact Or.inl ⟨rfl, by omega⟩
  obtain ⟨m₁, b, hrun, hc₁, hon₁, hb, hcopied⟩ := h.copyDirs (tablesFor t.dataLimit) (16 * c.val) (16 * nr.val)
    hsrc (by omega) (by omega) (by omega) (by omega) (by omega)
    fun d hlo hhi => hempty d ⟨hlo, hhi⟩
  have hcopy : m.copyPageTables t.dataBase (nr.val * 0x4000000) t.dataLimit = .ok (m₁, b) := by
    rw [copyPageTables, if_neg (by omega), hstart, hdst.1, if_congr hzero rfl rfl, hrun]
  have hbases : t.dataBase = t.codeBase := by rw [hp.dataBase, hp.codeBase]
  rw [copyMem, if_neg (not_not_intro hbases), if_neg (not_lt.mpr hp.codeLimit), hcopy]
  generalize nr.val * 0x4000000 = base at *
  cases b with
  | true => exact ⟨m₁, true, rfl, hc₁, hon₁, hb, hcopied, by rintro ⟨⟩⟩
  | false =>
    obtain ⟨m₂, hfree, hc₂, hon₂, hnone⟩ := hc₁.freePageTables base t.dataLimit
      hdst.2 (by rw [hdst.1]; omega) (by rw [hdst.1]; omega)
    rw [hdst.1] at hon₂ hnone
    exact ⟨m₂, false, copyMem_undo hfree, hc₂, hon₁.trans (hon₂.mono (fun _ hx => hx) fun _ => False.elim), hb,
      by rintro ⟨⟩, fun _ d hd => hnone d hd.1 hd.2⟩

/-- A slot without a task has no tables. -/
lemma Sound.no_tables (h : Sound s) (hnr : s.task nr = none) (d : Fin 1024)
    (hd : rows (16 * nr.val) 16 (d, 0)) : s.pages.table d = none := by
  by_contra hne
  obtain ⟨p, hp⟩ := Option.ne_none_iff_exists'.mp hne
  obtain ⟨i, t, ht, _, hrow⟩ := h.covered d p hp
  have hle := (h.placed i t ht).tables_le
  have hsame : i = nr := by
    apply Fin.ext
    have h₁ : 16 * nr.val ≤ d.val := hd.1
    have h₂ : d.val < 16 * nr.val + 16 := hd.2
    have h₃ : 16 * i.val ≤ d.val := hrow.1
    have h₄ : d.val < 16 * i.val + tablesFor t.dataLimit := hrow.2
    omega
  rw [hsame, hnr] at ht
  cases ht

/-- What a `fork` that has failed leaves behind. -/
structure Undone (s : Machine) (c nr : Fin 64) (t : Task) (m : Pages) : Prop where
  counted : Counted s.owners m
  only : Only (rows (16 * nr.val) (tablesFor t.dataLimit)) (rows (16 * c.val) (tablesFor t.dataLimit)) s.pages m
  gone : ∀ d : Fin 1024, rows (16 * nr.val) (tablesFor t.dataLimit) (d, 0) → m.table d = none

/-- What a `fork` that has succeeded has done. -/
structure Forked (s : Machine) (c nr : Fin 64) (t : Task) (s' : Machine) : Prop where
  sound : Sound s'
  only : Only (rows (16 * nr.val) (tablesFor t.dataLimit)) (rows (16 * c.val) (tablesFor t.dataLimit)) s.pages s'.pages
  copied : Copied c nr t s.pages s'.pages
  child : ∃ u, u.dataBase = nr.val * 0x4000000 ∧ u.dataLimit = t.dataLimit ∧ u.phase = .alive ∧
    s'.task = Function.update s.task nr (some u)
  areas : s'.areas = s.areas

lemma hold_areas (k : Option (Fin Fs.nrInode)) : (s.hold k).areas = s.areas := by
  cases k <;> rfl

lemma hold_put (k : Option (Fin Fs.nrInode)) : (s.hold k).put nr t = (s.put nr t).hold k := by
  cases k <;> rfl

/-- The child of `t` in the slot `nr`, with its task structure in the page `p`. -/
def childOf (t : Task) (nr : Fin 64) (pid : ℤ) (p : ℕ) : Task :=
  { t with
    page := p, pid := pid, father := t.pid, phase := .alive, codeBase := nr.val * 0x4000000,
    dataBase := nr.val * 0x4000000, files := { t.files with leader := false } }

lemma Sound.addChild {p : ℕ} (h : Sound s) (pid : ℤ) (hp : Placed c t) (hnr : nr ≠ 0) (hfree : s.task nr = none)
    (hc : Counted (add s.owners p) m) (hlost : m.lost = s.pages.lost) (fileTable : Fs.FileTable (Fin Fs.nrInode))
    (hcovered : ∀ d q, m.table d = some q → s.Covers d ∨ rows (16 * nr.val) (tablesFor t.dataLimit) (d, 0)) :
    Sound ({ s with pages := m, fileTable := fileTable }.put nr (childOf t nr pid p)) := by
  have hold : ∀ i, i ≠ nr → ({ s with pages := m, fileTable := fileTable }.put nr (childOf t nr pid p)).task i = s.task i :=
    fun i hi => Function.update_of_ne hi _ _
  have hself : ({ s with pages := m, fileTable := fileTable }.put nr (childOf t nr pid p)).task nr =
    some (childOf t nr pid p) := Function.update_self _ _ _
  have howners : ({ s with pages := m, fileTable := fileTable }.put nr (childOf t nr pid p)).owners = add s.owners p := by
    have hnone : s.taskPage nr = none := by simp [taskPage, hfree]
    have htask : ({ s with pages := m, fileTable := fileTable }.put nr (childOf t nr pid p)).taskPage =
        Function.update s.taskPage nr (some p) := by
      funext i
      unfold taskPage
      by_cases hi : i = nr
      · rw [hi, hself, Function.update_self, if_neg hnr]
        rfl
      · rw [hold i hi, Function.update_of_ne hi]
    have hpipe : ({ s with pages := m, fileTable := fileTable }.put nr (childOf t nr pid p)).pipePage = s.pipePage := rfl
    have hlost' : ({ s with pages := m, fileTable := fileTable }.put nr (childOf t nr pid p)).pages.lost = s.pages.lost :=
      hlost
    funext q
    have hrefs := refs_set hnone p q
    unfold add owners
    rw [htask, hpipe, hlost']
    omega
  constructor
  · exact howners.symm ▸ hc
  · intro i u hu
    by_cases hi : i = nr
    · subst hi
      rw [hself, Option.some.injEq] at hu
      subst hu
      exact ⟨rfl, rfl, hp.codeLimit, hp.dataLimit, fun hi => absurd hi hnr⟩
    · rw [hold i hi] at hu
      exact h.placed i u hu
  · intro d q hd
    rcases hcovered d q hd with ⟨i, u, hu, halive, hrow⟩ | hrow
    · refine ⟨i, u, ?_, halive, hrow⟩
      rw [hold, hu]
      rintro rfl
      rw [hfree] at hu
      cases hu
    · exact ⟨nr, _, hself, rfl, hrow⟩
  · exact h.unused

/-- `fork` fails exactly when there are less free pages than the child's task structure and page tables need. -/
theorem copyProcess_spec (h : Sound s) (pid : ℤ) (ht : s.task c = some t) (hnr : nr ≠ 0) (hfree : s.task nr = none) :
    (∃ m, s.copyProcess nr t pid = .ok ({ s with pages := m }, -eagain) ∧ Undone s c nr t m ∧
        s.pages.free ≤ s.pages.tables (16 * c.val) (tablesFor t.dataLimit)) ∨
      ∃ s', s.copyProcess nr t pid = .ok (s', pid) ∧ Forked s c nr t s' ∧
        s.pages.tables (16 * c.val) (tablesFor t.dataLimit) < s.pages.free := by
  have hp := h.placed c t ht
  have hne : nr ≠ c := by
    rintro rfl
    rw [hfree] at ht
    cases ht
  have hrows : ∀ d : Fin 1024, rows (16 * nr.val) (tablesFor t.dataLimit) (d, 0) → s.pages.table d = none :=
    fun d hd => h.no_tables hfree d ⟨hd.1, lt_of_lt_of_le hd.2 (Nat.add_le_add_left hp.tables_le _)⟩
  rw [Machine.copyProcess]
  cases hg : s.pages.getFreePage with
  | none =>
    refine Or.inl ⟨s.pages, rfl, ⟨h.counted, Only.refl _, hrows⟩, ?_⟩
    rw [getFreePage_eq_none.mp hg]
    exact Nat.zero_le _
  | some r =>
    obtain ⟨p, m₁⟩ := r
    obtain ⟨hc₁, hon₁, _⟩ := h.counted.getFreePage hg
    have hcost : m₁.free + 1 = s.pages.free := free_getFreePage hg
    have htables : m₁.tables (16 * c.val) (tablesFor t.dataLimit) = s.pages.tables (16 * c.val) (tablesFor t.dataLimit) := by
      have hle := hp.tables_le
      have hlt := c.isLt
      apply tables_congr
      intro k _ hk
      exact hon₁.dirs ⟨k, by omega⟩ fun _ => id
    obtain ⟨m₂, b, hrun, hc₂, hon₂, hb, hcopied, hgone⟩ := copyMem_spec hc₁ hp hnr hne fun d hd => by
      rw [hon₁.table_eq]
      exact hrows d hd
    have hon : Only (rows (16 * nr.val) (tablesFor t.dataLimit)) (rows (16 * c.val) (tablesFor t.dataLimit))
        s.pages m₂ := (hon₁.mono (fun _ => False.elim) fun _ => False.elim).trans hon₂
    dsimp only
    rw [hrun]
    cases b with
    | false =>
      obtain ⟨m₃, hfree₃, hc₃, hon₃⟩ := hc₂.freePage_own
      refine Or.inl ⟨m₃, ?_, ⟨hc₃, ?_, ?_⟩, ?_⟩
      · simp only [Except.bind, Bool.false_eq_true, if_false, hfree₃]
        rfl
      · exact hon.trans (hon₃.mono (fun _ => False.elim) fun _ => False.elim)
      · intro d hd
        rw [hon₃.table_eq]
        exact hgone rfl d hd
      · have hlack : ¬m₁.tables (16 * c.val) (tablesFor t.dataLimit) ≤ m₁.free := fun hle => absurd (hb.mpr hle) (by simp)
        omega
    | true =>
      have henough := hb.mp rfl
      have hsound := h.addChild pid hp hnr hfree hc₂ hon.lost (Fs.copyFiles t.files s.fileTable) (by
        intro d q hd
        by_cases hrow : rows (16 * nr.val) (tablesFor t.dataLimit) (d, 0)
        · exact Or.inr hrow
        · exact Or.inl (h.covered d q (by rw [← hon.table fun _ => hrow]; exact hd)))
      generalize hs₁ : ({ s with pages := m₂, fileTable := Fs.copyFiles t.files s.fileTable } : Machine).put nr
        (childOf t nr pid p) = s₁ at hsound
      have hpages : s₁.pages = m₂ := by rw [← hs₁]; rfl
      have htask : s₁.task = Function.update s.task nr (some (childOf t nr pid p)) := by rw [← hs₁]; rfl
      have hareas : s₁.areas = s.areas := by rw [← hs₁]; rfl
      obtain ⟨hs₂, htask₂, hpages₂⟩ := hsound.hold t.pwd
      obtain ⟨hs₃, htask₃, hpages₃⟩ := hs₂.hold t.root
      refine Or.inr ⟨(s₁.hold t.pwd).hold t.root, ?_, ⟨hs₃, ?_, ?_, ?_, ?_⟩, by omega⟩
      · rw [← hs₁, ← hold_put, ← hold_put]
        rfl
      · rw [hpages₃, hpages₂, hpages]
        exact hon
      · rw [hpages₃, hpages₂, hpages]
        intro x y hx hy he
        rw [hcopied rfl x y hx hy he, hon₁.walk h.counted id fun _ _ => id]
      · exact ⟨childOf t nr pid p, rfl, rfl, rfl, by rw [htask₃, htask₂, htask]⟩
      · rw [hold_areas, hold_areas, hareas]

end Fork

end Machine

end Devos.Mm
