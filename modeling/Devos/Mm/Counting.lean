import Devos.Mm.Steps

/-! `mem_map` counts the references in every run of processes, until a page fault finds the last page and no page
for its table. -/

namespace Devos.Mm

open Runs RefCount Longs Kernel Pages

/-- A machine runs from any state in which each page is counted as it is used, and no system call is running. -/
def machine : System Machine Event where
  init s := s.Sound ∧ s.pages.lost = [] ∧ ∀ c, s.areas c = []
  step := MachineStep

namespace Machine

/-- The machine when process 0 starts. -/
structure Booted (s : Machine) : Prop where
  memMap : ∀ p, s.pages.memMap p = 0
  directory : ∀ d < 1024, long s.pages.mem 0 d = if d < 2 then full (1 + d) else 0
  identity : ∀ d < 2, ∀ e < 1024, long s.pages.mem (1 + d) e = full (1024 * d + e)
  lost : s.pages.lost = []
  first : ∀ t, s.task 0 = some t → Placed 0 t
  alone : ∀ i, i ≠ 0 → s.task i = none
  pipes : ∀ k, (s.inode k).iPipe = false
  areas : ∀ c, s.areas c = []

section Boot

variable {s : Machine}

lemma Booted.table (h : Booted s) (d : Fin 1024) : s.pages.table d = none := by
  unfold Pages.table
  split_ifs with hd
  · have hzero : long s.pages.mem 0 d = 0 := by
      rw [h.directory d d.isLt, if_neg (by omega)]
    rw [link, hzero]
    rfl
  · rfl

lemma Booted.mapped (h : Booted s) (x : Place) : s.pages.mapped x = none := mapped_of_none (h.table x.1)

lemma Booted.owners (h : Booted s) (p : ℕ) : s.owners p = 0 := by
  have htask : ∀ i, s.taskPage i ≠ some p := by
    intro i
    unfold taskPage
    split_ifs with hi
    · simp
    · simp [h.alone i hi]
  have hpipe : ∀ k, s.pipePage k ≠ some p := by
    intro k
    simp [pipePage, h.pipes k]
  simp [Machine.owners, refs_eq_zero htask, refs_eq_zero hpipe, h.lost]

theorem Booted.init (h : Booted s) : machine.init s := by
  refine ⟨⟨⟨?_, ?_, ?_, ?_, ?_, ?_, ?_, ?_, ?_, ?_, h.identity⟩, ?_, ?_, fun k _ => h.pipes k⟩, h.lost, h.areas⟩
  · intro p _ _
    have hmapped : ∀ x, s.pages.mapped x ≠ some p := by simp [h.mapped]
    have htable : ∀ d, s.pages.table d ≠ some p := by simp [h.table]
    rw [h.memMap, refs_eq_zero hmapped, refs_eq_zero htable, h.owners]
  · simp [h.table]
  · simp [h.table]
  · simp [h.owners]
  · simp [h.owners]
  · simp [h.mapped]
  · simp [h.mapped]
  · simp [h.table]
  · intro d hd _
    rw [h.directory d d.isLt, if_neg (by omega)]
  · intro d hd
    exact h.directory d (by omega)
  · intro i t ht
    by_cases hi : i = 0
    · subst hi
      exact h.first t ht
    · rw [h.alone i hi] at ht
      cases ht
  · simp [h.table]

/-- A process of which nothing but the memory is of interest. -/
def plainTask (i : Fin 64) (page limit : ℕ) : Task :=
  ⟨page, i.val, 0, .alive, i.val * 0x4000000, limit, i.val * 0x4000000, limit, ⟨fun _ => none, fun _ => false, false, -1⟩,
    none, none⟩

lemma placed_plainTask {i : Fin 64} {page limit : ℕ} (hlimit : limit ≤ 0x4000000) (hi : i = 0 → limit = 0xA0000) :
    Placed i (plainTask i page limit) :=
  ⟨rfl, rfl, le_refl _, hlimit, hi⟩

/-- The words that `head.s` puts into the first three pages. -/
def bootWord (p i : ℕ) : ℕ :=
  if p = 0 then if i < 2 then full (1 + i) else 0 else if p < 3 then full (1024 * (p - 1) + i) else 0

def booted : Machine :=
  ⟨fun i => if i = 0 then some (plainTask i 0 0xA0000) else none, ⟨fun _ => 0, ofLongs bootWord, []⟩,
    fun _ => ⟨0, 0, 0, none, 0⟩, fun _ => ⟨0, false, 0⟩, fun _ => []⟩

lemma booted_booted : Booted booted := by
  have hword : ∀ p < 3, ∀ i < 1024, bootWord p i < 2 ^ 32 := by
    intro p hp i hi
    unfold bootWord full
    split_ifs <;> omega
  refine ⟨fun _ => rfl, ?_, ?_, rfl, ?_, fun _ hi => if_neg hi, fun _ => rfl, fun _ => rfl⟩
  · intro d hd
    have hlong := long_ofLongs (hword 0 (by decide) d hd)
    exact hlong.trans (if_pos rfl)
  · intro d hd e he
    have hlong := long_ofLongs (hword (1 + d) (by omega) e he)
    refine hlong.trans ?_
    rw [bootWord, if_neg (by omega), if_pos (by omega), Nat.add_sub_cancel_left]
  · intro t ht
    have hsome : some (plainTask 0 0 0xA0000) = some t := ht
    obtain rfl := Option.some.inj hsome
    exact placed_plainTask (by decide) fun _ => rfl

end Boot

section Runs

variable {s : Machine}

lemma Sound.exact (h : Sound s) (hlost : s.pages.lost = []) : Exact s := by
  intro p hlo hhi
  have hcount := h.counted.counts p hlo hhi
  have howners : s.owners p = refs s.taskPage p + refs s.pipePage p := by simp [owners, hlost]
  rw [hcount, howners, references]
  omega

/-- A page that something has forgotten makes the map wrong. -/
lemma Sound.not_exact {p : ℕ} (h : Sound s) (hlost : p ∈ s.pages.lost) : ¬Exact s := by
  intro hexact
  have hpos := List.count_pos_iff.mpr hlost
  obtain ⟨hlo, hhi⟩ := h.counted.own_range p (by unfold owners; omega)
  have hcount := h.counted.counts p hlo hhi
  rw [hexact p hlo hhi, references, owners] at hcount
  omega

lemma Sound.of_run (h : machine.Reach Tame s) : Sound s := by
  induction h with
  | start hinit => exact hinit.1
  | next _ hok hs ih => exact (ih.step hok hs).1

/-- What a run keeps in which no fault takes the last page for nothing. -/
lemma reach_sound (h : machine.Reach (fun s e => Tame s e ∧ ¬Losing s e) s) : Sound s ∧ s.pages.lost = [] := by
  induction h with
  | start hinit => exact ⟨hinit.1, hinit.2.1⟩
  | next _ hok hs ih =>
    obtain ⟨hsound, hlost⟩ := ih.1.step hok.1 hs
    refine ⟨hsound, ?_⟩
    rw [hlost.resolve_right hok.2]
    exact ih.2

/-- No page is handed out while in use, and each page that nothing refers to is free. -/
theorem counts_exact (h : machine.Reach (fun s e => Tame s e ∧ ¬Losing s e) s) :
    Exact s ∧ (∀ p m, s.pages.getFreePage = some (p, m) → s.references p = 0) ∧
      ∀ p, lowMem ≤ p → p < highMemory → s.references p = 0 → s.pages.memMap p = 0 := by
  obtain ⟨hsound, hlost⟩ := reach_sound h
  have hexact := hsound.exact hlost
  refine ⟨hexact, ?_, ?_⟩
  · intro p m hg
    obtain ⟨hlo, hhi, hzero, _⟩ := getFreePage_eq_some hg
    rw [← hexact p hlo hhi, hzero]
  · intro p hlo hhi hzero
    rw [hexact p hlo hhi, hzero]

end Runs

section Crowded

/-- The words of page `p` when process 1 has the pages 514 and 515 as tables of all pages above them. -/
def crowdedWord (p i : ℕ) : ℕ :=
  if p = 0 then if i < 2 then full (1 + i) else if 16 ≤ i ∧ i < 18 then full (498 + i) else 0
  else if p < 3 then full (1024 * (p - 1) + i)
  else if 514 ≤ p ∧ p < 516 ∧ 1024 * (p - 514) + i < 1532 then full (516 + (1024 * (p - 514) + i))
  else 0

def crowdedPages : Pages := ⟨fun p => if p = lowMem then 0 else 1, ofLongs crowdedWord, []⟩

/-- One page is free, number 512, and process 1 has its task structure in page 513. -/
def crowded : Machine :=
  ⟨fun i => if i.val = 0 then some (plainTask i 0 0xA0000) else if i.val = 1 then some (plainTask i 513 0x4000000) else none,
    crowdedPages, fun _ => ⟨0, 0, 0, none, 0⟩, fun _ => ⟨0, false, 0⟩, fun _ => []⟩

variable {d e : Fin 1024} {p i : ℕ} {x : Place}

lemma crowdedWord_lt (hp : p < 516) (hi : i < 1024) : crowdedWord p i < 2 ^ 32 := by
  unfold crowdedWord full
  split_ifs <;> omega

lemma long_crowded (hp : p < 516) (hi : i < 1024) : long crowdedPages.mem p i = crowdedWord p i :=
  long_ofLongs (crowdedWord_lt hp hi)

lemma link_crowded (hp : p < 516) (hi : i < 1024) : crowdedPages.link p i = target (crowdedWord p i) := by
  rw [link, long_crowded hp hi]
  rfl

lemma table_crowded (d : Fin 1024) :
    crowdedPages.table d = if 16 ≤ d.val ∧ d.val < 18 then some (498 + d.val) else none := by
  have hd := d.isLt
  rw [Pages.table, link_crowded (by omega) hd, crowdedWord, if_pos rfl]
  by_cases hlo : 16 ≤ d.val
  · rw [if_pos hlo, if_neg (by omega)]
    split_ifs
    · rw [target_full]
    · rfl
  · rw [if_neg hlo, if_neg fun h => hlo h.1]

lemma mapped_crowded (x : Place) :
    crowdedPages.mapped x = if 16 ≤ x.1.val ∧ 1024 * (x.1.val - 16) + x.2.val < 1532 then
      some (516 + (1024 * (x.1.val - 16) + x.2.val)) else none := by
  have hx := x.2.isLt
  rw [Pages.mapped, table_crowded]
  by_cases hd : 16 ≤ x.1.val ∧ x.1.val < 18
  · rw [if_pos hd, Option.bind_some, link_crowded (by omega) hx, crowdedWord, if_neg (by omega), if_neg (by omega)]
    have hsub : 498 + x.1.val - 514 = x.1.val - 16 := by omega
    rw [hsub]
    by_cases hlt : 1024 * (x.1.val - 16) + x.2.val < 1532
    · rw [if_pos ⟨by omega, by omega, hlt⟩, if_pos ⟨hd.1, hlt⟩, target_full]
    · rw [if_neg (by omega), if_neg (by omega)]
      rfl
  · rw [if_neg hd, if_neg (by omega)]
    rfl

lemma refs_mapped_crowded (p : ℕ) : refs crowdedPages.mapped p = if 516 ≤ p ∧ p < 2048 then 1 else 0 := by
  apply refs_of_iff (a := (Fin.ofNat 1024 (16 + (p - 516) / 1024), Fin.ofNat 1024 (p - 516)))
  intro x
  have hx := x.2.isLt
  rw [mapped_crowded, Prod.ext_iff, Fin.ext_iff, Fin.ext_iff, Fin.val_ofNat, Fin.val_ofNat]
  split_ifs with h
  · rw [Option.some.injEq]
    constructor <;> intro hp <;> omega
  · simp only [false_iff]
    omega

lemma refs_table_crowded (p : ℕ) : refs crowdedPages.table p = if 514 ≤ p ∧ p < 516 then 1 else 0 := by
  apply refs_of_iff (a := Fin.ofNat 1024 (p - 498))
  intro d
  rw [table_crowded, Fin.ext_iff, Fin.val_ofNat]
  split_ifs with h
  · rw [Option.some.injEq]
    constructor <;> intro hp <;> omega
  · simp only [false_iff]
    omega

lemma task_crowded_one : crowded.task 1 = some (plainTask 1 513 0x4000000) := rfl

lemma owners_crowded (p : ℕ) : crowded.owners p = if p = 513 then 1 else 0 := by
  have htask : refs crowded.taskPage p = if p = 513 then 1 else 0 := by
    apply refs_of_iff (a := 1)
    intro i
    unfold taskPage
    by_cases h₀ : i = 0
    · simp [h₀]
    · by_cases h₁ : i = 1
      · subst h₁
        simp [task_crowded_one, plainTask, eq_comm]
      · have hnone : crowded.task i = none := by
          have hi₀ : i.val ≠ 0 := fun h => h₀ (Fin.ext h)
          have hi₁ : i.val ≠ 1 := fun h => h₁ (Fin.ext h)
          change (if i.val = 0 then _ else if i.val = 1 then _ else none) = none
          rw [if_neg hi₀, if_neg hi₁]
        simp [h₀, h₁, hnone]
  have hpipe : refs crowded.pipePage p = 0 := refs_eq_zero (by simp [pipePage, crowded])
  rw [owners, htask, hpipe]
  rfl

lemma task_crowded {i : Fin 64} {t : Task} (ht : crowded.task i = some t) :
    i = 0 ∧ t = plainTask 0 0 0xA0000 ∨ i = 1 ∧ t = plainTask 1 513 0x4000000 := by
  change (if i.val = 0 then _ else if i.val = 1 then _ else none) = some t at ht
  split_ifs at ht with h₀ h₁
  · obtain rfl : i = 0 := Fin.ext h₀
    exact Or.inl ⟨rfl, (Option.some.inj ht).symm⟩
  · obtain rfl : i = 1 := Fin.ext h₁
    exact Or.inr ⟨rfl, (Option.some.inj ht).symm⟩

lemma counted_crowded : Counted crowded.owners crowdedPages := by
  refine ⟨?_, ?_, ?_, ?_, ?_, ?_, ?_, ?_, ?_, ?_, ?_⟩
  · intro p hlo hhi
    rw [refs_mapped_crowded, refs_table_crowded, owners_crowded]
    change (if p = lowMem then 0 else 1) = _
    dsimp only [lowMem, highMemory] at hlo hhi ⊢
    split_ifs <;> omega
  · intro d t ht
    rw [table_crowded] at ht
    split_ifs at ht with hd
    obtain rfl := Option.some.inj ht
    dsimp only [lowMem, highMemory]
    omega
  · intro d t ht
    rw [table_crowded] at ht
    split_ifs at ht with hd
    obtain rfl := Option.some.inj ht
    exact if_neg (by dsimp only [lowMem]; omega)
  · intro p hp
    rw [owners_crowded] at hp
    split_ifs at hp with h
    · rw [h]
      decide
    · exact absurd rfl hp
  · intro p hp
    rw [owners_crowded] at hp
    split_ifs at hp with h
    · rw [h]
      decide
    · exact absurd rfl hp
  · intro x p hx
    rw [mapped_crowded] at hx
    split_ifs at hx with h
    obtain rfl := Option.some.inj hx
    dsimp only [highMemory]
    omega
  · intro x y p _ hx hy
    have hx₂ := x.2.isLt
    have hy₂ := y.2.isLt
    rw [mapped_crowded] at hx hy
    split_ifs at hx hy with h h'
    obtain rfl := Option.some.inj hx
    have heq := Option.some.inj hy
    exact ⟨by omega, Fin.ext (by omega)⟩
  · intro x t p ht hp _
    have hmap : crowdedPages.mapped x = some p := mapped_eq_some.mpr ⟨t, ht, hp⟩
    rw [mapped_crowded] at hmap
    split_ifs at hmap with h
    obtain rfl := Option.some.inj hmap
    refine ⟨by dsimp only [lowMem]; omega, if_neg (by dsimp only [lowMem]; omega)⟩
  · intro d hd hnone
    rw [table_crowded] at hnone
    split_ifs at hnone with h
    rw [long_crowded (by decide) d.isLt, crowdedWord, if_pos rfl, if_neg (by omega), if_neg (by omega)]
  · intro d hd
    rw [long_crowded (by decide) (by omega), crowdedWord, if_pos rfl]
    split_ifs
    · rfl
    · omega
    · rfl
  · intro d hd e he
    rw [long_crowded (by omega) he, crowdedWord, if_neg (by omega), if_pos (by omega), Nat.add_sub_cancel_left]

lemma init_crowded : machine.init crowded := by
  refine ⟨⟨counted_crowded, ?_, ?_, fun _ _ => rfl⟩, rfl, fun _ => rfl⟩
  · intro i t ht
    rcases task_crowded ht with ⟨rfl, rfl⟩ | ⟨rfl, rfl⟩
    · exact placed_plainTask (by decide) fun _ => rfl
    · exact placed_plainTask (le_refl _) (by decide)
  · intro d p hd
    have htable : crowdedPages.table d = some p := hd
    rw [table_crowded] at htable
    split_ifs at htable with h
    refine ⟨1, _, task_crowded_one, rfl, h.1, ?_⟩
    have htables : tablesFor 0x4000000 = 16 := by decide
    change d.val < 16 + tablesFor 0x4000000
    omega

lemma free_crowded : crowded.pages.free = 1 := by
  have hfree : ∀ n, Nat.count (fun i => crowdedPages.memMap (lowMem + i) = 0) (n + 1) = 1 := by
    intro n
    induction n with
    | zero => rfl
    | succ n ih =>
      rw [Nat.count_succ, ih, if_neg]
      intro h
      have hne : lowMem + (n + 1) ≠ lowMem := by omega
      have hone : crowdedPages.memMap (lowMem + (n + 1)) = 1 := if_neg hne
      rw [hone] at h
      cases h
  exact hfree _

theorem counts_exact_pipe : Exact (crowded.sysPipe 1 (plainTask 1 513 0x4000000) 0) := by
  have hok : Tame crowded (.pipe 1 0) ∧ ¬Losing crowded (.pipe 1 0) := ⟨trivial, id⟩
  exact (counts_exact (.next (.start init_crowded) hok (MachineStep.pipe task_crowded_one rfl rfl))).1

/-- Process 1 reads at 8 MB, where it has no page table, and the last page is neither used nor free again. -/
theorem last_page_lost : ¬∀ s, machine.Reach Tame s → Exact s := by
  intro hall
  have hsound := init_crowded.1
  have hplaced := hsound.placed 1 _ task_crowded_one
  have ha : 8388608 < (plainTask 1 513 0x4000000).dataLimit := by
    dsimp only [plainTask]
    omega
  have hdir := (hplaced.row_place ha).1
  have hval : ((plainTask 1 513 0x4000000).place 8388608).1.val = 18 := hdir
  generalize hx : (plainTask 1 513 0x4000000).place 8388608 = x at hval
  have htable : crowdedPages.table x.1 = none := by
    rw [table_crowded, if_neg (by omega)]
  have hmapped : crowdedPages.mapped x = none := mapped_of_none htable
  have hwalk : crowded.pages.walk x = none := (walk_eq_mapped (by omega)).trans hmapped
  rcases counted_crowded.doNoPage (d := x.1) (e := x.2) (by omega) hmapped with
    ⟨m, hrun, _⟩ | ⟨_, hfree⟩ | ⟨m, p, hrun, _, _, _, hc, hon⟩
  · have hlost := doNoPage_lost (e := x.2) (by omega) free_crowded htable
    have htrue : (crowdedPages.doNoPage x.1 x.2).2 = true := congrArg Prod.snd hrun
    cases htrue.symm.trans hlost
  · cases free_crowded.symm.trans hfree
  · have hlose := hsound.lose hc hon
    obtain ⟨s', hexit⟩ := hlose.beginExit_returns (c := 1) (t := plainTask 1 513 0x4000000) task_crowded_one (by decide)
    obtain ⟨hs', hon', _⟩ := hlose.beginExit (c := 1) task_crowded_one hexit
    have hreach : machine.Reach Tame s' := by
      have htame : Tame crowded (.noPage 1 8388608) := trivial
      refine .next (.start init_crowded) htame ?_
      refine MachineStep.noPage (t := plainTask 1 513 0x4000000) task_crowded_one rfl ha ?_ ?_
      · rw [hx]
        exact hwalk
      · have hresult : crowded.pages.doNoPage x.1 x.2 = _ := hrun
        rw [hx, hresult, settle, if_neg Bool.false_ne_true]
        exact hexit
    have hmem : p ∈ s'.pages.lost := by
      rw [hon'.lost]
      exact List.mem_cons_self
    exact hs'.not_exact hmem (hall s' hreach)

end Crowded

end Machine

end Devos.Mm
